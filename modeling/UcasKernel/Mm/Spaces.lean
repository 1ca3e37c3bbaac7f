/-
The address spaces of the processes.

`Spaces` says that the page directories in use are those of the processes, and that
every entry of the third level is zero or maps a page that was handed out for one.  The
parameter `A` allows that `NULL` is mapped as well.  There is one lemma for each thing
that the memory manager does to the tables; each says which entries change.
-/
import UcasKernel.Mm.Directories
import UcasKernel.Mm.Shared

namespace UcasKernel
namespace Mm

/-- A frame that may be mapped: a page of a process, or `NULL`. -/
def Mapped (A : Prop) (role : ℕ → Role) (f : ℕ) : Prop := role f = .page ∨ A ∧ f = 0

/-- An entry of the third level: zero, or the entry of a frame that may be mapped. -/
def MapsPage (A : Prop) (role : ℕ → Role) (pte : ℕ) : Prop :=
  pte = 0 ∨ ∃ f bits, pte = entry f bits ∧ bits < 2 ^ 10 ∧ Mapped A role f

/-- The page directories are `spaces`, and their own entries map pages of processes. -/
structure Spaces (A : Prop) (m : Memory) (spaces : Finset ℕ) (role : ℕ → Role) (e : ℕ) : Prop where
  tables : Tables m role e
  dir : ∀ d, d ∈ spaces ↔ role d = .dir
  leaf : ∀ d ∈ spaces, ∀ q : Vpns, Own q.1 → MapsPage A role (m.leaf d q)
  /-- The directory that is copied has none of the entries that a process may have. -/
  kernel : ∀ i, Own i → m.mem PGDIR_VA i = 0

/-- The page is handed out. -/
def Memory.Allocated (m : Memory) (f : ℕ) : Prop :=
  Memory.IsPage f ∧ ∃ l e, m.FreeList l e ∧ ¬ Memory.Free l e f

/-- What the kernel and the processes were given stays theirs. -/
def Stays (role role' : ℕ → Role) : Prop :=
  ∀ f, role f = .page ∨ role f = .kernel → role' f = role f

/-- Every page that was mapped is mapped, with the attributes as may be. -/
def SameFrames (spaces : Finset ℕ) (m m' : Memory) : Prop :=
  ∀ d ∈ spaces, ∀ q : Vpns, Own q.1 → m.leaf d q ≠ 0 →
    m'.leaf d q ≠ 0 ∧ frameOf (m'.leaf d q) = frameOf (m.leaf d q)

/-- No page is mapped that was not. -/
def NoneNew (spaces : Finset ℕ) (m m' : Memory) : Prop :=
  ∀ d ∈ spaces, ∀ q : Vpns, Own q.1 → m'.leaf d q ≠ 0 → m.leaf d q ≠ 0

open Memory

variable {m m' : Memory} {spaces spaces' : Finset ℕ} {role role' : ℕ → Role}
  {e e' f d p kva uva pgdir v : ℕ} {i : Fin 512} {q : Vpns} {r : Role} {A : Prop}

/-! ## What `get_kva_of_uva` reads -/

/-- Clearing the low bits of a word. -/
lemma and_highMask {x k : ℕ} (hx : x < 2 ^ 64) (hk : k ≤ 64) :
    x &&& (2 ^ 64 - 2 ^ k) = x / 2 ^ k * 2 ^ k := by
  have hlt : 2 ^ k - 1 < 2 ^ 64 := by
    have := Nat.pow_le_pow_right (show 0 < 2 by decide) hk
    have := Nat.one_le_two_pow (n := k)
    omega
  have hmask : 2 ^ 64 - 2 ^ k = 2 ^ 64 - (2 ^ k - 1 + 1) := by
    rw [Nat.sub_add_cancel Nat.one_le_two_pow]
  have hdiv : x / 2 ^ k * 2 ^ k = x >>> k <<< k := by
    rw [Nat.shiftRight_eq_div_pow, Nat.shiftLeft_eq]
  rw [hdiv, hmask]
  refine Nat.eq_of_testBit_eq fun i => ?_
  rw [Nat.testBit_and, Nat.testBit_two_pow_sub_succ hlt, Nat.testBit_two_pow_sub_one,
    Nat.testBit_shiftLeft, Nat.testBit_shiftRight]
  by_cases hi : k ≤ i
  · rw [Nat.add_sub_cancel' hi]
    by_cases hi' : i < 64
    · simp [hi, hi', not_lt.2 hi]
    · rw [Nat.testBit_lt_two_pow (hx.trans_le (Nat.pow_le_pow_right (by decide) (not_lt.1 hi')))]
      simp
  · simp [hi, not_le.1 hi]

/-- Masking the offset of a word. -/
lemma and_pageMask {x : ℕ} (hx : x < 2 ^ 64) : x &&& PAGE_MASK = x / 4096 * 4096 :=
  and_highMask (k := 12) hx (by decide)

/-- The page of an address is in the same entry of the page directory. -/
lemma vpn2_and_pageMask : vpn2 (uva &&& PAGE_MASK) = vpn2 uva := by
  have hmask : PAGE_MASK = 2 ^ 64 - (2 ^ 12 - 1 + 1) := rfl
  have h : (uva &&& PAGE_MASK &&& VA_MASK) >>> 30 = (uva &&& VA_MASK) >>> 30 := by
    refine Nat.eq_of_testBit_eq fun i => ?_
    simp only [Nat.testBit_shiftRight, Nat.testBit_and, VA_MASK, Nat.testBit_two_pow_sub_one, hmask,
      Nat.testBit_two_pow_sub_succ (show 2 ^ 12 - 1 < 2 ^ 64 by decide)]
    by_cases hi : 30 + i < 39
    · simp [hi, show 30 + i < 64 by omega, show 12 ≤ 30 + i by omega]
    · simp [hi]
  rw [vpn2, vpn2, h]

lemma pa2kva_add {n r f : ℕ} (h : pa2kva (n * 4096) = f) (hr : r < 4096) :
    pa2kva (n * 4096 + r) = f + r := by
  subst h
  simp only [pa2kva, KERNEL_VM_OFFSET]
  omega

/-- What `get_kva_of_uva` returns for an entry. -/
lemma getKvaOfUva_of_entry {bits : ℕ} (hleaf : m.leaf pgdir (vpns uva) = entry f bits)
    (hf : IsFrame f) (hne : entry f bits ≠ 0) (hbits : bits < 2 ^ 10) :
    m.getKvaOfUva uva pgdir = f + uva % 4096 := by
  obtain ⟨n, hn, -, hkva, he⟩ := entry_eq hf hbits
  have hgetPa : getPa (entry f bits) = n * 4096 := by
    rw [getPa, he, PTE_PPN_AND_ATTR_MASK, Nat.and_two_pow_sub_one_eq_mod,
      Nat.shiftRight_eq_div_pow, Nat.shiftLeft_eq]
    omega
  have hlt : uva % 4096 < 2 ^ 12 := Nat.mod_lt _ (by decide)
  have hor : n * 4096 ||| uva % 4096 = n * 4096 + uva % 4096 := by
    have hshift : n * 4096 = n <<< 12 := (Nat.shiftLeft_eq n 12).symm
    rw [hshift, Nat.shiftLeft_add_eq_or_of_lt hlt]
  rw [getKvaOfUva_eq, if_neg (by rwa [hleaf]), hleaf, hgetPa, Nat.and_two_pow_sub_one_eq_mod]
  exact (congrArg pa2kva hor).trans (pa2kva_add hkva hlt)

lemma getKvaOfUva_of_leaf {bits : ℕ} (hleaf : m.leaf pgdir (vpns uva) = entry f bits) (hf : IsFrame f)
    (hne : f ≠ KERNEL_VM_OFFSET) (hbits : bits < 2 ^ 10) :
    m.getKvaOfUva uva pgdir = f + uva % 4096 :=
  getKvaOfUva_of_entry hleaf hf (entry_ne_zero hf hbits hne) hbits

/-- `kva &= ~((1 << NORMAL_PAGE_SHIFT) - 1)` leaves the frame. -/
lemma getKvaOfUva_and_mask {bits : ℕ} (hleaf : m.leaf pgdir (vpns uva) = entry f bits) (hf : IsFrame f)
    (hne : f ≠ KERNEL_VM_OFFSET) (hbits : bits < 2 ^ 10) :
    m.getKvaOfUva uva pgdir &&& PAGE_MASK = f := by
  have hlt : f < 2 ^ 64 := by
    rcases hf.2 with rfl | h
    · decide
    · exact h.2
  have hr : uva % 4096 < 4096 := Nat.mod_lt _ (by decide)
  have halign : f % 4096 = 0 := hf.1
  rw [getKvaOfUva_of_leaf hleaf hf hne hbits]
  clear hne hf hleaf
  rw [and_pageMask] <;> omega

/-! ## The invariant -/

lemma MapsPage.mono {pte : ℕ} (h : MapsPage A role pte)
    (hpage : ∀ f, role f = .page → role' f = .page) : MapsPage A role' pte :=
  h.imp_right fun ⟨f, bits, heq, hbits, hf⟩ => ⟨f, bits, heq, hbits, hf.imp_left (hpage f)⟩

lemma Stays.refl (role : ℕ → Role) : Stays role role := fun _ _ => rfl

lemma Stays.of_keep (h : ∀ f, role f ≠ .free → role' f = role f) : Stays role role' := by
  intro f hf
  refine h f ?_
  rcases hf with hf | hf <;> simp [hf]

lemma Stays.page (h : Stays role role') (hf : role f = .page) : role' f = .page := by
  rw [h f (Or.inl hf), hf]

lemma Mapped.mono (h : Stays role role') (hf : Mapped A role f) : Mapped A role' f :=
  hf.imp_left h.page

lemma SameLeaves.sameFrames (h : SameLeaves spaces m m') : SameFrames spaces m m' := by
  intro d hd q hq hne
  rw [h d hd q hq]
  exact ⟨hne, rfl⟩

/-- Nothing was mapped where the entry has changed. -/
lemma SameBut.sameFrames (h : SameBut spaces d q m m') (hz : m.leaf d q = 0) :
    SameFrames spaces m m' := by
  intro d' hd' q' hq' hne
  rw [h d' hd' q' hq']
  · exact ⟨hne, rfl⟩
  · rintro heq
    rw [Prod.mk.injEq] at heq
    obtain ⟨rfl, rfl⟩ := heq
    exact hne hz

lemma SameFrames.trans {m'' : Memory} (h : SameFrames spaces m m') (h' : SameFrames spaces m' m'') :
    SameFrames spaces m m'' := by
  intro d hd q hq hne
  obtain ⟨hne', hframe⟩ := h d hd q hq hne
  obtain ⟨hne'', hframe'⟩ := h' d hd q hq hne'
  exact ⟨hne'', hframe'.trans hframe⟩

lemma NoneNew.trans {m'' : Memory} (h : NoneNew spaces m m') (h' : NoneNew spaces m' m'') :
    NoneNew spaces m m'' :=
  fun d hd q hq hne => h d hd q hq (h' d hd q hq hne)

namespace Tables

lemma allocated (h : Tables m role e) (hk : role f ≠ .kernel) (hf : role f ≠ .free) :
    m.Allocated f := by
  obtain ⟨l, hl, hiff⟩ := h.list
  have hp := h.isPage f hk
  exact ⟨hp, l, e, hl, fun hfree => hf ((hiff f hp).2 hfree)⟩

end Tables

namespace Spaces

variable (h : Spaces A m spaces role e)
include h

lemma directories : Directories m spaces role e := ⟨h.tables, h.dir, h.kernel⟩

lemma isFrame (hf : Mapped A role f) : IsFrame f ∧ f ≠ KERNEL_VM_OFFSET := by
  rcases hf with hf | ⟨-, rfl⟩
  · obtain ⟨hframe, hlt⟩ := h.tables.isFrame (f := f) (by simp [hf]) (by simp [hf])
    exact ⟨hframe, hlt.ne'⟩
  · exact ⟨isFrame_zero, by decide⟩

lemma ne_zero (hf : role f = .page) : f ≠ 0 := by
  have := (h.tables.isFrame (f := f) (by simp [hf]) (by simp [hf])).2
  rintro rfl
  simp [KERNEL_VM_OFFSET] at this

lemma entry_ne_zero (hf : Mapped A role f) {bits : ℕ} (hbits : bits < 2 ^ 10) : entry f bits ≠ 0 :=
  Mm.entry_ne_zero (h.isFrame hf).1 hbits (h.isFrame hf).2

lemma frameOf_entry (hf : Mapped A role f) {bits : ℕ} (hbits : bits < 2 ^ 10) :
    frameOf (entry f bits) = f :=
  Mm.frameOf_entry (h.isFrame hf).1 hbits

/-- An entry that is not zero, read back. -/
lemma frame (hd : d ∈ spaces) (hq : Own q.1) (hne : m.leaf d q ≠ 0) :
    ∃ bits, m.leaf d q = entry (frameOf (m.leaf d q)) bits ∧ bits < 2 ^ 10 ∧
      Mapped A role (frameOf (m.leaf d q)) := by
  obtain ⟨f, bits, heq, hbits, hf⟩ := (h.leaf d hd q hq).resolve_left hne
  rw [heq, h.frameOf_entry hf hbits]
  exact ⟨bits, rfl, hbits, hf⟩

lemma role_dir (hd : d ∈ spaces) : role d = .dir := (h.dir d).1 hd

/-- What happens to tables and free pages only, and leaves the entries of the third level. -/
lemma of_sameLeaves (hd : Directories m' spaces' role' e')
    (hpage : ∀ f, role f = .page → role' f = .page) (hsub : spaces' ⊆ spaces)
    (hleaf : SameLeaves spaces' m m') : Spaces A m' spaces' role' e' where
  tables := hd.tables
  dir := hd.dir
  leaf := fun d hd q hq => by
    rw [hleaf d hd q hq]
    exact (h.leaf d (hsub hd) q hq).mono hpage
  kernel := hd.kernel

/-! ## Pages -/

/-- The kernel takes a page, for itself or for a process. -/
lemma kalloc (hr : r ≠ .free) (hdir : r ≠ .dir) (hk : m.kalloc = some (p, m')) :
    ∃ e', Spaces A m' spaces (Function.update role p r) e' ∧ role p = .free ∧
      (∀ f, role f ≠ .free → Function.update role p r f = role f) ∧ SameLeaves spaces m m' ∧
      e' ≤ e + PAGE_SIZE := by
  obtain ⟨e', hd, hfree, -, -, hleaf, hle⟩ := h.directories.kalloc hr hdir hk
  refine ⟨e', h.of_sameLeaves hd (fun f hf => ?_) subset_rfl hleaf, hfree,
    fun f => update_of_not_free hfree, hleaf, hle⟩
  rw [update_of_not_free hfree (by simp [hf]), hf]

/-- The page of a new page directory. -/
lemma newPgdir (hk : m.kalloc = some (p, m')) :
    ∃ e', Spaces A m' (insert p spaces) (Function.update role p .dir) e' ∧ role p = .free ∧
      (∀ f, role f ≠ .free → Function.update role p .dir f = role f) ∧ SameLeaves spaces m m' ∧
      e' ≤ e + PAGE_SIZE := by
  obtain ⟨e', hdirs, hfree, hzero, -, hleaf, hle⟩ := h.directories.newPgdir hk
  refine ⟨e', ⟨hdirs.tables, hdirs.dir, fun d hd q hq => ?_, hdirs.kernel⟩, hfree,
    fun f => update_of_not_free hfree, hleaf, hle⟩
  rcases Finset.mem_insert.1 hd with rfl | hd
  · exact Or.inl (hzero q)
  · rw [hleaf d hd q hq]
    exact (h.leaf d hd q hq).mono fun f hf => by
      rw [update_of_not_free hfree (by simp [hf]), hf]

lemma sharePgtable (hd : pgdir ∈ spaces) :
    Spaces A (m.sharePgtable pgdir PGDIR_VA) spaces role e ∧
      SameLeaves spaces m (m.sharePgtable pgdir PGDIR_VA) := by
  obtain ⟨hdirs, hleaf, -⟩ := h.directories.sharePgtable hd
  exact ⟨h.of_sameLeaves hdirs (fun _ => id) subset_rfl hleaf, hleaf⟩

/-- The kernel writes to a page of a process, or to one of its own that is not the directory
that is copied. -/
lemma write (hf : role f = .page ∨ role f = .kernel ∧ f ≠ PGDIR_VA)
    (hlist : m'.freememList = m.freememList) (hmem : ∀ g, g ≠ f → m'.mem g = m.mem g) :
    Spaces A m' spaces role e ∧ SameLeaves spaces m m' := by
  obtain ⟨hdirs, hleaf⟩ := h.directories.write hf hlist hmem
  exact ⟨h.of_sameLeaves hdirs (fun _ => id) subset_rfl hleaf, hleaf⟩

/-- A process stores a word in a page. -/
lemma store (hf : Mapped A role f) (i : Fin 512) (v : ℕ) :
    Spaces A (m.store f i v) spaces role e ∧ SameLeaves spaces m (m.store f i v) := by
  refine h.write (hf.imp_right ?_) rfl fun g hg => store_of_ne hg
  rintro ⟨-, rfl⟩
  refine ⟨?_, by decide⟩
  by_contra hne
  exact absurd (h.tables.isPage 0 hne).2 (by decide)

/-! ## Entries -/

/-- `map_uva_to_kva` of a page. -/
lemma mapUvaToKva (hd : pgdir ∈ spaces) (ho : Own (vpn2 uva)) (hkva : Mapped A role kva)
    (hm : m.mapUvaToKva uva kva pgdir = some m') :
    ∃ role' e', Spaces A m' spaces role' e' ∧ (∀ f, role f ≠ .free → role' f = role f) ∧
      m'.leaf pgdir (vpns uva) = entry kva PAGE_ALL ∧ SameBut spaces pgdir (vpns uva) m m' ∧
      e' ≤ e + 2 * PAGE_SIZE := by
  obtain ⟨role', e', hdirs, hg, hself, hsame, -, hle⟩ := h.directories.mapUvaToKva hd ho hm
  refine ⟨role', e', ⟨hdirs.tables, hdirs.dir, fun d hd' q hq => ?_, hdirs.kernel⟩, hg.keep, hself,
    hsame, hle⟩
  by_cases hdq : (d, q) = (pgdir, vpns uva)
  · rw [Prod.mk.injEq] at hdq
    obtain ⟨rfl, rfl⟩ := hdq
    rw [hself]
    exact Or.inr ⟨kva, PAGE_ALL, rfl, by decide,
      hkva.imp_left fun hk => by rw [hg.keep kva (by simp [hk]), hk]⟩
  · rw [hsame d hd' q hq hdq]
    exact (h.leaf d hd' q hq).mono fun f hf => by rw [hg.keep f (by simp [hf]), hf]

/-- A change of one entry. -/
lemma modifyPte {f : ℕ → ℕ} (hd : pgdir ∈ spaces) (ho : Own (vpn2 uva))
    (hf : MapsPage A role (f (m.leaf pgdir (vpns uva)))) (hm : m.modifyPte uva pgdir f = some m') :
    m.leaf pgdir (vpns uva) ≠ 0 ∧ Spaces A m' spaces role e ∧
      m'.leaf pgdir (vpns uva) = f (m.leaf pgdir (vpns uva)) ∧
      SameBut spaces pgdir (vpns uva) m m' := by
  obtain ⟨hne, hdirs, hself, hsame, -⟩ := h.directories.modifyPte hd ho hm
  refine ⟨hne, ⟨hdirs.tables, hdirs.dir, fun d hd' q hq => ?_, hdirs.kernel⟩, hself, hsame⟩
  by_cases hdq : (d, q) = (pgdir, vpns uva)
  · rw [Prod.mk.injEq] at hdq
    obtain ⟨rfl, rfl⟩ := hdq
    rw [hself]
    exact hf
  · rw [hsame d hd' q hq hdq]
    exact h.leaf d hd' q hq

/-- A change of the attributes of one entry. -/
lemma modifyAttributes {f : ℕ → ℕ} (hd : pgdir ∈ spaces) (ho : Own (vpn2 uva))
    (hf : ∀ y bits, IsFrame y → bits < 2 ^ 10 → ∃ bits' < 2 ^ 10, f (entry y bits) = entry y bits')
    (hm : m.modifyPte uva pgdir f = some m') :
    Spaces A m' spaces role e ∧ SameFrames spaces m m' ∧ NoneNew spaces m m' := by
  by_cases hz : m.leaf pgdir (vpns uva) = 0
  · rw [modifyPte_eq, if_pos hz] at hm
    cases hm
  obtain ⟨y, bits, hleaf, hbits, hy⟩ := (h.leaf pgdir hd (vpns uva) ho).resolve_left hz
  obtain ⟨bits', hbits', hfy⟩ := hf y bits (h.isFrame hy).1 hbits
  rw [← hleaf] at hfy
  obtain ⟨-, hs, hself, hsame⟩ := h.modifyPte hd ho (Or.inr ⟨y, bits', hfy, hbits', hy⟩) hm
  refine ⟨hs, fun d' hd' q' hq' hne => ?_, fun d' hd' q' hq' hne => ?_⟩ <;>
    by_cases hdq : (d', q') = (pgdir, vpns uva)
  · rw [Prod.mk.injEq] at hdq
    obtain ⟨rfl, rfl⟩ := hdq
    rw [hself, hfy, hleaf, h.frameOf_entry hy hbits', h.frameOf_entry hy hbits]
    exact ⟨h.entry_ne_zero hy hbits', rfl⟩
  · rw [hsame d' hd' q' hq' hdq]
    exact ⟨hne, rfl⟩
  · rw [Prod.mk.injEq] at hdq
    obtain ⟨rfl, rfl⟩ := hdq
    exact hz
  · rwa [hsame d' hd' q' hq' hdq] at hne

end Spaces

/-- `alloc_page_helper` maps a page that was free. -/
lemma Spaces.allocPageHelper {s t : State} {q' : Queue → List Pfn}
    (h : Spaces A s.toMemory spaces role e) (hb : s.Book q') (hq : q' .swappedPagesQueue = [])
    (hd : pgdir ∈ spaces) (ho : Own (vpn2 uva))
    (hs : s.allocPageHelper MAX_PRESENT_PFN uva pgdir = some (kva, t)) :
    (∃ q'', t.Book q'' ∧ q'' .swappedPagesQueue = []) ∧ t.sharePages = s.sharePages ∧
      role kva = .free ∧ ∃ role' e', Spaces A t.toMemory spaces role' e' ∧
        (∀ f, role f ≠ .free → role' f = role f) ∧ role' kva = .page ∧
        t.leaf pgdir (vpns uva) = entry kva PAGE_ALL ∧
        SameBut spaces pgdir (vpns uva) s.toMemory t.toMemory ∧ e' ≤ e + 3 * PAGE_SIZE := by
  obtain ⟨m, m', r, L, hk, hm, rfl, hbook⟩ := hb.allocPageHelper_spec hs
  obtain ⟨e₁, h₁, hfree, hkeep₁, hleaf₁, hle₁⟩ := h.kalloc (r := .page) (by simp) (by simp) hk
  have hkva : Function.update role kva .page kva = .page := Function.update_self ..
  obtain ⟨role₂, e₂, h₂, hkeep₂, hself, hsame, hle₂⟩ := h₁.mapUvaToKva hd ho (Or.inl hkva) hm
  refine ⟨⟨_, hbook, ?_⟩, rfl, hfree, role₂, e₂, h₂, fun f hf => ?_, ?_, hself,
    fun d hd q hq hne => ?_, by omega⟩
  · rw [Links.appendTo_of_ne (by decide), hq]
  · rw [hkeep₂ f (by rwa [hkeep₁ f hf]), hkeep₁ f hf]
  · rw [hkeep₂ kva (by simp), hkva]
  · rw [hsame d hd q hq hne, hleaf₁ d hd q hq]

/-- The page that `alloc_page_helper` maps holds zeros; the pages of the processes are the same. -/
lemma Spaces.allocPageHelper_mem {s t : State} {q' : Queue → List Pfn}
    (h : Spaces A s.toMemory spaces role e) (hb : s.Book q') (hd : pgdir ∈ spaces)
    (ho : Own (vpn2 uva)) (hs : s.allocPageHelper MAX_PRESENT_PFN uva pgdir = some (kva, t)) :
    t.mem kva = (fun _ => 0) ∧ ∀ g, role g = .page → t.mem g = s.mem g := by
  obtain ⟨m, m', r, L, hk, hm, rfl, -⟩ := hb.allocPageHelper_spec hs
  obtain ⟨e₁, hdirs, hfree, hzero, hmem, -⟩ :=
    h.directories.kalloc (r := .page) (by simp) (by simp) hk
  obtain ⟨-, -, -, -, -, -, hmap, -⟩ := hdirs.mapUvaToKva hd ho hm
  refine ⟨(hmap kva (Or.inl (Function.update_self ..))).trans hzero, fun g hg => ?_⟩
  show m'.mem g = s.mem g
  rw [hmap g (Or.inl (by rw [update_of_not_free hfree (by simp [hg]), hg])), hmem g (by simp [hg])]

end Mm
end UcasKernel
