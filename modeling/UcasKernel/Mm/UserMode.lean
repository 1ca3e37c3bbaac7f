/-
The memory that a process has, as its own instructions see it.

The processor translates every address by the page tables that the kernel keeps, and sets the
bits of the leaf.  Where it cannot, there is a page fault: the kernel handles it, and the
instruction is made again.  To the processes all of this is nothing but memory: every one of
them has words of its own, which are zero at first and then what it stored last.
-/
import UcasKernel.Lib.Sv39
import UcasKernel.Mm.Private
import UcasKernel.Mm.UserBytes

namespace UcasKernel
namespace Mm

open Sv39 (Access userMode)

namespace Memory

/-- The word at a physical address, and a store to it. -/
def phys (m : Memory) (pa : ℕ) : ℕ := m.word (pa2kva pa)

def storePhys (m : Memory) (pa v : ℕ) : Memory := m.storeWord (pa2kva pa) v

/-- An access in user mode, with the page directory at `pgdir`: the memory, and what has been
read.  `none` is a page fault. -/
def perform (m : Memory) (pgdir va : ℕ) (a : Access) (v : ℕ) : Option (Memory × List ℕ) := do
  let t ← Sv39.translate m.phys (kva2pa pgdir) userMode a va
  let m := m.storePhys t.entry t.pte
  if a = .store then some (m.storePhys t.pa v, []) else some (m, [m.phys t.pa])

end Memory

open Memory

variable {m m' : Memory} {spaces : Finset ℕ} {role : ℕ → Role} {e : ℕ} {q : Queue → List Pfn}
  {w : UserPage → Place} {s t : State} {f bits va pgdir v pte : ℕ} {i : Fin 512} {a : Access}
  {vs : List ℕ}

/-! ## Entries and the hardware -/

lemma pa2kva_kva2pa_add (hf : IsFrame f) {x : ℕ} (hx : x < PAGE_SIZE) :
    pa2kva (kva2pa f + x) = f + x := by
  have h := hf.2
  have halign := hf.1
  simp only [kva2pa, pa2kva, KERNEL_VM_OFFSET, PAGE_SIZE] at h hx halign ⊢
  omega

lemma Memory.phys_add (m : Memory) (hf : IsFrame f) {x : ℕ} (hx : x < PAGE_SIZE) :
    m.phys (kva2pa f + x) = m.mem f (wordOf x) := by
  have hword : wordOf (f + x) = wordOf x := by
    have hf := hf.1
    refine Fin.ext ?_
    simp only [wordOf_val, PAGE_SIZE] at *
    omega
  rw [phys, pa2kva_kva2pa_add hf hx, word, pageOf_add hf.1 hx, hword]

lemma Memory.storePhys_add (m : Memory) (hf : IsFrame f) {x : ℕ} (hx : x < PAGE_SIZE) (v : ℕ) :
    m.storePhys (kva2pa f + x) v = m.store f (wordOf x) v := by
  have hword : wordOf (f + x) = wordOf x := by
    have hf := hf.1
    refine Fin.ext ?_
    simp only [wordOf_val, PAGE_SIZE] at *
    omega
  rw [storePhys, pa2kva_kva2pa_add hf hx, storeWord, pageOf_add hf.1 hx, hword]

lemma wordOf_mul_eight (i : Fin 512) : wordOf (i.val * 8) = i := by
  refine Fin.ext ?_
  rw [wordOf_val, PAGE_SIZE]
  omega

lemma mul_eight_lt (i : Fin 512) : i.val * 8 < PAGE_SIZE := by
  rw [PAGE_SIZE]
  omega

lemma testBit_entry (hf : IsFrame f) (hbits : bits < 2 ^ 10) {j : ℕ} (hj : j < 10) :
    (entry f bits).testBit j = bits.testBit j := by
  obtain ⟨n, -, -, -, heq⟩ := entry_eq hf hbits
  rw [heq, Nat.mul_comm, Nat.testBit_two_pow_mul_add n hbits, if_pos hj]

lemma page_entry (hf : IsFrame f) (hbits : bits < 2 ^ 10) :
    Sv39.page (entry f bits) = kva2pa f := by
  obtain ⟨n, hn, hpa, -, heq⟩ := entry_eq hf hbits
  rw [Sv39.page, heq, hpa]
  omega

lemma entry_lt (hf : IsFrame f) (hbits : bits < 2 ^ 10) : entry f bits < 2 ^ 54 := by
  obtain ⟨n, hn, -, -, heq⟩ := entry_eq hf hbits
  omega

lemma wellFormed_entry (hf : IsFrame f) (hbits : bits < 2 ^ 10) :
    Sv39.wellFormed (entry f bits) = Sv39.wellFormed bits := by
  have hlt : bits < 2 ^ 54 := hbits.trans (by decide)
  simp only [Sv39.wellFormed, Sv39.valid, Sv39.readable, Sv39.writable,
    testBit_entry hf hbits (j := 0) (by decide), testBit_entry hf hbits (j := 1) (by decide),
    testBit_entry hf hbits (j := 2) (by decide), entry_lt hf hbits, hlt]

lemma isLeaf_entry (hf : IsFrame f) (hbits : bits < 2 ^ 10) :
    Sv39.isLeaf (entry f bits) = Sv39.isLeaf bits := by
  simp only [Sv39.isLeaf, Sv39.readable, Sv39.executable,
    testBit_entry hf hbits (j := 1) (by decide), testBit_entry hf hbits (j := 3) (by decide)]

lemma permits_entry (hf : IsFrame f) (hbits : bits < 2 ^ 10) :
    Sv39.permits userMode a (entry f bits) = Sv39.permits userMode a bits := by
  simp only [Sv39.permits, Sv39.readable, Sv39.writable, Sv39.executable, Sv39.forUser,
    testBit_entry hf hbits (j := 1) (by decide), testBit_entry hf hbits (j := 2) (by decide),
    testBit_entry hf hbits (j := 3) (by decide), testBit_entry hf hbits (j := 4) (by decide)]

/-- The indices of the hardware are those of the code. -/
lemma sv39_vpn (hva : va < 2 ^ 38) : Sv39.vpn 2 va = vpn2 va ∧ Sv39.vpn 1 va = vpn1 va ∧
    Sv39.vpn 0 va = vpn0 va := by
  obtain ⟨h2, h1, h0⟩ := vpns_val va
  simp only [Sv39.vpn, h2, h1, h0]
  omega

/-! ## The translation of a user address -/

/-- The leaf of the page lets a process make the access. -/
def Allows (a : Access) (pte : ℕ) : Bool :=
  Sv39.wellFormed pte && Sv39.isLeaf pte && Sv39.permits userMode a pte

/-- One level of the walk: there is nothing behind the entry, or the table that the code finds. -/
lemma Tables.walk_level (h : Tables m role e) (va : ℕ) {level : ℕ} {c : Role} (hf : IsFrame f)
    (hi : Sv39.vpn (level + 1) va = i) (hc : (role f).child f i = some c) :
    Sv39.walk m.phys va (level + 1) (kva2pa f) =
      if m.mem f i = 0 then none
      else Sv39.walk m.phys va level (kva2pa (m.tableOf f i)) := by
  have hread : m.phys (kva2pa f + Sv39.vpn (level + 1) va * 8) = m.mem f i := by
    rw [hi, m.phys_add hf (mul_eight_lt i), wordOf_mul_eight]
  rcases h.entries f i c hc with hzero | ⟨y, hy, hrole⟩
  · rw [if_pos hzero, Sv39.walk_of_not_wellFormed hread]
    rw [hzero]
    exact Sv39.not_wellFormed_zero
  · have hframe : IsFrame y := h.isFrame_child hc hrole
    have hne : m.mem f i ≠ 0 := by
      obtain ⟨hfree, hk, -, -⟩ := Role.child_ne hc
      have hlt := (h.isFrame (f := y) (hrole ▸ hk) (hrole ▸ hfree)).2
      rw [hy]
      exact entry_ne_zero hframe (by decide) hlt.ne'
    have htable : m.tableOf f i = y := by
      rw [tableOf, hy]
      exact frameOf_entry hframe (by decide)
    rw [if_neg hne, htable, Sv39.walk_of_table hread, hy, page_entry hframe (by decide)]
    · rw [hy, wellFormed_entry hframe (by decide)]
      decide
    · rw [hy, isLeaf_entry hframe (by decide)]
      decide

/-- The hardware comes to the entry to which the code comes. -/
lemma Placed.translate (h : Placed m spaces role e w) (hd : pgdir ∈ spaces) (hva : va < 2 ^ 38)
    (a : Access) :
    Sv39.translate m.phys (kva2pa pgdir) userMode a va =
      if Allows a (m.leaf pgdir (vpns va)) then
        some ⟨kva2pa (m.tableOf (m.tableOf pgdir (vpn2 va)) (vpn1 va)) + (vpn0 va).val * 8,
          Sv39.touch a (m.leaf pgdir (vpns va)),
          Sv39.page (m.leaf pgdir (vpns va)) + va % PAGE_SIZE⟩
      else none := by
  obtain ⟨h2, h1, h0⟩ := sv39_vpn hva
  have hdir := h.role_dir hd
  have hframe : IsFrame pgdir := (h.tables.isFrame (by simp [hdir]) (by simp [hdir])).1
  have hc : (role pgdir).child pgdir (vpn2 va) = some (.mid pgdir (vpn2 va)) := by
    rw [hdir, Role.child, if_pos (own_vpn2 hva)]
  have hwalk := h.tables.walk_level va hframe h2 hc
  have hno : Allows a 0 = false := by simp [Allows, Sv39.not_wellFormed_zero]
  by_cases hmid : m.mem pgdir (vpn2 va) = 0
  · have hleaf : m.leaf pgdir (vpns va) = 0 := by rw [leaf, vpns_fst, if_pos hmid]
    rw [if_pos hmid] at hwalk
    rw [Sv39.translate_of_fault hwalk, hleaf, hno]
    rfl
  rw [if_neg hmid] at hwalk
  have hrole := h.tables.role_tableOf hc hmid
  have hc' : (role (m.tableOf pgdir (vpn2 va))).child (m.tableOf pgdir (vpn2 va)) (vpn1 va) =
      some (.table (m.tableOf pgdir (vpn2 va)) (vpn1 va)) := by
    rw [hrole]
    rfl
  have hframe' := (h.tables.isFrame (f := m.tableOf pgdir (vpn2 va)) (by simp [hrole])
    (by simp [hrole])).1
  rw [h.tables.walk_level va hframe' h1 hc'] at hwalk
  by_cases htable : m.mem (m.tableOf pgdir (vpn2 va)) (vpn1 va) = 0
  · have hleaf : m.leaf pgdir (vpns va) = 0 := by
      rw [leaf, vpns_fst, vpns_snd_fst, if_neg hmid, if_pos htable]
    rw [if_pos htable] at hwalk
    rw [Sv39.translate_of_fault hwalk, hleaf, hno]
    rfl
  rw [if_neg htable] at hwalk
  have hrole' := h.tables.role_tableOf hc' htable
  have hframe'' := (h.tables.isFrame (f := m.tableOf (m.tableOf pgdir (vpn2 va)) (vpn1 va))
    (by simp [hrole']) (by simp [hrole'])).1
  have hread : m.phys (kva2pa (m.tableOf (m.tableOf pgdir (vpn2 va)) (vpn1 va)) +
      Sv39.vpn 0 va * 8) = m.leaf pgdir (vpns va) := by
    rw [h0, m.phys_add hframe'' (mul_eight_lt _), wordOf_mul_eight, leaf, vpns_fst, vpns_snd_fst,
      vpns_snd_snd, if_neg hmid, if_neg htable]
  rw [Sv39.walk_zero hread] at hwalk
  by_cases hok : (Sv39.wellFormed (m.leaf pgdir (vpns va)) &&
      Sv39.isLeaf (m.leaf pgdir (vpns va))) = true
  · rw [if_pos hok] at hwalk
    rw [Sv39.translate_of_page (Or.inl hva) hwalk, Allows, hok, Bool.true_and, h0]
    rfl
  · rw [if_neg hok] at hwalk
    rw [Sv39.translate_of_fault hwalk, Allows, Bool.eq_false_iff.2 hok]
    rfl

/-! ## An access -/

lemma and_two_pow_ne_zero {n j : ℕ} (h : n.testBit j = true) : n &&& 2 ^ j ≠ 0 := by
  rw [Nat.and_two_pow, h]
  simp

/-- The attributes that the hardware sets. -/
def touchBits (a : Access) : ℕ :=
  if a = .store then PAGE_ACCESSED ||| PAGE_DIRTY else PAGE_ACCESSED

lemma touch_eq (a : Access) (pte : ℕ) : Sv39.touch a pte = setAttribute pte (touchBits a) := by
  cases a <;> rfl

/-- The table of the third level fits an entry. -/
lemma Placed.isFrame_table (h : Placed m spaces role e w) (hd : pgdir ∈ spaces)
    (ho : Own (vpn2 va)) (hne : m.leaf pgdir (vpns va) ≠ 0) :
    IsFrame (m.tableOf (m.tableOf pgdir (vpn2 va)) (vpn1 va)) := by
  have hmid : m.mem pgdir (vpn2 va) ≠ 0 := fun hz => hne (if_pos hz)
  have htable : m.mem (m.tableOf pgdir (vpn2 va)) (vpn1 va) ≠ 0 := fun hz =>
    hne ((if_neg hmid).trans (if_pos hz))
  have hc : (role pgdir).child pgdir (vpn2 va) = some (.mid pgdir (vpn2 va)) := by
    rw [h.role_dir hd, Role.child, if_pos ho]
  have hrole := h.tables.role_tableOf hc hmid
  refine h.tables.isFrame_child (c := .table (m.tableOf pgdir (vpn2 va)) (vpn1 va))
    (f := m.tableOf pgdir (vpn2 va)) (i := vpn1 va) ?_ (h.tables.role_tableOf ?_ htable)
  all_goals
    rw [hrole]
    rfl

/-- A page that a process may access has a frame. -/
lemma Placed.frame_of_allows (h : Placed m spaces role e w) (hd : pgdir ∈ spaces)
    (ho : Own (vpn2 va)) (hok : Allows a (m.leaf pgdir (vpns va)) = true) :
    ∃ f bits, w (pgdir, vpns va) = .frame f ∧ IsFrame f ∧ bits < 2 ^ 10 ∧
      m.leaf pgdir (vpns va) = entry f bits := by
  have hvalid : Sv39.valid (m.leaf pgdir (vpns va)) = true := by
    simp only [Allows, Sv39.wellFormed, Bool.and_eq_true] at hok
    exact hok.1.1.1.1
  have hfits := h.fits (pgdir, vpns va) hd ho
  cases hw : w (pgdir, vpns va) with
  | unmapped =>
    rw [hw] at hfits
    rw [show m.leaf pgdir (vpns va) = 0 from hfits] at hvalid
    cases hvalid
  | frame f =>
    rw [hw] at hfits
    obtain ⟨hf, bits, hbits, -, heq⟩ := hfits
    exact ⟨f, bits, rfl, (h.tables.isFrame (by simp [hf]) (by simp [hf])).1, hbits, heq⟩
  | card k =>
    rw [hw] at hfits
    obtain ⟨f, bits, ⟨hframe, -⟩, hbits, heven, heq⟩ := hfits
    rw [show m.leaf pgdir (vpns va) = entry f bits from heq, Sv39.valid,
      testBit_entry hframe hbits (by decide), Nat.testBit_zero, heven] at hvalid
    cases hvalid

lemma State.storeUser_of_leaf {s : State} (ho : Own (vpn2 va))
    (hp : s.leaf pgdir (vpns va) &&& PAGE_PRESENT ≠ 0)
    (hw : s.leaf pgdir (vpns va) &&& PAGE_WRITE ≠ 0)
    (hu : s.leaf pgdir (vpns va) &&& PAGE_USER ≠ 0) :
    s.storeUser va pgdir v = some { s with
      toMemory := s.store (frameOf (s.leaf pgdir (vpns va))) (wordOf va) v } := by
  have hne : s.leaf pgdir (vpns va) ≠ 0 := Present.ne_zero hp
  have hword := leaf_eq hne
  rw [vpns_fst, vpns_snd_fst, vpns_snd_snd] at hword
  rw [State.storeUser, getPteOfUva_eq, if_neg hne, Option.bind_eq_bind, Option.bind_some]
  dsimp only
  rw [← hword, if_pos ⟨ho, hp, hw, hu⟩]
  rfl

/-- The hardware sets attributes of the leaf. -/
lemma Paged.touch (h : Paged s spaces role e q w ∅) (hd : pgdir ∈ spaces) (hva : va < 2 ^ 38)
    (hne : s.leaf pgdir (vpns va) ≠ 0)
    (hm : s.storePhys (kva2pa (s.tableOf (s.tableOf pgdir (vpn2 va)) (vpn1 va)) + (vpn0 va).val * 8)
      (Sv39.touch a (s.leaf pgdir (vpns va))) = m) :
    Paged { s with toMemory := m } spaces role e q w ∅ ∧
      (∀ b, ({ s with toMemory := m } : State).seen (w b) = s.seen (w b)) ∧
      m.leaf pgdir (vpns va) = Mm.setAttribute (s.leaf pgdir (vpns va)) (touchBits a) := by
  have ho := own_vpn2 hva
  rw [s.storePhys_add (h.placed.isFrame_table hd ho hne) (mul_eight_lt _), wordOf_mul_eight,
    touch_eq] at hm
  have hmodify : s.modifyPte va pgdir (fun pte => Mm.setAttribute pte (touchBits a)) = some m := by
    rw [modifyPte_eq, if_neg hne, hm]
  have hbits : touchBits a < 2 ^ 10 ∧ touchBits a % 2 = 0 := by cases a <;> decide
  obtain ⟨h', hseen, -⟩ := h.setAttribute hd ho hbits.1 hbits.2 hmodify
  obtain ⟨-, hself, -⟩ := h.placed.modifyAttributes hd ho
    (fun _ _ _ => exists_setAttribute_even hbits.1 hbits.2) hmodify
  exact ⟨h', hseen, hself⟩

/-- An access reads or writes the word of the page at the address, wherever the page is. -/
lemma Paged.perform (h : Paged s spaces role e q w ∅) (hd : pgdir ∈ spaces) (hva : va < 2 ^ 38)
    (hp : s.perform pgdir va a v = some (m', vs)) :
    ∃ page, s.seen (w (pgdir, vpns va)) = some page ∧
      Paged { s with toMemory := m' } spaces role e q w ∅ ∧
      (∀ b, ({ s with toMemory := m' } : State).seen (w b) = if a = .store then
        Function.update (fun b => s.seen (w b)) (pgdir, vpns va)
          (some (Function.update page (wordOf va) v)) b else s.seen (w b)) ∧
      vs = if a = .store then [] else [page (wordOf va)] := by
  have ho := own_vpn2 hva
  rw [Memory.perform, h.placed.translate hd hva] at hp
  obtain ⟨t, ht, hp⟩ := Option.bind_eq_some_iff.1 hp
  rw [Option.ite_none_right_eq_some, Option.some.injEq] at ht
  obtain ⟨hok, rfl⟩ := ht
  obtain ⟨f, bits, hw, hframe, hbits, hleaf⟩ := h.placed.frame_of_allows hd ho hok
  have hne : s.leaf pgdir (vpns va) ≠ 0 := by
    intro hz
    rw [hz] at hok
    cases hok
  obtain ⟨m, hm⟩ : ∃ m, s.storePhys (kva2pa (s.tableOf (s.tableOf pgdir (vpn2 va)) (vpn1 va)) +
    (vpn0 va).val * 8) (Sv39.touch a (s.leaf pgdir (vpns va))) = m := ⟨_, rfl⟩
  obtain ⟨h₁, hseen₁, hself⟩ := h.touch hd hva hne hm
  have hoff : va % PAGE_SIZE < PAGE_SIZE := Nat.mod_lt _ (by decide)
  have hword : wordOf (va % PAGE_SIZE) = wordOf va := by
    refine Fin.ext ?_
    rw [wordOf_val, wordOf_val, Nat.mod_mod]
  have hpage : s.seen (w (pgdir, vpns va)) = some (s.mem f) := by rw [hw]; rfl
  have hmem : m.mem f = s.mem f := by
    have hseen := hseen₁ (pgdir, vpns va)
    rw [hw] at hseen
    exact Option.some.inj hseen
  dsimp only at hp
  rw [hm, hleaf, page_entry hframe hbits] at hp
  refine ⟨s.mem f, hpage, ?_⟩
  by_cases hstore : a = .store
  · subst hstore
    rw [if_pos rfl, Option.some.injEq, Prod.mk.injEq, m.storePhys_add hframe hoff, hword] at hp
    obtain ⟨rfl, rfl⟩ := hp
    have hstore : ({ s with toMemory := m } : State).storeUser va pgdir v =
        some { s with toMemory := m.store f (wordOf va) v } := by
      have hframe' : frameOf (m.leaf pgdir (vpns va)) = f := by
        rw [hself, hleaf, setAttribute_entry,
          frameOf_entry hframe (Nat.or_lt_two_pow hbits (by decide))]
      have hkeep : ∀ j, (s.leaf pgdir (vpns va)).testBit j = true →
          m.leaf pgdir (vpns va) &&& 2 ^ j ≠ 0 := by
        intro j hj
        refine and_two_pow_ne_zero ?_
        rw [hself, Mm.setAttribute, Nat.testBit_or, hj, Bool.true_or]
      simp only [Allows, Sv39.wellFormed, Sv39.permits, Sv39.forUser, Sv39.valid, Sv39.writable,
        Bool.and_eq_true] at hok
      have hsome := State.storeUser_of_leaf (s := { s with toMemory := m }) (v := v) ho
        (hkeep 0 hok.1.1.1.1) (hkeep 2 hok.2.1) (hkeep 4 hok.2.2)
      rw [hsome]
      exact congrArg (fun g => some { s with toMemory := m.store g (wordOf va) v }) hframe'
    obtain ⟨h₂, hseen₂⟩ := h₁.storeUser hd hstore
    refine ⟨h₂, fun b => ?_, rfl⟩
    rw [hseen₂, if_pos rfl, hseen₁ (pgdir, vpns va), hpage, funext hseen₁]
    rfl
  · rw [if_neg hstore, Option.some.injEq, Prod.mk.injEq, m.phys_add hframe hoff, hword] at hp
    obtain ⟨rfl, rfl⟩ := hp
    simp only [if_neg hstore]
    exact ⟨h₁, hseen₁, by rw [hmem]⟩

/-! ## After a page fault -/

/-- Making room leaves the entry of a page that has no record yet. -/
lemma Paged.leaf_makeRoom {new : Set UserPage} {b : UserPage} {P : ℕ}
    (h : Paged s spaces role e q w new) (hs : s.makeRoom P = some t) (hb : b ∈ new)
    (hd : b.1 ∈ spaces) (ho : Own b.2.1) : t.leaf b.1 b.2 = s.leaf b.1 b.2 := by
  simp only [State.makeRoom] at hs
  split_ifs at hs
  · obtain ⟨r, l, L, m', hq, hm, rfl, -⟩ := h.book.swapOut hs
    have hr : r ∈ q .presentPagesQueue := by rw [hq]; exact List.mem_cons_self
    have hw : w (s.pages r).userPage = .frame (s.pages r).kva := h.place _ r hr
    obtain ⟨hd', ho'⟩ := h.placed.mapped (s.pages r).userPage (by simp [hw])
    obtain ⟨-, hother, -⟩ := h.placed.unmap hd' ho' hw hm s.diskSectorsStartid
    refine hother b hd ho ?_
    rintro rfl
    exact h.notNew _ r hr hb
  · rw [Option.some.injEq] at hs
    rw [hs]

/-- A page that is allocated has all the attributes that `map_uva_to_kva` sets. -/
lemma Paged.leaf_allocPageHelper {uva kva P : ℕ} (h : Paged s spaces role e q w ∅)
    (hd : pgdir ∈ spaces) (ho : Own (vpn2 uva)) (hw : w (pgdir, vpns uva) = .unmapped)
    (hs : s.allocPageHelper P uva pgdir = some (kva, t)) :
    t.leaf pgdir (vpns uva) = entry kva PAGE_ALL := by
  simp only [State.allocPageHelper, Option.bind_eq_bind, Option.bind_eq_some_iff,
    Option.some.injEq, Prod.mk.injEq] at hs
  obtain ⟨⟨kva, m⟩, hk, m', hm, u, hu, v, hv, rfl, rfl⟩ := hs
  obtain ⟨role₁, e₁, h₁, -⟩ := h.mapNew hd ho hw hk hm
  obtain ⟨role₂, q₂, w₂, h₃, -⟩ := h₁.makeRoom hu
  obtain ⟨-, -, -, rfl, -⟩ := h₃.book.addNewPrePage hv
  obtain ⟨e₂, h₂, hfree, -, -⟩ := h.placed.kalloc (r := .page) (by simp) (by simp) hk
  have hnew : ∀ b, w b ≠ .frame kva := fun b hb => by
    have hpage := h.placed.role_frame hb
    rw [hfree] at hpage
    cases hpage
  obtain ⟨-, -, -, -, hself, -⟩ := h₂.mapUvaToKva hd ho (Function.update_self ..) hnew hm
  exact (h₁.leaf_makeRoom hu (Set.mem_singleton _) hd ho).trans hself

/-- A page that has been brought in for a fault. -/
lemma Paged.leaf_bringIn {uva P : ℕ} (h : Paged s spaces role e q w ∅) (hd : pgdir ∈ spaces)
    (ho : Own (vpn2 uva)) (hs : s.bringIn P uva pgdir = some t) :
    t.leaf pgdir (vpns uva) &&& PAGE_ALL = PAGE_ALL := by
  simp only [State.bringIn] at hs
  split_ifs at hs with hkva
  · have hw := (h.placed.getKvaOfUva_eq_zero_iff hd ho).1 hkva
    obtain ⟨⟨kva, u⟩, hu, rfl⟩ := Option.map_eq_some_iff.1 hs
    rw [h.leaf_allocPageHelper hd ho hw hu]
    exact entry_and_all kva
  · simp only [Option.bind_eq_bind, Option.bind_eq_some_iff] at hs
    obtain ⟨page, hpage, u, hu, r, rfl, ht⟩ := hs
    rw [State.findPageWithUva, h.book.find, Option.some.injEq] at hpage
    have hr := List.mem_of_find?_eq_some hpage
    have hfound := List.find?_some hpage
    rw [decide_eq_true_eq] at hfound
    obtain ⟨huva', hpgdir⟩ := hfound
    obtain ⟨role₁, q₁, w₁, h₁, -, -, -, hkeep⟩ := h.makeRoom hu
    obtain ⟨hr₁, heq⟩ := hkeep r hr
    obtain ⟨-, -, kva, -, -, hself, -⟩ := h₁.swapIn hr₁ ht
    rw [heq, huva', hpgdir] at hself
    rw [hself]
    exact entry_and_all kva

/-- After a fault the page has all the attributes that `map_uva_to_kva` sets. -/
lemma Paged.leaf_handlePageFault {stval P : ℕ} {store : Bool} (h : Paged s spaces role e q w ∅)
    (hd : pgdir ∈ spaces) (hstval : stval < 2 ^ 38)
    (hs : s.handlePageFault P stval pgdir store = some t) :
    t.leaf pgdir (vpns stval) &&& PAGE_ALL = PAGE_ALL := by
  have hmask : stval &&& PAGE_MASK = stval / 4096 * 4096 := and_pageMask (by omega)
  have hlt : stval &&& PAGE_MASK < 2 ^ 38 := by omega
  have hvpns : vpns (stval &&& PAGE_MASK) = vpns stval := by
    rw [vpns_eq_iff hstval hlt, hmask]
    simp only [PAGE_SIZE]
    omega
  have huva : uvaOf (vpns (stval &&& PAGE_MASK)) = stval &&& PAGE_MASK := by
    rw [uvaOf_vpns_iff, hmask]
    simp only [PAGE_SIZE]
    omega
  have ho := own_vpn2 hlt
  simp only [State.handlePageFault, Option.bind_eq_bind, Option.bind_eq_some_iff] at hs
  obtain ⟨u, hu, m, hm, hs⟩ := hs
  have hall := h.leaf_bringIn hd ho hu
  obtain ⟨role₁, e₁, q₁, w₁, h₁, -, -⟩ := h.bringIn hd ho huva hu
  have hset : ∀ {n n' : Memory} {bits : ℕ}, bits < 2 ^ 10 → bits % 2 = 0 →
      Placed n spaces role₁ e₁ w₁ →
      n.modifyPte (stval &&& PAGE_MASK) pgdir (fun pte => Mm.setAttribute pte bits) = some n' →
      n.leaf pgdir (vpns (stval &&& PAGE_MASK)) &&& PAGE_ALL = PAGE_ALL →
      Placed n' spaces role₁ e₁ w₁ ∧
        n'.leaf pgdir (vpns (stval &&& PAGE_MASK)) &&& PAGE_ALL = PAGE_ALL := by
    intro n n' bits hbits heven hn hn' hleaf
    obtain ⟨hp, hself, -⟩ := hn.modifyAttributes hd ho
      (fun _ _ _ => exists_setAttribute_even hbits heven) hn'
    refine ⟨hp, ?_⟩
    rw [hself, Mm.setAttribute]
    exact or_and_of_and hleaf bits
  obtain ⟨h₂, hall₂⟩ := hset (by decide) (by decide) h₁.placed hm hall
  rw [← hvpns]
  split_ifs at hs with hstore
  · simp only [Option.bind_eq_some_iff, Option.some.injEq] at hs
    obtain ⟨m', hm', rfl⟩ := hs
    exact (hset (by decide) (by decide) h₂ hm' hall₂).2
  · rw [Option.some.injEq] at hs
    subst hs
    exact hall₂

/-- A process may do everything with a page that has all the attributes. -/
lemma Placed.allows_of_all (h : Placed m spaces role e w) (hd : pgdir ∈ spaces)
    (hva : va < 2 ^ 38) (hall : m.leaf pgdir (vpns va) &&& PAGE_ALL = PAGE_ALL) (a : Access) :
    Allows a (m.leaf pgdir (vpns va)) = true := by
  have hbit : ∀ j < 5, (m.leaf pgdir (vpns va)).testBit j = true := by
    intro j hj
    have hboth : (m.leaf pgdir (vpns va) &&& PAGE_ALL).testBit j = PAGE_ALL.testBit j := by
      rw [hall]
    rw [Nat.testBit_and] at hboth
    have hone : ∀ j < 5, PAGE_ALL.testBit j = true := by decide
    rw [hone j hj, Bool.and_true] at hboth
    exact hboth
  have hlt : m.leaf pgdir (vpns va) < 2 ^ 54 := by
    have hfits := h.fits (pgdir, vpns va) hd (own_vpn2 hva)
    cases hw : w (pgdir, vpns va) with
    | unmapped =>
      rw [hw] at hfits
      rw [show m.leaf pgdir (vpns va) = 0 from hfits]
      decide
    | frame f =>
      rw [hw] at hfits
      obtain ⟨hf, bits, hbits, -, heq⟩ := hfits
      rw [show m.leaf pgdir (vpns va) = entry f bits from heq]
      exact entry_lt (h.tables.isFrame (by simp [hf]) (by simp [hf])).1 hbits
    | card k =>
      rw [hw] at hfits
      obtain ⟨f, bits, ⟨hframe, -⟩, hbits, -, heq⟩ := hfits
      rw [show m.leaf pgdir (vpns va) = entry f bits from heq]
      exact entry_lt hframe hbits
  have h0 := hbit 0 (by decide)
  have h1 := hbit 1 (by decide)
  have h2 := hbit 2 (by decide)
  have h3 := hbit 3 (by decide)
  have h4 := hbit 4 (by decide)
  cases a <;> simp [Allows, Sv39.wellFormed, Sv39.isLeaf, Sv39.permits, Sv39.valid, Sv39.readable,
    Sv39.writable, Sv39.executable, Sv39.forUser, userMode, h0, h1, h2, h3, h4]
  all_goals exact hlt

end Mm
end UcasKernel
