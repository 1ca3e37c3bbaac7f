/-
Where the pages of the processes are.

A page of an address space has no place, a frame, or eight sectors of the card.  `Placed`
says that the entry of the third level of every page shows its place, and that no frame is
the place of two pages; the entry of a page that is on the card keeps the number of the
frame that the page had.  There is one lemma for each thing that happens to a page table
when pages come, go, and are swapped, and each says which pages change their place.
-/
import UcasKernel.Mm.Release

namespace UcasKernel
namespace Mm

/-- A page of an address space: the page directory, and the indices of the address. -/
abbrev UserPage := ℕ × Vpns

/-- Where a page is. -/
inductive Place
  | unmapped
  | frame (kva : ℕ)
  | card (sectorId : ℤ)
deriving DecidableEq

/-- The entry of the third level of a page shows where the page is. -/
def Place.Fits (role : ℕ → Role) (pte : ℕ) : Place → Prop
  | .unmapped => pte = 0
  | .frame kva => role kva = .page ∧ ∃ bits < 2 ^ 10, bits % 2 = 1 ∧ pte = entry kva bits
  | .card _ => ∃ f bits, (IsFrame f ∧ KERNEL_VM_OFFSET < f) ∧ bits < 2 ^ 10 ∧ bits % 2 = 0 ∧
      pte = entry f bits

/-- The page directories are `spaces`, and the entries of their pages fit the places `w`. -/
structure Placed (m : Memory) (spaces : Finset ℕ) (role : ℕ → Role) (e : ℕ)
    (w : UserPage → Place) : Prop where
  tables : Tables m role e
  dir : ∀ d, d ∈ spaces ↔ role d = .dir
  /-- The directory that is copied has none of the entries that a process may have. -/
  kernel : ∀ i, Own i → m.mem PGDIR_VA i = 0
  fits : ∀ a : UserPage, a.1 ∈ spaces → Own a.2.1 → (w a).Fits role (m.leaf a.1 a.2)
  frames : ∀ a b f, w a = .frame f → w b = .frame f → a = b
  mapped : ∀ a, w a ≠ .unmapped → a.1 ∈ spaces ∧ Own a.2.1

/-- The words of a page at a place. -/
def State.seen (s : State) : Place → Option (Fin 512 → ℕ)
  | .unmapped => none
  | .frame kva => some (s.mem kva)
  | .card sectorId => some fun i => s.sd (sectorId.toNat + i / 64) (Fin.ofNat 64 i)

open Memory

variable {m m' : Memory} {spaces spaces' : Finset ℕ} {role role' : ℕ → Role} {e e' : ℕ}
  {w w' : UserPage → Place} {a b : UserPage} {d f p kva uva pgdir pte : ℕ} {r : Role} {k : ℤ}
  {x : Place}

/-! ## Entries and places -/

namespace Place

lemma Fits.mono (h : x.Fits role pte) (hpage : ∀ f, x = .frame f → role' f = .page) :
    x.Fits role' pte := by
  cases x with
  | unmapped => exact h
  | frame f => exact ⟨hpage f rfl, h.2⟩
  | card k => exact h

end Place

namespace Placed

section Read

variable (h : Placed m spaces role e w)
include h

lemma directories : Directories m spaces role e := ⟨h.tables, h.dir, h.kernel⟩

lemma role_dir (hd : d ∈ spaces) : role d = .dir := (h.dir d).1 hd

lemma role_frame (ha : w a = .frame f) : role f = .page := by
  obtain ⟨hd, ho⟩ := h.mapped a (by simp [ha])
  have hfits := h.fits a hd ho
  rw [ha] at hfits
  exact hfits.1

/-- The entry of a page is zero where the page is nowhere. -/
lemma leaf_eq_zero_iff (hd : a.1 ∈ spaces) (ho : Own a.2.1) :
    m.leaf a.1 a.2 = 0 ↔ w a = .unmapped := by
  have hfits := h.fits a hd ho
  cases hw : w a with
  | unmapped =>
    rw [hw] at hfits
    have hzero : m.leaf a.1 a.2 = 0 := hfits
    simp [hzero]
  | frame f =>
    rw [hw] at hfits
    obtain ⟨hf, bits, hbits, -, heq⟩ := hfits
    obtain ⟨hframe, hlt⟩ := h.tables.isFrame (f := f) (by simp [hf]) (by simp [hf])
    simpa [heq] using entry_ne_zero hframe hbits hlt.ne'
  | card k =>
    rw [hw] at hfits
    obtain ⟨f, bits, ⟨hframe, hlt⟩, hbits, -, heq⟩ := hfits
    simpa [heq] using entry_ne_zero hframe hbits hlt.ne'

/-- `get_kva_of_uva` finds no frame where the page is nowhere. -/
lemma getKvaOfUva_eq_zero_iff (hd : pgdir ∈ spaces) (ho : Own (vpn2 uva)) :
    m.getKvaOfUva uva pgdir = 0 ↔ w (pgdir, vpns uva) = .unmapped := by
  have hleaf := h.leaf_eq_zero_iff (a := (pgdir, vpns uva)) hd ho
  have hfits := h.fits (pgdir, vpns uva) hd ho
  have hnonzero : ∀ f bits, IsFrame f → KERNEL_VM_OFFSET < f → bits < 2 ^ 10 →
      m.leaf pgdir (vpns uva) = entry f bits → m.getKvaOfUva uva pgdir ≠ 0 := by
    intro f bits hframe hlt hbits heq
    rw [getKvaOfUva_of_leaf heq hframe hlt.ne' hbits]
    omega
  cases hw : w (pgdir, vpns uva) with
  | unmapped => simp [getKvaOfUva_eq, hleaf.2 hw]
  | frame f =>
    rw [hw] at hfits
    obtain ⟨hf, bits, hbits, -, heq⟩ := hfits
    obtain ⟨hframe, hlt⟩ := h.tables.isFrame (f := f) (by simp [hf]) (by simp [hf])
    simpa using hnonzero f bits hframe hlt hbits heq
  | card k =>
    rw [hw] at hfits
    obtain ⟨f, bits, ⟨hframe, hlt⟩, hbits, -, heq⟩ := hfits
    simpa using hnonzero f bits hframe hlt hbits heq

/-- The entry of a page is present where the page has a frame. -/
lemma present_iff (hd : a.1 ∈ spaces) (ho : Own a.2.1) :
    Present (m.leaf a.1 a.2) ↔ w a = .frame (frameOf (m.leaf a.1 a.2)) := by
  have hfits := h.fits a hd ho
  cases hw : w a with
  | unmapped =>
    rw [hw] at hfits
    have hzero : m.leaf a.1 a.2 = 0 := hfits
    simp [hzero, Present]
  | frame f =>
    rw [hw] at hfits
    obtain ⟨hf, bits, hbits, hodd, heq⟩ := hfits
    obtain ⟨hframe, -⟩ := h.tables.isFrame (f := f) (by simp [hf]) (by simp [hf])
    rw [heq, frameOf_entry hframe hbits, present_entry hframe hbits]
    simp [hodd]
  | card k =>
    rw [hw] at hfits
    obtain ⟨f, bits, ⟨hframe, -⟩, hbits, heven, heq⟩ := hfits
    rw [heq, present_entry hframe hbits]
    simp [heven]

end Read

/-! ## Changes -/

section Changes

variable (h : Placed m spaces role e w)
include h

/-- One page changes its place, or its entry alone. -/
lemma update (hdirs : Directories m' spaces role' e') (hd : a.1 ∈ spaces) (ho : Own a.2.1)
    (hpage : ∀ b f, b ≠ a → w b = .frame f → role' f = .page)
    (hleaf : ∀ b : UserPage, b.1 ∈ spaces → Own b.2.1 → b ≠ a → m'.leaf b.1 b.2 = m.leaf b.1 b.2)
    (hx : x.Fits role' (m'.leaf a.1 a.2)) (hnew : ∀ b f, b ≠ a → w b = .frame f → x ≠ .frame f) :
    Placed m' spaces role' e' (Function.update w a x) where
  tables := hdirs.tables
  dir := hdirs.dir
  kernel := hdirs.kernel
  fits := by
    intro b hb hob
    rcases eq_or_ne b a with rfl | hne
    · rw [Function.update_self]
      exact hx
    · rw [Function.update_of_ne hne, hleaf b hb hob hne]
      exact (h.fits b hb hob).mono fun f => hpage b f hne
  frames := by
    intro b c f hb hc
    rcases eq_or_ne b a with hba | hne <;> rcases eq_or_ne c a with hca | hne'
    · exact hba.trans hca.symm
    · rw [hba, Function.update_self] at hb
      rw [Function.update_of_ne hne'] at hc
      exact absurd hb (hnew c f hne' hc)
    · rw [hca, Function.update_self] at hc
      rw [Function.update_of_ne hne] at hb
      exact absurd hc (hnew b f hne hb)
    · rw [Function.update_of_ne hne] at hb
      rw [Function.update_of_ne hne'] at hc
      exact h.frames b c f hb hc
  mapped := by
    intro b hb
    rcases eq_or_ne b a with rfl | hne
    · exact ⟨hd, ho⟩
    · rw [Function.update_of_ne hne] at hb
      exact h.mapped b hb

/-- No page changes its place. -/
lemma of_same (hdirs : Directories m' spaces role' e')
    (hpage : ∀ f, role f = .page → role' f = .page) (hleaf : SameLeaves spaces m m') :
    Placed m' spaces role' e' w where
  tables := hdirs.tables
  dir := hdirs.dir
  kernel := hdirs.kernel
  fits := fun b hb hob => by
    rw [hleaf b.1 hb b.2 hob]
    exact (h.fits b hb hob).mono fun f hf => hpage f (h.role_frame hf)
  frames := h.frames
  mapped := h.mapped

/-! ### Free pages -/

/-- The kernel takes a page, for itself or for a process. -/
lemma kalloc (hr : r ≠ .free) (hdir : r ≠ .dir) (hk : m.kalloc = some (p, m')) :
    ∃ e', Placed m' spaces (Function.update role p r) e' w ∧ role p = .free ∧
      m'.mem p = (fun _ => 0) ∧ ∀ f, role f ≠ .free → m'.mem f = m.mem f := by
  obtain ⟨e', hdirs, hfree, hzero, hmem, hleaf, -⟩ := h.directories.kalloc hr hdir hk
  refine ⟨e', h.of_same hdirs (fun f hf => ?_) hleaf, hfree, hzero, hmem⟩
  rw [update_of_not_free hfree (by simp [hf]), hf]

/-- The page of a new page directory, which has no pages. -/
lemma newPgdir (hk : m.kalloc = some (p, m')) :
    ∃ e', Placed m' (insert p spaces) (Function.update role p .dir) e' w ∧ role p = .free ∧
      ∀ f, role f ≠ .free → m'.mem f = m.mem f := by
  obtain ⟨e', hdirs, hfree, hzero, hmem, hleaf, -⟩ := h.directories.newPgdir hk
  have hnew : p ∉ spaces := fun hp => by simp [h.role_dir hp] at hfree
  refine ⟨e', ⟨hdirs.tables, hdirs.dir, hdirs.kernel, fun a ha ho => ?_, h.frames, fun a ha => ?_⟩,
    hfree, hmem⟩
  · rcases Finset.mem_insert.1 ha with hap | ha
    · have hw : w a = .unmapped := by
        by_contra hne
        exact hnew (hap ▸ (h.mapped a hne).1)
      rw [hw]
      show m'.leaf a.1 a.2 = 0
      rw [hap, hzero]
    · rw [hleaf a.1 ha a.2 ho]
      refine (h.fits a ha ho).mono fun f hf => ?_
      have hpage := h.role_frame hf
      rw [update_of_not_free hfree (by simp [hpage]), hpage]
  · obtain ⟨hd, ho⟩ := h.mapped a ha
    exact ⟨Finset.mem_insert_of_mem hd, ho⟩

lemma sharePgtable (hd : pgdir ∈ spaces) :
    Placed (m.sharePgtable pgdir PGDIR_VA) spaces role e w ∧
      ∀ f, role f = .page → (m.sharePgtable pgdir PGDIR_VA).mem f = m.mem f := by
  obtain ⟨hdirs, hleaf, hmem⟩ := h.directories.sharePgtable hd
  refine ⟨h.of_same hdirs (fun _ => id) hleaf, fun f hf => hmem f ?_⟩
  rintro rfl
  simp [h.role_dir hd] at hf

/-- A page of a process is written. -/
lemma write (hf : role f = .page) (hlist : m'.freememList = m.freememList)
    (hmem : ∀ g, g ≠ f → m'.mem g = m.mem g) :
    Placed m' spaces role e w ∧ SameLeaves spaces m m' := by
  obtain ⟨hdirs, hleaf⟩ := h.directories.write (Or.inl hf) hlist hmem
  exact ⟨h.of_same hdirs (fun _ => id) hleaf, hleaf⟩

/-! ### Entries -/

/-- The attributes of an entry change, `_PAGE_PRESENT` apart. -/
lemma modifyAttributes {g : ℕ → ℕ} (hd : pgdir ∈ spaces) (ho : Own (vpn2 uva))
    (hg : ∀ f bits, IsFrame f → bits < 2 ^ 10 →
      ∃ bits' < 2 ^ 10, bits' % 2 = bits % 2 ∧ g (entry f bits) = entry f bits')
    (hm : m.modifyPte uva pgdir g = some m') :
    Placed m' spaces role e w ∧ m'.leaf pgdir (vpns uva) = g (m.leaf pgdir (vpns uva)) ∧
      (∀ b : UserPage, b.1 ∈ spaces → Own b.2.1 → b ≠ (pgdir, vpns uva) →
        m'.leaf b.1 b.2 = m.leaf b.1 b.2) ∧
      ∀ f, role f = .page → m'.mem f = m.mem f := by
  obtain ⟨hne, hdirs, hself, hsame, hmem⟩ := h.directories.modifyPte hd ho hm
  have hothers : ∀ b : UserPage, b.1 ∈ spaces → Own b.2.1 → b ≠ (pgdir, vpns uva) →
      m'.leaf b.1 b.2 = m.leaf b.1 b.2 := fun b hb => hsame b.1 hb b.2
  refine ⟨?_, hself, hothers, hmem⟩
  have hupd := h.update (a := (pgdir, vpns uva)) (x := w (pgdir, vpns uva)) hdirs hd ho
    (fun b f _ => h.role_frame) hothers ?_ fun b f hne hb hx => hne (h.frames b _ f hb hx)
  · rwa [Function.update_eq_self] at hupd
  have hfits := h.fits (pgdir, vpns uva) hd ho
  have hself' : m'.leaf (pgdir, vpns uva).1 (pgdir, vpns uva).2 =
      g (m.leaf (pgdir, vpns uva).1 (pgdir, vpns uva).2) := hself
  rw [hself']
  cases hw : w (pgdir, vpns uva) with
  | unmapped => exact absurd ((h.leaf_eq_zero_iff (a := (pgdir, vpns uva)) hd ho).2 hw) hne
  | frame f =>
    rw [hw] at hfits
    obtain ⟨hf, bits, hbits, hodd, heq⟩ := hfits
    have hframe := (h.tables.isFrame (f := f) (by simp [hf]) (by simp [hf])).1
    obtain ⟨bits', hbits', hmod, heq'⟩ := hg f bits hframe hbits
    exact ⟨hf, bits', hbits', hmod.trans hodd, by rw [heq, heq']⟩
  | card k =>
    rw [hw] at hfits
    obtain ⟨f, bits, hframe, hbits, heven, heq⟩ := hfits
    obtain ⟨bits', hbits', hmod, heq'⟩ := hg f bits hframe.1 hbits
    exact ⟨f, bits', hframe, hbits', hmod.trans heven, by rw [heq, heq']⟩

/-- `map_uva_to_kva` gives a page a frame that no page has. -/
lemma mapUvaToKva (hd : pgdir ∈ spaces) (ho : Own (vpn2 uva)) (hkva : role kva = .page)
    (hnew : ∀ b, w b ≠ .frame kva) (hm : m.mapUvaToKva uva kva pgdir = some m') :
    ∃ role' e', Placed m' spaces role' e' (Function.update w (pgdir, vpns uva) (.frame kva)) ∧
      (∀ f, role f = .page ↔ role' f = .page) ∧
      m'.leaf pgdir (vpns uva) = entry kva PAGE_ALL ∧
      (∀ b : UserPage, b.1 ∈ spaces → Own b.2.1 → b ≠ (pgdir, vpns uva) →
        m'.leaf b.1 b.2 = m.leaf b.1 b.2) ∧
      ∀ f, role f = .page → m'.mem f = m.mem f := by
  obtain ⟨role', e', hdirs, hgrows, hself, hsame, hkeep, -⟩ := h.directories.mapUvaToKva hd ho hm
  have hpage : ∀ f, role f = .page → role' f = .page := fun f hf => by
    rw [hgrows.keep f (by simp [hf]), hf]
  have hothers : ∀ b : UserPage, b.1 ∈ spaces → Own b.2.1 → b ≠ (pgdir, vpns uva) →
      m'.leaf b.1 b.2 = m.leaf b.1 b.2 := fun b hb => hsame b.1 hb b.2
  refine ⟨role', e', h.update hdirs hd ho (fun b f _ hb => hpage f (h.role_frame hb)) hothers ?_ ?_,
    fun f => ⟨hpage f, hgrows.page⟩, hself, hothers, fun f hf => hkeep f (Or.inl hf)⟩
  · exact ⟨hpage kva hkva, PAGE_ALL, by decide, by decide, hself⟩
  · rintro b f - hb hx
    obtain rfl := Place.frame.inj hx
    exact hnew b hb

/-- The page with a frame goes to the card: the entry is not present any more, and the frame is
free. -/
lemma unmap (hd : pgdir ∈ spaces) (ho : Own (vpn2 uva)) (hw : w (pgdir, vpns uva) = .frame kva)
    (hm : m.modifyPte uva pgdir (fun pte => unsetAttribute pte PAGE_PRESENT) = some m') (k : ℤ) :
    Placed (m'.kfree kva) spaces (Function.update role kva .free) e
        (Function.update w (pgdir, vpns uva) (.card k)) ∧
      (∀ b : UserPage, b.1 ∈ spaces → Own b.2.1 → b ≠ (pgdir, vpns uva) →
        (m'.kfree kva).leaf b.1 b.2 = m.leaf b.1 b.2) ∧
      ∀ f, role f = .page → f ≠ kva → (m'.kfree kva).mem f = m.mem f := by
  have hpage := h.role_frame hw
  obtain ⟨-, hdirs, hself, hsame, hmem⟩ := h.directories.modifyPte hd ho hm
  obtain ⟨hdirs', hleaf', hmem'⟩ := hdirs.kfree hpage
  have hothers : ∀ b : UserPage, b.1 ∈ spaces → Own b.2.1 → b ≠ (pgdir, vpns uva) →
      (m'.kfree kva).leaf b.1 b.2 = m.leaf b.1 b.2 := fun b hb hob hne => by
    rw [hleaf' b.1 hb b.2 hob, hsame b.1 hb b.2 hob hne]
  refine ⟨h.update hdirs' hd ho (fun b f hne hb => ?_) hothers ?_ (fun b f _ _ => by simp), hothers,
    fun f hf hfk => ?_⟩
  · rw [Function.update_of_ne, h.role_frame hb]
    rintro rfl
    exact hne (h.frames b _ f hb hw)
  · have hfits := h.fits (pgdir, vpns uva) hd ho
    rw [hw] at hfits
    obtain ⟨-, bits, hbits, hodd, heq⟩ := hfits
    obtain ⟨hframe, hlt⟩ := h.tables.isFrame (f := kva) (by simp [hpage]) (by simp [hpage])
    refine ⟨kva, bits &&& (2 ^ 64 - 1 - PAGE_PRESENT), ⟨hframe, hlt⟩,
      Nat.and_le_left.trans_lt hbits, ?_, ?_⟩
    · exact and_mod_two_eq_zero (by decide)
    · show (m'.kfree kva).leaf pgdir (vpns uva) = _
      rw [hleaf' pgdir hd (vpns uva) ho, hself, show m.leaf pgdir (vpns uva) = _ from heq,
        unsetAttribute_entry hframe (by decide)]
  · rw [hmem' f hfk, hmem f hf]

/-- The pages of an address space go with it. -/
lemma of_frees (hd : d ∈ spaces) (ht : Tables m' role' e) (hfree : role' d = .free)
    (hfrees : Frees {f | Tables.Belongs role d f} m m' role role') :
    Placed m' (spaces.erase d) role' e (fun a => if a.1 = d then .unmapped else w a) ∧
      (∀ b : UserPage, b.1 ∈ spaces → Own b.2.1 → b.1 ≠ d → m'.leaf b.1 b.2 = m.leaf b.1 b.2) ∧
      ∀ f, role f = .page → m'.mem f = m.mem f := by
  have hstays := Stays.of_frees (h.role_dir hd) hfrees
  obtain ⟨hdirs, hleaf, hmem⟩ := h.directories.of_frees hd ht hfree hfrees
  have hothers : ∀ b : UserPage, b.1 ∈ spaces → Own b.2.1 → b.1 ≠ d →
      m'.leaf b.1 b.2 = m.leaf b.1 b.2 := fun b hb hob hne =>
    hleaf b.1 (Finset.mem_erase.2 ⟨hne, hb⟩) b.2 hob
  refine ⟨⟨hdirs.tables, hdirs.dir, hdirs.kernel, fun b hb hob => ?_, fun b c f hb hc => ?_,
    fun b hb => ?_⟩, hothers, hmem⟩
  · obtain ⟨hne, hbm⟩ := Finset.mem_erase.1 hb
    rw [if_neg hne, hothers b hbm hob hne]
    exact (h.fits b hbm hob).mono fun f hf => hstays.page (h.role_frame hf)
  · split_ifs at hb hc
    exact h.frames b c f hb hc
  · split_ifs at hb with hbd
    · exact absurd rfl hb
    · obtain ⟨hbm, ho⟩ := h.mapped b hb
      exact ⟨Finset.mem_erase.2 ⟨hbd, hbm⟩, ho⟩

end Changes

end Placed

end Mm
end UcasKernel
