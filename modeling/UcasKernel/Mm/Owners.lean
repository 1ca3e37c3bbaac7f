/-
Frames and their owners.

The frame of a record has an owner, the page that the record is of; a frame that processes
share has one as well, although other pages map it too.  `Exclusive` says that a frame with
an owner is mapped by the owner only, unless it is one of the frames `S` that may be shared.
It knows the memory and a list of pages with their frames, and there is one lemma for each
thing that happens to the page tables.
-/
import UcasKernel.Mm.Places

namespace UcasKernel
namespace Mm

open Memory

/-- An entry of the third level: zero, or the entry of a frame, which is a page of a process where
the entry is present. -/
def EntryOk (role : ℕ → Role) (pte : ℕ) : Prop :=
  pte = 0 ∨ ∃ f bits, pte = entry f bits ∧ (IsFrame f ∧ KERNEL_VM_OFFSET < f) ∧ bits < 2 ^ 10 ∧
    (bits % 2 = 1 → role f = .page)

/-- The entry of the page `a`: the frame that it maps is shared, or `a` is its only owner. -/
structure EntryOf (role : ℕ → Role) (S : Set ℕ) (l : List (UserPage × ℕ)) (a : UserPage) (pte : ℕ) :
    Prop where
  ok : EntryOk role pte
  owner : Present pte → frameOf pte ∉ S → ∀ o ∈ l, o.2 = frameOf pte → o.1 = a

/-- The page directories are `spaces`, the owners of frames are `l`, and no page but its owner maps
a frame that is not shared. -/
structure Exclusive (m : Memory) (spaces : Finset ℕ) (role : ℕ → Role) (e : ℕ) (S : Set ℕ)
    (l : List (UserPage × ℕ)) : Prop where
  directories : Directories m spaces role e
  page : ∀ o ∈ l, role o.2 = .page
  nodup : (l.map Prod.snd).Nodup
  leaf : ∀ a : UserPage, a.1 ∈ spaces → Own a.2.1 → EntryOf role S l a (m.leaf a.1 a.2)

/-- The shared frames stay pages of processes, and the pages outside of `U` keep their frames. -/
structure Undisturbed (spaces : Finset ℕ) (S : Set ℕ) (U : Set UserPage) (role role' : ℕ → Role)
    (m m' : Memory) : Prop where
  page : ∀ f ∈ S, role f = .page → role' f = .page
  frame : ∀ a : UserPage, a.1 ∈ spaces → Own a.2.1 → a ∉ U → m.leaf a.1 a.2 ≠ 0 →
    m'.leaf a.1 a.2 ≠ 0 ∧ frameOf (m'.leaf a.1 a.2) = frameOf (m.leaf a.1 a.2)

variable {m m' : Memory} {spaces spaces' : Finset ℕ} {role role' : ℕ → Role} {e e' : ℕ}
  {S S' : Set ℕ} {U U' : Set UserPage} {l l' : List (UserPage × ℕ)} {a : UserPage}
  {d f p kva uva pgdir pte bits : ℕ} {r : Role}

/-! ## Entries -/

lemma EntryOk.entry_ne_zero (hf : IsFrame f ∧ KERNEL_VM_OFFSET < f) (hbits : bits < 2 ^ 10) :
    entry f bits ≠ 0 :=
  Mm.entry_ne_zero hf.1 hbits hf.2.ne'

/-- An entry that is present maps a page of a process. -/
lemma EntryOk.role_frameOf (h : EntryOk role pte) (hp : Present pte) :
    role (frameOf pte) = .page := by
  rcases h with rfl | ⟨f, bits, rfl, hf, hbits, hpage⟩
  · simp [Present] at hp
  · rw [Mm.frameOf_entry hf.1 hbits]
    exact hpage ((present_entry hf.1 hbits).1 hp)

lemma not_present_unsetAttribute : ¬ Present (unsetAttribute pte PAGE_PRESENT) := by
  have hmask : (2 ^ 64 - 1 - PAGE_PRESENT) &&& PAGE_PRESENT = 0 := by decide
  rw [Present, unsetAttribute, Nat.and_assoc, hmask, Nat.and_zero]
  exact fun hne => hne rfl

/-- The frames that are mapped by present entries decide. -/
lemma EntryOk.of_present (h : EntryOk role pte)
    (hp : Present pte → role' (frameOf pte) = .page) : EntryOk role' pte := by
  rcases h with rfl | ⟨f, bits, rfl, hf, hbits, -⟩
  · exact Or.inl rfl
  · refine Or.inr ⟨f, bits, rfl, hf, hbits, fun hodd => ?_⟩
    rw [present_entry hf.1 hbits, Mm.frameOf_entry hf.1 hbits] at hp
    exact hp hodd

lemma EntryOf.zero : EntryOf role S l a 0 where
  ok := Or.inl rfl
  owner := fun hp => by simp [Present] at hp

lemma EntryOf.mono (h : EntryOf role S l a pte) (hpage : ∀ f, role f = .page → role' f = .page) :
    EntryOf role' S l a pte where
  ok := h.ok.of_present fun hp => hpage _ (h.ok.role_frameOf hp)
  owner := h.owner

/-- The entry of a page of a process. -/
lemma EntryOf.of_entry (hf : IsFrame f ∧ KERNEL_VM_OFFSET < f) (hbits : bits < 2 ^ 10)
    (hpage : bits % 2 = 1 → role f = .page)
    (howner : bits % 2 = 1 → f ∉ S → ∀ o ∈ l, o.2 = f → o.1 = a) :
    EntryOf role S l a (entry f bits) where
  ok := Or.inr ⟨f, bits, rfl, hf, hbits, hpage⟩
  owner := by
    intro hp
    rw [Mm.frameOf_entry hf.1 hbits]
    exact howner ((present_entry hf.1 hbits).1 hp)

/-! ## What stays -/

namespace Undisturbed

lemma refl (spaces : Finset ℕ) (S : Set ℕ) (U : Set UserPage) (role : ℕ → Role) (m : Memory) :
    Undisturbed spaces S U role role m m :=
  ⟨fun _ _ => id, fun _ _ _ _ hne => ⟨hne, rfl⟩⟩

lemma trans {role'' : ℕ → Role} {m'' : Memory} (h : Undisturbed spaces S U role role' m m')
    (h' : Undisturbed spaces S U role' role'' m' m'') :
    Undisturbed spaces S U role role'' m m'' where
  page := fun f hf hr => h'.page f hf (h.page f hf hr)
  frame := by
    intro a ha ho hu hne
    obtain ⟨hne', hframe⟩ := h.frame a ha ho hu hne
    obtain ⟨hne'', hframe'⟩ := h'.frame a ha ho hu hne'
    exact ⟨hne'', hframe'.trans hframe⟩

lemma mono (h : Undisturbed spaces S U role role' m m') (hU : U ⊆ U') :
    Undisturbed spaces S U' role role' m m' :=
  ⟨h.page, fun a ha ho hu => h.frame a ha ho fun hmem => hu (hU hmem)⟩

lemma of_sameLeaves (hpage : ∀ f, role f = .page → role' f = .page) (h : SameLeaves spaces m m') :
    Undisturbed spaces S U role role' m m' where
  page := fun f _ => hpage f
  frame := by
    intro a ha ho _ hne
    rw [h a.1 ha a.2 ho]
    exact ⟨hne, rfl⟩

lemma of_sameBut (hpage : ∀ f, role f = .page → role' f = .page) (h : SameBut spaces a.1 a.2 m m')
    (ha : a ∈ U) : Undisturbed spaces S U role role' m m' where
  page := fun f _ => hpage f
  frame := by
    intro b hb ho hu hne
    rw [h b.1 hb b.2 ho]
    · exact ⟨hne, rfl⟩
    · intro heq
      exact hu ((Prod.ext_iff.2 (Prod.ext_iff.1 heq) : b = a) ▸ ha)

end Undisturbed

namespace Exclusive

variable (h : Exclusive m spaces role e S l)
include h

lemma isFrame (hf : role f = .page) : IsFrame f ∧ KERNEL_VM_OFFSET < f :=
  h.directories.tables.isFrame (by simp [hf]) (by simp [hf])

/-- What `get_kva_of_uva` reads, with the offset and without. -/
lemma getKvaOfUva (hd : pgdir ∈ spaces) (ho : Own (vpn2 uva)) (hne : m.leaf pgdir (vpns uva) ≠ 0) :
    m.getKvaOfUva uva pgdir = frameOf (m.leaf pgdir (vpns uva)) + uva % 4096 ∧
      m.getKvaOfUva uva pgdir &&& PAGE_MASK = frameOf (m.leaf pgdir (vpns uva)) := by
  obtain ⟨f, bits, hleaf, hf, hbits, -⟩ := (h.leaf (pgdir, vpns uva) hd ho).ok.resolve_left hne
  have hleaf : m.leaf pgdir (vpns uva) = entry f bits := hleaf
  rw [hleaf, Mm.frameOf_entry hf.1 hbits]
  exact ⟨getKvaOfUva_of_leaf hleaf hf.1 hf.2.ne' hbits,
    getKvaOfUva_and_mask hleaf hf.1 hf.2.ne' hbits⟩

/-- `NULL` is mapped nowhere. -/
lemma frame_pos (hd : pgdir ∈ spaces) (ho : Own (vpn2 uva)) (hne : m.leaf pgdir (vpns uva) ≠ 0) :
    0 < frameOf (m.leaf pgdir (vpns uva)) := by
  obtain ⟨f, bits, hleaf, hf, hbits, -⟩ := (h.leaf (pgdir, vpns uva) hd ho).ok.resolve_left hne
  have hleaf : m.leaf pgdir (vpns uva) = entry f bits := hleaf
  rw [hleaf, Mm.frameOf_entry hf.1 hbits]
  exact Nat.zero_lt_of_lt hf.2

/-! ## Owners and shared frames -/

/-- A frame loses its owner. -/
lemma sublist (hl : l'.Sublist l) : Exclusive m spaces role e S l' where
  directories := h.directories
  page := fun o ho => h.page o (hl.subset ho)
  nodup := h.nodup.sublist (hl.map _)
  leaf := fun a ha ho =>
    ⟨(h.leaf a ha ho).ok, fun hp hs o hol => (h.leaf a ha ho).owner hp hs o (hl.subset hol)⟩

/-- Only the shared frames that have an owner count. -/
lemma shared (hS : ∀ o ∈ l, o.2 ∈ S → o.2 ∈ S') : Exclusive m spaces role e S' l where
  directories := h.directories
  page := h.page
  nodup := h.nodup
  leaf := fun a ha ho => by
    refine ⟨(h.leaf a ha ho).ok, fun hp hs o hol heq =>
      (h.leaf a ha ho).owner hp (fun hmem => hs ?_) o hol heq⟩
    rw [← heq] at hmem ⊢
    exact hS o hol hmem

/-- A page of a process that one page maps gets this page for its owner. -/
lemma own (hf : role f = .page) (hl : ∀ o ∈ l, o.2 ≠ f)
    (honly : ∀ b : UserPage, b.1 ∈ spaces → Own b.2.1 → Present (m.leaf b.1 b.2) →
      frameOf (m.leaf b.1 b.2) = f → b = a) : Exclusive m spaces role e S (l ++ [(a, f)]) where
  directories := h.directories
  page := by
    intro o ho
    rcases List.mem_append.1 ho with ho | ho
    · exact h.page o ho
    · rw [List.mem_singleton.1 ho]
      exact hf
  nodup := by
    rw [List.map_append, List.nodup_append]
    refine ⟨h.nodup, List.nodup_singleton _, fun x hx y hy => ?_⟩
    obtain ⟨o, ho, rfl⟩ := List.mem_map.1 hx
    rw [List.mem_singleton.1 hy]
    exact hl o ho
  leaf := by
    intro b hb hob
    refine ⟨(h.leaf b hb hob).ok, fun hp hs o ho heq => ?_⟩
    rcases List.mem_append.1 ho with ho | ho
    · exact (h.leaf b hb hob).owner hp hs o ho heq
    · rw [List.mem_singleton.1 ho] at heq ⊢
      exact (honly b hb hob hp heq.symm).symm

/-! ## Pages -/

/-- What happens to tables and free pages only, and leaves the entries of the third level. -/
lemma of_sameLeaves (hd : Directories m' spaces' role' e')
    (hpage : ∀ f, role f = .page → role' f = .page) (hsub : spaces' ⊆ spaces)
    (hleaf : SameLeaves spaces' m m') : Exclusive m' spaces' role' e' S l where
  directories := hd
  page := fun o ho => hpage _ (h.page o ho)
  nodup := h.nodup
  leaf := fun a ha ho => by
    rw [hleaf a.1 ha a.2 ho]
    exact (h.leaf a (hsub ha) ho).mono hpage

/-- The entry of one page changes. -/
lemma of_sameBut (hd : Directories m' spaces role' e')
    (hpage : ∀ f, role f = .page → role' f = .page) (hsame : SameBut spaces a.1 a.2 m m')
    (hself : EntryOf role' S l a (m'.leaf a.1 a.2)) : Exclusive m' spaces role' e' S l where
  directories := hd
  page := fun o ho => hpage _ (h.page o ho)
  nodup := h.nodup
  leaf := by
    intro b hb hob
    rcases eq_or_ne b a with rfl | hne
    · exact hself
    · rw [hsame b.1 hb b.2 hob hne]
      exact (h.leaf b hb hob).mono hpage

/-- The kernel takes a page, for itself or for a process. -/
lemma kalloc (hr : r ≠ .free) (hdir : r ≠ .dir) (hk : m.kalloc = some (p, m')) :
    ∃ e', Exclusive m' spaces (Function.update role p r) e' S l ∧ role p = .free ∧
      SameLeaves spaces m m' := by
  obtain ⟨e', hd, hfree, -, -, hleaf, -⟩ := h.directories.kalloc hr hdir hk
  refine ⟨e', h.of_sameLeaves hd (fun f hf => ?_) subset_rfl hleaf, hfree, hleaf⟩
  rw [update_of_not_free hfree (by simp [hf]), hf]

/-- The page of a new page directory. -/
lemma newPgdir (hk : m.kalloc = some (p, m')) :
    ∃ e', Exclusive m' (insert p spaces) (Function.update role p .dir) e' S l ∧ role p = .free ∧
      SameLeaves spaces m m' := by
  obtain ⟨e', hd, hfree, hzero, -, hleaf, -⟩ := h.directories.newPgdir hk
  have hpage : ∀ f, role f = .page → Function.update role p .dir f = .page := fun f hf => by
    rw [update_of_not_free hfree (by simp [hf]), hf]
  refine ⟨e', ⟨hd, fun o ho => hpage _ (h.page o ho), h.nodup, fun a ha ho => ?_⟩, hfree, hleaf⟩
  rcases Finset.mem_insert.1 ha with hap | ha
  · rw [hap, hzero]
    exact EntryOf.zero
  · rw [hleaf a.1 ha a.2 ho]
    exact (h.leaf a ha ho).mono hpage

/-- The pages of an address space go with it. -/
lemma of_frees (hd : d ∈ spaces) (ht : Tables m' role' e) (hfree : role' d = .free)
    (hfrees : Frees {f | Tables.Belongs role d f} m m' role role') :
    Exclusive m' (spaces.erase d) role' e S l ∧
      Undisturbed (spaces.erase d) S U role role' m m' := by
  have hstays := Stays.of_frees (h.directories.role_dir hd) hfrees
  obtain ⟨hdirs, hleaf, -⟩ := h.directories.of_frees hd ht hfree hfrees
  exact ⟨h.of_sameLeaves hdirs (fun f => hstays.page) (Finset.erase_subset _ _) hleaf,
    Undisturbed.of_sameLeaves (fun f => hstays.page) hleaf⟩

/-! ## Entries -/

/-- `map_uva_to_kva` of a page of a process: it is shared, or has no owner. -/
lemma mapUvaToKva (hd : pgdir ∈ spaces) (ho : Own (vpn2 uva)) (hkva : role kva = .page)
    (howner : kva ∉ S → ∀ o ∈ l, o.2 ≠ kva) (hm : m.mapUvaToKva uva kva pgdir = some m') :
    ∃ role' e', Exclusive m' spaces role' e' S l ∧ Tables.Grows role role' ∧
      m'.leaf pgdir (vpns uva) = entry kva PAGE_ALL ∧ SameBut spaces pgdir (vpns uva) m m' := by
  obtain ⟨role', e', hdirs, hgrows, hself, hsame, -⟩ := h.directories.mapUvaToKva hd ho hm
  have hpage : ∀ f, role f = .page → role' f = .page := fun f hf => by
    rw [hgrows.keep f (by simp [hf]), hf]
  refine ⟨role', e', h.of_sameBut (a := (pgdir, vpns uva)) hdirs hpage hsame ?_,
    hgrows, hself, hsame⟩
  show EntryOf role' S l (pgdir, vpns uva) (m'.leaf pgdir (vpns uva))
  rw [hself]
  exact EntryOf.of_entry (h.isFrame hkva) (by decide) (fun _ => hpage kva hkva)
    fun _ hs o hol heq => absurd heq (howner hs o hol)

/-- A page gets a frame that was free, and owns it. -/
lemma mapNew {m₁ : Memory} (hd : pgdir ∈ spaces) (ho : Own (vpn2 uva))
    (hk : m.kalloc = some (kva, m₁)) (hm : m₁.mapUvaToKva uva kva pgdir = some m') :
    ∃ role' e', Exclusive m' spaces role' e' S (l ++ [((pgdir, vpns uva), kva)]) ∧
      role kva = .free ∧ role' kva = .page ∧ (∀ f, role f = .page → role' f = .page) ∧
      m'.leaf pgdir (vpns uva) = entry kva PAGE_ALL ∧ SameBut spaces pgdir (vpns uva) m m' := by
  obtain ⟨e₁, h₁, hfree, hleaf⟩ := h.kalloc (r := .page) (by simp) (by simp) hk
  have hkva : Function.update role kva .page kva = .page := Function.update_self ..
  have hnew : ∀ o ∈ l, o.2 ≠ kva := by
    rintro o hol rfl
    exact absurd (h.page o hol) (by simp [hfree])
  obtain ⟨role', e', h₂, hgrows, hself, hsame⟩ := h₁.mapUvaToKva hd ho hkva (fun _ => hnew) hm
  have hsame' : SameBut spaces pgdir (vpns uva) m m' := fun d hd q hq hne => by
    rw [hsame d hd q hq hne, hleaf d hd q hq]
  have hkva' : role' kva = .page := by rw [hgrows.keep kva (by simp), hkva]
  refine ⟨role', e', h₂.own hkva' hnew fun b hb hob hp hframe => ?_, hfree, hkva', fun f hf => ?_,
    hself, hsame'⟩
  · by_contra hne
    -- another page that maps the frame has mapped it before
    rw [hsame' b.1 hb b.2 hob hne] at hp hframe
    have hrole := (h.leaf b hb hob).ok.role_frameOf hp
    rw [hframe, hfree] at hrole
    cases hrole
  · have hf' : Function.update role kva .page f = .page := by
      rw [update_of_not_free hfree (by simp [hf]), hf]
    rw [hgrows.keep f (by simp [hf']), hf']

/-- The attributes of an entry change, but it does not become present. -/
lemma modifyAttributes {g : ℕ → ℕ} (hd : pgdir ∈ spaces) (ho : Own (vpn2 uva))
    (hg : ∀ f bits, IsFrame f → bits < 2 ^ 10 →
      ∃ bits' < 2 ^ 10, (bits' % 2 = 1 → bits % 2 = 1) ∧ g (entry f bits) = entry f bits')
    (hm : m.modifyPte uva pgdir g = some m') :
    Exclusive m' spaces role e S l ∧ Undisturbed spaces S ∅ role role m m' ∧
      m'.leaf pgdir (vpns uva) = g (m.leaf pgdir (vpns uva)) := by
  obtain ⟨hne, hdirs, hself, hsame, -⟩ := h.directories.modifyPte hd ho hm
  have hold := h.leaf (pgdir, vpns uva) hd ho
  obtain ⟨f, bits, hleaf, hf, hbits, hpage⟩ := hold.ok.resolve_left hne
  obtain ⟨bits', hbits', hodd, heq⟩ := hg f bits hf.1 hbits
  have hleaf : m.leaf pgdir (vpns uva) = entry f bits := hleaf
  have hself' : m'.leaf pgdir (vpns uva) = entry f bits' := by rw [hself, hleaf, heq]
  refine ⟨h.of_sameBut (a := (pgdir, vpns uva)) hdirs (fun _ => id) hsame ?_, ⟨fun _ _ => id,
    fun b hb hob _ hb0 => ?_⟩, hself⟩
  · show EntryOf role S l (pgdir, vpns uva) (m'.leaf pgdir (vpns uva))
    rw [hself']
    refine EntryOf.of_entry hf hbits' (fun h' => hpage (hodd h')) fun h' hs o hol heq => ?_
    have howner := hold.owner
    simp only [hleaf, present_entry hf.1 hbits, Mm.frameOf_entry hf.1 hbits] at howner
    exact howner (hodd h') hs o hol heq
  · rcases eq_or_ne b (pgdir, vpns uva) with rfl | hba
    · show m'.leaf pgdir (vpns uva) ≠ 0 ∧ frameOf (m'.leaf pgdir (vpns uva)) =
        frameOf (m.leaf pgdir (vpns uva))
      rw [hself', hleaf, Mm.frameOf_entry hf.1 hbits', Mm.frameOf_entry hf.1 hbits]
      exact ⟨EntryOk.entry_ne_zero hf hbits', rfl⟩
    · rw [hsame b.1 hb b.2 hob hba]
      exact ⟨hb0, rfl⟩

/-- An entry is cleared. -/
lemma clear (hd : pgdir ∈ spaces) (ho : Own (vpn2 uva))
    (hm : m.modifyPte uva pgdir (fun _ => 0) = some m') :
    m.leaf pgdir (vpns uva) ≠ 0 ∧ Exclusive m' spaces role e S l ∧
      Undisturbed spaces S {(pgdir, vpns uva)} role role m m' := by
  obtain ⟨hne, hdirs, hself, hsame, -⟩ := h.directories.modifyPte hd ho hm
  refine ⟨hne, h.of_sameBut (a := (pgdir, vpns uva)) hdirs (fun _ => id) hsame ?_,
    Undisturbed.of_sameBut (a := (pgdir, vpns uva)) (fun _ => id) hsame (Set.mem_singleton _)⟩
  show EntryOf role S l (pgdir, vpns uva) (m'.leaf pgdir (vpns uva))
  rw [hself]
  exact EntryOf.zero

end Exclusive

/-- The frame of the first owner becomes free when it is not shared: its entry is not present any
more, and there is no other. -/
lemma Exclusive.unmap (h : Exclusive m spaces role e S (((pgdir, vpns uva), kva) :: l))
    (hd : pgdir ∈ spaces) (ho : Own (vpn2 uva)) (hs : kva ∉ S)
    (hm : m.modifyPte uva pgdir (fun pte => unsetAttribute pte PAGE_PRESENT) = some m') :
    Exclusive (m'.kfree kva) spaces (Function.update role kva .free) e S l ∧
      Undisturbed spaces S ∅ role (Function.update role kva .free) m (m'.kfree kva) := by
  have hpage : role kva = .page := h.page _ List.mem_cons_self
  have hunset : ∀ f bits, IsFrame f → bits < 2 ^ 10 → ∃ bits' < 2 ^ 10,
      (bits' % 2 = 1 → bits % 2 = 1) ∧
        unsetAttribute (entry f bits) PAGE_PRESENT = entry f bits' := by
    intro f bits hf hbits
    obtain ⟨bits', hbits', heq⟩ :=
      exists_unsetAttribute (show PAGE_PRESENT < 2 ^ 10 by decide) hf hbits
    refine ⟨bits', hbits', fun hodd => ?_, heq⟩
    exact absurd (heq ▸ (present_entry hf hbits').2 hodd) not_present_unsetAttribute
  obtain ⟨h₁, hund, hself⟩ := h.modifyAttributes hd ho hunset hm
  obtain ⟨hdirs, hleaf, -⟩ := h₁.directories.kfree hpage
  have hnot : ∀ b : UserPage, b.1 ∈ spaces → Own b.2.1 → Present (m'.leaf b.1 b.2) →
      frameOf (m'.leaf b.1 b.2) ≠ kva := by
    intro b hb hob hp heq
    have hba : (pgdir, vpns uva) = b :=
      (h₁.leaf b hb hob).owner hp (heq ▸ hs) _ List.mem_cons_self heq.symm
    rw [← hba] at hp
    exact not_present_unsetAttribute (hself ▸ hp)
  have hkeep : ∀ f, f ≠ kva → Function.update role kva .free f = role f := fun f hf =>
    Function.update_of_ne hf _ _
  have hnodup := h.nodup
  rw [List.map_cons, List.nodup_cons] at hnodup
  refine ⟨⟨hdirs, fun o ho => ?_, hnodup.2, fun b hb hob => ?_⟩,
    hund.trans ⟨fun f hf hr => ?_, fun b hb hob _ hne => ?_⟩⟩
  · rw [hkeep, h.page o (List.mem_cons_of_mem _ ho)]
    rintro heq
    exact hnodup.1 (List.mem_map.2 ⟨o, ho, heq⟩)
  · rw [hleaf b.1 hb b.2 hob]
    have hb' := h₁.leaf b hb hob
    refine ⟨hb'.ok.of_present fun hp => ?_, fun hp hs' o hol =>
      hb'.owner hp hs' o (List.mem_cons_of_mem _ hol)⟩
    rw [hkeep _ (hnot b hb hob hp)]
    exact hb'.ok.role_frameOf hp
  · rw [hkeep f, hr]
    rintro rfl
    exact hs hf
  · rw [hleaf b.1 hb b.2 hob]
    exact ⟨hne, rfl⟩

end Mm
end UcasKernel
