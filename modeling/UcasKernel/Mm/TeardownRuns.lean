/-
Tearing down in the runs of the memory manager.

Every page that is mapped has a record with its address and its frame, as long as a page
gets its record when it is mapped and loses it with its mapping.  Three things break this:
a get of a key that is in use maps the page without a record, the record of the stack of a
thread is freed by its frame while the page stays mapped, and a fault in the upper half of
the addresses leaves a record with bits that no address computed from indices has.
-/
import UcasKernel.Mm.Teardown

namespace UcasKernel
namespace Mm

open Links (appendTo removeFrom)
open Memory

/-! ## The records of the pages -/

/-- A record in use is that of a page: its address, its directory and its frame. -/
def State.Records (s : State) (r : Pfn) (p : Vpns) (d kva : ℕ) : Prop :=
  (s.pages r).pageId ≠ 0 ∧ (s.pages r).uva = uvaOf p ∧ (s.pages r).pgdir = d ∧ (s.pages r).kva = kva

/-- Every page that is mapped has a record, no two records have a frame in common, and every
shared page was got once. -/
structure Recorded (s : State) (spaces : Finset ℕ) (role : ℕ → Role) : Prop where
  leaf : ∀ d ∈ spaces, ∀ p : Vpns, Own p.1 → s.leaf d p ≠ 0 →
    ∃ r, s.Records r p d (frameOf (s.leaf d p))
  page : ∀ r, (s.pages r).pageId ≠ 0 → role (s.pages r).kva = .page
  kvas : ∀ r r', (s.pages r).pageId ≠ 0 → (s.pages r').pageId ≠ 0 →
    (s.pages r).kva = (s.pages r').kva → r = r'
  refs : ∀ i, (s.sharePages i).ref ≤ 1

lemma refs_update {p : Fin 16 → SharePage} {i : Fin 16} {v : SharePage} (hv : v.ref ≤ 1)
    (h : ∀ j, (p j).ref ≤ 1) (j : Fin 16) : (Function.update p i v j).ref ≤ 1 := by
  rcases eq_or_ne j i with rfl | hj
  · rwa [Function.update_self]
  · rw [Function.update_of_ne hj]
    exact h j

namespace Recorded

variable {A : Prop} {s t : State} {spaces spaces' : Finset ℕ} {role role' : ℕ → Role} {e e' : ℕ}
  {q q' : Queue → List Pfn} {r : Pfn} {m : Memory} {uva pgdir kva : ℕ} {page : Page}

/-- No record is new, and those of the pages that are mapped are left. -/
lemma of_le (h : Recorded s spaces role) (hstays : Stays role role')
    (hpages : ∀ r, (t.pages r).pageId ≠ 0 → t.pages r = s.pages r)
    (hrefs : ∀ i, (t.sharePages i).ref ≤ 1)
    (hleaf : ∀ d ∈ spaces', ∀ p : Vpns, Own p.1 → t.leaf d p ≠ 0 → d ∈ spaces ∧ s.leaf d p ≠ 0 ∧
      frameOf (t.leaf d p) = frameOf (s.leaf d p) ∧
        ∀ r, s.Records r p d (frameOf (s.leaf d p)) → t.pages r = s.pages r) :
    Recorded t spaces' role' where
  leaf := by
    intro d hd p hp hne
    obtain ⟨hmem, hne', hframe, hkeep⟩ := hleaf d hd p hp hne
    obtain ⟨r, hr⟩ := h.leaf d hmem p hp hne'
    refine ⟨r, ?_⟩
    rw [State.Records, hkeep r hr, hframe]
    exact hr
  page := by
    intro r hr
    have heq := hpages r hr
    rw [heq] at hr ⊢
    exact hstays.page (h.page r hr)
  kvas := by
    intro r r' hr hr'
    have heq := hpages r hr
    have heq' := hpages r' hr'
    rw [heq] at hr ⊢
    rw [heq'] at hr' ⊢
    exact h.kvas r r' hr hr'
  refs := hrefs

/-- Only the tables change, and every page that is mapped was mapped. -/
lemma of_memory (h : Recorded s spaces role) (hstays : Stays role role')
    (hleaf : ∀ d ∈ spaces', ∀ p : Vpns, Own p.1 → m.leaf d p ≠ 0 → d ∈ spaces ∧ s.leaf d p ≠ 0 ∧
      frameOf (m.leaf d p) = frameOf (s.leaf d p)) :
    Recorded { s with toMemory := m } spaces' role' :=
  h.of_le hstays (fun _ _ => rfl) h.refs fun d hd p hp hne =>
    let ⟨hmem, hne', hframe⟩ := hleaf d hd p hp hne
    ⟨hmem, hne', hframe, fun _ _ => rfl⟩

lemma of_sameLeaves (h : Recorded s spaces role) (hstays : Stays role role')
    (hleaf : SameLeaves spaces s.toMemory m) : Recorded { s with toMemory := m } spaces role' := by
  refine h.of_memory hstays fun d hd p hp hne => ?_
  rw [hleaf d hd p hp] at hne ⊢
  exact ⟨hd, hne, rfl⟩

lemma of_sameFrames (h : Recorded s spaces role) (hstays : Stays role role')
    (hframes : SameFrames spaces s.toMemory m) (hnone : NoneNew spaces s.toMemory m) :
    Recorded { s with toMemory := m } spaces role' := by
  refine h.of_memory hstays fun d hd p hp hne => ?_
  have hne' := hnone d hd p hp hne
  exact ⟨hd, hne', (hframes d hd p hp hne').2⟩

/-- A page of a new frame is mapped and gets a record. -/
lemma alloc (h : Recorded s spaces role) (hs : Spaces False t.toMemory spaces role' e')
    (hstays : Stays role role') (hd : pgdir ∈ spaces) (ho : Own (vpn2 uva))
    (huva : uvaOf (vpns uva) = uva) (hfree : role kva = .free) (hr : (s.pages r).pageId = 0)
    (hpage : page.pageId ≠ 0 ∧ page.uva = uva ∧ page.pgdir = pgdir ∧ page.kva = kva)
    (hpages : t.pages = Function.update s.pages r page) (hrefs : ∀ i, (t.sharePages i).ref ≤ 1)
    (hself : t.leaf pgdir (vpns uva) ≠ 0 ∧ frameOf (t.leaf pgdir (vpns uva)) = kva)
    (hold : ∀ d ∈ spaces, ∀ p : Vpns, Own p.1 → (d, p) ≠ (pgdir, vpns uva) → t.leaf d p ≠ 0 →
      s.leaf d p ≠ 0 ∧ frameOf (t.leaf d p) = frameOf (s.leaf d p)) : Recorded t spaces role' := by
  have hnew : t.pages r = page := by rw [hpages, Function.update_self]
  have hother : ∀ r', r' ≠ r → t.pages r' = s.pages r' := fun r' hr' => by
    rw [hpages, Function.update_of_ne hr']
  -- the frame is in no other record
  have hfresh : ∀ r', r' ≠ r → (t.pages r').pageId ≠ 0 → (t.pages r').kva ≠ kva := by
    intro r' hne hr' heq
    rw [hother r' hne] at hr' heq
    have hrole := h.page r' hr'
    rw [heq, hfree] at hrole
    cases hrole
  constructor
  · intro d hd' p hp hne
    by_cases hdp : (d, p) = (pgdir, vpns uva)
    · rw [Prod.mk.injEq] at hdp
      obtain ⟨rfl, rfl⟩ := hdp
      refine ⟨r, ?_⟩
      rw [State.Records, hnew, hself.2, huva]
      exact hpage
    · obtain ⟨hne', hframe⟩ := hold d hd' p hp hdp hne
      obtain ⟨r', hr'⟩ := h.leaf d hd' p hp hne'
      have hrr : r' ≠ r := by
        rintro rfl
        exact hr'.1 hr
      refine ⟨r', ?_⟩
      rw [State.Records, hother r' hrr, hframe]
      exact hr'
  · intro r' hr'
    rcases eq_or_ne r' r with rfl | hne
    · obtain ⟨bits, -, -, hf⟩ := hs.frame hd ho hself.1
      rw [hself.2] at hf
      rw [hnew, hpage.2.2.2]
      exact hf.resolve_right And.left
    · rw [hother r' hne] at hr' ⊢
      exact hstays.page (h.page r' hr')
  · intro r₁ r₂ hr₁ hr₂ heq
    have hkva : (t.pages r).kva = kva := by rw [hnew, hpage.2.2.2]
    by_cases h₁ : r₁ = r <;> by_cases h₂ : r₂ = r
    · exact h₁.trans h₂.symm
    · exact absurd (heq.symm.trans (h₁ ▸ hkva)) (hfresh r₂ h₂ hr₂)
    · exact absurd (heq.trans (h₂ ▸ hkva)) (hfresh r₁ h₁ hr₁)
    · rw [hother r₁ h₁] at hr₁ heq
      rw [hother r₂ h₂] at hr₂ heq
      exact h.kvas r₁ r₂ hr₁ hr₂ heq
  · exact hrefs

/-- `alloc_page_helper`, and then a change of the attributes. -/
lemma allocPageHelper {u : State} (h : Recorded s spaces role)
    (hs : Spaces False s.toMemory spaces role e) (hb : s.Book q) (hq : q .swappedPagesQueue = [])
    (hd : pgdir ∈ spaces) (ho : Own (vpn2 uva)) (huva : uvaOf (vpns uva) = uva)
    (halloc : s.allocPageHelper MAX_PRESENT_PFN uva pgdir = some (kva, u))
    (ht : Spaces False t.toMemory spaces role' e') (hstays : Stays role role')
    (hpages : t.pages = u.pages) (hrefs : ∀ i, (t.sharePages i).ref ≤ 1)
    (hframes : SameFrames spaces u.toMemory t.toMemory)
    (hnone : NoneNew spaces u.toMemory t.toMemory) : Recorded t spaces role' := by
  obtain ⟨-, -, hfree, role₁, e₁, hs₁, -, hpage, hself, hsame, -⟩ :=
    hs.allocPageHelper hb hq hd ho halloc
  obtain ⟨m₁, m₂, r, L, -, -, rfl, hbook⟩ := hb.allocPageHelper_spec halloc
  -- the record is put on the queue, so it was on none
  have hr : (s.pages r).pageId = 0 := by
    by_contra hne
    obtain ⟨g, hmem⟩ := (hb.used r).1 hne
    cases g with
    | presentPagesQueue =>
      have hnodup := hbook.repr.nodup .presentPagesQueue
      rw [Links.appendTo_self, List.nodup_append] at hnodup
      exact hnodup.2.2 r hmem r (List.mem_singleton_self r) rfl
    | swappedPagesQueue =>
      rw [hq] at hmem
      cases hmem
  have hid : s.pageId + 1 ≠ 0 := by
    have := hb.pageId_nonneg
    omega
  have hnew : m₂.leaf pgdir (vpns uva) ≠ 0 ∧ frameOf (m₂.leaf pgdir (vpns uva)) = kva := by
    rw [show m₂.leaf pgdir (vpns uva) = entry kva PAGE_ALL from hself]
    exact ⟨hs₁.entry_ne_zero (Or.inl hpage) (by decide), hs₁.frameOf_entry (Or.inl hpage) (by decide)⟩
  obtain ⟨hne, hframe⟩ := hframes pgdir hd (vpns uva) ho hnew.1
  refine h.alloc ht hstays hd ho huva hfree hr ⟨hid, rfl, rfl, rfl⟩ hpages hrefs
    ⟨hne, hframe.trans hnew.2⟩ fun d hd' p hp hdp hne' => ?_
  have hne₂ := hnone d hd' p hp hne'
  have hframe₂ := (hframes d hd' p hp hne₂).2
  rw [hsame d hd' p hp hdp] at hne₂ hframe₂
  exact ⟨hne₂, hframe₂⟩

/-- The record that is freed is of a frame that is mapped no more. -/
lemma freePageWithKva {f : ℕ} (h : Recorded s spaces role) (hstays : Stays role role')
    (hpages : ∃ r, (s.pages r).kva = f ∧ (t.pages r).pageId = 0 ∧
      ∀ r', r' ≠ r → t.pages r' = s.pages r')
    (hrefs : ∀ i, (t.sharePages i).ref ≤ 1)
    (hleaf : ∀ d ∈ spaces, ∀ p : Vpns, Own p.1 → t.leaf d p ≠ 0 → s.leaf d p ≠ 0 ∧
      frameOf (t.leaf d p) = frameOf (s.leaf d p) ∧ frameOf (s.leaf d p) ≠ f) :
    Recorded t spaces role' := by
  obtain ⟨r, hkva, hzero, hother⟩ := hpages
  refine h.of_le hstays (fun r' hr' => hother r' ?_) hrefs fun d hd p hp hne => ?_
  · rintro rfl
    exact hr' hzero
  · obtain ⟨hne', hframe, hf⟩ := hleaf d hd p hp hne
    refine ⟨hd, hne', hframe, fun r' hr' => hother r' ?_⟩
    rintro rfl
    exact hf (hr'.2.2.2.symm.trans hkva)

/-- The record of a page that is mapped can be freed by its frame. -/
lemma freePageWithKva_isSome {p : Vpns} (h : Recorded s spaces role) (hd : pgdir ∈ spaces)
    (hp : Own p.1) (hne : s.leaf pgdir p ≠ 0) (ht : t.Book q) (hpages : t.pages = s.pages) :
    ∃ u, t.freePageWithKva (frameOf (s.leaf pgdir p)) = some u := by
  obtain ⟨r, hused, -, -, hkva⟩ := h.leaf pgdir hd p hp hne
  rw [← hpages] at hused hkva
  exact ht.freePageWith_isSome (g := fun page => (t.pages page).kva = frameOf (s.leaf pgdir p))
    (fun _ => ht.find _) hused (decide_eq_true hkva)

end Recorded

namespace Sharing

variable {x y : Sharing} {role role' : ℕ → Role} {e e' : ℕ} {q q' : Queue → List Pfn}
  {s t : State} {uva pgdir kva : ℕ} {key : ℤ}

@[simp] lemma record_state : (x.record key pgdir uva).state = x.state := by
  rw [record]
  split_ifs <;> rfl

@[simp] lemma record_spaces : (x.record key pgdir uva).spaces = x.spaces := by
  rw [record]
  split_ifs <;> rfl

/-- A page that has been got and not given up was got once. -/
lemma Inv.ref_eq_one {i : Fin 16} (h : x.Inv False role e q) (hr : Recorded x.state x.spaces role)
    (hpage : role (x.state.sharePages i).kva = .page) : (x.state.sharePages i).ref = 1 := by
  have hkey := (h.keyed id).slots.key_ne (fun hzero => h.spaces.ne_zero hzero rfl) hpage
  have hpos := (((h.keyed id).slots.ok i).resolve_right fun hfree => hkey hfree.1).2.1
  have hle := hr.refs i
  omega

/-! ## What the events keep -/

section Events

variable (h : x.Inv False role e q) (hr : Recorded x.state x.spaces role) (hstays : Stays role role')
include h hr hstays

lemma Inv.recorded_newPgdir (hc : x.call .newPgdir = some y) : Recorded y.state y.spaces role' := by
  obtain ⟨⟨p, m⟩, hk, rfl⟩ := Option.map_eq_some_iff.1 hc
  obtain ⟨e', -, -, -, hleaf, -⟩ := h.spaces.newPgdir hk
  obtain ⟨l, hl, -⟩ := h.spaces.tables.list
  obtain ⟨l', e', -, -, -, hzero, -⟩ := hl.kalloc hk
  refine hr.of_memory hstays fun d hd v hv hne => ?_
  rcases Finset.mem_insert.1 (show d ∈ insert p x.spaces from hd) with rfl | hd
  · -- the new directory is empty
    rw [leaf, hzero, if_pos rfl] at hne
    exact absurd rfl hne
  · rw [hleaf d hd v hv] at hne ⊢
    exact ⟨hd, hne, rfl⟩

lemma Inv.recorded_sharePgtable (hd : pgdir ∈ x.spaces)
    (hc : x.call (.sharePgtable pgdir) = some y) : Recorded y.state y.spaces role' := by
  rw [Sharing.call, Option.some.injEq] at hc
  subst hc
  obtain ⟨-, hleaf⟩ := h.spaces.sharePgtable hd
  generalize x.state.sharePgtable pgdir PGDIR_VA = m at hleaf ⊢
  exact hr.of_sameLeaves hstays hleaf

lemma Inv.recorded_kalloc (hc : x.call .kalloc = some y) : Recorded y.state y.spaces role' := by
  obtain ⟨⟨p, m⟩, hk, rfl⟩ := Option.map_eq_some_iff.1 hc
  obtain ⟨e', -, -, -, hleaf, -⟩ := h.spaces.kalloc (r := .kernel) (by simp) (by simp) hk
  exact hr.of_sameLeaves hstays hleaf

lemma Inv.recorded_allocPageHelper (hy : y.Inv False role' e' q') (hd : pgdir ∈ x.spaces)
    (ho : Own (vpn2 uva)) (huva : uvaOf (vpns uva) = uva)
    (hc : x.call (.allocPageHelper uva pgdir) = some y) : Recorded y.state y.spaces role' := by
  obtain ⟨⟨kva, s⟩, hs, rfl⟩ := Option.map_eq_some_iff.1 hc
  obtain ⟨-, hshare, -⟩ := h.spaces.allocPageHelper h.book h.swapped hd ho hs
  refine hr.allocPageHelper h.spaces h.book h.swapped hd ho huva hs hy.spaces hstays rfl
    (fun i => ?_) (SameLeaves.sameFrames fun _ _ _ _ => rfl) fun _ _ _ _ => id
  show (s.sharePages i).ref ≤ 1
  rw [hshare]
  exact hr.refs i

lemma Inv.recorded_unsetExec (hd : pgdir ∈ x.spaces) (ho : Own (vpn2 uva))
    (hc : x.call (.unsetExec uva pgdir) = some y) : Recorded y.state y.spaces role' := by
  obtain ⟨m, hm, rfl⟩ := Option.map_eq_some_iff.1 hc
  have hexec : PAGE_EXEC < 2 ^ 10 := by decide
  obtain ⟨-, hframes, hnone⟩ :=
    h.spaces.modifyAttributes hd ho (fun _ _ => exists_unsetAttribute hexec) hm
  exact hr.of_sameFrames hstays hframes hnone

lemma Inv.recorded_handlePageFault {store : Bool} (hy : y.Inv False role' e' q')
    (hd : pgdir ∈ x.spaces) (ho : Own (vpn2 uva)) (hlt : uva < 2 ^ 39)
    (hc : x.call (.handlePageFault uva pgdir store) = some y) :
    Recorded y.state y.spaces role' := by
  obtain ⟨s, hs, rfl⟩ := Option.map_eq_some_iff.1 hc
  have hown : Own (vpn2 (uva &&& PAGE_MASK)) := by rwa [vpn2_and_pageMask]
  obtain ⟨-, kva, u, m, halloc, rfl, hattr⟩ := h.handlePageFault_spec hd hown hs
  obtain ⟨-, hshare, -, role₁, e₁, hspaces, -⟩ :=
    h.spaces.allocPageHelper h.book h.swapped hd hown halloc
  obtain ⟨-, hframes, hnone⟩ := hattr role₁ e₁ hspaces
  have halign : uvaOf (vpns (uva &&& PAGE_MASK)) = uva &&& PAGE_MASK := by
    rw [uvaOf_vpns_iff, and_pageMask (by omega), PAGE_SIZE]
    omega
  refine hr.allocPageHelper h.spaces h.book h.swapped hd hown halign halloc hy.spaces hstays rfl
    (fun i => ?_) hframes hnone
  show (u.sharePages i).ref ≤ 1
  rw [hshare]
  exact hr.refs i

lemma Inv.recorded_swapInAllPages (hc : x.call (.swapInAllPages pgdir) = some y) :
    Recorded y.state y.spaces role' := by
  obtain ⟨s, hs, rfl⟩ := Option.map_eq_some_iff.1 hc
  obtain rfl := h.book.swapInAllPages_eq h.swapped hs
  exact hr.of_sameLeaves hstays fun _ _ _ _ => rfl

/-- A record is freed by a frame that no address maps. -/
lemma Inv.recorded_freePageWithKva
    (hkva : ∀ d ∈ x.spaces, ∀ p : Vpns, Own p.1 → x.state.leaf d p ≠ 0 →
      frameOf (x.state.leaf d p) ≠ kva)
    (hc : x.call (.freePageWithKva kva) = some y) : Recorded y.state y.spaces role' := by
  obtain ⟨s, hs, rfl⟩ := Option.map_eq_some_iff.1 hc
  obtain ⟨-, -, hmem, hshare, -⟩ := h.book.freePageWith_drops (fun _ => h.book.find _) hs
  obtain ⟨r, -, hfound, hzero, hother⟩ := h.book.freePageWith_pages (fun _ => h.book.find _) hs
  refine hr.freePageWithKva (t := s) hstays ⟨r, of_decide_eq_true hfound, hzero, hother⟩
    (fun i => ?_) fun d hd p hp hne => ?_
  · rw [hshare]
    exact hr.refs i
  · rw [hmem] at hne ⊢
    exact ⟨hne, rfl, hkva d hd p hp hne⟩

/-- The records that are freed are those of the address space. -/
lemma Inv.recorded_exit (hd : pgdir ∈ x.spaces) (hc : x.call (.exit pgdir) = some y) :
    Recorded y.state y.spaces role' := by
  simp only [Sharing.call, Option.map_eq_some_iff] at hc
  obtain ⟨s, hs, rfl⟩ := hc
  obtain ⟨-, role₁, ht, hfree, hfrees⟩ :=
    State.freePgdir_tables h.book h.spaces.tables (h.spaces.role_dir hd) hs
  obtain ⟨-, -, hleaf⟩ := h.spaces.of_frees hd ht hfree hfrees
  obtain ⟨-, hshare, hpages, hother⟩ := State.freePagetable_freed h.book hs
  refine hr.of_le (t := { s with toMemory := s.freePgdir pgdir }) hstays hpages (fun i => ?_)
    fun d hd v hv hne => ?_
  · show (s.sharePages i).ref ≤ 1
    rw [hshare]
    exact hr.refs i
  · obtain ⟨hne', hmem⟩ := Finset.mem_erase.1 hd
    have heq := hleaf d hd v hv
    refine ⟨hmem, ?_, congrArg frameOf heq, fun r hrec => hother r ?_⟩
    · rw [← heq]
      exact hne
    · rw [hrec.2.2.1]
      exact hne'

lemma Inv.recorded_store {v : ℕ} (hd : pgdir ∈ x.spaces)
    (hc : x.call (.store uva pgdir v) = some y) : Recorded y.state y.spaces role' := by
  obtain ⟨s, hs, rfl⟩ := Option.map_eq_some_iff.1 hc
  obtain ⟨m, rfl, -, hsame⟩ := h.store_spec hd hs
  exact hr.of_sameLeaves hstays hsame

/-- A get of a new key allocates. -/
lemma Inv.recorded_shmPageGet (hy : y.Inv False role' e' q') (hd : pgdir ∈ x.spaces)
    (hnone : x.state.findShare key = none) (hc : x.call (.shmPageGet key pgdir) = some y) :
    Recorded y.state y.spaces role' := by
  obtain ⟨⟨uva, t⟩, hs, rfl⟩ := Option.map_eq_some_iff.1 hc
  have hspaces := hy.spaces
  rw [record_state, record_spaces] at hspaces ⊢
  simp only [State.shmPageGet, hnone] at hs
  cases hfree : x.state.findShare 0 with
  | none =>
    simp only [hfree, Option.some.injEq, Prod.mk.injEq] at hs
    obtain ⟨-, rfl⟩ := hs
    exact hr.of_sameLeaves hstays fun _ _ _ _ => rfl
  | some i =>
    have hi := State.findShare_eq_some hfree
    have href : (x.state.sharePages i).ref = 0 :=
      (((h.keyed id).slots.ok i).resolve_left fun hused => hused.1 hi).2.1
    simp only [hfree, Option.bind_eq_bind, Option.bind_eq_some_iff, Option.some.injEq,
      Prod.mk.injEq] at hs
    obtain ⟨ref, hadd, uva, huva, ⟨kva, u⟩, halloc, rfl, rfl⟩ := hs
    obtain rfl := State.addInt_eq_some hadd
    obtain ⟨-, halign, hlt, -⟩ := Memory.firstUnmapped_uva huva
    obtain ⟨s, hset⟩ : ∃ s, x.state.setSharePage i { x.state.sharePages i with
      key := key, ref := (x.state.sharePages i).ref + 1 } = s := ⟨_, rfl⟩
    have hb : s.Book q := hset ▸ h.book.slot _ _
    have hmem : s.toMemory = x.state.toMemory := hset ▸ rfl
    have hrefs : ∀ j, (s.sharePages j).ref ≤ 1 := by
      rw [← hset]
      refine refs_update ?_ hr.refs
      rw [href]
      exact le_rfl
    have hrs : Recorded s x.spaces role :=
      hset ▸ hr.of_le (Stays.refl role) (fun _ _ => rfl) (hset ▸ hrefs) fun d hd p _ hne =>
        ⟨hd, hne, rfl, fun _ _ => rfl⟩
    rw [hset] at halloc
    have hs : Spaces False s.toMemory x.spaces role e := hmem ▸ h.spaces
    obtain ⟨-, hshare, -⟩ := hs.allocPageHelper hb h.swapped hd (own_vpn2 hlt) halloc
    refine hrs.allocPageHelper (t := u.setSharePage i { u.sharePages i with kva := kva }) hs hb
      h.swapped hd (own_vpn2 hlt) (uvaOf_vpns_iff.2 ⟨halign, by omega⟩) halloc hspaces hstays rfl
      ?_ (SameLeaves.sameFrames fun _ _ _ _ => rfl) fun _ _ _ _ => id
    rw [← hshare] at hrefs
    exact refs_update (hrefs i) hrefs

lemma Inv.recorded_shmPageDt (hd : pgdir ∈ x.spaces) (ho : Own (vpn2 uva))
    (hc : x.call (.shmPageDt uva pgdir) = some y) : Recorded y.state y.spaces role' := by
  obtain ⟨s, hs, rfl⟩ := Option.map_eq_some_iff.1 hc
  simp only [State.shmPageDt, Option.bind_eq_bind, Option.bind_eq_some_iff] at hs
  obtain ⟨m, hm, hs⟩ := hs
  obtain ⟨hne, -, hself, hsame⟩ := h.spaces.modifyPte hd ho (Or.inl rfl) hm
  obtain ⟨f, bits, hleaf, hbits, hf⟩ := (h.spaces.leaf pgdir hd _ ho).resolve_left hne
  obtain ⟨hframe, hlt⟩ := h.spaces.isFrame hf
  rw [getKvaOfUva_and_mask hleaf hframe hlt hbits] at hs
  have hpage : role f = .page := hf.resolve_right And.left
  -- the addresses that are left were mapped, and not to the frame
  have hold : ∀ d ∈ x.spaces, ∀ p : Vpns, Own p.1 → m.leaf d p ≠ 0 → x.state.leaf d p ≠ 0 ∧
      frameOf (m.leaf d p) = frameOf (x.state.leaf d p) ∧ frameOf (x.state.leaf d p) ≠ f := by
    intro d hd' p hp hne'
    have hdp : (d, p) ≠ (pgdir, vpns uva) := by
      rintro heq
      rw [Prod.mk.injEq] at heq
      obtain ⟨rfl, rfl⟩ := heq
      exact hne' hself
    rw [hsame d hd' p hp hdp] at hne' ⊢
    refine ⟨hne', rfl, fun heq => hdp ?_⟩
    obtain ⟨r, hused, huva, hpgdir, hkva⟩ := hr.leaf d hd' p hp hne'
    obtain ⟨r', hused', huva', hpgdir', hkva'⟩ := hr.leaf pgdir hd (vpns uva) ho hne
    rw [hleaf, h.spaces.frameOf_entry hf hbits] at hkva'
    obtain rfl := hr.kvas r r' hused hused' (hkva.trans (heq.trans hkva'.symm))
    exact Prod.ext (hpgdir.symm.trans hpgdir') (State.uvaOf_inj (huva.symm.trans huva'))
  cases hfind : State.findShareKva { x.state with toMemory := m } f with
  | none =>
    rw [hfind] at hs
    obtain rfl := Option.some.inj hs
    exact hr.of_memory hstays fun d hd p hp hne =>
      ⟨hd, (hold d hd p hp hne).1, (hold d hd p hp hne).2.1⟩
  | some i =>
    have hkva : (x.state.sharePages i).kva = f := State.findShareKva_eq_some hfind
    have href := h.ref_eq_one hr (hkva ▸ hpage)
    simp only [hfind, Option.bind_eq_some_iff, href] at hs
    obtain ⟨ref, hadd, hs⟩ := hs
    obtain rfl := State.addInt_eq_some hadd
    rw [if_pos (by decide)] at hs
    simp only [Option.bind_eq_some_iff, Option.some.injEq] at hs
    obtain ⟨u, hu, rfl⟩ := hs
    have hb := fun v w => ((h.book.memory m).slot i v).slot i w
    obtain ⟨-, -, hmem, hshare, -⟩ := (hb _ _).freePageWith_drops (fun _ => (hb _ _).find _) hu
    obtain ⟨r, -, hfound, hzero, hother⟩ := (hb _ _).freePageWith_pages (fun _ => (hb _ _).find _) hu
    have hrkva := of_decide_eq_true hfound
    simp only [State.setSharePage, Function.update_self] at hrkva
    refine hr.freePageWithKva (t := u.setSharePage i { u.sharePages i with kva := 0 }) hstays
      ⟨r, hrkva.trans hkva, hzero, hother⟩ ?_ fun d hd p hp hne => ?_
    · have hrefs : ∀ j, (u.sharePages j).ref ≤ 1 := by
        rw [hshare]
        exact refs_update (by simp [State.setSharePage]) (refs_update (by simp) hr.refs)
      exact refs_update (hrefs i) hrefs
    · have hleaf : (u.setSharePage i { u.sharePages i with kva := 0 }).leaf d p = m.leaf d p := by
        show u.leaf d p = _
        rw [hmem]
        rfl
      rw [hleaf] at hne ⊢
      exact hold d hd p hp hne

end Events

/-! ## Runs -/

/-- A page gets its record when it is mapped, and loses it with its mapping.  A key is got
when no slot has it; a record is freed by its frame when no address maps that; and the
addresses are user addresses below `2 ^ 39`. -/
def Tidy (x : Sharing) : ShareEvent → Prop
  | .allocPageHelper uva _ => Own (vpn2 uva) ∧ uva % PAGE_SIZE = 0 ∧ uva < 2 ^ 39
  | .unsetExec uva _ => Own (vpn2 uva)
  | .handlePageFault stval _ _ => Own (vpn2 stval) ∧ stval < 2 ^ 39
  | .freePageWithKva kva => ∀ d ∈ x.spaces, ∀ p : Vpns, Own p.1 → x.state.leaf d p ≠ 0 →
    frameOf (x.state.leaf d p) ≠ kva
  | .shmPageGet key _ => x.state.findShare key = none
  | .shmPageDt addr _ => Own (vpn2 addr)
  | _ => True

/-- Nothing that tearing down asserts fails, in a state. -/
structure TeardownLaw (x : Sharing) : Prop where
  /-- Every user entry of the third level has a record on one of the queues. -/
  record : ∀ d ∈ x.spaces, ∀ p : Vpns, Own p.1 → x.state.leaf d p ≠ 0 →
    ∃ queue r, x.state.findPageWithUva (uvaOf p) d queue = some (some r)
  /-- The tables of every process can be torn down. -/
  freePagetable : ∀ d ∈ x.spaces, ∃ s, x.state.freePagetable d = some s
  /-- The record of every page that is mapped can be freed by its frame. -/
  freePageWithKva : ∀ d ∈ x.spaces, ∀ p : Vpns, Own p.1 → x.state.leaf d p ≠ 0 →
    ∃ s, x.state.freePageWithKva (frameOf (x.state.leaf d p)) = some s
  /-- So can every user address that is mapped be given up. -/
  shmPageDt : ∀ d ∈ x.spaces, ∀ addr, Own (vpn2 addr) → x.state.getPteOfUva addr d ≠ none →
    ∃ s, x.state.shmPageDt addr d = some s

/-- The two invariants. -/
def TidyInv (x : Sharing) : Prop := ∃ role e q, x.Inv False role e q ∧ Recorded x.state x.spaces role

lemma Inv.keeps_of_tidy {ev : ShareEvent} (h : x.Inv False role e q) (ht : x.Tidy ev)
    (hd : ∀ pgdir ∈ ev.pgdir, pgdir ∈ x.spaces) (hc : x.call ev = some y) : Keeps False role y := by
  by_cases hkey : ev.KeyNonzero
  · refine h.call ?_ (Or.inr hkey) hd hc
    cases ev with
    | allocPageHelper uva pgdir => exact ht.1
    | handlePageFault stval pgdir store => exact ht.1
    | unsetExec uva pgdir => exact ht
    | shmPageDt addr pgdir => exact ht
    | _ => trivial
  · -- a get of key 0 finds no slot, and returns 0
    cases ev with
    | shmPageGet key pgdir =>
      obtain rfl : key = 0 := not_not.1 hkey
      have hnone : x.state.findShare 0 = none := ht
      simp only [Sharing.call, State.shmPageGet, hnone, Option.map_some, Option.some.injEq] at hc
      subst hc
      rw [record, if_pos rfl]
      exact ⟨role, e, q, h.of_memory h.spaces (fun _ _ => rfl)
        (SameLeaves.sameFrames fun _ _ _ _ => rfl) subset_rfl, Stays.refl role⟩
    | _ => exact absurd trivial hkey

lemma TidyInv.step {ev : ShareEvent} (hx : x.TidyInv) (ht : x.Tidy ev) (hs : x.step ev = some y) :
    y.TidyInv := by
  obtain ⟨role, e, q, h, hr⟩ := hx
  rw [Sharing.step, Option.ite_none_right_eq_some] at hs
  obtain ⟨hd, hc⟩ := hs
  obtain ⟨role', e', q', hy, hstays⟩ := h.keeps_of_tidy ht hd hc
  refine ⟨role', e', q', hy, ?_⟩
  cases ev with
  | newPgdir => exact h.recorded_newPgdir hr hstays hc
  | sharePgtable pgdir => exact h.recorded_sharePgtable hr hstays (hd pgdir rfl) hc
  | kalloc => exact h.recorded_kalloc hr hstays hc
  | allocPageHelper uva pgdir =>
    exact h.recorded_allocPageHelper hr hstays hy (hd pgdir rfl) ht.1 (uvaOf_vpns_iff.2 ht.2) hc
  | unsetExec uva pgdir => exact h.recorded_unsetExec hr hstays (hd pgdir rfl) ht hc
  | handlePageFault stval pgdir store =>
    exact h.recorded_handlePageFault hr hstays hy (hd pgdir rfl) ht.1 ht.2 hc
  | swapInAllPages pgdir => exact h.recorded_swapInAllPages hr hstays hc
  | freePageWithKva kva => exact h.recorded_freePageWithKva hr hstays ht hc
  | exit pgdir => exact h.recorded_exit hr hstays (hd pgdir rfl) hc
  | shmPageGet key pgdir => exact h.recorded_shmPageGet hr hstays hy (hd pgdir rfl) ht hc
  | shmPageDt addr pgdir => exact h.recorded_shmPageDt hr hstays (hd pgdir rfl) ht hc
  | store uva pgdir v => exact h.recorded_store hr hstays (hd pgdir rfl) hc

lemma tidyInv_boot (m : Memory) (kernel io : ℕ) (sd : ℕ → Fin 64 → ℕ) (startid : ℤ) :
    (boot m kernel io sd startid).TidyInv := by
  obtain ⟨role, q, hboot⟩ := inv_boot False m kernel io sd startid
  refine ⟨role, _, q, hboot, ?_, ?_, ?_, ?_⟩
  · intro d hd
    cases hd
  · intro r hr
    exact absurd rfl hr
  · intro r r' hr
    exact absurd rfl hr
  · intro i
    show (0 : ℤ) ≤ 1
    decide

lemma Inv.shmPageDt_isSome (h : x.Inv False role e q) (hr : Recorded x.state x.spaces role)
    (hd : pgdir ∈ x.spaces) (ho : Own (vpn2 uva)) (hne : x.state.leaf pgdir (vpns uva) ≠ 0) :
    ∃ t, x.state.shmPageDt uva pgdir = some t := by
  obtain ⟨m, hm⟩ : ∃ m, x.state.modifyPte uva pgdir (fun _ => 0) = some m := by
    rw [modifyPte_eq, if_neg hne]
    exact ⟨_, rfl⟩
  obtain ⟨f, bits, hleaf, hbits, hf⟩ := (h.spaces.leaf pgdir hd _ ho).resolve_left hne
  obtain ⟨hframe, hlt⟩ := h.spaces.isFrame hf
  simp only [State.shmPageDt, hm, getKvaOfUva_and_mask hleaf hframe hlt hbits, Option.bind_eq_bind,
    Option.bind_some]
  cases hfind : State.findShareKva { x.state with toMemory := m } f with
  | none => exact ⟨_, rfl⟩
  | some i =>
    have hkva : (x.state.sharePages i).kva = f := State.findShareKva_eq_some hfind
    have href := h.ref_eq_one hr (hkva ▸ hf.resolve_right And.left)
    have hzero : addInt 1 (-1) = some 0 := by decide
    have hb := fun v w => ((h.book.memory m).slot i v).slot i w
    obtain ⟨t, ht⟩ := hr.freePageWithKva_isSome hd ho hne
      (hb ⟨f, 0, (x.state.sharePages i).key⟩ ⟨f, 0, 0⟩) rfl
    rw [hleaf, h.spaces.frameOf_entry hf hbits] at ht
    simp only [href, hzero, Option.bind_some, if_true, State.setSharePage, Function.update_self, hkva]
    simp only [State.setSharePage] at ht
    rw [ht]
    exact ⟨_, rfl⟩

lemma TidyInv.law (hx : x.TidyInv) : TeardownLaw x := by
  obtain ⟨role, e, q, h, hr⟩ := hx
  have hrec : ∀ d ∈ x.spaces, ∀ p : Vpns, Own p.1 → x.state.leaf d p ≠ 0 →
      x.state.HasRecord (uvaOf p) d := by
    intro d hd p hp hne
    obtain ⟨r, hused, huva, hpgdir, -⟩ := hr.leaf d hd p hp hne
    exact ⟨r, hused, huva, hpgdir⟩
  constructor
  · exact fun d hd p hp hne => h.book.findPageWithUva_eq_some (hrec d hd p hp hne)
  · exact fun d hd =>
      State.freePagetable_isSome h.book h.spaces.tables (h.spaces.role_dir hd) (hrec d hd)
  · exact fun d hd p hp hne => hr.freePageWithKva_isSome hd hp hne h.book rfl
  · intro d hd addr ho hpte
    exact h.shmPageDt_isSome hr hd ho fun hz => hpte (getPteOfUva_eq_none.2 hz)

/-- In every run of such steps, tearing an address space down never fails. -/
theorem teardown_finds_records (m : Memory) (kernel io : ℕ) (sd : ℕ → Fin 64 → ℕ) (startid : ℤ)
    (es : List ShareEvent) (hes : Trace.StepsMeet step Tidy (boot m kernel io sd startid) es) :
    Trace.Always step TeardownLaw (boot m kernel io sd startid) es :=
  (Trace.always_of_invariant (fun _ _ _ hx ht hs => TidyInv.step hx ht hs)
    (tidyInv_boot m kernel io sd startid) hes).mono fun _ hx => hx.law

/-- A process gives a shared page up, and another gets its key. -/
theorem teardown_finds_records_two : ∃ x,
    Trace.run step (boot ⟨fun _ _ => 0, 0⟩ 1 1 (fun _ _ => 0) 100)
      [.newPgdir, .newPgdir, .shmPageGet 42 FREEMEM_KERNEL, .handlePageFault 0x10123 FREEMEM_KERNEL true,
        .shmPageDt SHARE_PAGE_UVA_START FREEMEM_KERNEL,
        .shmPageGet 42 (FREEMEM_KERNEL + PAGE_SIZE)] = some x ∧
      FREEMEM_KERNEL ∈ x.spaces ∧ TeardownLaw x := by
  have hrun : (Trace.run step (boot ⟨fun _ _ => 0, 0⟩ 1 1 (fun _ _ => 0) 100)
      [.newPgdir, .newPgdir, .shmPageGet 42 FREEMEM_KERNEL, .handlePageFault 0x10123 FREEMEM_KERNEL true,
        .shmPageDt SHARE_PAGE_UVA_START FREEMEM_KERNEL,
        .shmPageGet 42 (FREEMEM_KERNEL + PAGE_SIZE)]).map
      (fun x => decide (FREEMEM_KERNEL ∈ x.spaces)) = some true := by decide +kernel
  obtain ⟨x, hx, hmem⟩ := Option.map_eq_some_iff.1 hrun
  refine ⟨x, hx, of_decide_eq_true hmem, (teardown_finds_records _ 1 1 _ 100 _ ?_).last hx⟩
  refine (Trace.stepsMeet_of_checkSteps (C := fun x ev => match ev with
    | .newPgdir => true
    | .shmPageGet key _ => decide (x.state.findShare key = none)
    | .handlePageFault stval _ _ => decide (Own (vpn2 stval) ∧ stval < 2 ^ 39)
    | .shmPageDt addr _ => decide (Own (vpn2 addr))
    | _ => false) (by decide +kernel)).mono fun x ev hev => ?_
  cases ev <;> simp_all [Tidy]

/-- Two processes get a key, and the second cannot be torn down; nor can a process one of
whose threads has exited. -/
theorem teardown_finds_no_record :
    (∃ x, Trace.run step (boot ⟨fun _ _ => 0, 0⟩ 1 1 (fun _ _ => 0) 100)
      [.newPgdir, .newPgdir, .shmPageGet 42 FREEMEM_KERNEL,
        .shmPageGet 42 (FREEMEM_KERNEL + PAGE_SIZE)] = some x ∧
      FREEMEM_KERNEL + PAGE_SIZE ∈ x.spaces ∧
      x.state.freePagetable (FREEMEM_KERNEL + PAGE_SIZE) = none) ∧
    ∃ x, Trace.run step (boot ⟨fun _ _ => 0, 0⟩ 1 1 (fun _ _ => 0) 100)
      [.newPgdir, .allocPageHelper 0xf0000f000 FREEMEM_KERNEL, .kalloc,
        .allocPageHelper 0xf00010000 FREEMEM_KERNEL,
        .freePageWithKva (FREEMEM_KERNEL + 5 * PAGE_SIZE)] = some x ∧
      FREEMEM_KERNEL ∈ x.spaces ∧ x.state.freePagetable FREEMEM_KERNEL = none := by
  have hof : ∀ es d, (Trace.run step (boot ⟨fun _ _ => 0, 0⟩ 1 1 (fun _ _ => 0) 100) es).map (fun x =>
      (decide (d ∈ x.spaces), (x.state.freePagetable d).isSome)) = some (true, false) →
      ∃ x, Trace.run step (boot ⟨fun _ _ => 0, 0⟩ 1 1 (fun _ _ => 0) 100) es = some x ∧
        d ∈ x.spaces ∧ x.state.freePagetable d = none := by
    intro es d h
    obtain ⟨x, hx, heq⟩ := Option.map_eq_some_iff.1 h
    rw [Prod.mk.injEq, decide_eq_true_eq, Option.isSome_eq_false_iff, Option.isNone_iff_eq_none] at heq
    exact ⟨x, hx, heq⟩
  exact ⟨hof _ _ (by decide +kernel), hof _ _ (by decide +kernel)⟩

end Sharing

end Mm
end UcasKernel
