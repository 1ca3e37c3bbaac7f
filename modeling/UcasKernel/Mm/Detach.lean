/-
Giving shared pages up.

`shm_page_dt` clears the entry of the address that it is given before it looks for a slot
with the frame, and it clears the entry of any page.  When the last reference goes, the
record of the page is reset before its frame is read, so the frame stays with the
allocator's user.  What is left is the call on a page that was got, and not given up,
while its slot counts another reference.
-/
import UcasKernel.Mm.SharedRuns

namespace UcasKernel
namespace Mm

open Memory

/-! ## Clearing an entry -/

section Entry

variable {m m' : Memory} {addr pgdir : ℕ}

lemma store_mem {p f v : ℕ} {i j : Fin 512} :
    (m.store p i v).mem f j = if f = p ∧ j = i then v else m.mem f j := by
  rcases eq_or_ne f p with rfl | hf
  · rw [store_self]
    rcases eq_or_ne j i with rfl | hj
    · rw [Function.update_self, if_pos ⟨rfl, rfl⟩]
    · rw [Function.update_of_ne hj, if_neg fun h => hj h.2]
  · rw [store_of_ne hf, if_neg fun h => hf h.1]

/-- A word that is cleared is not read on the way to it. -/
lemma leaf_modifyPte_zero (h : m.modifyPte addr pgdir (fun _ => 0) = some m') :
    m.leaf pgdir (vpns addr) ≠ 0 ∧ m'.leaf pgdir (vpns addr) = 0 := by
  rw [modifyPte_eq] at h
  split_ifs at h with hne
  rw [Option.some.injEq] at h
  obtain ⟨hz₁, hz₂⟩ := Tables.walk_of_leaf_ne hne
  refine ⟨hne, ?_⟩
  have hword : ∀ f i, m'.mem f i = 0 ∨ m'.mem f i = m.mem f i := by
    intro f i
    rw [← h, store_mem]
    split_ifs
    · exact Or.inl rfl
    · exact Or.inr rfl
  simp only [leaf]
  split_ifs with h₁ h₂
  · rfl
  · rfl
  -- both tables are the same, and the last word is the one that is cleared
  · have hd := (hword pgdir (vpns addr).1).resolve_left h₁
    rw [tableOf_congr hd] at h₂ ⊢
    rw [tableOf_congr ((hword _ _).resolve_left h₂), ← h, store_mem]
    exact if_pos ⟨rfl, rfl⟩

end Entry

/-! ## The law -/

namespace Sharing

/-- The address is in a page that the process got and has not given up. -/
def Attached (x : Sharing) (addr pgdir : ℕ) : Prop := ∃ a ∈ x.held, a.At addr pgdir

/-- The mapping of the address is gone, and the slot of its frame has lost a reference.  A
slot that has none left is free, and the frame is the allocator's again. -/
structure Detaches (x : Sharing) (addr pgdir : ℕ) (t : State) : Prop where
  unmapped : t.getPteOfUva addr pgdir = none
  others : SameBut x.spaces pgdir (vpns addr) x.state.toMemory t.toMemory
  slot : ∃ i ref, (x.state.sharePages i).kva = frameOf (x.state.leaf pgdir (vpns addr)) ∧
    (x.state.sharePages i).ref = ref + 1 ∧
    if ref = 0 then t.sharePages = Function.update x.state.sharePages i ⟨0, 0, 0⟩ ∧
      ¬ t.Allocated (x.state.sharePages i).kva
    else t.sharePages = Function.update x.state.sharePages i { x.state.sharePages i with ref := ref } ∧
      t.pages = x.state.pages ∧ t.links = x.state.links

/-- The page tables, the slots and the records are the same. -/
structure Untouched (x : Sharing) (t : State) : Prop where
  leaf : ∀ d ∈ x.spaces, ∀ uva, t.leaf d (vpns uva) = x.state.leaf d (vpns uva)
  slots : t.sharePages = x.state.sharePages
  pages : t.pages = x.state.pages
  links : t.links = x.state.links

/-- What a call of `shm_page_dt` does, for any address. -/
structure DetachLaw (x : Sharing) (addr pgdir : ℕ) : Prop where
  attached : x.Attached addr pgdir →
    ∃ t, x.state.shmPageDt addr pgdir = some t ∧ x.Detaches addr pgdir t
  other : ¬ x.Attached addr pgdir →
    ∃ t, x.state.shmPageDt addr pgdir = some t ∧ x.Untouched t

/-- The address is in a page that was got and not given up, and its slot counts another
reference. -/
def NotLast (x : Sharing) (addr pgdir : ℕ) : Prop :=
  ∃ a ∈ x.held, a.At addr pgdir ∧
    ∃ i, (x.state.sharePages i).kva = a.frame ∧ 2 ≤ (x.state.sharePages i).ref

instance (x : Sharing) (addr pgdir : ℕ) : Decidable (x.NotLast addr pgdir) :=
  inferInstanceAs (Decidable (∃ a ∈ x.held, _))

/-- The counts are `int`s. -/
def CountsFit (s : State) : Prop := ∀ i, (s.sharePages i).ref < 2 ^ 31

variable {x y : Sharing} {role : ℕ → Role} {e : ℕ} {q : Queue → List Pfn} {s t : State}
  {addr uva pgdir : ℕ}

/-! ## The counts -/

lemma CountsFit.update {i : Fin 16} {v : SharePage} (h : CountsFit s) (hv : v.ref < 2 ^ 31)
    (hs : t.sharePages = Function.update s.sharePages i v) : CountsFit t := by
  intro j
  rw [hs]
  rcases eq_or_ne j i with rfl | hj
  · rwa [Function.update_self]
  · rw [Function.update_of_ne hj]
    exact h j

lemma CountsFit.shmPageGet {key : ℤ} (h : CountsFit s) (hb : s.Book q)
    (hs : s.shmPageGet key pgdir = some (uva, t)) : CountsFit t := by
  simp only [State.shmPageGet] at hs
  cases hfind : s.findShare key with
  | some i =>
    simp only [hfind, Option.bind_eq_bind, Option.bind_eq_some_iff, Option.some.injEq,
      Prod.mk.injEq] at hs
    obtain ⟨ref, hadd, uva, -, m, -, -, rfl⟩ := hs
    exact h.update (i := i) (State.addInt_lt hadd) rfl
  | none =>
    cases hfree : s.findShare 0 with
    | none =>
      simp only [hfind, hfree, Option.some.injEq, Prod.mk.injEq] at hs
      exact hs.2 ▸ h
    | some i =>
      simp only [hfind, hfree, Option.bind_eq_bind, Option.bind_eq_some_iff, Option.some.injEq,
        Prod.mk.injEq] at hs
      obtain ⟨ref, hadd, uva, -, ⟨kva, u⟩, halloc, -, rfl⟩ := hs
      have hb' : (s.setSharePage i { s.sharePages i with key := key, ref := ref }).Book q :=
        hb.slot _ _
      obtain ⟨_, _, r, L, -, -, hu, -⟩ := hb'.allocPageHelper_spec halloc
      have hset : CountsFit (s.setSharePage i { s.sharePages i with key := key, ref := ref }) :=
        h.update (i := i) (State.addInt_lt hadd) rfl
      refine hset.update (t := u.setSharePage i { u.sharePages i with kva := kva }) (i := i) (v :=
        { u.sharePages i with kva := kva }) ?_ ?_
      · rw [hu]
        exact hset i
      · rw [hu]
        rfl

lemma CountsFit.shmPageDt (h : CountsFit s) (hb : s.Book q)
    (hs : s.shmPageDt addr pgdir = some t) : CountsFit t := by
  obtain ⟨m, q', -, -, -, ⟨-, rfl⟩ | ⟨i, ref, -, -, hlt, hslots⟩⟩ := hb.shmPageDt_cases hs
  · exact h
  · split_ifs at hslots
    · exact h.update (by decide) hslots.1
    · subst hslots
      exact h.update (i := i) (v := { s.sharePages i with ref := ref }) hlt rfl

/-- What is not about shared pages leaves the slots alone. -/
lemma Inv.countsFit_call {ev : ShareEvent} (h : x.Inv False role e q) (hc : CountsFit x.state)
    (hu : ev.UserAddress) (hd : ∀ pgdir ∈ ev.pgdir, pgdir ∈ x.spaces) (hs : x.call ev = some y) :
    CountsFit y.state := by
  cases ev with
  | newPgdir =>
    obtain ⟨⟨p, m⟩, -, rfl⟩ := Option.map_eq_some_iff.1 hs
    exact hc
  | sharePgtable pgdir =>
    rw [Sharing.call, Option.some.injEq] at hs
    subst hs
    generalize x.state.sharePgtable pgdir PGDIR_VA = m
    exact hc
  | kalloc =>
    obtain ⟨⟨p, m⟩, -, rfl⟩ := Option.map_eq_some_iff.1 hs
    exact hc
  | allocPageHelper uva pgdir =>
    obtain ⟨⟨kva, u⟩, halloc, rfl⟩ := Option.map_eq_some_iff.1 hs
    obtain ⟨-, -, -, -, -, -, rfl, -⟩ := h.book.allocPageHelper_spec halloc
    exact hc
  | unsetExec uva pgdir =>
    obtain ⟨m, -, rfl⟩ := Option.map_eq_some_iff.1 hs
    exact hc
  | handlePageFault stval pgdir store =>
    obtain ⟨u, hu', rfl⟩ := Option.map_eq_some_iff.1 hs
    have hown : Own (vpn2 (stval &&& PAGE_MASK)) := by rwa [vpn2_and_pageMask]
    obtain ⟨-, kva, v, m, halloc, rfl, -⟩ := h.handlePageFault_spec (hd pgdir rfl) hown hu'
    obtain ⟨-, -, -, -, -, -, rfl, -⟩ := h.book.allocPageHelper_spec halloc
    exact hc
  | swapInAllPages pgdir =>
    obtain ⟨u, hu', rfl⟩ := Option.map_eq_some_iff.1 hs
    obtain rfl := h.book.swapInAllPages_eq h.swapped hu'
    exact hc
  | freePageWithKva kva =>
    obtain ⟨u, hu', rfl⟩ := Option.map_eq_some_iff.1 hs
    obtain ⟨-, -, -, hshare, -⟩ := h.book.freePageWith_drops (fun _ => h.book.find _) hu'
    intro i
    show (u.sharePages i).ref < 2 ^ 31
    rw [hshare]
    exact hc i
  | exit pgdir =>
    simp only [Sharing.call, Option.map_eq_some_iff] at hs
    obtain ⟨u, hu', rfl⟩ := hs
    obtain ⟨-, hshare⟩ := h.book.freePagetable_drops hu'
    intro i
    show (u.sharePages i).ref < 2 ^ 31
    rw [hshare]
    exact hc i
  | shmPageGet key pgdir =>
    obtain ⟨⟨uva, u⟩, hget, rfl⟩ := Option.map_eq_some_iff.1 hs
    have hcount := hc.shmPageGet h.book hget
    simp only [record]
    split_ifs
    · exact hcount
    · exact hcount
  | shmPageDt addr pgdir =>
    obtain ⟨u, hdt, rfl⟩ := Option.map_eq_some_iff.1 hs
    exact hc.shmPageDt h.book hdt
  | store uva pgdir v =>
    obtain ⟨u, hu', rfl⟩ := Option.map_eq_some_iff.1 hs
    obtain ⟨m, rfl, -⟩ := h.store_spec (hd pgdir rfl) hu'
    exact hc

/-! ## When the law holds -/

/-- The page of an address that is attached. -/
lemma Inv.attached {a : Got} (h : x.Inv False role e q) (ha : a ∈ x.held) (hat : a.At addr pgdir) :
    Own (vpn2 addr) ∧ x.state.leaf pgdir (vpns addr) ≠ 0 ∧
      frameOf (x.state.leaf pgdir (vpns addr)) = a.frame ∧ role a.frame = .page := by
  obtain ⟨hd, hown, -, hne, hframe⟩ := (h.keyed id).held a ha
  obtain ⟨-, -, -, hpage⟩ := h.spaces.frame hd hown hne
  rw [hframe] at hpage
  obtain ⟨hdir, hvpns⟩ := hat
  rw [hdir, hvpns] at hne hframe
  rw [← vpns_fst, hvpns, vpns_fst] at hown
  exact ⟨hown, hne, hframe, hpage.resolve_right And.left⟩

/-- A slot with the page of a process is counted, and no other slot has the page. -/
lemma Inv.slot_counted {i : Fin 16} (h : x.Inv False role e q)
    (hi : role (x.state.sharePages i).kva = .page) :
    0 < (x.state.sharePages i).ref ∧
      ∀ j, (x.state.sharePages j).kva = (x.state.sharePages i).kva → j = i := by
  have hslots := (h.keyed id).slots
  have hkey := hslots.key_ne (fun hzero => h.spaces.ne_zero hzero rfl) hi
  obtain ⟨-, href, -⟩ := (hslots.ok i).resolve_right fun hfree => hkey hfree.1
  exact ⟨href, fun j hj => (hslots.kvas i j hkey hj.symm).symm⟩

/-- A call that returns has cleared the entry. -/
lemma Inv.not_untouched (h : x.Inv False role e q) (hd : pgdir ∈ x.spaces)
    (hs : x.state.shmPageDt addr pgdir = some t) : ¬ x.Untouched t := by
  intro hsame
  obtain ⟨m, q', hm, rfl, -⟩ := h.book.shmPageDt_cases hs
  obtain ⟨hne, hzero⟩ := leaf_modifyPte_zero hm
  rw [← hsame.leaf pgdir hd addr] at hne
  exact hne hzero

/-- The frame of the last reference stays with the allocator's user. -/
lemma Inv.allocated_of_last {i : Fin 16} (h : x.Inv False role e q) (hd : pgdir ∈ x.spaces)
    (ho : Own (vpn2 addr)) (hi : role (x.state.sharePages i).kva = .page)
    (hs : x.state.shmPageDt addr pgdir = some t) : t.Allocated (x.state.sharePages i).kva := by
  have hcall : x.call (.shmPageDt addr pgdir) = some ((x.next t).letGo addr pgdir) := by
    rw [Sharing.call, hs, Option.map_some]
  obtain ⟨role', e', q', h', hstays⟩ := h.shmPageDt hd ho hcall
  have hpage := hstays.page hi
  exact h'.spaces.tables.allocated (by simp [hpage]) (by simp [hpage])

/-- A call on a page whose slot counts another reference. -/
lemma Inv.detaches {a : Got} {i : Fin 16} (h : x.Inv False role e q) (hcount : CountsFit x.state)
    (hd : pgdir ∈ x.spaces) (ha : a ∈ x.held) (hat : a.At addr pgdir)
    (hkva : (x.state.sharePages i).kva = a.frame) (href : 2 ≤ (x.state.sharePages i).ref) :
    ∃ t, x.state.shmPageDt addr pgdir = some t ∧ x.Detaches addr pgdir t := by
  obtain ⟨hown, hne, hframe, hpage⟩ := h.attached ha hat
  obtain ⟨f, bits, hleaf, hbits, hf⟩ := (h.spaces.leaf pgdir hd _ hown).resolve_left hne
  obtain ⟨hisf, hlt⟩ := h.spaces.isFrame hf
  have hmask := getKvaOfUva_and_mask hleaf hisf hlt hbits
  have hfa : f = a.frame := by rw [← hframe, hleaf, h.spaces.frameOf_entry hf hbits]
  rw [← hkva] at hpage
  obtain ⟨-, honly⟩ := h.slot_counted hpage
  -- the search finds the slot
  have hfind : x.state.findShareKva f = some i := by
    cases hslot : x.state.findShareKva f with
    | none =>
      have := List.find?_eq_none.1 hslot i (List.mem_finRange i)
      simp [hkva, hfa] at this
    | some j =>
      rw [honly j (by rw [State.findShareKva_eq_some hslot, hfa, hkva])]
  have hadd : addInt (x.state.sharePages i).ref (-1) = some ((x.state.sharePages i).ref - 1) := by
    have := hcount i
    rw [addInt, if_pos (by omega)]
    rfl
  obtain ⟨m, hm⟩ : ∃ m, x.state.modifyPte addr pgdir (fun _ => 0) = some m := by
    rw [modifyPte_eq, if_neg hne]
    exact ⟨_, rfl⟩
  obtain ⟨-, -, hzero, hsame⟩ := h.spaces.modifyPte hd hown (Or.inl rfl) hm
  have hcall : x.state.shmPageDt addr pgdir = some { x.state with
      toMemory := m
      sharePages := Function.update x.state.sharePages i
        { x.state.sharePages i with ref := (x.state.sharePages i).ref - 1 } } := by
    have hfind' : ({ x.state with toMemory := m } : State).findShareKva f = some i := hfind
    have hnz : ¬ (x.state.sharePages i).ref - 1 = 0 := by omega
    simp only [State.shmPageDt, hmask, hm, hfind', hadd, Option.bind_eq_bind, Option.bind_some,
      if_neg hnz]
    rfl
  refine ⟨_, hcall, ⟨?_, hsame, i, _, ?_, (Int.sub_add_cancel _ 1).symm, ?_⟩⟩
  · exact getPteOfUva_eq_none.2 hzero
  · rw [hkva, hframe]
  · rw [if_neg (by omega)]
    exact ⟨rfl, rfl, rfl⟩

lemma Inv.detachLaw_iff (h : x.Inv False role e q) (hcount : CountsFit x.state)
    (hd : pgdir ∈ x.spaces) : x.DetachLaw addr pgdir ↔ x.NotLast addr pgdir := by
  constructor
  · intro hlaw
    by_cases hatt : x.Attached addr pgdir
    · obtain ⟨t, hs, hdet⟩ := hlaw.attached hatt
      obtain ⟨a, ha, hat⟩ := hatt
      obtain ⟨hown, -, hframe, hpage⟩ := h.attached ha hat
      obtain ⟨i, ref, hkva, href, hslot⟩ := hdet.slot
      have hkva' : (x.state.sharePages i).kva = a.frame := hkva.trans hframe
      rw [← hkva'] at hpage
      obtain ⟨hpos, -⟩ := h.slot_counted hpage
      refine ⟨a, ha, hat, i, hkva', ?_⟩
      split_ifs at hslot with hzero
      · exact absurd (h.allocated_of_last hd hown hpage hs) hslot.2
      · omega
    · obtain ⟨t, hs, hsame⟩ := hlaw.other hatt
      exact absurd hsame (h.not_untouched hd hs)
  · rintro ⟨a, ha, hat, i, hkva, href⟩
    exact ⟨fun _ => h.detaches hcount hd ha hat hkva href, fun hno => absurd ⟨a, ha, hat⟩ hno⟩

lemma always_inv_counts (m : Memory) (kernel io : ℕ) (sd : ℕ → Fin 64 → ℕ) (startid : ℤ)
    {es : List ShareEvent} (hes : ∀ ev ∈ es, ev.Proper) :
    Trace.Always step (fun x => (∃ role e q, x.Inv False role e q) ∧ CountsFit x.state)
      (boot m kernel io sd startid) es := by
  have hC : Trace.StepsMeet step (fun _ ev => ev.Proper) (boot m kernel io sd startid) es :=
    fun pre ev post heq _ _ => hes ev (by rw [heq]; simp)
  obtain ⟨role, q, hboot⟩ := inv_boot False m kernel io sd startid
  refine Trace.always_of_invariant (C := fun _ ev => ev.Proper) ?_ ⟨⟨role, _, q, hboot⟩, ?_⟩ hC
  · rintro x ev y ⟨⟨role, e, q, h⟩, hcount⟩ hp hstep
    obtain ⟨role', e', q', h', -⟩ := h.step hp.1 (Or.inr hp.2) hstep
    rw [Sharing.step, Option.ite_none_right_eq_some] at hstep
    exact ⟨⟨role', e', q', h'⟩, h.countsFit_call hcount hp.1 hstep.1 hstep.2⟩
  · intro i
    show (0 : ℤ) < 2 ^ 31
    decide

/-- In every run in which no process asks for key 0, and none passes an address of the
kernel or of a device, giving an address up works exactly when the process got its page and
has not given it up, and another get of the page is counted. -/
theorem detach_iff_notLast (m : Memory) (kernel io : ℕ) (sd : ℕ → Fin 64 → ℕ) (startid : ℤ)
    (es : List ShareEvent) (hes : ∀ ev ∈ es, ev.Proper) :
    Trace.Always step
      (fun x => ∀ pgdir ∈ x.spaces, ∀ addr, x.DetachLaw addr pgdir ↔ x.NotLast addr pgdir)
      (boot m kernel io sd startid) es :=
  (always_inv_counts m kernel io sd startid hes).mono
    fun _ ⟨⟨_, _, _, h⟩, hcount⟩ _ hd _ => h.detachLaw_iff hcount hd

/-- Two processes have got key 42, and one of them gives it up. -/
theorem detach_iff_notLast_two : ∃ x,
    Trace.run step (boot ⟨fun _ _ => 0, 0⟩ 1 1 (fun _ _ => 0) 100)
      [.newPgdir, .newPgdir, .shmPageGet 42 FREEMEM_KERNEL,
        .shmPageGet 42 (FREEMEM_KERNEL + PAGE_SIZE)] = some x ∧
      x.Attached SHARE_PAGE_UVA_START FREEMEM_KERNEL ∧
      x.DetachLaw SHARE_PAGE_UVA_START FREEMEM_KERNEL := by
  have hrun : (Trace.run step (boot ⟨fun _ _ => 0, 0⟩ 1 1 (fun _ _ => 0) 100)
      [.newPgdir, .newPgdir, .shmPageGet 42 FREEMEM_KERNEL,
        .shmPageGet 42 (FREEMEM_KERNEL + PAGE_SIZE)]).map (fun x =>
        (decide (FREEMEM_KERNEL ∈ x.spaces),
          decide (x.NotLast SHARE_PAGE_UVA_START FREEMEM_KERNEL))) = some (true, true) := by
    decide +kernel
  obtain ⟨x, hx, hval⟩ := Option.map_eq_some_iff.1 hrun
  simp only [Prod.mk.injEq, decide_eq_true_eq] at hval
  obtain ⟨hd, hlast⟩ := hval
  have hlaw := (detach_iff_notLast ⟨fun _ _ => 0, 0⟩ 1 1 (fun _ _ => 0) 100 _ fun ev hev => by
    simp only [List.mem_cons, List.not_mem_nil, or_false] at hev
    rcases hev with rfl | rfl | rfl | rfl <;>
      simp [ShareEvent.Proper, ShareEvent.UserAddress, ShareEvent.KeyNonzero]).last hx
  refine ⟨x, hx, ?_, (hlaw FREEMEM_KERNEL hd SHARE_PAGE_UVA_START).2 hlast⟩
  obtain ⟨a, ha, hat, -⟩ := hlast
  exact ⟨a, ha, hat⟩

/-- A process with a page of its own and a shared one that no other process has: the law fails
for `NULL`, for the page of its own and for the shared one. -/
theorem detach_fails : ∃ x,
    Trace.run step (boot ⟨fun _ _ => 0, 0⟩ 1 1 (fun _ _ => 0) 100)
      [.newPgdir, .allocPageHelper 0x10000 FREEMEM_KERNEL, .shmPageGet 42 FREEMEM_KERNEL] =
        some x ∧
      FREEMEM_KERNEL ∈ x.spaces ∧ ¬ x.DetachLaw 0 FREEMEM_KERNEL ∧
      ¬ x.DetachLaw 0x10000 FREEMEM_KERNEL ∧ ¬ x.DetachLaw SHARE_PAGE_UVA_START FREEMEM_KERNEL := by
  have hrun : (Trace.run step (boot ⟨fun _ _ => 0, 0⟩ 1 1 (fun _ _ => 0) 100)
      [.newPgdir, .allocPageHelper 0x10000 FREEMEM_KERNEL, .shmPageGet 42 FREEMEM_KERNEL]).map
      (fun x => (decide (FREEMEM_KERNEL ∈ x.spaces), decide (x.NotLast 0 FREEMEM_KERNEL),
        decide (x.NotLast 0x10000 FREEMEM_KERNEL),
        decide (x.NotLast SHARE_PAGE_UVA_START FREEMEM_KERNEL))) =
        some (true, false, false, false) := by
    decide +kernel
  obtain ⟨x, hx, hval⟩ := Option.map_eq_some_iff.1 hrun
  simp only [Prod.mk.injEq, decide_eq_true_eq, decide_eq_false_iff_not] at hval
  obtain ⟨hd, hnull, hown, hlast⟩ := hval
  obtain ⟨⟨role, e, q, h⟩, hcount⟩ :=
    (always_inv_counts ⟨fun _ _ => 0, 0⟩ 1 1 (fun _ _ => 0) 100 fun ev hev => by
      simp only [List.mem_cons, List.not_mem_nil, or_false] at hev
      rcases hev with rfl | rfl | rfl <;>
        simp [ShareEvent.Proper, ShareEvent.UserAddress, ShareEvent.KeyNonzero,
          own_vpn2]).last hx
  exact ⟨x, hx, hd, mt (h.detachLaw_iff hcount hd).1 hnull, mt (h.detachLaw_iff hcount hd).1 hown,
    mt (h.detachLaw_iff hcount hd).1 hlast⟩

end Sharing

end Mm
end UcasKernel
