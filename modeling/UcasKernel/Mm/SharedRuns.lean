/-
Shared pages in the runs of the memory manager.

A get uses the slot of its key, or a free slot with a new page, and giving an address up
counts its slot down; both keep the invariant.  As no page of a process is ever given
back to the allocator, the frames of two keys differ even when the one was got after the
other was given up.  Key 0 is looked up like the others and found in a free slot, whose
page is `NULL`.
-/
import UcasKernel.Mm.Sharing

namespace UcasKernel
namespace Mm

namespace Sharing

open Memory

variable {A : Prop} {x y : Sharing} {role role' : ℕ → Role} {e e' : ℕ} {q q' : Queue → List Pfn}
  {s t : State} {uva pgdir : ℕ} {key : ℤ}

/-! ## Getting a shared page -/

/-- What a get leaves: the slot `i` has the key and the frame `kva`, which the address maps. -/
structure GetStep (A : Prop) (x : Sharing) (role : ℕ → Role) (key : ℤ) (pgdir uva : ℕ) (t : State)
    (i : Fin 16) (kva : ℕ) (role' : ℕ → Role) (e' : ℕ) (q' : Queue → List Pfn) : Prop where
  fresh : uva ≠ 0 ∧ uva % PAGE_SIZE = 0 ∧ uva < 2 ^ 38 ∧ x.state.getPteOfUva uva pgdir = none
  spaces : Spaces A t.toMemory x.spaces role' e'
  book : t.Book q'
  swapped : q' .swappedPagesQueue = []
  keep : ∀ f, role f ≠ .free → role' f = role f
  frame : Mapped A role' kva
  leaf : t.leaf pgdir (vpns uva) = entry kva PAGE_ALL
  same : SameBut x.spaces pgdir (vpns uva) x.state.toMemory t.toMemory
  slots : ∃ ref, (¬ A → 0 < ref) ∧
    t.sharePages = Function.update x.state.sharePages i ⟨kva, ref, key⟩
  /-- The slot had the key and the frame, or it was free and the frame is new. -/
  old : (x.state.sharePages i).key = key ∧ (x.state.sharePages i).kva = kva ∨
    (x.state.sharePages i).key = 0 ∧ (∀ j, (x.state.sharePages j).key ≠ key) ∧ role kva = .free

lemma Inv.shmPageGet_cases (h : x.Inv A role e q) (hd : pgdir ∈ x.spaces) (hkey : A ∨ key ≠ 0)
    (hs : x.state.shmPageGet key pgdir = some (uva, t)) :
    x.state.NoSlot key ∧ uva = 0 ∧ t = x.state ∨
      ∃ i kva role' e' q', x.GetStep A role key pgdir uva t i kva role' e' q' := by
  simp only [State.shmPageGet] at hs
  cases hfind : x.state.findShare key with
  | some i =>
    have hi := State.findShare_eq_some hfind
    have hused : ¬ A → 0 < (x.state.sharePages i).ref ∧ role (x.state.sharePages i).kva = .page :=
      fun hA => (((h.keyed hA).slots.ok i).resolve_right fun hfree =>
        hkey.resolve_left hA (hi ▸ hfree.1)).2
    have hkva : Mapped A role (x.state.sharePages i).kva := by
      by_cases hA : A
      · exact (h.kvas i).symm.imp_right fun hzero => ⟨hA, hzero⟩
      · exact Or.inl (hused hA).2
    simp only [hfind, Option.bind_eq_bind, Option.bind_eq_some_iff, Option.some.injEq,
      Prod.mk.injEq, State.setSharePage, Function.update_self] at hs
    obtain ⟨ref, hadd, uva, huva, m, hm, rfl, rfl⟩ := hs
    obtain rfl := State.addInt_eq_some hadd
    obtain ⟨hne, halign, hlt, hpte⟩ := Memory.firstUnmapped_uva huva
    obtain ⟨role', e', hspaces, hkeep, hself, hsame, -⟩ :=
      h.spaces.mapUvaToKva hd (own_vpn2 hlt) hkva hm
    exact Or.inr ⟨i, (x.state.sharePages i).kva, role', e', q, ⟨hne, halign, hlt, hpte⟩, hspaces,
      (h.book.slot _ _).memory _, h.swapped, hkeep, hkva.mono (Stays.of_keep hkeep),
      hself, hsame, ⟨(x.state.sharePages i).ref + 1, fun hA => by have := (hused hA).1; omega,
        by rw [← hi]⟩, Or.inl ⟨hi, rfl⟩⟩
  | none =>
    have hno := State.findShare_eq_none.1 hfind
    cases hfree : x.state.findShare 0 with
    | none =>
      simp only [hfind, hfree, Option.some.injEq, Prod.mk.injEq] at hs
      obtain ⟨rfl, rfl⟩ := hs
      exact Or.inl ⟨fun i => ⟨hno i, State.findShare_eq_none.1 hfree i⟩, rfl, rfl⟩
    | some i =>
      have hi := State.findShare_eq_some hfree
      have href : ¬ A → (x.state.sharePages i).ref = 0 := fun hA =>
        (((h.keyed hA).slots.ok i).resolve_left fun hused => hused.1 hi).2.1
      simp only [hfind, hfree, Option.bind_eq_bind, Option.bind_eq_some_iff, Option.some.injEq,
        Prod.mk.injEq] at hs
      obtain ⟨ref, hadd, uva, huva, ⟨kva, u⟩, halloc, rfl, rfl⟩ := hs
      obtain rfl := State.addInt_eq_some hadd
      obtain ⟨hne, halign, hlt, hpte⟩ := Memory.firstUnmapped_uva huva
      obtain ⟨s, hset⟩ : ∃ s, x.state.setSharePage i { x.state.sharePages i with
        key := key, ref := (x.state.sharePages i).ref + 1 } = s := ⟨_, rfl⟩
      have hb : s.Book q := hset ▸ h.book.slot _ _
      have hmem : s.toMemory = x.state.toMemory := hset ▸ rfl
      have hslots : s.sharePages = Function.update x.state.sharePages i
          ⟨(x.state.sharePages i).kva, (x.state.sharePages i).ref + 1, key⟩ := by
        rw [← hset, State.setSharePage]
      rw [hset] at halloc
      obtain ⟨⟨q', hb', hq'⟩, hshare, hnew, role', e', hspaces, hkeep, hpage, hself, hsame, -⟩ :=
        Spaces.allocPageHelper (hmem ▸ h.spaces) hb h.swapped hd (own_vpn2 hlt) halloc
      refine Or.inr ⟨i, kva, role', e', q', ⟨hne, halign, hlt, hpte⟩, hspaces,
        hb'.slot _ _, hq', hkeep, Or.inl hpage, hself, hmem ▸ hsame,
        ⟨(x.state.sharePages i).ref + 1, fun hA => by have := href hA; omega, ?_⟩,
        Or.inr ⟨hi, hno, hnew⟩⟩
      rw [State.setSharePage, hshare, hslots, Function.update_self, Function.update_idem]

section GetStep

variable {i : Fin 16} {kva : ℕ}

/-- The frame that the address of a get maps. -/
lemma GetStep.getKvaOfUva (h : x.GetStep A role key pgdir uva t i kva role' e' q') :
    t.getKvaOfUva uva pgdir = kva := by
  obtain ⟨hframe, hlt⟩ := h.spaces.isFrame h.frame
  have halign : uva % 4096 = 0 := h.fresh.2.1
  rw [getKvaOfUva_of_leaf h.leaf hframe hlt (by decide), halign, Nat.add_zero]

lemma GetStep.leaf_eq_zero (h : x.GetStep A role key pgdir uva t i kva role' e' q') :
    x.state.leaf pgdir (vpns uva) = 0 :=
  getPteOfUva_eq_none.1 h.fresh.2.2.2

/-- The frame was got for the key before, or it is new. -/
lemma GetStep.key_eq (h : x.Keyed role) (hg : x.GetStep A role key pgdir uva t i kva role' e' q')
    {b : Got} (hb : b ∈ x.gets) (hframe : kva = b.frame) : key = b.key := by
  rcases hg.old with ⟨hkey, hkva⟩ | ⟨-, -, hfree⟩
  · rw [← hkey]
    exact h.named.slots b hb i (hkva.trans hframe)
  · have := h.named.page b hb
    rw [← hframe, hfree] at this
    cases this

/-- Every get is recorded, and its key and frame are in no other slot. -/
lemma GetStep.keyed (h : x.Keyed role) (hA : ¬ A) (hd : pgdir ∈ x.spaces) (hkey : key ≠ 0)
    (hg : x.GetStep A role key pgdir uva t i kva role' e' q') :
    ((x.next t).record key pgdir uva).Keyed role' := by
  obtain ⟨ref, href, hslots⟩ := hg.slots
  have hstays := Stays.of_keep hg.keep
  have hpage := hg.frame.resolve_right fun hzero => hA hzero.1
  have hkeys : ∀ j, j ≠ i → (x.state.sharePages j).key ≠ key := by
    intro j hj heq
    rcases hg.old with ⟨hi, -⟩ | ⟨-, hno, -⟩
    · exact hj (h.slots.keys i j (hi ▸ hkey) (hi.trans heq.symm)).symm
    · exact hno j heq
  have hkvas : ∀ j, j ≠ i → (x.state.sharePages j).kva ≠ kva := by
    intro j hj heq
    rcases hg.old with ⟨hi, hkva⟩ | ⟨-, -, hfree⟩
    · exact hj (h.slots.kvas i j (hi ▸ hkey) (hkva.trans heq.symm)).symm
    · rcases h.slots.ok j with ⟨-, -, hrole⟩ | ⟨-, -, hzero⟩
      · rw [heq, hfree] at hrole
        cases hrole
      · exact hg.spaces.ne_zero hpage (heq.symm.trans hzero)
  have hold : (x.state.sharePages i).key = key ∧ (x.state.sharePages i).kva = kva ∨
      (x.state.sharePages i).key = 0 := hg.old.imp_right And.left
  rw [record, if_neg hg.fresh.1]
  simp only [next, hg.getKvaOfUva]
  refine ⟨?_, ?_, ?_⟩
  · simp only [hslots]
    exact (h.slots.mono fun _ _ => hstays.page).set hkey (href hA) hpage hkeys hkvas
  · simp only [hslots]
    refine Named.set (a := ⟨key, pgdir, uva, kva⟩) ?_ hkey hpage (fun b hb => hg.key_eq h hb) hkvas
      hold
    exact h.named.mono (fun f => hstays.page) fun a => List.mem_of_mem_filter
  · rintro a (_ | ⟨_, ha⟩)
    · refine ⟨hd, own_vpn2 hg.fresh.2.2.1, hg.fresh.2.1, ?_⟩
      show t.leaf pgdir (vpns uva) ≠ 0 ∧ frameOf (t.leaf pgdir (vpns uva)) = kva
      rw [hg.leaf, hg.spaces.frameOf_entry hg.frame (by decide)]
      exact ⟨hg.spaces.entry_ne_zero hg.frame (by decide), rfl⟩
    · obtain ⟨hmem, hown, halign, hnz, hframe⟩ := h.held a ha
      obtain ⟨hnz', hsame⟩ := hg.same.sameFrames hg.leaf_eq_zero a.pgdir hmem (vpns a.uva) hown hnz
      exact ⟨hmem, hown, halign, hnz', hsame.trans hframe⟩

lemma Inv.getStep (h : x.Inv A role e q) (hd : pgdir ∈ x.spaces) (hkey : A ∨ key ≠ 0)
    (hg : x.GetStep A role key pgdir uva t i kva role' e' q') :
    Inv A ((x.next t).record key pgdir uva) role' e' q' := by
  obtain ⟨ref, -, hslots⟩ := hg.slots
  have hkvas : ∀ j, (t.sharePages j).kva = 0 ∨ role' (t.sharePages j).kva = .page := by
    intro j
    rw [hslots]
    rcases eq_or_ne j i with rfl | hj
    · rw [Function.update_self]
      exact hg.frame.symm.imp_left And.right
    · rw [Function.update_of_ne hj]
      exact (h.kvas j).imp_right (Stays.of_keep hg.keep).page
  have hkeyed := fun hA => hg.keyed (h.keyed hA) hA hd (hkey.resolve_left hA)
  rw [record, if_neg hg.fresh.1] at hkeyed ⊢
  exact ⟨hg.spaces, hg.book, hg.swapped, hkvas, hkeyed⟩

end GetStep

lemma Inv.shmPageGet (h : x.Inv A role e q) (hd : pgdir ∈ x.spaces) (hkey : A ∨ key ≠ 0)
    (hc : x.call (.shmPageGet key pgdir) = some y) : Keeps A role y := by
  simp only [call, Option.map_eq_some_iff] at hc
  obtain ⟨⟨uva, t⟩, hs, rfl⟩ := hc
  rcases h.shmPageGet_cases hd hkey hs with ⟨-, rfl, rfl⟩ | ⟨i, kva, role', e', q', hg⟩
  · rw [record, if_pos rfl]
    exact ⟨role, e, q, h.of_memory h.spaces (fun _ _ => rfl)
      (SameLeaves.sameFrames fun _ _ _ _ => rfl) subset_rfl, Stays.refl role⟩
  · exact ⟨role', e', q', h.getStep hd hkey hg, Stays.of_keep hg.keep⟩

/-! ## Giving a shared page up -/

/-- A slot loses a reference, or becomes free. -/
lemma Inv.changeSlot {l : List Got} {i : Fin 16} {v : SharePage} (h : x.Inv A role e q)
    (hmem : s.toMemory = x.state.toMemory) (hb : s.Book q') (hq : q' .swappedPagesQueue = [])
    (hi : ¬ A → (x.state.sharePages i).key ≠ 0)
    (hshare : s.sharePages = Function.update x.state.sharePages i v)
    (hv : v = ⟨0, 0, 0⟩ ∨ ∃ ref, (¬ A → 0 < ref) ∧
      v = ⟨(x.state.sharePages i).kva, ref, (x.state.sharePages i).key⟩)
    (hin : ∀ a ∈ l, a ∈ x.inUse ∧ s.Uses a.key) :
    Inv A ⟨s, x.spaces, x.gets, l, x.held⟩ role e q' := by
  refine ⟨?_, hb, hq, fun j => ?_, fun hA => ?_⟩
  · simp only [hmem]
    exact h.spaces
  · show (s.sharePages j).kva = 0 ∨ role (s.sharePages j).kva = .page
    rw [hshare]
    rcases eq_or_ne j i with rfl | hji
    · rw [Function.update_self]
      rcases hv with rfl | ⟨ref, -, rfl⟩
      · exact Or.inl rfl
      · exact h.kvas j
    · rw [Function.update_of_ne hji]
      exact h.kvas j
  · have hk := h.keyed hA
    have h₀ : role 0 ≠ .page := fun hzero => h.spaces.ne_zero hzero rfl
    obtain ⟨hslots, hle⟩ := hk.slots.change h₀ (hi hA)
      (hv.imp_right fun ⟨ref, href, heq⟩ => ⟨ref, href hA, heq⟩)
    rw [← hshare] at hslots hle
    refine ⟨hslots, hk.named.of_le hk.slots hslots h₀ hle fun a ha => ?_, fun a ha => ?_⟩
    · obtain ⟨ha, j, hj, -⟩ := hin a ha
      exact ⟨ha, j, hj⟩
    · simp only [hmem]
      exact hk.held a ha

lemma Inv.shmPageDt (h : x.Inv A role e q) (hd : pgdir ∈ x.spaces) (ho : Own (vpn2 uva))
    (hc : x.call (.shmPageDt uva pgdir) = some y) : Keeps A role y := by
  simp only [call, Option.map_eq_some_iff] at hc
  obtain ⟨s, hs, rfl⟩ := hc
  obtain ⟨m, q', hm, hmem, hdrops, hcases⟩ := h.book.shmPageDt_cases hs
  have hq := hdrops.eq_nil h.swapped
  obtain ⟨hne, hspaces, -, hsame⟩ := h.spaces.modifyPte hd ho (Or.inl rfl) hm
  obtain ⟨f, bits, hleaf, hbits, hf⟩ := (h.spaces.leaf pgdir hd _ ho).resolve_left hne
  obtain ⟨hframe, hlt⟩ := h.spaces.isFrame hf
  rw [getKvaOfUva_and_mask hleaf hframe hlt hbits] at hcases
  -- the address is unmapped, and then the count of its slot goes down
  have h₁ := h.of_sameBut (s := { x.state with toMemory := m }) (l := x.inUse) hspaces
    (h.book.memory _) h.swapped rfl (Stays.refl role) (fun _ => id) hsame
  rcases hcases with ⟨-, rfl⟩ | ⟨i, ref, hfind, href, -, hslots⟩
  · exact ⟨role, e, q, ⟨h₁.spaces, h₁.book, h₁.swapped, h₁.kvas, fun hA =>
      ⟨(h₁.keyed hA).slots, (h₁.keyed hA).named.mono (fun _ => id) fun a => List.mem_of_mem_filter,
        (h₁.keyed hA).held⟩⟩, Stays.refl role⟩
  · have hkva := State.findShareKva_eq_some hfind
    have hused : ¬ A → (x.state.sharePages i).key ≠ 0 ∧ 0 < (x.state.sharePages i).ref := by
      intro hA
      have hpage : role (x.state.sharePages i).kva = .page := by
        rw [hkva]
        exact hf.resolve_right fun hzero => hA hzero.1
      have hkey : (x.state.sharePages i).key ≠ 0 :=
        (h.keyed hA).slots.key_ne (fun hzero => h.spaces.ne_zero hzero rfl) hpage
      exact ⟨hkey, (((h.keyed hA).slots.ok i).resolve_right fun hfree => hkey hfree.1).2.1⟩
    have hin : ∀ a ∈ x.inUse.filter fun a => s.Uses a.key, a ∈ x.inUse ∧ s.Uses a.key := by
      intro a ha
      obtain ⟨ha, huses⟩ := List.mem_filter.1 ha
      exact ⟨ha, of_decide_eq_true huses⟩
    refine ⟨role, e, q', ?_, Stays.refl role⟩
    split_ifs at hslots with hzero
    · exact h₁.changeSlot (i := i) (v := ⟨0, 0, 0⟩) hmem hdrops.book hq (fun hA => (hused hA).1)
        hslots.1 (Or.inl rfl) hin
    · refine h₁.changeSlot (i := i) hmem hdrops.book hq (fun hA => (hused hA).1)
        (hslots ▸ rfl) (Or.inr ⟨ref, fun hA => ?_, rfl⟩) hin
      have := (hused hA).2
      omega

/-! ## Runs -/

lemma Inv.call {ev : ShareEvent} (h : x.Inv A role e q) (hu : ev.UserAddress)
    (hk : A ∨ ev.KeyNonzero) (hd : ∀ pgdir ∈ ev.pgdir, pgdir ∈ x.spaces) (hc : x.call ev = some y) :
    Keeps A role y := by
  cases ev with
  | newPgdir => exact h.newPgdir hc
  | sharePgtable pgdir => exact h.sharePgtable (hd pgdir rfl) hc
  | kalloc => exact h.kalloc hc
  | allocPageHelper uva pgdir => exact h.allocPageHelper (hd pgdir rfl) hu hc
  | unsetExec uva pgdir => exact h.unsetExec (hd pgdir rfl) hu hc
  | handlePageFault stval pgdir store => exact h.handlePageFault (hd pgdir rfl) hu hc
  | swapInAllPages pgdir => exact h.swapInAllPages hc
  | freePageWithKva kva => exact h.freePageWithKva hc
  | exit pgdir => exact h.exit (hd pgdir rfl) hc
  | shmPageGet key pgdir => exact h.shmPageGet (hd pgdir rfl) hk hc
  | shmPageDt addr pgdir => exact h.shmPageDt (hd pgdir rfl) hu hc
  | store uva pgdir v => exact h.store (hd pgdir rfl) hc

lemma Inv.step {ev : ShareEvent} (h : x.Inv A role e q) (hu : ev.UserAddress)
    (hk : A ∨ ev.KeyNonzero) (hs : x.step ev = some y) : Keeps A role y := by
  rw [Sharing.step, Option.ite_none_right_eq_some] at hs
  exact h.call hu hk hs.1 hs.2

lemma inv_boot (A : Prop) (m : Memory) (kernel io : ℕ) (sd : ℕ → Fin 64 → ℕ) (startid : ℤ) :
    ∃ role q, (boot m kernel io sd startid).Inv A role FREEMEM_KERNEL q := by
  classical
  let role : ℕ → Role := fun f => if IsPage f then .free else .kernel
  have hrole : ∀ f r, role f = r → r = .free ∨ r = .kernel := by
    rintro f r rfl
    by_cases hf : IsPage f
    · exact Or.inl (if_pos hf)
    · exact Or.inr (if_neg hf)
  have ht : Tables (kernelPgdir m kernel io).initKernelFreemem role FREEMEM_KERNEL := by
    refine ⟨⟨[], freeList_initKernelFreemem _, fun f hf => ?_⟩, by decide, fun f hf => ?_,
      fun f i c hc => ?_⟩
    · exact ⟨fun _ => Or.inr hf.2, fun _ => if_pos hf⟩
    · by_contra hno
      exact hf (if_neg hno)
    · rcases hrole f _ rfl with hf | hf <;> simp [hf, Role.child] at hc
  have hpgdir : ∀ i, Own i → (kernelPgdir m kernel io).initKernelFreemem.mem PGDIR_VA i = 0 := by
    intro i hi
    have hother : (kernelPgdir m kernel io).initKernelFreemem.mem PGDIR_VA =
        (kernelPgdir m kernel io).mem PGDIR_VA :=
      store_of_ne (show PGDIR_VA ≠ FREEMEM_KERNEL by decide)
    rw [hother, kernelPgdir, store_self, Function.update_of_ne hi.2, store_self,
      Function.update_of_ne hi.1, clear_self]
  refine ⟨role, _, ⟨ht, fun d => ?_, fun d hd => ?_, hpgdir⟩,
    State.book_boot _ sd startid, rfl, fun i => Or.inl rfl, fun _ =>
    ⟨⟨fun i => Or.inr ⟨rfl, rfl, rfl⟩, fun i j hi => ?_, fun i j hi => ?_⟩, ⟨?_, ?_, ?_, ?_⟩, ?_⟩⟩
  · constructor
    · intro hd
      cases hd
    · intro hd
      rcases hrole d _ hd with h | h <;> cases h
  · cases hd
  · exact absurd rfl hi
  · exact absurd rfl hi
  all_goals
    intro a ha
    cases ha

lemma Inv.getLaw (h : x.Inv False role e q) (hkey : key ≠ 0) (hd : pgdir ∈ x.spaces) :
    GetLaw x.state key pgdir where
  noSlot := by
    intro hno
    have h₁ : x.state.findShare key = none := State.findShare_eq_none.2 fun i => (hno i).1
    have h₂ : x.state.findShare 0 = none := State.findShare_eq_none.2 fun i => (hno i).2
    simp only [State.shmPageGet, h₁, h₂]
  mapped := by
    intro hslot uva t hs
    rcases h.shmPageGet_cases hd (Or.inr hkey) hs with ⟨hno, -⟩ | ⟨i, kva, role', e', q', hg⟩
    · exact absurd hno hslot
    · obtain ⟨hne, halign, hlt, hpte⟩ := hg.fresh
      have hnz : t.leaf pgdir (vpns uva) ≠ 0 := by
        rw [hg.leaf]
        exact hg.spaces.entry_ne_zero hg.frame (by decide)
      refine ⟨hne, halign, hlt, hpte, ?_, _, _, by rw [getPteOfUva_eq, if_neg hnz], ?_⟩
      · have hpage : role' kva = .page := hg.frame.resolve_right And.left
        rw [hg.getKvaOfUva]
        exact hg.spaces.tables.allocated (by simp [hpage]) (by simp [hpage])
      · rw [hg.getKvaOfUva, ← hg.leaf]
        exact (leaf_eq hnz).symm

lemma Inv.law (h : x.Inv False role e q) : ShareLaw x where
  get := fun key hkey pgdir hd => h.getLaw hkey hd
  same := by
    intro a ha b hb hab
    obtain ⟨hne, i, hi, hfi⟩ := (h.keyed id).named.inUse a ha
    obtain ⟨-, j, hj, hfj⟩ := (h.keyed id).named.inUse b hb
    obtain rfl := (h.keyed id).slots.keys i j (hi ▸ hne) (by rw [hi, hab, hj])
    exact hfi.symm.trans hfj
  different := fun a ha b hb hne heq => hne ((h.keyed id).named.different a ha b hb heq)
  held := by
    intro a ha
    obtain ⟨hmem, hown, halign, hne, hframe⟩ := (h.keyed id).held a ha
    obtain ⟨bits, hleaf, hbits, hpage⟩ := h.spaces.frame hmem hown hne
    obtain ⟨hf, hlt⟩ := h.spaces.isFrame hpage
    refine ⟨hmem, ?_⟩
    have halign' : a.uva % 4096 = 0 := halign
    rw [getKvaOfUva_of_leaf hleaf hf hlt hbits, halign', Nat.add_zero, hframe]

/-- The invariant of the runs. -/
lemma always_inv (A : Prop) (m : Memory) (kernel io : ℕ) (sd : ℕ → Fin 64 → ℕ) (startid : ℤ)
    {es : List ShareEvent} (hes : ∀ ev ∈ es, ev.UserAddress ∧ (A ∨ ev.KeyNonzero)) :
    Trace.Always step (fun x => ∃ role e q, x.Inv A role e q) (boot m kernel io sd startid) es := by
  have hC : Trace.StepsMeet step (fun _ ev => ev.UserAddress ∧ (A ∨ ev.KeyNonzero))
      (boot m kernel io sd startid) es :=
    fun pre ev post heq _ _ => hes ev (by rw [heq]; simp)
  obtain ⟨role, q, hboot⟩ := inv_boot A m kernel io sd startid
  refine Trace.always_of_invariant
    (C := fun _ ev => ev.UserAddress ∧ (A ∨ ev.KeyNonzero)) ?_ ⟨role, _, q, hboot⟩ hC
  rintro x ev y ⟨role, e, q, h⟩ ⟨hu, hk⟩ hstep
  obtain ⟨role', e', q', h', -⟩ := h.step hu hk hstep
  exact ⟨role', e', q', h'⟩

/-- In every run in which no process asks for key 0, and none passes an address of the
kernel or of a device, the keys name frames. -/
theorem shared_keys_name_frames (m : Memory) (kernel io : ℕ) (sd : ℕ → Fin 64 → ℕ) (startid : ℤ)
    (es : List ShareEvent) (hes : ∀ ev ∈ es, ev.Proper) :
    Trace.Always step ShareLaw (boot m kernel io sd startid) es :=
  (always_inv False m kernel io sd startid fun ev hev =>
    ⟨(hes ev hev).1, Or.inr (hes ev hev).2⟩).mono fun _ ⟨_, _, _, h⟩ => h.law

/-- Two processes that get key 42, one of which gets another key as well. -/
theorem shared_keys_name_frames_two : ∃ x,
    Trace.run step (boot ⟨fun _ _ => 0, 0⟩ 1 1 (fun _ _ => 0) 100)
      [.newPgdir, .newPgdir, .shmPageGet 42 FREEMEM_KERNEL,
        .shmPageGet 42 (FREEMEM_KERNEL + PAGE_SIZE), .shmPageGet (-7) FREEMEM_KERNEL] = some x ∧
      x.inUse.map Got.key = [-7, 42, 42] ∧ ShareLaw x := by
  have hrun : (Trace.run step (boot ⟨fun _ _ => 0, 0⟩ 1 1 (fun _ _ => 0) 100)
      [.newPgdir, .newPgdir, .shmPageGet 42 FREEMEM_KERNEL,
        .shmPageGet 42 (FREEMEM_KERNEL + PAGE_SIZE), .shmPageGet (-7) FREEMEM_KERNEL]).map
      (fun x => x.inUse.map Got.key) = some [-7, 42, 42] := by decide +kernel
  obtain ⟨x, hx, hkeys⟩ := Option.map_eq_some_iff.1 hrun
  refine ⟨x, hx, hkeys, (shared_keys_name_frames _ 1 1 _ 100 _ fun ev hev => ?_).last hx⟩
  simp only [List.mem_cons, List.not_mem_nil, or_false] at hev
  rcases hev with rfl | rfl | rfl | rfl | rfl <;>
    simp [ShareEvent.Proper, ShareEvent.UserAddress, ShareEvent.KeyNonzero]

/-- A get of key 0 finds a free slot, and maps `NULL`. -/
theorem Inv.getKvaOfUva_key_zero {i : Fin 16} (h : x.Inv False role e q) (hd : pgdir ∈ x.spaces)
    (hfree : (x.state.sharePages i).key = 0) (hs : x.state.shmPageGet 0 pgdir = some (uva, t)) :
    uva ≠ 0 ∧ t.getKvaOfUva uva pgdir = 0 := by
  cases hfind : x.state.findShare 0 with
  | none => exact absurd hfree (State.findShare_eq_none.1 hfind i)
  | some j =>
    have hj := State.findShare_eq_some hfind
    obtain ⟨-, -, hkva⟩ := ((h.keyed id).slots.ok j).resolve_left fun hused => hused.1 hj
    simp only [State.shmPageGet, hfind, Option.bind_eq_bind, Option.bind_eq_some_iff,
      Option.some.injEq, Prod.mk.injEq, State.setSharePage, Function.update_self, hkva] at hs
    obtain ⟨ref, -, uva, huva, m, hm, rfl, rfl⟩ := hs
    obtain ⟨hne, halign, hlt, -⟩ := Memory.firstUnmapped_uva huva
    obtain ⟨-, -, -, -, -, hleaf, -⟩ :=
      h.spaces.tables.mapUvaToKva (h.spaces.role_dir hd) (own_vpn2 hlt) hm
    have halign' : uva &&& 2 ^ 12 - 1 = 0 := (Nat.and_two_pow_sub_one_eq_mod uva 12).trans halign
    refine ⟨hne, ?_⟩
    show m.getKvaOfUva uva pgdir = 0
    rw [getKvaOfUva_eq, hleaf, halign', Nat.or_zero]
    split_ifs with hz
    · rfl
    · exact frameOf_entry isFrame_zero (by decide)

/-- The first process asks for key 0. -/
theorem key_zero_maps_null : ∃ x,
    Trace.run step (boot ⟨fun _ _ => 0, 0⟩ 1 1 (fun _ _ => 0) 100) [.newPgdir] = some x ∧
      FREEMEM_KERNEL ∈ x.spaces ∧ ¬ GetLaw x.state 0 FREEMEM_KERNEL := by
  have hrun : ((Trace.run step (boot ⟨fun _ _ => 0, 0⟩ 1 1 (fun _ _ => 0) 100) [.newPgdir]).bind
      fun x => (x.state.shmPageGet 0 FREEMEM_KERNEL).map fun r => (decide (FREEMEM_KERNEL ∈ x.spaces),
        decide (x.state.NoSlot 0), r.2.getKvaOfUva r.1 FREEMEM_KERNEL)) = some (true, false, 0) := by
    decide +kernel
  obtain ⟨x, hx, hget⟩ := Option.bind_eq_some_iff.1 hrun
  obtain ⟨⟨uva, t⟩, hget, hval⟩ := Option.map_eq_some_iff.1 hget
  simp only [Prod.mk.injEq, decide_eq_true_eq, decide_eq_false_iff_not] at hval
  obtain ⟨hmem, hslot, hkva⟩ := hval
  refine ⟨x, hx, hmem, fun hlaw => ?_⟩
  obtain ⟨-, -, -, -, ⟨hpage, -⟩, -⟩ := hlaw.mapped hslot uva t hget
  -- `NULL` is no page of the allocator
  rw [hkva] at hpage
  exact absurd hpage.2 (by decide)

end Sharing

end Mm
end UcasKernel
