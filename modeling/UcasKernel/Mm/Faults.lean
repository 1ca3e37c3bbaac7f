/-
Page faults.

`handle_page_fault` takes every page that is mapped for one that was swapped out.  With as
many records as pages may be present nothing is ever swapped out, so the handler deals with
the first touch of a page, and a fault on a page that is mapped ends with `swap_in` of
`NULL`.
-/
import UcasKernel.Mm.SharedRuns

namespace UcasKernel
namespace Mm

open Memory

/-! ## The law -/

/-- What the card holds for a record that is swapped out. -/
def State.savedPage (s : State) (page : Pfn) : Fin 512 → ℕ :=
  fun i => s.sd ((s.pages page).sectorId.toNat + i / 64) (Fin.ofNat 64 i)

/-- What `handle_page_fault` does for a fault at an address. -/
structure FaultLaw (s : State) (maxPresentPfn stval pgdir : ℕ) (store : Bool) : Prop where
  /-- The record for `swap_in` is not `NULL`. -/
  record : s.getKvaOfUva (stval &&& PAGE_MASK) pgdir ≠ 0 →
    s.findPageWithUva (stval &&& PAGE_MASK) pgdir .swappedPagesQueue ≠ some none
  /-- When it returns, the page is present, and holds zeros or what was saved. -/
  present : ∀ t, s.handlePageFault maxPresentPfn stval pgdir store = some t →
    ∃ pte i, t.getPteOfUva (stval &&& PAGE_MASK) pgdir = some (pte, i) ∧ Present (t.mem pte i) ∧
      (s.getPteOfUva (stval &&& PAGE_MASK) pgdir = none →
        t.mem (frameOf (t.mem pte i)) = fun _ => 0) ∧
      ∀ page, s.findPageWithUva (stval &&& PAGE_MASK) pgdir .swappedPagesQueue = some (some page) →
        t.mem (frameOf (t.mem pte i)) = s.savedPage page

/-! ## The first touch -/

variable {m m' : Memory} {spaces : Finset ℕ} {role : ℕ → Role} {e f kva uva pgdir stval : ℕ}
  {A : Prop} {s t : State} {q : Queue → List Pfn}

/-- The address maps a page of zeros. -/
structure MapsZeros (A : Prop) (spaces : Finset ℕ) (pgdir uva kva : ℕ) (m : Memory) : Prop where
  spaces : ∃ role e, Spaces A m spaces role e ∧ role kva = .page
  leaf : ∃ bits < 2 ^ 10, bits % 2 = 1 ∧ m.leaf pgdir (vpns uva) = entry kva bits
  zero : m.mem kva = fun _ => 0

/-- A change of an entry changes no page of a process. -/
lemma Spaces.modifyPte_page {g : ℕ → ℕ} (h : Spaces A m spaces role e) (hd : pgdir ∈ spaces)
    (ho : Own (vpn2 uva)) (hm : m.modifyPte uva pgdir g = some m') (hf : role f = .page) :
    m'.mem f = m.mem f := by
  obtain ⟨-, -, -, -, hmem⟩ := h.tables.modifyPte (h.role_dir hd) ho hm
  exact hmem f (by simp [hf])

lemma MapsZeros.set {bits : ℕ} (h : MapsZeros A spaces pgdir uva kva m)
    (hd : pgdir ∈ spaces) (ho : Own (vpn2 uva)) (hbits : bits < 2 ^ 10)
    (hm : m.modifyPte uva pgdir (fun pte => setAttribute pte bits) = some m') :
    MapsZeros A spaces pgdir uva kva m' := by
  obtain ⟨⟨role, e, hs, hpage⟩, ⟨b, hb, hodd, hleaf⟩, hzero⟩ := h
  have hset : setAttribute (m.leaf pgdir (vpns uva)) bits = entry kva (b ||| bits) := by
    rw [hleaf, setAttribute_entry]
  have hlt : b ||| bits < 2 ^ 10 := Nat.or_lt_two_pow hb hbits
  obtain ⟨-, hs', hself, -⟩ :=
    hs.modifyPte hd ho (Or.inr ⟨kva, _, hset, hlt, Or.inl hpage⟩) hm
  exact ⟨⟨role, e, hs', hpage⟩, ⟨_, hlt, or_mod_two_eq_one hodd, hself.trans hset⟩,
    (hs.modifyPte_page hd ho hm hpage).trans hzero⟩

/-- The page that `alloc_page_helper` maps holds zeros. -/
lemma Spaces.allocPageHelper_zeros (h : Spaces A s.toMemory spaces role e) (hb : s.Book q)
    (hq : q .swappedPagesQueue = []) (hd : pgdir ∈ spaces) (ho : Own (vpn2 uva))
    (hs : s.allocPageHelper MAX_PRESENT_PFN uva pgdir = some (kva, t)) :
    MapsZeros A spaces pgdir uva kva t.toMemory := by
  obtain ⟨-, -, -, role', e', hspaces, -, hpage, hself, -⟩ := h.allocPageHelper hb hq hd ho hs
  exact ⟨⟨role', e', hspaces, hpage⟩, ⟨PAGE_ALL, by decide, by decide, hself⟩,
    (h.allocPageHelper_mem hb hd ho hs).1⟩

/-- The law for a page that is not mapped. -/
lemma Spaces.faultLaw {store : Bool} (h : Spaces A s.toMemory spaces role e) (hb : s.Book q)
    (hq : q .swappedPagesQueue = []) (hd : pgdir ∈ spaces) (ho : Own (vpn2 (stval &&& PAGE_MASK)))
    (hz : s.getKvaOfUva (stval &&& PAGE_MASK) pgdir = 0) :
    FaultLaw s MAX_PRESENT_PFN stval pgdir store := by
  refine ⟨fun hne => absurd hz hne, fun t ht => ?_⟩
  have hmapped : ∃ kva, MapsZeros A spaces pgdir (stval &&& PAGE_MASK) kva t.toMemory := by
    have haccessed : PAGE_ACCESSED < 2 ^ 10 := by decide
    have hdirty : PAGE_DIRTY < 2 ^ 10 := by decide
    simp only [State.handlePageFault, Option.bind_eq_bind, Option.bind_eq_some_iff] at ht
    obtain ⟨u, hu, m, hm, ht⟩ := ht
    obtain ⟨-, kva, halloc⟩ := hb.bringIn_spec hq hu
    have h₁ := (h.allocPageHelper_zeros hb hq hd ho halloc).set hd ho haccessed hm
    split_ifs at ht with hstore
    · simp only [Option.bind_eq_some_iff, Option.some.injEq] at ht
      obtain ⟨m', hm', rfl⟩ := ht
      exact ⟨kva, h₁.set hd ho hdirty hm'⟩
    · rw [Option.some.injEq] at ht
      subst ht
      exact ⟨kva, h₁⟩
  obtain ⟨kva, ⟨role', e', hs, hpage⟩, ⟨bits, hbits, hodd, hleaf⟩, hzero⟩ := hmapped
  obtain ⟨hframe, -⟩ := hs.isFrame (Or.inl hpage)
  have hne : t.leaf pgdir (vpns (stval &&& PAGE_MASK)) ≠ 0 := by
    rw [hleaf]
    exact hs.entry_ne_zero (Or.inl hpage) hbits
  have hword := leaf_eq hne
  rw [vpns_fst, vpns_snd_fst, vpns_snd_snd, hleaf] at hword
  refine ⟨_, _, by rw [getPteOfUva_eq, if_neg hne], ?_, fun _ => ?_, fun page hpage' => ?_⟩
  · rw [← hword]
    exact (present_entry hframe hbits).2 hodd
  · rw [← hword, Mm.frameOf_entry hframe hbits, hzero]
  · -- nothing is swapped out
    rw [State.findPageWithUva, hb.find, hq] at hpage'
    cases hpage'

namespace Sharing

variable {x : Sharing}

/-- The queue that the handler searches is empty. -/
lemma Inv.faultLaw_iff {store : Bool} (h : x.Inv A role e q) (hd : pgdir ∈ x.spaces)
    (hu : stval < 2 ^ 38) : FaultLaw x.state MAX_PRESENT_PFN stval pgdir store ↔
      x.state.getKvaOfUva (stval &&& PAGE_MASK) pgdir = 0 := by
  have ho : Own (vpn2 (stval &&& PAGE_MASK)) := by
    rw [vpn2_and_pageMask]
    exact own_vpn2 hu
  refine ⟨fun hlaw => ?_, fun hz => h.spaces.faultLaw h.book h.swapped hd ho hz⟩
  by_contra hne
  refine hlaw.record hne ?_
  rw [State.findPageWithUva, h.book.find, h.swapped]
  rfl

/-- In every run in which no process passes or touches an address of the kernel or of a
device, a fault is dealt with exactly when no page is mapped at its address. -/
theorem fault_iff_unmapped (m : Memory) (kernel io : ℕ) (sd : ℕ → Fin 64 → ℕ) (startid : ℤ)
    (es : List ShareEvent) (hes : ∀ ev ∈ es, ev.UserAddress) :
    Trace.Always step (fun x => ∀ pgdir ∈ x.spaces, ∀ stval < 2 ^ 38, ∀ store,
      FaultLaw x.state MAX_PRESENT_PFN stval pgdir store ↔
        x.state.getKvaOfUva (stval &&& PAGE_MASK) pgdir = 0)
      (boot m kernel io sd startid) es :=
  (always_inv True m kernel io sd startid fun ev hev => ⟨hes ev hev, Or.inl trivial⟩).mono
    fun _ ⟨_, _, _, h⟩ _ hd _ hu _ => h.faultLaw_iff hd hu

/-- The stack page of a new process, and the first touch of the page below it. -/
theorem fault_iff_unmapped_first : ∃ x,
    Trace.run step (boot ⟨fun _ _ => 0, 0⟩ 1 1 (fun _ _ => 0) 100)
      [.newPgdir, .allocPageHelper 0x20000 FREEMEM_KERNEL] = some x ∧
      (x.state.handlePageFault MAX_PRESENT_PFN 0x1f008 FREEMEM_KERNEL true).isSome ∧
      FaultLaw x.state MAX_PRESENT_PFN 0x1f008 FREEMEM_KERNEL true := by
  have hrun : (Trace.run step (boot ⟨fun _ _ => 0, 0⟩ 1 1 (fun _ _ => 0) 100)
      [.newPgdir, .allocPageHelper 0x20000 FREEMEM_KERNEL]).map (fun x =>
        (decide (FREEMEM_KERNEL ∈ x.spaces),
          (x.state.handlePageFault MAX_PRESENT_PFN 0x1f008 FREEMEM_KERNEL true).isSome,
          decide (x.state.getKvaOfUva (0x1f008 &&& PAGE_MASK) FREEMEM_KERNEL = 0))) =
        some (true, true, true) := by
    decide +kernel
  obtain ⟨x, hx, hval⟩ := Option.map_eq_some_iff.1 hrun
  simp only [Prod.mk.injEq, decide_eq_true_eq] at hval
  obtain ⟨hd, hret, hz⟩ := hval
  have hlaw := (fault_iff_unmapped ⟨fun _ _ => 0, 0⟩ 1 1 (fun _ _ => 0) 100 _ fun ev hev => by
    simp only [List.mem_cons, List.not_mem_nil, or_false] at hev
    rcases hev with rfl | rfl <;> simp [ShareEvent.UserAddress, own_vpn2]).last hx
  exact ⟨x, hx, hret, (hlaw FREEMEM_KERNEL hd 0x1f008 (by decide) true).2 hz⟩

/-- The stack page of a new process is mapped without `_PAGE_EXEC`; the fault of a jump to it
passes `NULL` to `swap_in`. -/
theorem fetch_from_stack_faults : ∃ x,
    Trace.run step (boot ⟨fun _ _ => 0, 0⟩ 1 1 (fun _ _ => 0) 100)
      [.newPgdir, .allocPageHelper 0x20000 FREEMEM_KERNEL, .unsetExec 0x20000 FREEMEM_KERNEL] =
        some x ∧
      FREEMEM_KERNEL ∈ x.spaces ∧ Present (x.state.leaf FREEMEM_KERNEL (vpns 0x20000)) ∧
      x.state.leaf FREEMEM_KERNEL (vpns 0x20000) &&& PAGE_EXEC = 0 ∧
      ¬ FaultLaw x.state MAX_PRESENT_PFN 0x20000 FREEMEM_KERNEL false := by
  have hrun : (Trace.run step (boot ⟨fun _ _ => 0, 0⟩ 1 1 (fun _ _ => 0) 100)
      [.newPgdir, .allocPageHelper 0x20000 FREEMEM_KERNEL,
        .unsetExec 0x20000 FREEMEM_KERNEL]).map (fun x =>
        (decide (FREEMEM_KERNEL ∈ x.spaces),
          decide (Present (x.state.leaf FREEMEM_KERNEL (vpns 0x20000))),
          decide (x.state.leaf FREEMEM_KERNEL (vpns 0x20000) &&& PAGE_EXEC = 0),
          decide (x.state.getKvaOfUva (0x20000 &&& PAGE_MASK) FREEMEM_KERNEL = 0))) =
        some (true, true, true, false) := by
    decide +kernel
  obtain ⟨x, hx, hval⟩ := Option.map_eq_some_iff.1 hrun
  simp only [Prod.mk.injEq, decide_eq_true_eq, decide_eq_false_iff_not] at hval
  obtain ⟨hd, hpresent, hexec, hmapped⟩ := hval
  obtain ⟨role, e, q, h⟩ := (always_inv True ⟨fun _ _ => 0, 0⟩ 1 1 (fun _ _ => 0) 100
    fun ev hev => by
      simp only [List.mem_cons, List.not_mem_nil, or_false] at hev
      rcases hev with rfl | rfl | rfl <;> simp [ShareEvent.UserAddress, own_vpn2]).last hx
  exact ⟨x, hx, hd, hpresent, hexec, mt (h.faultLaw_iff hd (by decide)).1 hmapped⟩

end Sharing

end Mm
end UcasKernel
