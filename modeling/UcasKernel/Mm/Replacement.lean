/-
Pages are replaced in the order in which they came.

`swap_out` takes the first record of `present_pages_queue`, and every record that gets a frame
goes to its tail.  So over any run the pages that were swapped out, followed by those that are
present, are the pages that were present before followed by those that got a frame, less the
ones that were freed.
-/
import UcasKernel.Lib.Fifo
import UcasKernel.Mm.PageRuns

namespace UcasKernel
namespace Mm

open Links (appendTo removeFrom)
open Fifo Trace

/-- The call frees a page. -/
def PageEvent.frees : PageEvent → Bool
  | .freePageWithUva _ _ => true
  | .freePageWithKva _ => true
  | _ => false

namespace State

/-- The records of a queue. -/
def records (s : State) (queue : Queue) : List Pfn :=
  s.links.entries loopBound (s.links.next (.inl queue))

/-- The records whose pages are present, in the order in which `swap_out` takes them. -/
def present (s : State) : List Pfn := s.records .presentPagesQueue

/-- The records whose pages a call swaps out. -/
def evicted (s : State) (_ : PageEvent) (t : State) : List Pfn :=
  s.present.filter fun r => decide (r ∈ t.records .swappedPagesQueue)

variable {s t : State} {q q' : Queue → List Pfn} {r : Pfn} {P uva kva pgdir : ℕ} {e : PageEvent}

lemma Book.records (hb : s.Book q) (h : Queue) : s.records h = q h :=
  hb.repr.entries (hb.init h) (length_lt_loopBound hb h)

/-- What a step does to the present pages. -/
def Turns (e : PageEvent) (s t : State) : Prop :=
  ∃ gone new, s.evicted e t ++ t.present = settle s.present gone new ∧
    (∀ x ∈ new, x ∉ s.present) ∧ (e.frees = false → gone = [])

lemma Book.notMem_present (hb : s.Book q) (hr : r ∈ q .swappedPagesQueue) :
    r ∉ q .presentPagesQueue := fun hp => by
  have := hb.repr.disjoint _ _ _ hp hr
  cases this

/-- No page is swapped out. -/
lemma Book.turns_keep (hb : s.Book q) (new : List Pfn) (hb' : t.Book q')
    (hq : q' .presentPagesQueue = q .presentPagesQueue ++ new)
    (hnew : ∀ x ∈ new, x ∉ q .presentPagesQueue) : Turns e s t := by
  refine ⟨[], new, ?_, fun x hx => by rw [present, hb.records]; exact hnew x hx, fun _ => rfl⟩
  have hnone : s.evicted e t = [] := by
    rw [evicted, present, hb.records, hb'.records, List.filter_eq_nil_iff]
    intro x hx
    have hpresent : x ∈ q' .presentPagesQueue := by
      rw [hq]
      exact List.mem_append_left _ hx
    simpa using fun hswapped => hb'.notMem_present hswapped hpresent
  rw [hnone, present, present, hb.records, hb'.records, hq, settle]
  simp

/-- The first present page is swapped out. -/
lemma Book.turns_evict {l : List Pfn} (hb : s.Book q) (new : List Pfn) (hb' : t.Book q')
    (hq : q .presentPagesQueue = r :: l) (hq' : q' .presentPagesQueue = l ++ new)
    (hr : r ∈ q' .swappedPagesQueue) (hnew : ∀ x ∈ new, x ∉ q .presentPagesQueue) :
    Turns e s t := by
  refine ⟨[], new, ?_, fun x hx => by rw [present, hb.records]; exact hnew x hx, fun _ => rfl⟩
  have hone : s.evicted e t = [r] := by
    rw [evicted, present, hb.records, hb'.records, hq, List.filter_cons_of_pos (by simpa using hr),
      List.filter_eq_nil_iff.2]
    intro x hx
    have hpresent : x ∈ q' .presentPagesQueue := by
      rw [hq']
      exact List.mem_append_left _ hx
    simpa using fun hswapped => hb'.notMem_present hswapped hpresent
  rw [hone, present, present, hb.records, hb'.records, hq, hq', settle]
  simp

/-- A page is freed. -/
lemma Book.turns_free {h : Queue} (hb : s.Book q) (hr : r ∈ q h) (hb' : t.Book (removeFrom q r h))
    (he : e.frees = true) : Turns e s t := by
  refine ⟨[r], [], ?_, by simp, fun hno => by rw [he] at hno; cases hno⟩
  have hnone : s.evicted e t = [] := by
    rw [evicted, present, hb.records, hb'.records, List.filter_eq_nil_iff]
    intro x hx
    have hswapped : x ∉ q .swappedPagesQueue := fun h => hb.notMem_present h hx
    simpa using fun hmem => hswapped ((Links.mem_removeFrom hb.repr hr).1 hmem).2
  rw [hnone, present, present, hb.records, hb'.records, settle, List.append_nil, List.nil_append]
  have hfilter : (q .presentPagesQueue).filter (fun x => decide (x ∉ [r])) =
      (q .presentPagesQueue).erase r := by
    rw [(hb.repr.nodup _).erase_eq_filter]
    exact List.filter_congr fun x _ => by simp [bne, BEq.beq]
  rw [hfilter]
  rcases eq_or_ne h .presentPagesQueue with rfl | hne
  · rw [Links.removeFrom_self]
  · rw [Links.removeFrom_of_ne hne.symm, List.erase_of_not_mem]
    exact fun hp => hne (hb.repr.disjoint _ _ _ hr hp)

/-- `alloc_page_helper` swaps the first page out when there is no room, and the new one goes
behind the others. -/
lemma Book.turns_alloc (hb : s.Book q) (hs : s.allocPageHelper P uva pgdir = some (kva, t)) :
    Turns e s t := by
  simp only [State.allocPageHelper, Option.bind_eq_bind, Option.bind_eq_some_iff,
    Option.some.injEq, Prod.mk.injEq] at hs
  obtain ⟨⟨kva, m⟩, -, m', -, s', hs', t, ht, rfl, rfl⟩ := hs
  have hb₁ : ({ s with toMemory := m' } : State).Book q := hb.memory m'
  simp only [State.makeRoom] at hs'
  split_ifs at hs' with hfull
  · obtain ⟨r₀, l, L, m₁, hq, -, -, hb'⟩ := hb₁.swapOut hs'
    have hr₀ : r₀ ∈ q .presentPagesQueue := by rw [hq]; exact List.mem_cons_self
    obtain ⟨r, L', hfree, -, hbook⟩ := hb'.addNewPrePage ht
    have hno : r ∉ q .presentPagesQueue := by
      intro hmem
      refine (hb'.used r).2 ?_ hfree
      exact (hb₁.exists_mem_move hr₀ r).2 ⟨_, hmem⟩
    refine hb.turns_evict (l := l) [r] hbook hq ?_ ?_ (by simpa using hno)
    · rw [Links.appendTo_self, Links.appendTo_of_ne (by decide), Links.removeFrom_self, hq,
        List.erase_cons_head]
    · rw [Links.appendTo_of_ne (by decide), Links.appendTo_self]
      simp
  · rw [Option.some.injEq] at hs'
    subst hs'
    obtain ⟨r, L', hfree, -, hbook⟩ := hb₁.addNewPrePage ht
    refine hb.turns_keep [r] hbook Links.appendTo_self ?_
    simpa using fun hmem => (hb₁.used r).2 ⟨_, hmem⟩ hfree

lemma Book.turns_swapInAllPages (hb : s.Book q) (hs : s.swapInAllPages P pgdir = some t) :
    Turns e s t := by
  let Inv := fun (u : State) (l : Queue → List Pfn) => u.Book l ∧
    (∀ x ∈ l .swappedPagesQueue, x ∈ q .swappedPagesQueue) ∧
    ∃ new, (∀ x ∈ new, x ∈ q .swappedPagesQueue) ∧
      l .presentPagesQueue = q .presentPagesQueue ++ new
  have hround : ∀ u l x v, Inv u l → x ∈ l .swappedPagesQueue →
      u.swapInRound P pgdir x = some v → ∃ l', Inv v l' ∧
        (l' .swappedPagesQueue = l .swappedPagesQueue ∨
          l' .swappedPagesQueue = (l .swappedPagesQueue).erase x) := by
    rintro u l x v ⟨hbu, hsub, new, hnew, hq⟩ hx hv
    simp only [State.swapInRound] at hv
    split_ifs at hv with hc
    · obtain ⟨L, kva, m, m', -, -, -, hbook⟩ := hbu.swapIn hx hv
      refine ⟨_, ⟨hbook, fun y hy => hsub y ?_, new ++ [x], fun y hy => ?_, ?_⟩, .inr ?_⟩
      · rw [Links.appendTo_of_ne (by decide)] at hy
        exact ((Links.mem_removeFrom hbu.repr hx).1 hy).2
      · rcases List.mem_append.1 hy with hy | hy
        · exact hnew y hy
        · exact List.mem_singleton.1 hy ▸ hsub x hx
      · rw [Links.appendTo_self, Links.removeFrom_of_ne (by decide), hq, List.append_assoc]
      · rw [Links.appendTo_of_ne (by decide), Links.removeFrom_self]
    · rw [Option.some.injEq] at hv
      subst hv
      exact ⟨l, ⟨hbu, hsub, new, hnew, hq⟩, .inl rfl⟩
  have hstart : Inv s q := ⟨hb, fun _ h => h, [], by simp, by simp⟩
  obtain ⟨q', hb', -, new, hnew, hq⟩ := Links.forEachSafe_rule (P := Inv)
    (fun _ _ hu => hu.1.repr) hround hstart (hb.init _) hs
  exact hb.turns_keep new hb' hq fun x hx => hb.notMem_present (hnew x hx)

/-- What each call does to the present pages. -/
lemma Book.turns (hb : s.Book q) (hs : s.pageStep P e = some t) : Turns e s t := by
  have hfree : ∀ {p : Pfn → Bool} {findPage : Queue → Option (Option Pfn)}, e.frees = true →
      (∀ h, findPage h = some ((q h).find? p)) → s.freePageWith findPage = some t →
      Turns e s t := by
    intro p findPage he hfind hs
    obtain ⟨h, r, L, hr, -, -, hbook⟩ := hb.freePageWith hfind hs
    exact hb.turns_free (List.mem_of_find?_eq_some hr) hbook he
  cases e with
  | allocPageHelper uva pgdir =>
    simp only [State.pageStep, Option.map_eq_some_iff] at hs
    obtain ⟨⟨kva, t⟩, hs, rfl⟩ := hs
    exact hb.turns_alloc hs
  | swapOut =>
    obtain ⟨r, l, L, m, hq, -, -, hbook⟩ := hb.swapOut hs
    refine hb.turns_evict (l := l) [] hbook hq ?_ ?_ (by simp)
    · rw [Links.appendTo_of_ne (by decide), Links.removeFrom_self, hq, List.erase_cons_head,
        List.append_nil]
    · rw [Links.appendTo_self]
      simp
  | swapIn r =>
    simp only [State.pageStep, Option.ite_none_right_eq_some] at hs
    obtain ⟨⟨hr, hlt⟩, hs⟩ := hs
    have hr := hb.onQueue_iff.1 hr
    obtain ⟨L, kva, m, m', -, -, -, hbook⟩ := hb.swapIn hr hs
    refine hb.turns_keep [r] hbook ?_ (by simpa using hb.notMem_present hr)
    rw [Links.appendTo_self, Links.removeFrom_of_ne (by decide)]
  | swapInAllPages pgdir => exact hb.turns_swapInAllPages hs
  | freePageWithUva uva pgdir => exact hfree rfl (fun _ => hb.find _) hs
  | freePageWithKva kva => exact hfree rfl (fun _ => hb.find _) hs

/-- The present pages are a queue that `swap_out` serves. -/
lemma presentInOrder (P : ℕ) : InOrder (pageStep P)
    (fun s => (∃ q, s.Book q) ∧ s.presentPagesNum ≤ P) present evicted where
  keeps := fun _ _ _ ⟨⟨_, hb⟩, hP⟩ hs => hb.pageStep hP hs
  takes := by
    rintro s e t ⟨⟨q, hb⟩, -⟩ hs
    obtain ⟨gone, new, heq, hnew, -⟩ := hb.turns hs
    exact ⟨gone, new, heq, hnew⟩

/-- Pages are swapped out in the order in which they got their frames, and if none is freed, no
page is left out. -/
theorem evicted_in_order (P : ℕ) (m : Memory) (sd : ℕ → Fin 64 → ℕ) (startid : ℤ)
    {es es' : List PageEvent} (hpre : run (pageStep P) (boot m sd startid) es = some s)
    (hrun : run (pageStep P) s es' = some t) :
    (log (pageStep P) evicted s es' ++ t.present).Sublist
      (s.present ++ log (pageStep P) (joined present evicted) s es') ∧
    ((∀ e ∈ es', e.frees = false) → log (pageStep P) evicted s es' ++ t.present =
      s.present ++ log (pageStep P) (joined present evicted) s es') := by
  have hboot : (∃ q, (boot m sd startid).Book q) ∧ (boot m sd startid).presentPagesNum ≤ P :=
    ⟨⟨_, book_boot m sd startid⟩, Int.natCast_nonneg P⟩
  have hs := run_invariant (fun _ _ _ h _ ht => (presentInOrder P).keeps _ _ _ h ht) hboot
    (stepsMeet_true _ es) hpre
  refine ⟨(presentInOrder P).sublist hs hrun, fun hfree => (presentInOrder P).conserves hs hrun ?_⟩
  intro pre e post hes u hu t ht x hx
  obtain ⟨⟨q, hb⟩, -⟩ := run_invariant
    (fun _ _ _ h _ ht => (presentInOrder P).keeps _ _ _ h ht) hs (stepsMeet_true _ pre) hu
  obtain ⟨gone, new, heq, -, hgone⟩ := hb.turns ht
  have hnil : gone = [] := hgone (hfree e (by rw [hes]; simp))
  rw [heq, settle, hnil]
  simpa using Or.inl hx

/-- One page may be present.  The second page takes the frame of the first, and the third that of
the second. -/
theorem evicted_in_order_chain : ∃ s t,
    run (pageStep 1) (boot ⟨fun _ _ => 0, FREEMEM_KERNEL⟩ (fun _ _ => 0) 100)
      [.allocPageHelper 0x20000 0xffffffc051000000] = some s ∧
    run (pageStep 1) s [.allocPageHelper 0x21000 0xffffffc051000000,
      .allocPageHelper 0x22000 0xffffffc051000000] = some t ∧
    log (pageStep 1) evicted s [.allocPageHelper 0x21000 0xffffffc051000000,
      .allocPageHelper 0x22000 0xffffffc051000000] ++ t.present =
      s.present ++ log (pageStep 1) (joined present evicted) s
        [.allocPageHelper 0x21000 0xffffffc051000000,
          .allocPageHelper 0x22000 0xffffffc051000000] ∧
    t.present = [2] := by
  have hrun : ((run (pageStep 1) (boot ⟨fun _ _ => 0, FREEMEM_KERNEL⟩ (fun _ _ => 0) 100)
      [.allocPageHelper 0x20000 0xffffffc051000000]).bind fun s =>
        (run (pageStep 1) s [.allocPageHelper 0x21000 0xffffffc051000000,
          .allocPageHelper 0x22000 0xffffffc051000000]).map present) = some [2] := by
    decide +kernel
  obtain ⟨s, hs, hbind⟩ := Option.bind_eq_some_iff.1 hrun
  obtain ⟨t, ht, hpresent⟩ := Option.map_eq_some_iff.1 hbind
  have horder := (evicted_in_order 1 ⟨fun _ _ => 0, FREEMEM_KERNEL⟩ (fun _ _ => 0) 100 hs ht).2
    (by simp [PageEvent.frees])
  exact ⟨s, t, hs, ht, horder, hpresent⟩

end State

end Mm
end UcasKernel
