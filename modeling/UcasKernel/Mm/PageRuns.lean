/-
Runs of the routines that work on the page records.

A run starts after boot, and is any sequence of calls of the six routines.  The law
of a state is that the counter, the two queues and the slots describe one set of
records, and that no more pages are present than allowed.
-/
import UcasKernel.Lib.Trace
import UcasKernel.Mm.Queues

namespace UcasKernel
namespace Mm

open Links (removeFrom)

/-- The calls of a run on the page records. -/
inductive PageEvent
  | allocPageHelper (uva pgdir : ℕ)
  | swapOut
  | swapIn (page : Pfn)
  | swapInAllPages (pgdir : ℕ)
  | freePageWithUva (uva pgdir : ℕ)
  | freePageWithKva (kva : ℕ)

namespace State

/-- The memory manager after boot, whatever is in the memory and on the card. -/
def boot (m : Memory) (sd : ℕ → Fin 64 → ℕ) (startid : ℤ) : State where
  toMemory := m
  pages := fun _ => ⟨0, 0, 0, 0, 0⟩
  links := (Links.initHead (Links.initHead ⟨fun _ => none, fun _ => none⟩ .presentPagesQueue)
    .swappedPagesQueue)
  presentPagesNum := 0
  pageId := 0
  diskSectorsStartid := startid
  sd := sd
  sharePages := fun _ => ⟨0, 0, 0⟩

/-- The record is on the queue. -/
def onQueue (s : State) (queue : Queue) (page : Pfn) : Bool :=
  s.links.find queue (fun r => r = page) loopBound (s.links.next (.inl queue)) = some (some page)

/-- A call, with `MAX_PRESENT_PFN` as a parameter; `swap_in` is called on a swapped
record only, and below the bound. -/
def pageStep (P : ℕ) (s : State) : PageEvent → Option State
  | .allocPageHelper uva pgdir => (s.allocPageHelper P uva pgdir).map Prod.snd
  | .swapOut => s.swapOut
  | .swapIn page =>
    if s.onQueue .swappedPagesQueue page ∧ s.presentPagesNum < P then s.swapIn page else none
  | .swapInAllPages pgdir => s.swapInAllPages P pgdir
  | .freePageWithUva uva pgdir => s.freePageWithUva uva pgdir
  | .freePageWithKva kva => s.freePageWithKva kva

/-- The three descriptions of the set of the recorded pages agree. -/
structure PageLaw (P : ℕ) (s : State) : Prop where
  /-- Both heads are heads of circular lists, which have no record twice and no record in
  common, and the counter is the length of the one of the present pages. -/
  queues : ∃ q, s.links.Repr q ∧ (∀ h, s.links.Init h) ∧
    s.presentPagesNum = (q .presentPagesQueue).length
  le : s.presentPagesNum ≤ P
  /-- A used slot is on exactly one queue. -/
  used : ∀ r, (s.pages r).pageId ≠ 0 → ∃! h, s.links.On h r
  /-- A slot that is not used is on neither. -/
  unused : ∀ r, (s.pages r).pageId = 0 → ∀ h, ¬ s.links.On h r

variable {s t : State} {q : Queue → List Pfn} {r : Pfn} {h : Queue} {P : ℕ}

lemma book_boot (m : Memory) (sd : ℕ → Fin 64 → ℕ) (startid : ℤ) :
    (boot m sd startid).Book fun _ => [] := by
  have hnone : (⟨fun _ => none, fun _ => none⟩ : Links Queue Pfn).Repr fun _ => [] :=
    ⟨fun h hi => absurd rfl hi, fun _ _ => rfl, fun _ => List.nodup_nil, by simp⟩
  obtain ⟨hp, hpi⟩ := hnone.initHead (h := .presentPagesQueue) rfl
  obtain ⟨hs, hsi⟩ := hp.initHead (h := .swappedPagesQueue) rfl
  refine ⟨hs, fun h => (hsi h).2 ?_, rfl, by simp [boot], le_rfl⟩
  cases h with
  | presentPagesQueue => exact Or.inr ((hpi _).2 (Or.inl rfl))
  | swappedPagesQueue => exact Or.inl rfl

lemma Book.onQueue_iff (hb : s.Book q) : s.onQueue h r = true ↔ r ∈ q h := by
  rw [onQueue, decide_eq_true_eq, hb.find, Option.some.injEq]
  constructor
  · exact List.mem_of_find?_eq_some
  · intro hr
    have hsome : ((q h).find? fun x => decide (x = r)).isSome = true :=
      List.find?_isSome.2 ⟨r, hr, by simp⟩
    obtain ⟨x, hx⟩ := Option.isSome_iff_exists.1 hsome
    have hxr := List.find?_some hx
    rw [decide_eq_true_eq] at hxr
    rw [hx, hxr]

lemma Book.law (hb : s.Book q) (hP : s.presentPagesNum ≤ P) : s.PageLaw P where
  queues := ⟨q, hb.repr, hb.init, hb.num⟩
  le := hP
  used := by
    intro r hr
    obtain ⟨h, hmem⟩ := (hb.used r).1 hr
    refine ⟨h, hb.repr.on_iff.2 hmem, fun h' hon => ?_⟩
    exact hb.repr.disjoint h' h r (hb.repr.on_iff.1 hon) hmem
  unused := fun r hr h hon => (hb.used r).2 ⟨h, hb.repr.on_iff.1 hon⟩ hr

lemma Book.pageStep {e : PageEvent} (hb : s.Book q) (hP : s.presentPagesNum ≤ P)
    (hs : s.pageStep P e = some t) : (∃ q', t.Book q') ∧ t.presentPagesNum ≤ P := by
  have hfree : ∀ {p : Pfn → Bool} {findPage : Queue → Option (Option Pfn)},
      (∀ h, findPage h = some ((q h).find? p)) → s.freePageWith findPage = some t →
      (∃ q', t.Book q') ∧ t.presentPagesNum ≤ P := by
    intro p findPage hfind hs
    obtain ⟨h, r, L, hr, -, rfl, hbook⟩ := hb.freePageWith hfind hs
    refine ⟨⟨_, hbook⟩, ?_⟩
    have hlen : (removeFrom q r h .presentPagesQueue).length ≤ (q .presentPagesQueue).length := by
      rcases eq_or_ne h .presentPagesQueue with rfl | hne
      · rw [Links.removeFrom_self]
        exact List.length_erase_le
      · rw [Links.removeFrom_of_ne hne.symm]
    have := hb.num
    simp only
    omega
  cases e with
  | allocPageHelper uva pgdir =>
    simp only [State.pageStep, Option.map_eq_some_iff] at hs
    obtain ⟨⟨kva, t⟩, hs, rfl⟩ := hs
    exact hb.allocPageHelper hP hs
  | swapOut =>
    obtain ⟨r, l, L, m, -, -, rfl, hbook⟩ := hb.swapOut hs
    exact ⟨⟨_, hbook⟩, by simp only; omega⟩
  | swapIn r =>
    simp only [State.pageStep, Option.ite_none_right_eq_some] at hs
    obtain ⟨⟨hr, hlt⟩, hs⟩ := hs
    obtain ⟨L, kva, m, m', -, -, rfl, hbook⟩ := hb.swapIn (hb.onQueue_iff.1 hr) hs
    exact ⟨⟨_, hbook⟩, by simp only; omega⟩
  | swapInAllPages pgdir => exact hb.swapInAllPages hP hs
  | freePageWithUva uva pgdir => exact hfree (fun _ => hb.find _) hs
  | freePageWithKva kva => exact hfree (fun _ => hb.find _) hs

/-- In every state of every run, the counter, the two queues and the slots agree, and
no more pages are present than allowed. -/
theorem page_records_agree (P : ℕ) (m : Memory) (sd : ℕ → Fin 64 → ℕ) (startid : ℤ)
    (es : List PageEvent) : Trace.Always (pageStep P) (PageLaw P) (boot m sd startid) es := by
  have halways : Trace.Always (State.pageStep P)
      (fun s => (∃ q, s.Book q) ∧ s.presentPagesNum ≤ P) (boot m sd startid) es := by
    refine Trace.always_of_invariant (C := fun _ _ => True) ?_
      ⟨⟨_, book_boot m sd startid⟩, Int.natCast_nonneg P⟩ fun _ _ _ _ _ _ => trivial
    rintro s e t ⟨⟨q, hb⟩, hP⟩ - hs
    exact hb.pageStep hP hs
  exact halways.mono fun t ⟨⟨_, hb⟩, hP⟩ => hb.law hP

end State

end Mm
end UcasKernel
