/-
The scans that wake tasks: `check_sleeping`, `check_net_send` and `check_net_recv`.

A scan follows the pointers of its queue while `do_unblock` takes entries off it and links
them into the ready queue.  What it does to the two lists is said by the test that a PCB
has to pass, in the round that its place on the queue gives it.
-/
import UcasKernel.Sched.Runs

namespace UcasKernel
namespace Sched
namespace Kernel

/-- The PCBs of a list that pass the test, where the round of the first one is `i`. -/
def passing (test : ℕ → Pcb → Bool) (i : ℕ) (l : List Pcb) : List Pcb :=
  ((l.zipIdx i).filter fun x => test x.2 x.1).map Prod.fst

/-- Those that do not. -/
def failing (test : ℕ → Pcb → Bool) (i : ℕ) (l : List Pcb) : List Pcb :=
  passing (fun i p => !test i p) i l

/-- `k'` is `k` with the PCBs of `h` that pass the test at the tail of the ready queue, and all
others where they were. -/
structure Woken (k : Kernel) (q : Head → List Pcb) (h : Head) (test : ℕ → Pcb → Bool)
    (k' : Kernel) (q' : Head → List Pcb) : Prop where
  repr : k'.links.Repr q'
  init : ∀ g, k'.links.Init g ↔ k.links.Init g
  ready : q' .readyQueue = q .readyQueue ++ passing test 0 (q h)
  left : q' h = failing test 0 (q h)
  other : ∀ g, g ≠ h → g ≠ .readyQueue → q' g = q g
  status : ∀ p, k'.status p = if p ∈ passing test 0 (q h) then .ready else k.status p
  rest : k' = { k with links := k'.links, status := k'.status }

section Lists

variable {test : ℕ → Pcb → Bool} {i : ℕ} {p : Pcb} {l : List Pcb}

@[simp] lemma passing_nil : passing test i [] = [] := rfl

lemma passing_cons_of_pos (h : test i p = true) :
    passing test i (p :: l) = p :: passing test (i + 1) l := by
  rw [passing, List.zipIdx_cons, List.filter_cons_of_pos (by exact h)]
  rfl

lemma passing_cons_of_neg (h : ¬ test i p = true) :
    passing test i (p :: l) = passing test (i + 1) l := by
  rw [passing, List.zipIdx_cons, List.filter_cons_of_neg (by exact h)]
  rfl

@[simp] lemma failing_nil : failing test i [] = [] := rfl

lemma failing_cons_of_pos (h : test i p = true) :
    failing test i (p :: l) = failing test (i + 1) l :=
  passing_cons_of_neg (by simp [h])

lemma failing_cons_of_neg (h : ¬ test i p = true) :
    failing test i (p :: l) = p :: failing test (i + 1) l :=
  passing_cons_of_pos (by simp [h])

lemma passing_true (h : ∀ i p, test i p = true) : passing test i l = l := by
  induction l generalizing i with
  | nil => rfl
  | cons p l ih => rw [passing_cons_of_pos (h i p), ih]

lemma passing_false (h : ∀ i p, test i p = false) : passing test i l = [] := by
  induction l generalizing i with
  | nil => rfl
  | cons p l ih => rw [passing_cons_of_neg (by simp [h]), ih]

end Lists

/-- The kernel once PCBs have been woken, with the links that they left. -/
def woken (k : Kernel) (L : Links Head Pcb) (l : List Pcb) : Kernel :=
  { k with links := L, status := fun p => if p ∈ l then .ready else k.status p }

section Scan

variable {k k' : Kernel} {q q' : Head → List Pcb} {h : Head} {test : ℕ → Pcb → Bool} {env : Env}
  {L L' : Links Head Pcb} {l : List Pcb} {p : Pcb}

@[simp] lemma woken_nil : k.woken k.links [] = k := by simp [woken]

lemma woken_append (k : Kernel) (L L' : Links Head Pcb) (l : List Pcb) (p : Pcb) :
    { (k.woken L l).setStatus p .ready with links := L' } = k.woken L' (l ++ [p]) := by
  have hstatus : Function.update (k.woken L l).status p .ready =
      (k.woken L' (l ++ [p])).status := by
    funext x
    rcases eq_or_ne x p with rfl | hx
    · simp [woken]
    · simp [woken, hx]
  rw [setStatus, hstatus]
  rfl

/-- The scan of `h` has come to the PCBs `rest`. -/
structure Scanning (k : Kernel) (q : Head → List Pcb) (h : Head) (test : ℕ → Pcb → Bool) (i : ℕ)
    (rest : List Pcb) (k' : Kernel) (q' : Head → List Pcb) (kept l : List Pcb) : Prop where
  eq : k' = k.woken k'.links l
  repr : k'.links.Repr q'
  init : ∀ g, k'.links.Init g ↔ k.links.Init g
  scanned : q' h = kept ++ rest
  ready : q' .readyQueue = q .readyQueue ++ l
  other : ∀ g, g ≠ h → g ≠ .readyQueue → q' g = q g
  passing : passing test 0 (q h) = l ++ Kernel.passing test i rest
  failing : failing test 0 (q h) = kept ++ Kernel.failing test i rest

/-- A round of the scan. -/
lemma Scanning.round {i : ℕ} {rest kept : List Pcb} (hne : h ≠ .readyQueue)
    (hready : k.links.Init .readyQueue) (hs : k.Scanning q h test i (p :: rest) k' q' kept l) :
    ∃ k'' q'', (if test i p then k'.doUnblock p else some k') = some k'' ∧
      ∃ kept l, k.Scanning q h test (i + 1) rest k'' q'' kept l := by
  by_cases htest : test i p = true
  · -- `p` is woken
    have hp : p ∈ q' h := by rw [hs.scanned]; simp
    obtain ⟨L, hL, hr', hinit⟩ := doUnblock_spec hs.repr hp ((hs.init _).2 hready)
    refine ⟨_, _, (if_pos htest).trans hL, kept, l ++ [p], ?_, hr',
      fun g => (hinit g).trans (hs.init g), ?_, ?_, fun g hg hg' => ?_, ?_, ?_⟩
    · rw [hs.eq, woken_append]
      rfl
    · rw [move_from hne, erase_kept hs.repr hs.scanned]
    · rw [move_to hne.symm, hs.ready, List.append_assoc]
    · rw [move_of_ne hg hg', hs.other g hg hg']
    · rw [hs.passing, passing_cons_of_pos htest, List.append_assoc]
      rfl
    · rw [hs.failing, failing_cons_of_pos htest]
  · -- `p` stays
    refine ⟨_, _, if_neg htest, kept ++ [p], l, hs.eq, hs.repr, hs.init, ?_, hs.ready, hs.other,
      ?_, ?_⟩
    · rw [hs.scanned]
      simp
    · rw [hs.passing, passing_cons_of_neg htest]
    · rw [hs.failing, failing_cons_of_neg htest, List.append_assoc]
      rfl

/-- A scan whose body does `do_unblock` when the test is passed. -/
lemma scan_spec {body : ℕ → Pcb → Kernel → Option Kernel} (hne : h ≠ .readyQueue)
    (hbody : ∀ i p k', k'.wakeupTime = k.wakeupTime →
      body i p k' = if test i p then k'.doUnblock p else some k')
    (hr : k.links.Repr q) (hi : k.links.Init h) (hready : k.links.Init .readyQueue) :
    ∃ k' q', forEachEntrySafe h body loopBound 0 (k.links.next (.inl h)) k = some k' ∧
      k.Woken q h test k' q' := by
  have hstart : k.Scanning q h test 0 (q h) k q [] [] :=
    ⟨woken_nil.symm, hr, fun _ => Iff.rfl, rfl, (List.append_nil _).symm, fun _ _ _ => rfl, rfl,
      rfl⟩
  have hround : ∀ i p rest k' q', (∃ kept l, k.Scanning q h test i (p :: rest) k' q' kept l) →
      ∃ k'' q'', body i p k' = some k'' ∧
        ∃ kept l, k.Scanning q h test (i + 1) rest k'' q'' kept l := by
    rintro i p rest k' q' ⟨kept, l, hs⟩
    rw [hbody i p k' (by rw [hs.eq]; rfl)]
    exact hs.round hne hready
  have hrepr : ∀ i rest k' q', (∃ kept l, k.Scanning q h test i rest k' q' kept l) →
      k'.links.Repr q' ∧ ∃ kept, q' h = kept ++ rest :=
    fun i rest k' q' ⟨kept, l, hs⟩ => ⟨hs.repr, kept, hs.scanned⟩
  obtain ⟨k', q', i, hk', kept, l, hs⟩ :=
    forEachEntrySafe_rounds hrepr hround ⟨[], [], hstart⟩ hi
  have hl : Kernel.passing test 0 (q h) = l := by rw [hs.passing, passing_nil, List.append_nil]
  refine ⟨k', q', hk', hs.repr, hs.init, ?_, ?_, hs.other, fun p => ?_, ?_⟩
  · rw [hs.ready, hl]
  · rw [hs.scanned, hs.failing, failing_nil]
  · rw [hl, hs.eq]
    rfl
  · rw [hs.eq]
    rfl

/-- A scan that does not take place. -/
lemma woken_of_false (hr : k.links.Repr q) (h : Head) :
    k.Woken q h (fun _ _ => false) k q := by
  have hpass : passing (fun _ _ => false) 0 (q h) = [] := passing_false fun _ _ => rfl
  refine ⟨hr, fun _ => Iff.rfl, ?_, ?_, fun _ _ _ => rfl, fun p => ?_, rfl⟩
  · rw [hpass, List.append_nil]
  · exact (passing_true fun _ _ => rfl).symm
  · rw [hpass]
    rfl

lemma checkSleeping_woken (hr : k.links.Repr q) (env : Env) (hi : k.links.Init .sleepQueue)
    (hready : k.links.Init .readyQueue) :
    ∃ k' q', k.checkSleeping env = some k' ∧
      k.Woken q .sleepQueue (fun i p => decide (k.wakeupTime p ≤ env.clock i)) k' q' := by
  refine scan_spec (by simp) (fun i p k' hk' => ?_) hr hi hready
  simp only [hk', ge_iff_le, decide_eq_true_eq]

lemma checkNetSend_woken (hr : k.links.Repr q) (env : Env) (hi : k.links.Init .sendBlockQueue)
    (hready : k.links.Init .readyQueue) :
    ∃ k' q', k.checkNetSend env = some k' ∧
      k.Woken q .sendBlockQueue (fun _ _ => env.txDescDone) k' q' := by
  unfold checkNetSend
  split_ifs with hdone
  · rw [hdone]
    exact scan_spec (by simp) (fun _ _ _ _ => rfl) hr hi hready
  · rw [Bool.eq_false_iff.2 hdone]
    exact ⟨k, q, rfl, woken_of_false hr _⟩

lemma checkNetRecv_woken (hr : k.links.Repr q) (env : Env) (hi : k.links.Init .recvBlockQueue)
    (hready : k.links.Init .readyQueue) :
    ∃ k' q', k.checkNetRecv env = some k' ∧
      k.Woken q .recvBlockQueue (fun _ _ => env.rxDescDone) k' q' := by
  unfold checkNetRecv
  split_ifs with hdone
  · rw [hdone]
    exact scan_spec (by simp) (fun _ _ _ _ => rfl) hr hi hready
  · rw [Bool.eq_false_iff.2 hdone]
    exact ⟨k, q, rfl, woken_of_false hr _⟩

/-- The heads that the scans read. -/
def ScansInit (k : Kernel) : Prop :=
  ∀ h ∈ [Head.readyQueue, .sleepQueue, .sendBlockQueue, .recvBlockQueue], k.links.Init h

/-- `check_sleeping`, `check_net_send` and `check_net_recv` move the PCBs of their queues that are
due, in their order, and nothing else. -/
theorem scans_move_due (hr : k.links.Repr q) (hi : k.ScansInit) (env : Env) :
    (∃ k' q', k.checkSleeping env = some k' ∧
      k.Woken q .sleepQueue (fun i p => decide (k.wakeupTime p ≤ env.clock i)) k' q') ∧
    (∃ k' q', k.checkNetSend env = some k' ∧
      k.Woken q .sendBlockQueue (fun _ _ => env.txDescDone) k' q') ∧
    ∃ k' q', k.checkNetRecv env = some k' ∧
      k.Woken q .recvBlockQueue (fun _ _ => env.rxDescDone) k' q' :=
  ⟨checkSleeping_woken hr env (hi _ (by simp)) (hi _ (by simp)),
    checkNetSend_woken hr env (hi _ (by simp)) (hi _ (by simp)),
    checkNetRecv_woken hr env (hi _ (by simp)) (hi _ (by simp))⟩

lemma Inv.scansInit (hi : k.Inv q) : k.ScansInit := by
  intro h hh
  refine hi.lists.init h fun p heq => ?_
  subst heq
  simp at hh

end Scan

/-- The shell starts a task and sleeps. -/
def sleepRun : List Event := [.trap 0 (.exec [104]) quietEnv, .trap 0 (.sleep 5) quietEnv]

/-- The scans after five seconds. -/
theorem scans_move_due_sleepRun : ∃ k q k' q', Trace.run step (boot [[104]]) sleepRun = some k ∧
    k.checkSleeping { quietEnv with clock := fun _ => 5 } = some k' ∧
    k.Woken q .sleepQueue (fun _ p => decide (k.wakeupTime p ≤ 5)) k' q' := by
  have hsome : (Trace.run step (boot [[104]]) sleepRun).isSome = true := by decide
  obtain ⟨k, hk⟩ := Option.isSome_iff_exists.1 hsome
  have hcareful : Trace.StepsMeet step Careful (boot [[104]]) sleepRun :=
    Trace.stepsMeet_cons (fun _ _ => trivial) fun _ _ =>
      Trace.stepsMeet_cons (fun _ _ => trivial) fun _ _ => Trace.stepsMeet_nil _ _
  obtain ⟨q, hi⟩ := inv_of_run hcareful hk
  obtain ⟨⟨k', q', hk', hw⟩, -⟩ := scans_move_due hi.lists.repr hi.scansInit
    { quietEnv with clock := fun _ => 5 }
  exact ⟨k, q, k', q', hk, hk', hw⟩

end Kernel
end Sched
end UcasKernel
