/-
Round robin on one CPU.

A task that is dispatched stays on the ready queue.  `do_scheduler` moves the task that
runs to the tail and dispatches the first task that does not run, which is the head: every
call rotates the queue by one place.  After as many calls as there are tasks the queue has
come round but for the last move: the task that ran first runs again, and is at the head.
-/
import Mathlib.Data.List.Rotate
import UcasKernel.Sched.Wakeups

namespace UcasKernel
namespace Sched
namespace Kernel

/-- No task on the queues that `do_scheduler` scans is due. -/
structure NoneDue (k : Kernel) (q : Head → List Pcb) (env : Env) : Prop where
  sleeping : ∀ i p, (q .sleepQueue)[i]? = some p → env.clock i < k.wakeupTime p
  send : env.txDescDone = true → q .sendBlockQueue = []
  recv : env.rxDescDone = true → q .recvBlockQueue = []

/-- Of the tasks on the ready queue none runs but `p`, which is the task of CPU `c`. -/
structure Single (k : Kernel) (q : Head → List Pcb) (c : Cpu) (p : Pcb) : Prop where
  repr : k.links.Repr q
  init : k.ScansInit
  slots : ∀ x ∈ q .readyQueue, ∃ i, x = .slot i
  run : k.runnings c = some p
  status : ∀ x ∈ q .readyQueue, k.status x = .running ↔ x = p

/-- Successive calls of `do_scheduler` on CPU `c`, with the tasks that they dispatch. -/
def dispatches (c : Cpu) : List Env → Kernel → Option (List Pcb × Kernel)
  | [], k => some ([], k)
  | env :: envs, k => do
    let p ← k.runnings c
    let k ← k.doScheduler c p env
    let r ← k.runnings c
    let (l, k) ← dispatches c envs k
    some (r :: l, k)

variable {k k' : Kernel} {q q' : Head → List Pcb} {h : Head} {test : ℕ → Pcb → Bool} {env : Env}
  {c : Cpu} {p x : Pcb} {a b : List Pcb} {envs : List Env}

/-! ## The scans -/

lemma passing_eq_nil {i : ℕ} {l : List Pcb} (hl : ∀ j p, l[j]? = some p → test (i + j) p = false) :
    passing test i l = [] := by
  induction l generalizing i with
  | nil => rfl
  | cons p l ih =>
    rw [passing_cons_of_neg (by simp [show test i p = false from hl 0 p rfl])]
    refine ih fun j x hx => ?_
    rw [Nat.add_right_comm]
    exact hl (j + 1) x hx

lemma failing_eq_self {i : ℕ} {l : List Pcb}
    (hl : ∀ j p, l[j]? = some p → test (i + j) p = false) : failing test i l = l := by
  induction l generalizing i with
  | nil => rfl
  | cons p l ih =>
    rw [failing_cons_of_neg (by simp [show test i p = false from hl 0 p rfl])]
    refine congrArg (p :: ·) (ih fun j x hx => ?_)
    rw [Nat.add_right_comm]
    exact hl (j + 1) x hx

/-- A scan that finds nothing writes pointers, at most. -/
lemma Woken.of_none (hw : k.Woken q h test k' q')
    (hnone : ∀ i p, (q h)[i]? = some p → test i p = false) :
    q' = q ∧ k' = { k with links := k'.links } := by
  have hpass : passing test 0 (q h) = [] :=
    passing_eq_nil fun j p hp => by rw [Nat.zero_add, hnone j p hp]
  have hfail : failing test 0 (q h) = q h :=
    failing_eq_self fun j p hp => by rw [Nat.zero_add, hnone j p hp]
  constructor
  · funext g
    by_cases hg : g = h
    · rw [hg, hw.left, hfail]
    · by_cases hg' : g = .readyQueue
      · rw [hg', hw.ready, hpass, List.append_nil]
      · exact hw.other g hg hg'
  · have hstatus : k'.status = k.status := by
      funext p
      rw [hw.status, hpass]
      rfl
    rw [hw.rest, hstatus]

/-- When no task is due, the scans of `do_scheduler` leave everything as it is. -/
lemma NoneDue.scans (hn : k.NoneDue q env) (hr : k.links.Repr q) (hi : k.ScansInit) :
    ∃ L : Links Head Pcb, (k.checkSleeping env).bind (fun k => (k.checkNetSend env).bind fun k =>
        k.checkNetRecv env) = some { k with links := L } ∧
      L.Repr q ∧ ∀ g, L.Init g ↔ k.links.Init g := by
  obtain ⟨k₁, q₁, hk₁, hw₁⟩ := checkSleeping_woken hr env (hi _ (by simp)) (hi _ (by simp))
  obtain ⟨rfl, heq₁⟩ := hw₁.of_none fun i p hp =>
    decide_eq_false (Nat.not_le.2 (hn.sleeping i p hp))
  have hi₁ : ∀ g, k.links.Init g → k₁.links.Init g := fun g hg => (hw₁.init g).2 hg
  obtain ⟨k₂, q₂, hk₂, hw₂⟩ := checkNetSend_woken hw₁.repr env (hi₁ _ (hi _ (by simp)))
    (hi₁ _ (hi _ (by simp)))
  obtain ⟨rfl, heq₂⟩ := hw₂.of_none fun i p hp => by
    refine Bool.eq_false_iff.2 fun hdone => ?_
    rw [hn.send hdone] at hp
    simp at hp
  have hi₂ : ∀ g, k.links.Init g → k₂.links.Init g := fun g hg => (hw₂.init g).2 (hi₁ g hg)
  obtain ⟨k₃, q₃, hk₃, hw₃⟩ := checkNetRecv_woken hw₂.repr env (hi₂ _ (hi _ (by simp)))
    (hi₂ _ (hi _ (by simp)))
  obtain ⟨rfl, heq₃⟩ := hw₃.of_none fun i p hp => by
    refine Bool.eq_false_iff.2 fun hdone => ?_
    rw [hn.recv hdone] at hp
    simp at hp
  refine ⟨k₃.links, ?_, hw₃.repr, fun g =>
    (hw₃.init g).trans ((hw₂.init g).trans (hw₁.init g))⟩
  rw [hk₁, Option.bind_some, hk₂, Option.bind_some, hk₃, heq₃, heq₂, heq₁]

/-! ## One call -/

lemma doScheduler_of_scans (h : (k.checkSleeping env).bind (fun k => (k.checkNetSend env).bind
    fun k => k.checkNetRecv env) = some k') :
    k.doScheduler c p env =
      (if p ≠ .pid0Pcb ∧ p ≠ .pid0Pcb2 then
        ((k'.setStatus p .ready).listDeleteEntry p).bind fun k => k.listAddTail p .readyQueue
      else some (k'.setStatus p .ready)).bind fun k => k.reschedule c p .ret := by
  obtain ⟨k₁, hk₁, h⟩ := Option.bind_eq_some_iff.1 h
  obtain ⟨k₂, hk₂, hk₃⟩ := Option.bind_eq_some_iff.1 h
  simp only [Kernel.doScheduler, hk₁, hk₂, hk₃, Option.bind_eq_bind, Option.bind_some]
  split_ifs
  · rw [Option.bind_assoc]
  · rfl

/-- When no task of the ready queue runs, the first one is dispatched. -/
lemma reschedule_single (hr : k.links.Repr q) (hi : k.ScansInit)
    (hslots : ∀ x ∈ q .readyQueue, ∃ i, x = .slot i)
    (hready : ∀ x ∈ q .readyQueue, k.status x ≠ .running) :
    ∃ k', k.reschedule c p .ret = some k' ∧
      k'.Single q c ((q .readyQueue).head?.getD (idlePcb c)) ∧ k'.wakeupTime = k.wakeupTime := by
  have hfind : (q .readyQueue).find? (fun p => k.status p ≠ .running) = (q .readyQueue).head? := by
    cases hq : q .readyQueue with
    | nil => rfl
    | cons x l =>
      rw [List.find?_cons_of_pos (by simpa using hready x (by rw [hq]; simp))]
      rfl
  have hidle := firstIdle_spec hr (hi .readyQueue (by simp))
  rw [hfind] at hidle
  obtain ⟨r, hrdef⟩ : ∃ r, r = (q .readyQueue).head?.getD (idlePcb c) := ⟨_, rfl⟩
  have hstatus : ∀ x ∈ q .readyQueue,
      Function.update k.status r .running x = .running ↔ x = r := by
    intro x hx
    rcases eq_or_ne x r with rfl | hne
    · simp
    · rw [Function.update_of_ne hne]
      exact iff_of_false (hready x hx) hne
  refine ⟨(({ k.setStatus r .running with
      runnings := Function.update k.runnings c (some r) } : Kernel).switchPgdir c).switchTo c p
        .ret, ?_, ?_, ?_⟩
  · simp only [Kernel.reschedule, findIdleTask, hidle, ← hrdef, Option.bind_eq_bind,
      Option.bind_some]
  · rw [← hrdef]
    simp only [switchPgdir, Function.update_self]
    exact ⟨hr, hi, hslots, Function.update_self .., hstatus⟩
  · simp only [switchPgdir, Function.update_self]
    rfl

/-- The task that runs goes to the tail, and the head is dispatched. -/
lemma Single.doScheduler (hs : k.Single q c p) (hn : k.NoneDue q env) (hp : p ∈ q .readyQueue) :
    ∃ k', k.doScheduler c p env = some k' ∧
      k'.Single (move q p .readyQueue .readyQueue) c
        ((move q p .readyQueue .readyQueue .readyQueue).head?.getD (idlePcb c)) ∧
      k'.wakeupTime = k.wakeupTime := by
  obtain ⟨L, hL, hr, hi⟩ := hn.scans hs.repr hs.init
  obtain ⟨i, rfl⟩ := hs.slots p hp
  obtain ⟨L', hL', hr', hi'⟩ := move_spec (k := ({ k with links := L } : Kernel).setStatus _ .ready)
    hr hp ((hi .readyQueue).2 (hs.init _ (by simp)))
  have hmem : ∀ x, x ∈ move q (.slot i) .readyQueue .readyQueue .readyQueue →
      x ∈ q .readyQueue := by
    intro x hx
    rw [mem_move hr hp] at hx
    split_ifs at hx with heq
    · exact heq ▸ hp
    · exact hx
  obtain ⟨k', hk', hs', hw⟩ := reschedule_single
    (k := { ({ k with links := L } : Kernel).setStatus (.slot i) .ready with links := L' }) (c := c)
    (p := .slot i) hr' (fun h hh => (hi' h).2 ((hi h).2 (hs.init h hh)))
    (fun x hx => hs.slots x (hmem x hx)) (fun x hx => by
      simp only [setStatus]
      rcases eq_or_ne x (.slot i) with rfl | hne
      · simp
      · rw [Function.update_of_ne hne]
        exact fun hrun => hne ((hs.status x (hmem x hx)).1 hrun))
  refine ⟨k', ?_, hs', hw⟩
  rw [doScheduler_of_scans hL, if_pos (by simp), hL', Option.bind_some]
  exact hk'

/-- An idle task stays off the queue. -/
lemma Single.doScheduler_idle (hs : k.Single q c (idlePcb c)) (hn : k.NoneDue q env) :
    ∃ k', k.doScheduler c (idlePcb c) env = some k' ∧
      k'.Single q c ((q .readyQueue).head?.getD (idlePcb c)) := by
  obtain ⟨L, hL, hr, hi⟩ := hn.scans hs.repr hs.init
  have hidle : ¬ (idlePcb c ≠ .pid0Pcb ∧ idlePcb c ≠ .pid0Pcb2) := by
    rcases cpu_cases c with rfl | rfl <;> simp [idlePcb]
  obtain ⟨k', hk', hs', -⟩ := reschedule_single
    (k := ({ k with links := L } : Kernel).setStatus (idlePcb c) .ready) (c := c)
    (p := idlePcb c) hr (fun h hh => (hi h).2 (hs.init h hh)) hs.slots (fun x hx => by
      obtain ⟨i, rfl⟩ := hs.slots x hx
      simp only [setStatus]
      rw [Function.update_of_ne (idlePcb_ne_slot c i).symm]
      exact fun hrun => idlePcb_ne_slot c i ((hs.status _ hx).1 hrun).symm)
  refine ⟨k', ?_, hs'⟩
  rw [doScheduler_of_scans hL, if_neg hidle, Option.bind_some]
  exact hk'

/-! ## Rounds -/

lemma NoneDue.congr (hn : k.NoneDue q env) (hwakeup : k'.wakeupTime = k.wakeupTime)
    (hother : ∀ g, g ≠ .readyQueue → q' g = q g) : k'.NoneDue q' env where
  sleeping := by
    rw [hwakeup, hother _ (by simp)]
    exact hn.sleeping
  send := by
    rw [hother _ (by simp)]
    exact hn.send
  recv := by
    rw [hother _ (by simp)]
    exact hn.recv

/-- From the state in which the head of the queue runs, the next tasks are dispatched in the
order of the queue, which is rotated. -/
lemma Single.dispatches (hs : k.Single q c x) (hq : q .readyQueue = x :: (a ++ b))
    (hlen : envs.length = a.length) (hn : ∀ env ∈ envs, k.NoneDue q env) :
    ∃ k' q' y, dispatches c envs k = some (a, k') ∧ k'.Single q' c y ∧
      q' .readyQueue = (x :: (a ++ b)).rotate a.length ∧ (q' .readyQueue).head? = some y ∧
      ∀ g, g ≠ .readyQueue → q' g = q g := by
  induction a generalizing k q x b envs with
  | nil =>
    obtain rfl := List.length_eq_zero_iff.1 hlen
    exact ⟨k, q, x, rfl, hs, by rw [hq, List.length_nil, List.rotate_zero], by rw [hq]; rfl,
      fun _ _ => rfl⟩
  | cons y a ih =>
    obtain ⟨env, envs, rfl⟩ : ∃ env envs', envs = env :: envs' :=
      List.exists_cons_of_length_eq_add_one hlen
    obtain ⟨k₁, hk₁, hs₁, hw₁⟩ := hs.doScheduler (hn env (by simp)) (by rw [hq]; simp)
    have hq₁ : move q x .readyQueue .readyQueue .readyQueue = y :: (a ++ (b ++ [x])) := by
      simp [move, hq]
    rw [hq₁] at hs₁
    have hother : ∀ g, g ≠ .readyQueue → move q x .readyQueue .readyQueue g = q g :=
      fun g hg => move_of_ne hg hg
    obtain ⟨k', q', z, hk', hs', hq', hhead, hother'⟩ := ih hs₁ hq₁ (by simpa using hlen)
      fun env' henv' => (hn env' (by simp [henv'])).congr hw₁ hother
    refine ⟨k', q', z, ?_, hs', ?_, hhead, fun g hg => (hother' g hg).trans (hother g hg)⟩
    · have hrun₁ : k₁.runnings c = some y := hs₁.run
      simp only [Kernel.dispatches, hs.run, hk₁, hrun₁, hk', Option.bind_eq_bind,
        Option.bind_some]
    · rw [hq', List.length_cons, List.rotate_cons_succ]
      simp

/-- As many calls as there are tasks. -/
lemma Single.round (hs : k.Single q c p) (hp : p ∈ q .readyQueue)
    (hlen : envs.length = (q .readyQueue).length) (hn : ∀ env ∈ envs, k.NoneDue q env) :
    ∃ k' q', Kernel.dispatches c envs k = some ((q .readyQueue).erase p ++ [p], k') ∧
      k'.Single q' c p ∧ q' .readyQueue = p :: (q .readyQueue).erase p ∧
      ∀ g, g ≠ .readyQueue → q' g = q g := by
  obtain ⟨env, envs, rfl⟩ : ∃ env envs', envs = env :: envs' := by
    cases envs with
    | nil => exact absurd (List.length_eq_zero_iff.1 hlen.symm) (List.ne_nil_of_mem hp)
    | cons env envs => exact ⟨env, envs, rfl⟩
  obtain ⟨k₁, hk₁, hs₁, hw₁⟩ := hs.doScheduler (hn env (by simp)) hp
  have hmove : move q p .readyQueue .readyQueue .readyQueue = (q .readyQueue).erase p ++ [p] := by
    simp [move]
  obtain ⟨y, a, hya⟩ := List.exists_cons_of_ne_nil
    (show (q .readyQueue).erase p ++ [p] ≠ [] by simp)
  have hmove' : move q p .readyQueue .readyQueue .readyQueue = y :: a := hmove.trans hya
  have hother : ∀ g, g ≠ .readyQueue → move q p .readyQueue .readyQueue g = q g :=
    fun g hg => move_of_ne hg hg
  rw [hmove'] at hs₁
  have hlen' : envs.length = a.length := by
    have hlength := congrArg List.length hya
    have hpos := List.length_pos_of_mem hp
    rw [List.length_append, List.length_erase_of_mem hp, List.length_cons, List.length_cons,
      List.length_nil] at hlength
    rw [List.length_cons] at hlen
    omega
  obtain ⟨k', q', z, hk', hs', hq', hhead, hother'⟩ := hs₁.dispatches (b := [])
    (by rw [hmove', List.append_nil]; rfl) hlen' fun env' henv' =>
      (hn env' (by simp [henv'])).congr hw₁ hother
  -- the rotation has come back to `p`
  have hback : q' .readyQueue = p :: (q .readyQueue).erase p := by
    have hlength := congrArg List.length hya
    rw [List.length_append, List.length_cons, List.length_cons, List.length_nil] at hlength
    rw [hq', List.append_nil, show a.length = ((q .readyQueue).erase p).length by omega]
    exact (congrArg (List.rotate · _) hya.symm).trans (List.rotate_append_length_eq _ _)
  obtain rfl : z = p := by
    rw [hback] at hhead
    exact (Option.some.inj hhead).symm
  refine ⟨k', q', ?_, hs', hback, fun g hg => (hother' g hg).trans (hother g hg)⟩
  have hrun₁ : k₁.runnings c = some y := hs₁.run
  simp only [Kernel.dispatches, hs.run, hk₁, hrun₁, hk', Option.bind_eq_bind, Option.bind_some, hya]

/-- The tasks of the ready queue are dispatched once each, in the order of the queue with the
task that ran first at the end; then it runs again, and is at the head of the queue.  An idle
task is not enqueued. -/
theorem round_robin (hs : k.Single q c p) :
    (p ∈ q .readyQueue → ∀ envs : List Env, envs.length = (q .readyQueue).length →
      (∀ env ∈ envs, k.NoneDue q env) →
      ∃ k' q', dispatches c envs k = some ((q .readyQueue).erase p ++ [p], k') ∧
        k'.Single q' c p ∧ q' .readyQueue = p :: (q .readyQueue).erase p ∧
        ∀ g, g ≠ .readyQueue → q' g = q g) ∧
    (p = idlePcb c → ∀ env, k.NoneDue q env →
      ∃ k', k.doScheduler c p env = some k' ∧
        k'.Single q c ((q .readyQueue).head?.getD (idlePcb c))) := by
  constructor
  · intro hp envs hlen hn
    exact hs.round hp hlen hn
  · rintro rfl env hn
    exact hs.doScheduler_idle hn

/-! ## The shell and a task -/

/-- While CPU 1 has not joined, the invariant of the scheduler says that CPU 0 runs alone. -/
lemma Inv.single (hi : k.Inv q) (hjoin : k.runnings 1 = none) (hrun : k.runnings 0 = some p) :
    k.Single q 0 p where
  repr := hi.lists.repr
  init := hi.scansInit
  slots := hi.lists.slots _
  run := hrun
  status := by
    intro x hx
    rw [hi.runs.status x hx]
    constructor
    · rintro ⟨d, -, hd⟩
      rcases cpu_cases d with rfl | rfl
      · exact Option.some.inj (hd.symm.trans hrun)
      · exact absurd (hd.symm.trans hjoin) (Option.some_ne_none x)
    · rintro rfl
      exact ⟨0, by simp, hrun⟩

/-- The shell has started a task, which is behind it on the ready queue; nobody sleeps. -/
lemma exists_two : ∃ k : Kernel, ∃ q : Head → List Pcb,
    Trace.run step (boot [[104]]) [.trap 0 (.exec [104]) quietEnv] = some k ∧
    k.Single q 0 (.slot 0) ∧ .slot 0 ∈ q .readyQueue ∧ .slot 1 ∈ q .readyQueue ∧
      k.NoneDue q quietEnv := by
  have hval : (Trace.run step (boot [[104]]) [.trap 0 (.exec [104]) quietEnv]).map (fun k =>
      decide (k.runnings 0 = some (.slot 0) ∧ k.runnings 1 = none ∧
        k.isQueueEmpty .sleepQueue = true ∧
        k.links.next (.inl .readyQueue) = some (.inr (.slot 0)) ∧
        k.links.next (.inr (.slot 0)) = some (.inr (.slot 1)))) = some true := by
    decide
  obtain ⟨k, hk, hval⟩ := Option.map_eq_some_iff.1 hval
  obtain ⟨hrun, hjoin, hsleep, hfirst, hsecond⟩ := of_decide_eq_true hval
  have hcareful : Trace.StepsMeet step Careful (boot [[104]]) [.trap 0 (.exec [104]) quietEnv] :=
    Trace.stepsMeet_cons (fun _ _ => trivial) fun _ _ => Trace.stepsMeet_nil _ _
  obtain ⟨q, hi⟩ := inv_of_run hcareful hk
  have hon : k.links.On .readyQueue (.slot 0) := .first hfirst
  have hempty := (isQueueEmpty_iff hi.lists.repr (hi.scansInit .sleepQueue (by simp))).1 hsleep
  refine ⟨k, q, hk, hi.single hjoin hrun, hi.lists.repr.on_iff.1 hon,
    hi.lists.repr.on_iff.1 (.next hon hsecond), fun i p hp => ?_, by simp [quietEnv],
    by simp [quietEnv]⟩
  rw [hempty] at hp
  simp at hp

/-- One round of the shell and the task. -/
theorem round_robin_two : ∃ k k' : Kernel, ∃ q q' : Head → List Pcb,
    .slot 0 ∈ q .readyQueue ∧ .slot 1 ∈ q .readyQueue ∧
    dispatches 0 (List.replicate (q .readyQueue).length quietEnv) k =
      some ((q .readyQueue).erase (.slot 0) ++ [.slot 0], k') ∧
    k'.Single q' 0 (.slot 0) ∧ q' .readyQueue = .slot 0 :: (q .readyQueue).erase (.slot 0) := by
  obtain ⟨k, q, -, hs, hshell, htask, hn⟩ := exists_two
  obtain ⟨k', q', hk', hs', hq', -⟩ := (round_robin hs).1 hshell
    (List.replicate (q .readyQueue).length quietEnv) List.length_replicate fun env henv => by
      rw [List.eq_of_mem_replicate henv]
      exact hn
  exact ⟨k, k', q, q', hshell, htask, hk', hs', hq'⟩

/-- After the round the task that ran first is not at the end of the queue. -/
theorem round_robin_rotated : ∃ k : Kernel, ∃ q : Head → List Pcb,
    Trace.run step (boot [[104]]) [.trap 0 (.exec [104]) quietEnv] = some k ∧
      k.Single q 0 (.slot 0) ∧ .slot 0 ∈ q .readyQueue ∧ k.NoneDue q quietEnv ∧
      ∀ l k' q', dispatches 0 (List.replicate (q .readyQueue).length quietEnv) k = some (l, k') →
        k'.links.Repr q' → q' .readyQueue ≠ (q .readyQueue).erase (.slot 0) ++ [.slot 0] := by
  obtain ⟨k, q, hk, hs, hshell, htask, hn⟩ := exists_two
  refine ⟨k, q, hk, hs, hshell, hn, fun l k' q' hk' hr' heq => ?_⟩
  obtain ⟨k₁, q₁, hk₁, hs₁, hq₁, -⟩ := hs.round hshell List.length_replicate fun env henv => by
    rw [List.eq_of_mem_replicate henv]
    exact hn
  obtain ⟨-, rfl⟩ := Prod.mk.inj (Option.some.inj (hk₁.symm.trans hk'))
  have hne : (q .readyQueue).erase (.slot 0) ≠ [] :=
    List.ne_nil_of_mem ((List.mem_erase_of_ne (by simp)).2 htask)
  obtain ⟨y, m, hym⟩ := List.exists_cons_of_ne_nil hne
  rw [hym] at heq
  have hfirst := (firstEntry_spec hs₁.repr hq₁).symm.trans (firstEntry_spec hr' heq)
  obtain rfl := Option.some.inj hfirst
  exact (hs.repr.nodup _).not_mem_erase (by rw [hym]; simp)

end Kernel
end Sched
end UcasKernel
