/-
What `do_kill`, `do_waitpid` and `do_thread_join` return, and when.

A free slot of `pcb` has pid 0 and stays in the table that is searched, so that pid 0 is
found as long as a slot is free.  `do_waitpid` reads its result from the PCB it waited for
once it runs again, and `do_exit` and `do_kill` have cleared that pid by then.
`do_thread_join` looks for the thread on the ready queue only, and goes on behind a
`do_block` with the pointer it saved before it.
-/
import UcasKernel.Sched.Runs

namespace UcasKernel
namespace Sched

/-- What a call did that blocks or returns a value. -/
inductive Outcome
  | returned (result : ℤ) (k : Kernel)
  | blocked (k : Kernel)

/-- The kernel behind the call. -/
def Outcome.leave (cpuid : Cpu) : Outcome → Kernel
  | .returned _ k => k.retFromKernel cpuid
  | .blocked k => k

namespace Kernel

open Trace

/-- The loop of `do_thread_join` with its result. -/
def threadJoinOutcome (cpuid : Cpu) (p : Pcb) (thread : ℤ) :
    ℕ → Option Node → Kernel → Option Outcome
  | 0, _, _ => none
  | _ + 1, none, _ => none
  | _ + 1, some (.inl h), k => if h = .readyQueue then some (.returned thread k) else none
  | n + 1, some (.inr r), k =>
    let next := k.links.next (.inr r)
    if k.pid r = k.pid p ∧ k.tid r = thread then
      (k.doBlock cpuid p (.waitList r) (.threadJoin thread next)).map .blocked
    else threadJoinOutcome cpuid p thread n next k

section Outcome

variable {k k₁ : Kernel} {c : Cpu} {p r : Pcb} {pid thread result : ℤ} {n : ℕ}
  {start : Option Node}

theorem threadJoinLoop_eq (c : Cpu) (p : Pcb) (thread : ℤ) (n : ℕ) (start : Option Node)
    (k : Kernel) :
    threadJoinLoop c p thread n start k =
      (threadJoinOutcome c p thread n start k).map (Outcome.leave c) := by
  induction n generalizing start with
  | zero => rfl
  | succ n ih =>
    rcases start with _ | h | r
    · rfl
    · simp only [threadJoinLoop, threadJoinOutcome]
      split <;> rfl
    · simp only [threadJoinLoop, threadJoinOutcome]
      split
      · rw [Option.map_map]
        exact Option.map_id'.symm
      · exact ih _

/-- A traversal that returns leaves the kernel alone. -/
lemma threadJoinOutcome_returned
    (h : threadJoinOutcome c p thread n start k = some (.returned result k₁)) : k₁ = k := by
  induction n generalizing start with
  | zero => cases h
  | succ n ih =>
    rcases start with _ | h' | r
    · cases h
    · simp only [threadJoinOutcome] at h
      split at h
      · cases h
        rfl
      · cases h
    · simp only [threadJoinOutcome] at h
      split at h
      · obtain ⟨_, -, h⟩ := Option.map_eq_some_iff.1 h
        cases h
      · exact ih h

/-- A traversal that returns passes every PCB of the ready queue, and none of them is the thread. -/
lemma threadJoinOutcome_passes
    (h : threadJoinOutcome c p thread n (k.links.next (.inl .readyQueue)) k =
      some (.returned result k₁)) (hr : k.links.On .readyQueue r) :
    ¬ (k.pid r = k.pid p ∧ k.tid r = thread) := by
  have hfrom : ∃ m, threadJoinOutcome c p thread m (some (.inr r)) k =
      some (.returned result k₁) := by
    induction hr with
    | first he => exact ⟨n, he ▸ h⟩
    | next _ he ih =>
      obtain ⟨_ | m, hm⟩ := ih
      · cases hm
      · simp only [threadJoinOutcome] at hm
        split at hm
        · obtain ⟨_, -, hm⟩ := Option.map_eq_some_iff.1 hm
          cases hm
        · exact ⟨m, he ▸ hm⟩
  obtain ⟨_ | m, hm⟩ := hfrom
  · cases hm
  · intro hmatch
    simp only [threadJoinOutcome, if_pos hmatch] at hm
    obtain ⟨_, -, hm⟩ := Option.map_eq_some_iff.1 hm
    cases hm

/-- A traversal that blocks found the thread on the ready queue. -/
lemma threadJoinOutcome_blocked (h : threadJoinOutcome c p thread n start k = some (.blocked k₁))
    (hstart : ∀ r, start = some (.inr r) → k.links.On .readyQueue r) :
    ∃ r, k.links.On .readyQueue r ∧ k.pid r = k.pid p ∧ k.tid r = thread := by
  induction n generalizing start with
  | zero => cases h
  | succ n ih =>
    rcases start with _ | h' | r
    · cases h
    · simp only [threadJoinOutcome] at h
      split at h <;> cases h
    · simp only [threadJoinOutcome] at h
      split at h
      · rename_i hmatch
        exact ⟨r, hstart r rfl, hmatch⟩
      · exact ih h fun r' hr' => (hstart r rfl).next hr'

end Outcome

/-! ## A pid that no process has -/

/-- No live process has the pid. -/
def Unknown (k : Kernel) (pid : ℤ) : Prop := ∀ i, k.pid (.slot i) ≠ 0 → k.pid (.slot i) ≠ pid

section Rejects

variable {k : Kernel} {c : Cpu} {p : Pcb} {pid : ℤ}

end Rejects

/-- A traversal of the ready queue by `do_thread_join`, and whether it starts from the pointer
that was saved before the task was blocked. -/
structure Traversal where
  cpuid : Cpu
  task : Pcb
  thread : ℤ
  start : Option Node
  saved : Bool

/-- The traversal of a step. -/
def traversal (k : Kernel) : Event → Option Traversal
  | .trap cpuid (.threadJoin thread) _ =>
    (k.runnings cpuid).map fun p => ⟨cpuid, p, thread, k.links.next (.inl .readyQueue), false⟩
  | .resume cpuid _ =>
    (k.runnings cpuid).bind fun p =>
      match k.cont p with
      | .threadJoin thread next => some ⟨cpuid, p, thread, next, true⟩
      | _ => none
  | _ => none

def Traversal.outcome (v : Traversal) (k : Kernel) : Option Outcome :=
  threadJoinOutcome v.cpuid v.task v.thread loopBound v.start k

/-- No live PCB is the thread of the process of `p`. -/
def ThreadGone (k : Kernel) (p : Pcb) (thread : ℤ) : Prop :=
  ∀ r, k.pid r ≠ 0 → k.pid r = k.pid p → k.tid r ≠ thread

/-- `do_thread_join` follows no saved pointer, and returns when the thread is gone only. -/
def JoinWaits (k : Kernel) (e : Event) : Prop :=
  ∀ v, k.traversal e = some v →
    v.saved = false ∧ ∀ result k₁, v.outcome k = some (.returned result k₁) →
      k₁.ThreadGone v.task v.thread

/-- A join finds the thread gone or on the ready queue, and no task goes on behind the `do_block`
of a join. -/
def JoinsReady (k : Kernel) : Event → Prop
  | .trap cpuid (.threadJoin thread) _ => ∀ p, k.runnings cpuid = some p →
      k.ThreadGone p thread ∨ ∃ r, k.links.On .readyQueue r ∧ k.pid r = k.pid p ∧ k.tid r = thread
  | .resume cpuid _ => ∀ p, k.runnings cpuid = some p →
      ∀ thread next, k.cont p ≠ .threadJoin thread next
  | _ => True

section Join

variable {k k' : Kernel} {e : Event} {v : Traversal} {c : Cpu} {p : Pcb} {thread : ℤ} {env : Env}

/-- A step with a traversal does what the traversal does. -/
lemma step_traversal (hk : k.step e = some k') (hv : k.traversal e = some v) :
    ∃ o, v.outcome k = some o ∧ k' = o.leave v.cpuid := by
  cases e with
  | trap c call env =>
    cases call with
    | threadJoin thread =>
      obtain ⟨p, hrun, rfl⟩ := Option.map_eq_some_iff.1 hv
      simp only [Kernel.step, hrun, handle, doThreadJoin, threadJoinLoop_eq] at hk
      split_ifs at hk
      obtain ⟨o, ho, hk⟩ := Option.map_eq_some_iff.1 hk
      exact ⟨o, ho, hk.symm⟩
    | _ => cases hv
  | resume c env =>
    obtain ⟨p, hrun, hv⟩ := Option.bind_eq_some_iff.1 hv
    cases hcont : k.cont p with
    | threadJoin thread next =>
      rw [hcont] at hv
      obtain rfl := Option.some.inj hv
      simp only [Kernel.step, hrun, hcont, goOn, threadJoinLoop_eq] at hk
      split_ifs at hk
      obtain ⟨o, ho, hk⟩ := Option.map_eq_some_iff.1 hk
      exact ⟨o, ho, hk.symm⟩
    | _ =>
      rw [hcont] at hv
      cases hv
  | slaveJoin => cases hv

/-- A traversal from the head of the ready queue returns only when the thread is gone exactly when
the thread is gone or on the ready queue. -/
lemma returned_gone_iff {o : Outcome}
    (ho : threadJoinOutcome c p thread loopBound (k.links.next (.inl .readyQueue)) k = some o) :
    (∀ result k₁, o = .returned result k₁ → k₁.ThreadGone p thread) ↔
      k.ThreadGone p thread ∨
        ∃ r, k.links.On .readyQueue r ∧ k.pid r = k.pid p ∧ k.tid r = thread := by
  cases o with
  | returned result k₁ =>
    obtain rfl := threadJoinOutcome_returned ho
    constructor
    · exact fun h => .inl (h result _ rfl)
    · rintro (hgone | ⟨r, hr, hmatch⟩) _ _ heq
      · cases heq
        exact hgone
      · exact absurd hmatch (threadJoinOutcome_passes ho hr)
  | blocked k₁ =>
    constructor
    · exact fun _ => .inr (threadJoinOutcome_blocked ho fun r hr => .first hr)
    · intro _ _ _ heq
      cases heq

lemma joinWaits_iff (hk : k.step e = some k') : k.JoinWaits e ↔ k.JoinsReady e := by
  cases e with
  | trap c call env =>
    cases call with
    | threadJoin thread =>
      constructor
      · intro h p hrun
        have hv : k.traversal (.trap c (.threadJoin thread) env) =
            some ⟨c, p, thread, k.links.next (.inl .readyQueue), false⟩ := by
          simp only [traversal, hrun, Option.map_some]
        obtain ⟨o, ho, -⟩ := step_traversal hk hv
        refine (returned_gone_iff ho).1 fun result k₁ heq => (h _ hv).2 result k₁ ?_
        rw [ho, heq]
      · intro h v hv
        obtain ⟨o, ho, -⟩ := step_traversal hk hv
        obtain ⟨p, hrun, rfl⟩ := Option.map_eq_some_iff.1 hv
        refine ⟨rfl, fun result k₁ hret => ?_⟩
        exact (returned_gone_iff ho).2 (h p hrun) result k₁ (Option.some.inj (ho.symm.trans hret))
    | _ => exact ⟨fun _ => trivial, fun _ v hv => by cases hv⟩
  | resume c env =>
    constructor
    · intro h p hrun thread next hcont
      have hv : k.traversal (.resume c env) = some ⟨c, p, thread, next, true⟩ := by
        simp only [traversal, hrun, Option.bind_some, hcont]
      exact Bool.noConfusion (h _ hv).1
    · intro h v hv
      obtain ⟨p, hrun, hv⟩ := Option.bind_eq_some_iff.1 hv
      cases hcont : k.cont p with
      | threadJoin thread next => exact absurd hcont (h p hrun thread next)
      | _ =>
        rw [hcont] at hv
        cases hv
  | slaveJoin => exact ⟨fun _ => trivial, fun _ v hv => by cases hv⟩

end Join

/-- In every run `do_thread_join` does what it should exactly when the threads it looks for are on
the ready queue, or gone, and no join that blocked goes on. -/
theorem join_waits_iff {tasks : List (List UInt8)} {es : List Event} {k : Kernel}
    (hrun : run Kernel.step (boot tasks) es = some k) :
    StepsMeet Kernel.step JoinWaits (boot tasks) es ↔
      StepsMeet Kernel.step JoinsReady (boot tasks) es :=
  stepsMeet_congr (I := fun _ => True) (fun _ _ _ _ _ => trivial)
    (fun _ _ _ _ hk => joinWaits_iff hk) trivial hrun

/-- A thread of the shell sleeps while the shell waits for its end. -/
def sleeperRun : List Event :=
  [.trap 0 .threadCreate quietEnv, .trap 0 .yield quietEnv, .resume 0 quietEnv,
    .trap 0 (.sleep 5) quietEnv, .resume 0 quietEnv, .trap 0 (.threadJoin 2) quietEnv]

lemma sleeperRun_isSome : (run Kernel.step (boot []) sleeperRun).isSome = true := by decide

theorem join_waits_iff_sleeperRun :
    StepsMeet Kernel.step JoinWaits (boot []) sleeperRun ↔
      StepsMeet Kernel.step JoinsReady (boot []) sleeperRun :=
  join_waits_iff (Option.some_get sleeperRun_isSome).symm

/-- The join returns at once, and the thread is live and sleeps. -/
theorem join_misses_sleeper : ¬ StepsMeet Kernel.step JoinWaits (boot []) sleeperRun := by
  intro h
  have hval : ((run Kernel.step (boot []) (sleeperRun.take 5)).bind fun k =>
      (threadJoinOutcome 0 (.slot 0) 2 loopBound (k.links.next (.inl .readyQueue)) k).map fun o =>
        match o with
        | .returned _ k₁ => decide (k.runnings 0 = some (.slot 0) ∧ k₁.pid (.slot 1) = 1 ∧
            k₁.pid (.slot 0) = 1 ∧ k₁.tid (.slot 1) = 2 ∧ k₁.status (.slot 1) = .blocked)
        | .blocked _ => false) = some true := by
    decide
  obtain ⟨k, hk, hval⟩ := Option.bind_eq_some_iff.1 hval
  obtain ⟨o, ho, hval⟩ := Option.map_eq_some_iff.1 hval
  cases o with
  | returned result k₁ =>
    obtain ⟨hrun, hpid, hcaller, htid, -⟩ := of_decide_eq_true hval
    have hlaw : k.JoinWaits (.trap 0 (.threadJoin 2) quietEnv) :=
      h (sleeperRun.take 5) _ [] rfl k hk
    have hv : k.traversal (.trap 0 (.threadJoin 2) quietEnv) =
        some ⟨0, .slot 0, 2, k.links.next (.inl .readyQueue), false⟩ := by
      simp only [traversal, hrun, Option.map_some]
    refine (hlaw _ hv).2 result k₁ ho (.slot 1) ?_ ?_ htid
    · rw [hpid]
      exact one_ne_zero
    · exact hpid.trans hcaller.symm
  | blocked k₁ => cases hval

/-! ## Waiting for a process -/

/-- What `do_waitpid` returns behind its `switch_to`: `to_wait->pid`. -/
def waitpidResult (k : Kernel) (toWait : Slot) : ℤ := k.pid (.slot toWait)

/-- `pid` is a live process with one thread, and not that of `p`. -/
def SingleThreaded (k : Kernel) (p : Pcb) (pid : ℤ) : Prop :=
  pid ≠ 0 ∧ k.pid p ≠ pid ∧ ∃ i, k.pid (.slot i) = pid ∧ ∀ j, k.pid (.slot j) = pid → j = i

instance (k : Kernel) (p : Pcb) (pid : ℤ) : Decidable (k.SingleThreaded p pid) :=
  inferInstanceAs (Decidable (_ ∧ _ ∧ _))

end Kernel

/-- The kernel, and the pid that each task waited for in its last `do_waitpid`, where that was a
live single-threaded process other than its own. -/
structure Waits where
  kernel : Kernel
  waitFor : Pcb → Option ℤ

namespace Waits

open Trace

/-- What a step notes. -/
def note (s : Waits) : Event → Pcb → Option ℤ
  | .trap cpuid (.waitpid pid) _ =>
    match s.kernel.runnings cpuid with
    | some p =>
      Function.update s.waitFor p (if s.kernel.SingleThreaded p pid then some pid else none)
    | none => s.waitFor
  | _ => s.waitFor

def step (s : Waits) (e : Event) : Option Waits := (s.kernel.step e).map fun k => ⟨k, s.note e⟩

/-- The pid and the result of a `do_waitpid` that returns. -/
def returns (s : Waits) : Event → Option (ℤ × ℤ)
  | .resume cpuid _ => do
    let p ← s.kernel.runnings cpuid
    let pid ← s.waitFor p
    match s.kernel.cont p with
    | .waitpid toWait => some (pid, s.kernel.waitpidResult toWait)
    | _ => none
  | _ => none

/-- `do_waitpid` returns when the process is gone, and returns its pid. -/
def Reports (s : Waits) (e : Event) : Prop :=
  ∀ pid result, s.returns e = some (pid, result) →
    s.kernel.Unknown pid ∧ result = pid

/-- No task goes on behind the `do_block` of such a `do_waitpid`. -/
def NoReturn (s : Waits) : Event → Prop
  | .resume cpuid _ => ∀ p, s.kernel.runnings cpuid = some p →
      s.waitFor p = none ∨ ∀ toWait, s.kernel.cont p ≠ .waitpid toWait
  | _ => True

def boot (tasks : List (List UInt8)) : Waits := ⟨Kernel.boot tasks, fun _ => none⟩

section Waits

variable {s t : Waits} {e : Event}

/-- Nobody waits for pid 0. -/
lemma step_ne_zero (hs : ∀ p, s.waitFor p ≠ some 0) (ht : s.step e = some t) (p : Pcb) :
    t.waitFor p ≠ some 0 := by
  obtain ⟨k, -, rfl⟩ := Option.map_eq_some_iff.1 ht
  intro hp
  change s.note e p = some 0 at hp
  cases e with
  | trap c call env =>
    cases call with
    | waitpid pid =>
      cases hrun : s.kernel.runnings c with
      | none =>
        simp only [note, hrun] at hp
        exact hs p hp
      | some r =>
        simp only [note, hrun] at hp
        by_cases hr : p = r
        · subst hr
          rw [Function.update_self] at hp
          split_ifs at hp with hsingle
          exact hsingle.1 (Option.some.inj hp)
        · rw [Function.update_of_ne hr] at hp
          exact hs p hp
    | _ => exact hs p hp
  | _ => exact hs p hp

/-- What a `do_waitpid` returns is the pid of the slot, and the pid it waited for is none when the
process is gone. -/
lemma reports_iff (hs : ∀ p, s.waitFor p ≠ some 0) : s.Reports e ↔ s.NoReturn e := by
  cases e with
  | resume c env =>
    constructor
    · intro h p hrun
      cases hwait : s.waitFor p with
      | none => exact .inl rfl
      | some pid =>
        refine .inr fun toWait hcont => ?_
        have hreturns : s.returns (.resume c env) = some (pid, s.kernel.waitpidResult toWait) := by
          simp only [returns, hrun, hwait, hcont, Option.bind_eq_bind, Option.bind_some]
        obtain ⟨hgone, hresult⟩ := h _ _ hreturns
        have hpid : pid ≠ 0 := fun h0 => hs p (h0 ▸ hwait)
        exact hgone toWait (hresult.trans_ne hpid) hresult
    · intro h pid result hreturns
      obtain ⟨p, hrun, hreturns⟩ := Option.bind_eq_some_iff.1 hreturns
      obtain ⟨pid', hwait, hreturns⟩ := Option.bind_eq_some_iff.1 hreturns
      cases hcont : s.kernel.cont p with
      | waitpid toWait =>
        rcases h p hrun with hnone | hne
        · rw [hnone] at hwait
          cases hwait
        · exact absurd hcont (hne toWait)
      | _ =>
        rw [hcont] at hreturns
        cases hreturns
  | _ => exact ⟨fun _ => trivial, fun _ _ _ hreturns => by cases hreturns⟩

end Waits

/-- In every run `do_waitpid` reports the process it waited for exactly when it does not return. -/
theorem waitpid_reports_iff {tasks : List (List UInt8)} {es : List Event} {s : Waits}
    (hrun : run Waits.step (boot tasks) es = some s) :
    StepsMeet Waits.step Reports (boot tasks) es ↔ StepsMeet Waits.step NoReturn (boot tasks) es :=
  stepsMeet_congr (I := fun s => ∀ p, s.waitFor p ≠ some 0) (fun _ _ _ hs ht => step_ne_zero hs ht)
    (fun _ _ _ hs _ => reports_iff hs) (fun _ => Option.some_ne_none _ ∘ Eq.symm) hrun

/-- The shell waits for the task it started; the task exits, and the shell goes on. -/
def waitRun : List Event :=
  [.trap 0 (.exec [104]) Kernel.quietEnv, .trap 0 (.waitpid 2) Kernel.quietEnv,
    .resume 0 Kernel.quietEnv, .trap 0 .exit Kernel.quietEnv, .resume 0 Kernel.quietEnv]

lemma waitRun_isSome : (run Waits.step (boot [[104]]) waitRun).isSome = true := by decide

theorem waitpid_reports_iff_waitRun :
    StepsMeet Waits.step Reports (boot [[104]]) waitRun ↔
      StepsMeet Waits.step NoReturn (boot [[104]]) waitRun :=
  waitpid_reports_iff (Option.some_get waitRun_isSome).symm

/-- The result is 0, the pid that `do_exit` left in the PCB. -/
theorem waitpid_returns_zero : ¬ StepsMeet Waits.step Reports (boot [[104]]) waitRun := by
  intro h
  have hval : ((run Waits.step (boot [[104]]) (waitRun.take 4)).bind fun s =>
      s.returns (.resume 0 Kernel.quietEnv)) = some (2, 0) := by
    decide
  obtain ⟨s, hs, hval⟩ := Option.bind_eq_some_iff.1 hval
  have hlaw : s.Reports (.resume 0 Kernel.quietEnv) := h (waitRun.take 4) _ [] rfl s hs
  exact absurd (hlaw 2 0 hval).2 (by decide)

end Waits

end Sched
end UcasKernel
