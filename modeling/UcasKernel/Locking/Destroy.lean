/-
The end of a synchronisation object, and the tasks that still wait on it.

`do_condition_destroy` wakes them.  `do_barrier_destroy` takes them off its list and
puts them on no other one, and the last `do_mbox_close` leaves them where they are:
no later call comes by.  So a barrier or a mailbox must only be destroyed when no
live task waits on it.
-/
import UcasKernel.Sched.Runs

namespace UcasKernel
namespace Sched

open Trace

/-- The objects that tasks can wait on and that can be destroyed. -/
inductive SyncObject
  | barrier (b : Slot)
  | condition (c : Slot)
  | mailbox (i : Slot)
deriving DecidableEq, Repr

/-- The heads of the queues of an object. -/
def SyncObject.queues : SyncObject → List Head
  | .barrier b => [.blockList b]
  | .condition c => [.condWaitList c]
  | .mailbox i => [.sendList i, .recvList i]

namespace Kernel

/-- `do_barrier_destroy`, `do_condition_destroy` and `do_mbox_close`. -/
def destroy (k : Kernel) : SyncObject → Option Kernel
  | .barrier b => k.barrierDestroy b
  | .condition c => k.conditionBroadcast c
  | .mailbox i => k.mboxClose i

/-- A `do_mbox_close` is the final one when it is called with one reference left. -/
def FinalClose (k : Kernel) : SyncObject → Prop
  | .mailbox i => (k.mailboxes i).ref = 1
  | _ => True

/-- A live task waits on the object. -/
def Waits (k : Kernel) (d : SyncObject) (p : Pcb) : Prop :=
  k.pid p ≠ 0 ∧ ∃ h ∈ d.queues, k.links.On h p

/-- The step from `k` to `k'` strands no task that waits on the object. -/
structure Freed (k : Kernel) (d : SyncObject) (k' : Kernel) : Prop where
  /-- Who waited is ready. -/
  ready : ∀ p, k.Waits d p → k'.links.On .readyQueue p ∧ k'.status p = .ready
  /-- A live task that is blocked and was on a queue is still on one, and not on one of the
  object. -/
  queued : ∀ p, k'.pid p ≠ 0 → k'.status p = .blocked → (∃ h, k.links.On h p) →
    (∃ h, k'.links.On h p) ∧ ¬ k'.Waits d p

/-- When destroying an object strands nobody: a condition variable always; a barrier if no
live task waits on it; a mailbox if, besides, its mutex is one. -/
def SafeToDestroy (k : Kernel) : SyncObject → Prop
  | .condition _ => True
  | .barrier b => ∀ p, ¬ k.Waits (.barrier b) p
  | .mailbox i => (slotOf (k.mailboxes i).mutexId).isSome ∧ ∀ p, ¬ k.Waits (.mailbox i) p

variable {k k' : Kernel} {q : Head → List Pcb} {h : Head} {p : Pcb}

/-! ## The loops -/

/-- What has happened to the tasks of the queue `h` while a loop wakes them. -/
structure Emptied (k : Kernel) (q : Head → List Pcb) (h : Head) (k' : Kernel)
    (q' : Head → List Pcb) : Prop where
  lists : k'.Lists q'
  pid : k'.pid = k.pid
  woken : ∀ p ∈ q h, p ∈ q' h ∨ p ∈ q' .readyQueue ∧ k'.status p = .ready
  queued : ∀ p, (∃ g, p ∈ q' g) ↔ ∃ g, p ∈ q g

lemma Lists.unblockAll (hl : k.Lists q) (hne : h ≠ .readyQueue) (hh : ∀ r, h ≠ .waitList r) :
    ∃ k' q', Kernel.unblockAll h loopBound k = some k' ∧ k.Emptied q h k' q' ∧ q' h = [] := by
  refine unblockAll_rule (P := Emptied k q h) hne
    (fun k' q' he => ⟨he.lists.repr, he.lists.init h hh⟩) (fun k' q' p he hp => ?_)
    ⟨hl, rfl, fun p hp => .inl hp, fun p => Iff.rfl⟩
  have hr := he.lists.repr
  obtain ⟨L, hL, hr', hinit⟩ := doUnblock_spec hr hp (he.lists.init _ (by simp))
  refine ⟨_, hL, he.lists.move hp hr' hinit, he.pid, fun x hx => ?_, fun x => ?_⟩
  · by_cases hxp : x = p
    · subst hxp
      exact .inr ⟨(mem_move hr hp).2 (by simp), by simp [setStatus]⟩
    · rw [mem_move hr hp, mem_move hr hp, if_neg hxp, if_neg hxp]
      simp only [setStatus, Function.update_of_ne hxp]
      exact he.woken x hx
  · rw [exists_mem_move hr hp]
    exact he.queued x

/-- The loop of `do_barrier_destroy` makes the list empty and touches no other one. -/
lemma Lists.deleteAll (hl : k.Lists q) (hi : k.links.Init h) :
    ∃ L : Links Head Pcb, Kernel.deleteAll h loopBound k = some { k with links := L } ∧
      Lists { k with links := L } (Function.update q h []) := by
  have hlen := length_lt_loopBound hl.repr h
  generalize loopBound = n at hlen ⊢
  induction n generalizing k q with
  | zero => omega
  | succ n ih =>
    rw [Kernel.deleteAll]
    by_cases hempty : q h = []
    · rw [if_pos ((isQueueEmpty_iff hl.repr hi).2 hempty)]
      refine ⟨k.links, rfl, ?_⟩
      rw [← hempty, Function.update_eq_self]
      exact hl
    · rw [if_neg fun hc => hempty ((isQueueEmpty_iff hl.repr hi).1 hc)]
      obtain ⟨p, l, hq⟩ := List.exists_cons_of_ne_nil hempty
      have hp : p ∈ q h := by rw [hq]; exact List.mem_cons_self
      obtain ⟨L, hL, hr', hinit⟩ := hl.repr.delete hp
      have hl' : Lists { k with links := L } (Function.update q h ((q h).erase p)) := by
        refine ⟨hr', fun g hg => (hinit g).2 (hl.init g hg), fun g x hx => ?_⟩
        by_cases hg : g = h
        · subst hg
          rw [Function.update_self] at hx
          exact hl.slots g x (List.mem_of_mem_erase hx)
        · rw [Function.update_of_ne hg] at hx
          exact hl.slots g x hx
      obtain ⟨L', hL', hl''⟩ := ih hl' ((hinit h).2 hi) (by
        rw [Function.update_self, hq, List.erase_cons_head]
        rw [hq, List.length_cons] at hlen
        omega)
      refine ⟨L', ?_, by rwa [Function.update_idem] at hl''⟩
      simp only [firstEntry_spec hl.repr hq, listDeleteEntry, hL, Option.map_some,
        Option.bind_eq_bind, Option.bind_some, hL']

/-- Releasing a mutex moves its first waiter to the ready queue, if there is one. -/
lemma Lists.mutexLockRelease (hl : k.Lists q) (m : Slot) :
    ∃ k' q', k.mutexLockRelease m = some k' ∧ k'.Lists q' ∧ k'.pid = k.pid ∧
      k'.mailboxes = k.mailboxes ∧ (∀ p, (∃ g, p ∈ q' g) ↔ ∃ g, p ∈ q g) ∧
      ∀ g, g ≠ .blockQueue m → g ≠ .readyQueue → q' g = q g := by
  have hi : k.links.Init (.blockQueue m) := hl.init _ (by simp)
  unfold Kernel.mutexLockRelease
  by_cases hempty : q (.blockQueue m) = []
  · rw [if_pos ((isQueueEmpty_iff hl.repr hi).2 hempty)]
    exact ⟨_, q, rfl, ⟨hl.repr, hl.init, hl.slots⟩, rfl, rfl, fun _ => Iff.rfl,
      fun _ _ _ => rfl⟩
  · rw [if_neg fun h => hempty ((isQueueEmpty_iff hl.repr hi).1 h)]
    obtain ⟨p, l, hq⟩ := List.exists_cons_of_ne_nil hempty
    have hp : p ∈ q (.blockQueue m) := by rw [hq]; exact List.mem_cons_self
    have hl' : (k.setMlock m ⟨(k.mlocks m).locked, k.pid p⟩).Lists q :=
      ⟨hl.repr, hl.init, hl.slots⟩
    obtain ⟨L, hL, hr', hinit⟩ := doUnblock_spec hl'.repr hp (hl'.init _ (by simp))
    have hl'' : Lists { (k.setMlock m ⟨(k.mlocks m).locked, k.pid p⟩).setStatus p .ready with
        links := L } (Sched.move q p (.blockQueue m) .readyQueue) := hl'.move hp hr' hinit
    refine ⟨_, _, ?_, hl'', rfl, rfl, fun x => exists_mem_move hl.repr hp,
      fun g hg hg' => move_of_ne hg hg'⟩
    simp only [firstEntry_spec hl.repr hq, Option.bind_eq_bind, Option.bind_some, hL]

/-! ## The three ways to destroy -/

lemma Lists.waits_iff {d : SyncObject} (hl : k.Lists q) :
    k.Waits d p ↔ k.pid p ≠ 0 ∧ ∃ h ∈ d.queues, p ∈ q h := by
  simp only [Waits, hl.repr.on_iff]

/-- If no live task waits, and each live task that was on a queue is on one that is not of
the object, nobody is stranded. -/
lemma Freed.of_none {d : SyncObject} {q' : Head → List Pcb} (hl : k.Lists q) (hl' : k'.Lists q')
    (hpid : k'.pid = k.pid) (hnone : ∀ p, ¬ k.Waits d p)
    (hqueues : ∀ p, ∀ h ∈ d.queues, p ∈ q' h → p ∈ q h)
    (hqueued : ∀ p, k.pid p ≠ 0 → (∃ g, p ∈ q g) → ∃ g, p ∈ q' g) : k.Freed d k' where
  ready := fun p hp => absurd hp (hnone p)
  queued := by
    intro p hp _ hon
    rw [hpid] at hp
    simp only [hl.repr.on_iff] at hon
    refine ⟨?_, fun hw => ?_⟩
    · simp only [hl'.repr.on_iff]
      exact hqueued p hp hon
    · obtain ⟨-, h, hh, hmem⟩ := hl'.waits_iff.1 hw
      exact hnone p (hl.waits_iff.2 ⟨hp, h, hh, hqueues p h hh hmem⟩)

lemma Lists.destroy_condition (hl : k.Lists q) (c : Slot) :
    ∃ k', k.destroy (.condition c) = some k' ∧ k.Freed (.condition c) k' := by
  obtain ⟨k', q', hk', he, hempty⟩ :=
    hl.unblockAll (h := .condWaitList c) (by simp) (by simp)
  refine ⟨k', hk', ⟨fun p hp => ?_, fun p _ _ hon => ⟨?_, fun hw => ?_⟩⟩⟩
  · obtain ⟨-, h, hh, hmem⟩ := hl.waits_iff.1 hp
    obtain rfl := List.mem_singleton.1 hh
    rcases he.woken p hmem with hmem' | ⟨hready, hstatus⟩
    · rw [hempty] at hmem'
      simp at hmem'
    · exact ⟨he.lists.repr.on_iff.2 hready, hstatus⟩
  · simp only [he.lists.repr.on_iff, hl.repr.on_iff] at hon ⊢
    exact (he.queued p).2 hon
  · obtain ⟨-, h, hh, hmem⟩ := he.lists.waits_iff.1 hw
    obtain rfl := List.mem_singleton.1 hh
    rw [hempty] at hmem
    simp at hmem

lemma Lists.destroy_barrier (hl : k.Lists q) (b : Slot) :
    ∃ k', k.destroy (.barrier b) = some k' ∧
      (k.Freed (.barrier b) k' ↔ ∀ p, ¬ k.Waits (.barrier b) p) := by
  have hl₁ : (k.setBarrier b { k.barriers b with current := 0 }).Lists q :=
    ⟨hl.repr, hl.init, hl.slots⟩
  obtain ⟨L, hL, hl'⟩ := hl₁.deleteAll (h := .blockList b) (hl₁.init _ (by simp))
  refine ⟨_, hL, fun hf p hp => ?_, fun hnone => ?_⟩
  · -- who waited is not on the ready queue
    obtain ⟨-, h, hh, hmem⟩ := hl.waits_iff.1 hp
    obtain rfl := List.mem_singleton.1 hh
    have hready := hl'.repr.on_iff.1 (hf.ready p hp).1
    rw [Function.update_of_ne (by simp)] at hready
    exact absurd (hl.repr.disjoint _ _ p hready hmem) (by simp)
  · refine Freed.of_none hl hl' rfl hnone (fun p h hh hmem => ?_) fun p hp ⟨g, hg⟩ => ?_
    · obtain rfl := List.mem_singleton.1 hh
      rw [Function.update_self] at hmem
      simp at hmem
    · refine ⟨g, ?_⟩
      rw [Function.update_of_ne ?_]
      · exact hg
      · rintro rfl
        exact hnone p (hl.waits_iff.2 ⟨hp, _, List.mem_singleton.2 rfl, hg⟩)

lemma Lists.destroy_mailbox {i m : Slot} (hl : k.Lists q) (href : (k.mailboxes i).ref = 1)
    (hm : slotOf (k.mailboxes i).mutexId = some m) :
    ∃ k', k.destroy (.mailbox i) = some k' ∧
      (k.Freed (.mailbox i) k' ↔ ∀ p, ¬ k.Waits (.mailbox i) p) := by
  have hl₁ : (k.setMailbox i { k.mailboxes i with ref := (k.mailboxes i).ref - 1 }).Lists q :=
    ⟨hl.repr, hl.init, hl.slots⟩
  obtain ⟨k₂, q₂, hk₂, hl₂, hpid₂, -, hqueued₂, hkeep₂⟩ := hl₁.mutexLockRelease m
  have hl' : (k₂.setMailbox i Locking.initMbox).Lists q₂ := ⟨hl₂.repr, hl₂.init, hl₂.slots⟩
  have hsame : ∀ h ∈ (SyncObject.mailbox i).queues, q₂ h = q h := by
    intro h hh
    simp only [SyncObject.queues, List.mem_cons, List.not_mem_nil, or_false] at hh
    rcases hh with rfl | rfl
    · exact hkeep₂ _ (by simp) (by simp)
    · exact hkeep₂ _ (by simp) (by simp)
  refine ⟨k₂.setMailbox i Locking.initMbox, ?_, fun hf p hp => ?_, fun hnone => ?_⟩
  · simp only [destroy, Kernel.mboxClose, href, sub_self, if_true, hm, Option.bind_eq_bind,
      Option.bind_some]
    rw [href] at hk₂
    rw [show (1 : ℤ) - 1 = 0 from rfl] at hk₂
    rw [hk₂, Option.bind_some]
  · -- who waited is where it was
    obtain ⟨-, h, hh, hmem⟩ := hl.waits_iff.1 hp
    have hready := hl'.repr.on_iff.1 (hf.ready p hp).1
    rw [← hsame h hh] at hmem
    have heq := hl'.repr.disjoint _ _ p hready hmem
    subst heq
    simp [SyncObject.queues] at hh
  · exact Freed.of_none hl hl' hpid₂ hnone (fun p h hh hmem => by rwa [← hsame h hh])
      fun p _ hg => (hqueued₂ p).2 hg

/-- In every state in which the heap represents the queues, destroying an object returns
and strands nobody exactly when it is a condition variable, or no live task waits on it (and
the mailbox has a mutex). -/
theorem destroy_strands_nobody_iff (hl : k.Lists q) (d : SyncObject) (hd : k.FinalClose d) :
    (∃ k', k.destroy d = some k' ∧ k.Freed d k') ↔ k.SafeToDestroy d := by
  cases d with
  | condition c => exact iff_of_true (hl.destroy_condition c) trivial
  | barrier b =>
    obtain ⟨k', hk', hiff⟩ := hl.destroy_barrier b
    simp only [hk', Option.some.injEq, exists_eq_left', hiff, SafeToDestroy]
  | mailbox i =>
    cases hm : slotOf (k.mailboxes i).mutexId with
    | none =>
      have hnone : k.destroy (.mailbox i) = none := by
        have href : (k.mailboxes i).ref = 1 := hd
        simp only [destroy, Kernel.mboxClose, href, sub_self, if_true, hm, Option.bind_eq_bind,
          Option.bind_none]
      simp [hnone, SafeToDestroy, hm]
    | some m =>
      obtain ⟨k', hk', hiff⟩ := hl.destroy_mailbox hd hm
      simp only [hk', Option.some.injEq, exists_eq_left', hiff, SafeToDestroy, hm,
        Option.isSome_some, true_and]

/-- The shell starts a task and waits on an object; the task gets the CPU. -/
def waitRun (calls : List Call) : List Event :=
  .trap 0 (.exec [104]) quietEnv :: calls.map (fun call => .trap 0 call quietEnv) ++
    [.resume 0 quietEnv]

lemma waitRun_isSome :
    (run Kernel.step (boot [[104]]) (waitRun [.conditionWait 0 0])).isSome = true := by decide

/-- The shell waits on a condition variable and is ready when it is destroyed. -/
theorem destroy_strands_nobody_condition : ∃ k k' : Kernel,
    run Kernel.step (boot [[104]]) (waitRun [.conditionWait 0 0]) = some k ∧
      k.links.next (.inl (.condWaitList 0)) = some (.inr (.slot 0)) ∧
      k.destroy (.condition 0) = some k' ∧ k.Freed (.condition 0) k' := by
  obtain ⟨k, hk⟩ := Option.isSome_iff_exists.1 waitRun_isSome
  have hcareful : StepsMeet Kernel.step Careful (boot [[104]]) (waitRun [.conditionWait 0 0]) := by
    refine stepsMeet_cons (fun _ _ => trivial) fun _ _ => stepsMeet_cons (fun _ _ => trivial) ?_
    exact fun _ _ => stepsMeet_cons trivial fun _ _ => stepsMeet_nil _ _
  obtain ⟨q, hq⟩ := inv_of_run hcareful hk
  have hnext : (run Kernel.step (boot [[104]]) (waitRun [.conditionWait 0 0])).map
      (fun k => k.links.next (.inl (.condWaitList 0))) = some (some (.inr (.slot 0))) := by decide
  rw [hk, Option.map_some, Option.some.injEq] at hnext
  obtain ⟨k', hk', hfreed⟩ := (destroy_strands_nobody_iff hq.lists (.condition 0) trivial).2 trivial
  exact ⟨k, k', hk, hnext, hk', hfreed⟩

/-- The shell waits on a barrier; when it is destroyed, the shell is still blocked. -/
theorem barrier_destroy_strands : ∃ k k' : Kernel,
    run Kernel.step (boot [[104]]) (waitRun [.barrierInit 0 2, .barrierWait 0]) = some k ∧
      k.destroy (.barrier 0) = some k' ∧ ¬ k.Freed (.barrier 0) k' := by
  have hrun : (run Kernel.step (boot [[104]])
      (waitRun [.barrierInit 0 2, .barrierWait 0])).bind (fun k => (k.destroy (.barrier 0)).map
        fun k' => (k.links.next (.inl (.blockList 0)), k.pid (.slot 0), k'.status (.slot 0))) =
      some (some (.inr (.slot 0)), 1, .blocked) := by decide
  obtain ⟨k, hk, hrun⟩ := Option.bind_eq_some_iff.1 hrun
  obtain ⟨k', hk', hrun⟩ := Option.map_eq_some_iff.1 hrun
  simp only [Prod.mk.injEq] at hrun
  obtain ⟨hnext, hpid, hstatus⟩ := hrun
  refine ⟨k, k', hk, hk', fun hf => ?_⟩
  have hwaits : k.Waits (.barrier 0) (.slot 0) :=
    ⟨by rw [hpid]; decide, _, List.mem_singleton.2 rfl, .first hnext⟩
  have hready := (hf.ready _ hwaits).2
  rw [hstatus] at hready
  cases hready

end Kernel
end Sched
end UcasKernel
