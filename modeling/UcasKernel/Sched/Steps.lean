/-
Every step keeps the invariant of the scheduler.

The calls come in groups: those that return, those that may block, the death of a
process, and the first switch of CPU 1.  `Careful` names what a step must not do:
end one of several threads, kill a process that runs, wait for or kill pid 0, or
destroy a barrier with waiters.
-/
import UcasKernel.Sched.Lifecycle
import UcasKernel.Lib.Trace

namespace UcasKernel
namespace Sched
namespace Kernel

/-- What a call must not do. -/
def CarefulCall (k : Kernel) (p : Pcb) : Call → Prop
  | .exit => k.Alone p
  | .kill pid => pid ≠ 0 ∧ ∀ i, k.findPid pid = some i →
      k.Alone (.slot i) ∧ ∀ c, k.runnings c ≠ some (.slot i)
  | .waitpid pid => pid ≠ 0
  | .barrierDestroy idx => ∀ b, slotOf idx = some b → k.isQueueEmpty (.blockList b) = true
  | _ => True

/-- The step is not one of those. -/
def Careful (k : Kernel) : Event → Prop
  | .trap cpuid call _ => ∀ p, k.runnings cpuid = some p → k.CarefulCall p call
  | _ => True

/-- The pids of `k'` are pids of `k`, new ones or 0. -/
structure Pids (k k' : Kernel) : Prop where
  processId : k.processId ≤ k'.processId
  pid : ∀ x, k'.pid x = 0 ∨ (∃ y, k'.pid x = k.pid y) ∨ k.processId ≤ k'.pid x

/-- `k'` has the invariant, and its pids come from `k`. -/
structure Leads (k k' : Kernel) : Prop extends Pids k k' where
  inv : ∃ q', k'.Inv q'

section Leads

variable {k k₁ k' : Kernel} {q' : Head → List Pcb}

lemma Pids.of_same (hpid : k'.pid = k.pid) (hprocess : k'.processId = k.processId) : k.Pids k' :=
  ⟨hprocess.ge, fun x => .inr (.inl ⟨x, by rw [hpid]⟩)⟩

/-- The steps that change no pid. -/
lemma Leads.of_same (hinv : k'.Inv q') (hpid : k'.pid = k.pid)
    (hprocess : k'.processId = k.processId) : k.Leads k' :=
  ⟨Pids.of_same hpid hprocess, ⟨q', hinv⟩⟩

lemma Leads.after (hl : k₁.Leads k') (hpid : k₁.pid = k.pid)
    (hprocess : k₁.processId = k.processId) : k.Leads k' :=
  ⟨⟨by rw [← hprocess]; exact hl.processId, by rw [← hpid, ← hprocess]; exact hl.pid⟩, hl.inv⟩

@[simp] lemma retFromKernel_pid (k : Kernel) (c : Cpu) : (k.retFromKernel c).pid = k.pid := by
  unfold Kernel.retFromKernel switchPgdir
  cases k.runnings c <;> rfl

@[simp] lemma retFromKernel_processId (k : Kernel) (c : Cpu) :
    (k.retFromKernel c).processId = k.processId := by
  unfold Kernel.retFromKernel switchPgdir
  cases k.runnings c <;> rfl

lemma retFromKernel_runnings (k : Kernel) (c : Cpu) :
    (k.retFromKernel c).runnings = k.runnings := by
  unfold Kernel.retFromKernel switchPgdir
  cases k.runnings c <;> rfl

lemma retFromKernel_tasks (k : Kernel) (c : Cpu) : (k.retFromKernel c).tasks = k.tasks := by
  unfold Kernel.retFromKernel switchPgdir
  cases k.runnings c <;> rfl

/-- The steps that end a PCB. -/
lemma Pids.of_clear {p : Pcb} (hpid : k'.pid = Function.update k.pid p 0)
    (hprocess : k'.processId = k.processId) : k.Pids k' := by
  refine ⟨hprocess.ge, fun x => ?_⟩
  by_cases hx : x = p
  · exact .inl (by rw [hpid, hx, Function.update_self])
  · exact .inr (.inl ⟨x, by rw [hpid, Function.update_of_ne hx]⟩)

lemma Inv.returns {c : Cpu} {p : Pcb} {q : Head → List Pcb} (hi : k.Inv q)
    (hrun : k.runnings c = some p) : k.Leads (k.retFromKernel c) :=
  Leads.of_same (hi.retFromKernel hrun) (retFromKernel_pid k c) (retFromKernel_processId k c)

end Leads

section Calls

variable {k k' : Kernel} {q : Head → List Pcb} {c : Cpu} {p : Pcb}

/-- A task that runs and is not idle is live. -/
lemma Mid.running_live (hm : k.Mid q none none) (hrun : k.runnings c = some p)
    (hp : p ≠ idlePcb c) : p ∈ q .readyQueue ∧ k.pid p ≠ 0 := by
  have hmem := (hm.runs.run c p (by simp) hrun).resolve_left hp
  exact ⟨hmem, (hm.life.live p (by simp)).2 ⟨_, hmem⟩⟩

/-- A call that keeps `Mid` and returns. -/
lemma Mid.returning {o : Option Kernel} (hrun : k.runnings c = some p) (hp : p ≠ idlePcb c)
    (ho : ∀ k', o = some k' → ∃ q', k'.Mid q' none none ∧ k'.runnings = k.runnings ∧ k.Pids k')
    (hk : Kernel.returning o c = some k') : k.Leads k' := by
  obtain ⟨k₁, hk₁, rfl⟩ := Option.map_eq_some_iff.1 hk
  obtain ⟨q₁, hm₁, hrun₁, hpids₁⟩ := ho k₁ hk₁
  refine ⟨⟨?_, ?_⟩, ⟨q₁, hm₁.retFromKernel (p := p) (by rw [hrun₁, hrun]) hp⟩⟩
  · simpa only [retFromKernel_processId] using hpids₁.processId
  · simpa only [retFromKernel_pid] using hpids₁.pid

/-- A return right away. -/
lemma Mid.returns (hm : k.Mid q none none) (hrun : k.runnings c = some p) (hp : p ≠ idlePcb c) :
    k.Leads (k.retFromKernel c) :=
  Leads.of_same (hm.retFromKernel hrun hp) (retFromKernel_pid k c) (retFromKernel_processId k c)

/-- A call that blocks. -/
lemma Mid.blocks {h : Head} {cont : Cont} (hm : k.Mid q none none) (hrun : k.runnings c = some p)
    (hp : p ≠ idlePcb c) (hh : ∀ r, h = .waitList r → k.pid r ≠ 0)
    (hk : k.doBlock c p h cont = some k') : k.Leads k' := by
  obtain ⟨L, r, hk₁, -, hinv⟩ := hm.doBlock cont hrun hp hh
  obtain rfl := Option.some.inj (hk.symm.trans hk₁)
  exact Leads.of_same hinv rfl rfl

lemma Mid.mutexLockAcquire {m : Slot} {cont : Cont} {next : Kernel → Option Kernel}
    (hm : k.Mid q none none) (hrun : k.runnings c = some p) (hp : p ≠ idlePcb c)
    (hnext : ∀ k₁ k', k₁.Mid q none none → k₁.runnings = k.runnings → next k₁ = some k' →
      k₁.Leads k')
    (hk : k.mutexLockAcquire c p m cont next = some k') : k.Leads k' := by
  unfold Kernel.mutexLockAcquire at hk
  split at hk
  · exact hm.blocks hrun hp (by simp) hk
  · exact (hnext _ k' (hm.setMlock m _) rfl hk).after rfl rfl

lemma Mid.barrierWait {b : Slot} (hm : k.Mid q none none) (hrun : k.runnings c = some p)
    (hp : p ≠ idlePcb c) (hk : k.barrierWait c p b = some k') : k.Leads k' := by
  have hm₁ := hm.setBarrier b { k.barriers b with current := (k.barriers b).current + 1 }
  simp only [Kernel.barrierWait] at hk
  split at hk
  · exact (hm₁.blocks hrun hp (by simp) hk).after rfl rfl
  · obtain ⟨k₂, q₂, hk₂, hw, -⟩ := hm₁.unblockAll (h := .blockList b) (by simp) (by simp)
    obtain ⟨hm₂, hquiet₂⟩ := hw.mid (by simp) hm₁
    rw [hk₂, Option.bind_eq_bind, Option.bind_some, Option.some.injEq] at hk
    subst hk
    exact ((hm₂.setBarrier b _).returns (p := p) ((congrFun hquiet₂.runnings c).trans hrun)
      hp).after hquiet₂.pid hquiet₂.processId

/-- `do_barrier_destroy` with nobody waiting. -/
lemma Mid.barrierDestroy {b : Slot} (hm : k.Mid q none none)
    (hempty : k.isQueueEmpty (.blockList b) = true) (hk : k.barrierDestroy b = some k') :
    k'.Mid q none none ∧ k'.runnings = k.runnings ∧ k.Pids k' := by
  have hempty' : (k.setBarrier b { k.barriers b with current := 0 }).isQueueEmpty (.blockList b) =
      true := hempty
  rw [Kernel.barrierDestroy, loopBound, deleteAll, if_pos hempty', Option.some.injEq] at hk
  subst hk
  exact ⟨hm.setBarrier b _, rfl, Pids.of_same rfl rfl⟩

lemma Mid.conditionWait {i m : Slot} (hm : k.Mid q none none) (hrun : k.runnings c = some p)
    (hp : p ≠ idlePcb c) (hk : k.conditionWait c p i m = some k') : k.Leads k' := by
  obtain ⟨k₁, q₁, hk₁, hm₁, hquiet₁, -⟩ := hm.mutexLockRelease m
  rw [Kernel.conditionWait, hk₁, Option.bind_eq_bind, Option.bind_some] at hk
  exact (hm₁.blocks ((congrFun hquiet₁.runnings c).trans hrun) hp (by simp) hk).after
    hquiet₁.pid hquiet₁.processId

/-! ## Mailboxes -/

lemma Mid.mboxOpen {name : List UInt8} (hm : k.Mid q none none) (hk : k.mboxOpen name = some k') :
    k'.Mid q none none ∧ k'.runnings = k.runnings ∧ k.Pids k' := by
  unfold Kernel.mboxOpen at hk
  split at hk
  · obtain rfl := Option.some.inj hk
    exact ⟨hm.setMailbox _ _, rfl, Pids.of_same rfl rfl⟩
  · split at hk
    · split at hk
      · obtain rfl := Option.some.inj hk
        exact ⟨hm.setMailbox _ _, rfl, Pids.of_same rfl rfl⟩
      · cases hk
    · obtain rfl := Option.some.inj hk
      exact ⟨hm, rfl, Pids.of_same rfl rfl⟩

lemma Mid.mboxClose {i : Slot} (hm : k.Mid q none none) (hk : k.mboxClose i = some k') :
    ∃ q', k'.Mid q' none none ∧ k'.runnings = k.runnings ∧ k.Pids k' := by
  have hm₁ := hm.setMailbox i { k.mailboxes i with ref := (k.mailboxes i).ref - 1 }
  simp only [Kernel.mboxClose] at hk
  split at hk
  · obtain ⟨m, -, hk⟩ := Option.bind_eq_some_iff.1 hk
    obtain ⟨k₂, q₂, hk₂, hm₂, hquiet₂, -⟩ := hm₁.mutexLockRelease m
    rw [hk₂, Option.bind_eq_bind, Option.bind_some, Option.some.injEq] at hk
    subst hk
    exact ⟨q₂, hm₂.setMailbox i _, hquiet₂.runnings,
      Pids.of_same hquiet₂.pid hquiet₂.processId⟩
  · obtain rfl := Option.some.inj hk
    exact ⟨q, hm₁, rfl, Pids.of_same rfl rfl⟩

/-- The end of a transfer: wake the other side, release the mutex and return. -/
lemma Mid.transfer {h : Head} {m : Slot} (hm : k.Mid q none none) (hrun : k.runnings c = some p)
    (hp : p ≠ idlePcb c) (hne : h ≠ .readyQueue) (hh : ∀ r, h ≠ .waitList r)
    (hk : (Kernel.unblockAll h loopBound k).bind (fun k => (k.mutexLockRelease m).bind
      fun k => some (k.retFromKernel c)) = some k') : k.Leads k' := by
  obtain ⟨k₁, q₁, hk₁, hw, -⟩ := hm.unblockAll hne fun r hr => absurd hr (hh r)
  obtain ⟨hm₁, hquiet₁⟩ := hw.mid hne.symm hm
  obtain ⟨k₂, q₂, hk₂, hm₂, hquiet₂, -⟩ := hm₁.mutexLockRelease m
  rw [hk₁, Option.bind_some, hk₂, Option.bind_some, Option.some.injEq] at hk
  subst hk
  exact (hm₂.returns (p := p)
    ((congrFun (hquiet₂.runnings.trans hquiet₁.runnings) c).trans hrun) hp).after
    (hquiet₂.pid.trans hquiet₁.pid) (hquiet₂.processId.trans hquiet₁.processId)

/-- The other branch: release the mutex and block. -/
lemma Mid.releaseBlock {h : Head} {m : Slot} {cont : Cont} (hm : k.Mid q none none)
    (hrun : k.runnings c = some p) (hp : p ≠ idlePcb c) (hh : ∀ r, h ≠ .waitList r)
    (hk : (k.mutexLockRelease m).bind (fun k => k.doBlock c p h cont) = some k') :
    k.Leads k' := by
  obtain ⟨k₁, q₁, hk₁, hm₁, hquiet₁, -⟩ := hm.mutexLockRelease m
  rw [hk₁, Option.bind_some] at hk
  exact (hm₁.blocks ((congrFun hquiet₁.runnings c).trans hrun) hp
    (fun r hr => absurd hr (hh r)) hk).after hquiet₁.pid hquiet₁.processId

lemma Mid.mboxSendLocked {i m : Slot} {msg : List UInt8} (hm : k.Mid q none none)
    (hrun : k.runnings c = some p) (hp : p ≠ idlePcb c)
    (hk : k.mboxSendLocked c p i m msg = some k') : k.Leads k' := by
  unfold Kernel.mboxSendLocked at hk
  split at hk
  · exact ((hm.setMailbox i _).transfer (h := .recvList i) hrun hp (by simp) (by simp) hk).after
      rfl rfl
  · exact hm.releaseBlock hrun hp (by simp) hk

lemma Mid.mboxSend {i m : Slot} {msg : List UInt8} (hm : k.Mid q none none)
    (hrun : k.runnings c = some p) (hp : p ≠ idlePcb c)
    (hk : k.mboxSend c p i m msg = some k') : k.Leads k' :=
  hm.mutexLockAcquire hrun hp
    (fun _ _ hm₁ hrun₁ hk₁ => hm₁.mboxSendLocked (by rw [hrun₁, hrun]) hp hk₁) hk

lemma Mid.mboxRecvLocked {i m : Slot} {msgLength : ℕ} (hm : k.Mid q none none)
    (hrun : k.runnings c = some p) (hp : p ≠ idlePcb c)
    (hk : k.mboxRecvLocked c p i m msgLength = some k') : k.Leads k' := by
  unfold Kernel.mboxRecvLocked at hk
  split at hk
  · exact ((hm.setMailbox i _).transfer (h := .sendList i) hrun hp (by simp) (by simp) hk).after
      rfl rfl
  · exact hm.releaseBlock hrun hp (by simp) hk

lemma Mid.mboxRecv {i m : Slot} {msgLength : ℕ} (hm : k.Mid q none none)
    (hrun : k.runnings c = some p) (hp : p ≠ idlePcb c)
    (hk : k.mboxRecv c p i m msgLength = some k') : k.Leads k' :=
  hm.mutexLockAcquire hrun hp
    (fun _ _ hm₁ hrun₁ hk₁ => hm₁.mboxRecvLocked (by rw [hrun₁, hrun]) hp hk₁) hk

/-! ## Waiting for the network and for tasks -/

lemma Mid.netSend {env : Env} (hm : k.Mid q none none) (hrun : k.runnings c = some p)
    (hp : p ≠ idlePcb c) (hk : k.netSend c p env = some k') : k.Leads k' := by
  unfold Kernel.netSend at hk
  split at hk
  · obtain rfl := Option.some.inj hk
    exact hm.returns hrun hp
  · exact hm.blocks hrun hp (by simp) hk

lemma Mid.netRecv {env : Env} {left i : ℕ} (hm : k.Mid q none none) (hrun : k.runnings c = some p)
    (hp : p ≠ idlePcb c) (hk : Kernel.netRecv c p env left i k = some k') : k.Leads k' := by
  induction left generalizing i with
  | zero =>
    obtain rfl := Option.some.inj hk
    exact hm.returns hrun hp
  | succ left ih =>
    rw [Kernel.netRecv] at hk
    split at hk
    · exact ih hk
    · exact hm.blocks hrun hp (by simp) hk

lemma Mid.doWaitpid {pid : ℤ} (hm : k.Mid q none none) (hrun : k.runnings c = some p)
    (hp : p ≠ idlePcb c) (hpid : pid ≠ 0) (hk : k.doWaitpid c p pid = some k') :
    k.Leads k' := by
  unfold Kernel.doWaitpid at hk
  split at hk
  · obtain rfl := Option.some.inj hk
    exact hm.returns hrun hp
  · rename_i i hi
    refine hm.blocks hrun hp (fun r hr => ?_) hk
    obtain rfl := Head.waitList.inj hr
    rwa [findPid_spec hi]

/-- The loop of `do_thread_join`, wherever its saved pointer leads: a PCB it blocks
on has the pid of a live task. -/
lemma Mid.threadJoinLoop {thread : ℤ} {n : ℕ} {node : Option Node} (hm : k.Mid q none none)
    (hrun : k.runnings c = some p) (hp : p ≠ idlePcb c)
    (hk : Kernel.threadJoinLoop c p thread n node k = some k') : k.Leads k' := by
  induction n generalizing node with
  | zero => cases hk
  | succ n ih =>
    cases node with
    | none => cases hk
    | some node =>
      cases node with
      | inl h =>
        rw [Kernel.threadJoinLoop] at hk
        split at hk
        · obtain rfl := Option.some.inj hk
          exact hm.returns hrun hp
        · cases hk
      | inr r =>
        simp only [Kernel.threadJoinLoop] at hk
        split at hk
        · rename_i hfound
          refine hm.blocks hrun hp (fun r' hr' => ?_) hk
          obtain rfl := Head.waitList.inj hr'
          rw [hfound.1]
          exact (hm.running_live hrun hp).2
        · exact ih hk

end Calls

/-! ## The step -/

section Step

variable {k k' : Kernel} {q : Head → List Pcb} {c : Cpu} {p : Pcb}

/-- A trap of a task that is not idle. -/
lemma Mid.handle {env : Env} {call : Call} (hm : k.Mid q none none) (hrun : k.runnings c = some p)
    (hp : p ≠ idlePcb c) (hcall : k.CarefulCall p call) (hk : k.handle c p env call = some k') :
    k.Leads k' := by
  obtain ⟨hready, hpid⟩ := hm.running_live hrun hp
  cases call with
  | irqTimer =>
    obtain ⟨k₁, q₁, q₂, L, r, hw, hk₁, -, -, hinv⟩ := hm.doScheduler hrun env
    obtain ⟨-, hquiet⟩ := hw.mid (by simp [Scanned]) hm
    obtain rfl := Option.some.inj (hk.symm.trans hk₁)
    exact Leads.of_same hinv hquiet.pid hquiet.processId
  | yield =>
    obtain ⟨k₁, q₁, q₂, L, r, hw, hk₁, -, -, hinv⟩ := hm.doScheduler hrun env
    obtain ⟨-, hquiet⟩ := hw.mid (by simp [Scanned]) hm
    obtain rfl := Option.some.inj (hk.symm.trans hk₁)
    exact Leads.of_same hinv hquiet.pid hquiet.processId
  | sleep sleepTime =>
    have hk' : Kernel.doBlock { k with
        wakeupTime := Function.update k.wakeupTime p (env.clock 0 + sleepTime) } c p .sleepQueue
        .ret = some k' := hk
    exact ((hm.setWakeup (Function.update k.wakeupTime p _)).blocks hrun hp (by simp) hk').after
      rfl rfl
  | exec name =>
    refine Mid.returning hrun hp (fun k₁ hk₁ => ?_) hk
    rcases hm.createPcb hk₁ with rfl | ⟨i, L, -, rfl, hm₁⟩
    · exact ⟨q, hm, rfl, Pids.of_same rfl rfl⟩
    · refine ⟨_, hm₁, rfl, ⟨(Int.lt_succ _).le, fun x => ?_⟩⟩
      by_cases hx : x = .slot i
      · exact .inr (.inr (by simp only [hx, created, Function.update_self]; exact le_rfl))
      · exact .inr (.inl ⟨x, by simp only [created, Function.update_of_ne hx]⟩)
  | exit =>
    obtain ⟨i, rfl⟩ := hm.lists.slots _ _ hready
    obtain ⟨k₁, q₁, hk₁, hinv, hpid₁, hprocess₁, -⟩ := hm.doExit hpid hrun hcall
    obtain rfl := Option.some.inj (hk.symm.trans hk₁)
    exact ⟨Pids.of_clear hpid₁ hprocess₁, ⟨q₁, hinv⟩⟩
  | kill pid =>
    refine Mid.returning hrun hp (fun k₁ hk₁ => ?_) hk
    obtain ⟨⟨n, k₂⟩, hk₂, rfl⟩ := Option.map_eq_some_iff.1 hk₁
    cases hfind : k.findPid pid with
    | none =>
      rw [Kernel.doKill, hfind, Option.some.injEq, Prod.mk.injEq] at hk₂
      obtain ⟨-, rfl⟩ := hk₂
      exact ⟨q, hm, rfl, Pids.of_same rfl rfl⟩
    | some i =>
      obtain ⟨halone, hnorun⟩ := hcall.2 i hfind
      obtain ⟨k₃, q₃, hk₃, hm₃, hpid₃, hrun₃, hprocess₃⟩ :=
        hm.doKill hcall.1 hfind halone hnorun
      obtain ⟨-, rfl⟩ := Prod.mk.inj (Option.some.inj (hk₂.symm.trans hk₃))
      exact ⟨q₃, hm₃, hrun₃, Pids.of_clear hpid₃ hprocess₃⟩
  | waitpid pid => exact hm.doWaitpid hrun hp hcall hk
  | threadCreate =>
    refine Mid.returning hrun hp (fun k₁ hk₁ => ?_) hk
    obtain ⟨k₂, q₂, hk₂, hm₂, hrun₂, hprocess₂, hpid₂⟩ := hm.doThreadCreate hpid
    obtain rfl := Option.some.inj (hk₁.symm.trans hk₂)
    exact ⟨q₂, hm₂, hrun₂, ⟨hprocess₂.ge, fun x => .inr (.inl (hpid₂ x))⟩⟩
  | threadJoin thread => exact hm.threadJoinLoop hrun hp hk
  | mutexLockAcquire idx =>
    obtain ⟨m, -, hk⟩ := Option.bind_eq_some_iff.1 hk
    refine hm.mutexLockAcquire hrun hp (fun k₁ k₂ hm₁ hrun₁ hk₁ => ?_) hk
    obtain rfl := Option.some.inj hk₁
    exact hm₁.returns (p := p) (by rw [hrun₁, hrun]) hp
  | mutexLockRelease idx =>
    obtain ⟨m, -, hk⟩ := Option.bind_eq_some_iff.1 hk
    refine Mid.returning hrun hp (fun k₁ hk₁ => ?_) hk
    obtain ⟨k₂, q₂, hk₂, hm₂, hquiet₂, -⟩ := hm.mutexLockRelease m
    obtain rfl := Option.some.inj (hk₁.symm.trans hk₂)
    exact ⟨q₂, hm₂, hquiet₂.runnings, Pids.of_same hquiet₂.pid hquiet₂.processId⟩
  | barrierInit key goal =>
    refine Mid.returning hrun hp (fun k₁ hk₁ => ?_) hk
    obtain ⟨b, -, hk₁⟩ := Option.bind_eq_some_iff.1 hk₁
    obtain rfl := Option.some.inj hk₁
    exact ⟨q, hm.setBarrier b _, rfl, Pids.of_same rfl rfl⟩
  | barrierWait idx =>
    obtain ⟨b, -, hk⟩ := Option.bind_eq_some_iff.1 hk
    exact hm.barrierWait hrun hp hk
  | barrierDestroy idx =>
    obtain ⟨b, hb, hk⟩ := Option.bind_eq_some_iff.1 hk
    exact Mid.returning hrun hp (fun k₁ hk₁ => ⟨q, hm.barrierDestroy (hcall b hb) hk₁⟩) hk
  | conditionWait condIdx mutexIdx =>
    obtain ⟨i, -, hk⟩ := Option.bind_eq_some_iff.1 hk
    obtain ⟨m, -, hk⟩ := Option.bind_eq_some_iff.1 hk
    exact hm.conditionWait hrun hp hk
  | conditionSignal idx =>
    obtain ⟨i, -, hk⟩ := Option.bind_eq_some_iff.1 hk
    refine Mid.returning hrun hp (fun k₁ hk₁ => ?_) hk
    obtain ⟨k₂, q₂, hk₂, hw⟩ := hm.conditionSignal i
    obtain ⟨hm₂, hquiet₂⟩ := hw.mid (by simp) hm
    obtain rfl := Option.some.inj (hk₁.symm.trans hk₂)
    exact ⟨q₂, hm₂, hquiet₂.runnings, Pids.of_same hquiet₂.pid hquiet₂.processId⟩
  | conditionBroadcast idx | conditionDestroy idx =>
    obtain ⟨i, -, hk⟩ := Option.bind_eq_some_iff.1 hk
    refine Mid.returning hrun hp (fun k₁ hk₁ => ?_) hk
    obtain ⟨k₂, q₂, hk₂, hw⟩ := hm.conditionBroadcast i
    obtain ⟨hm₂, hquiet₂⟩ := hw.mid (by simp) hm
    obtain rfl := Option.some.inj (hk₁.symm.trans hk₂)
    exact ⟨q₂, hm₂, hquiet₂.runnings, Pids.of_same hquiet₂.pid hquiet₂.processId⟩
  | mboxOpen name => exact Mid.returning hrun hp (fun k₁ hk₁ => ⟨q, hm.mboxOpen hk₁⟩) hk
  | mboxClose idx =>
    obtain ⟨i, -, hk⟩ := Option.bind_eq_some_iff.1 hk
    exact Mid.returning hrun hp (fun k₁ hk₁ => hm.mboxClose hk₁) hk
  | mboxSend idx msg =>
    obtain ⟨i, -, hk⟩ := Option.bind_eq_some_iff.1 hk
    obtain ⟨m, -, hk⟩ := Option.bind_eq_some_iff.1 hk
    exact hm.mboxSend hrun hp hk
  | mboxRecv idx msgLength =>
    obtain ⟨i, -, hk⟩ := Option.bind_eq_some_iff.1 hk
    obtain ⟨m, -, hk⟩ := Option.bind_eq_some_iff.1 hk
    exact hm.mboxRecv hrun hp hk
  | netSend => exact hm.netSend hrun hp hk
  | netRecv pktNum => exact hm.netRecv hrun hp hk

/-- The task switched to goes on. -/
lemma Inv.goOn {env : Env} (hi : k.Inv q) (hrun : k.runnings c = some p)
    (hk : k.goOn c p env (k.cont p) = some k') : k.Leads k' := by
  have hm := hi.toMid
  by_cases hp : p = idlePcb c
  · have hcont : k.cont p = .ret := by
      rw [hp]
      exact hi.life.idleCont c
    rw [hcont] at hk
    obtain rfl := Option.some.inj hk
    exact hi.returns hrun
  · cases hcont : k.cont p with
    | ret | waitpid | mutexLockAcquire =>
      rw [hcont] at hk
      obtain rfl := Option.some.inj hk
      exact hi.returns hrun
    | conditionWait m =>
      rw [hcont] at hk
      have hk' : k.mutexLockAcquire c p m (.mutexLockAcquire m)
        (fun k => some (k.retFromKernel c)) = some k' := hk
      refine hm.mutexLockAcquire hrun hp (fun k₁ k₂ hm₁ hrun₁ hk₁ => ?_) hk'
      obtain rfl := Option.some.inj hk₁
      exact hm₁.returns (p := p) (by rw [hrun₁, hrun]) hp
    | mboxSendLocked i m msg => exact hm.mboxSendLocked hrun hp (by rwa [hcont] at hk)
    | mboxSendWoken i m msg => exact hm.mboxSend hrun hp (by rwa [hcont] at hk)
    | mboxRecvLocked i m msgLength => exact hm.mboxRecvLocked hrun hp (by rwa [hcont] at hk)
    | mboxRecvWoken i m msgLength => exact hm.mboxRecv hrun hp (by rwa [hcont] at hk)
    | netSend => exact hm.netSend hrun hp (by rwa [hcont] at hk)
    | netRecv left => exact hm.netRecv hrun hp (by rwa [hcont] at hk)
    | threadJoin thread next => exact hm.threadJoinLoop hrun hp (by rwa [hcont] at hk)

/-- The first switch of CPU 1: the second PCB of the ready queue does not run,
because the first one does. -/
lemma Inv.slaveJoin (hi : k.Inv q) (h1 : k.runnings 1 = none) (hk : k.slaveJoin = some k') :
    k'.Inv q ∧ ∃ second ∈ q .readyQueue,
      k' = ({ k with runnings := Function.update k.runnings 1 (some second) }.setStatus second
        .running).switchTo 1 .pid0Pcb2 .ret := by
  have hr := hi.lists.repr
  have hnext := hr.next_head (hi.lists.init .readyQueue (by simp))
  obtain ⟨p, hp⟩ := Option.ne_none_iff_exists'.1 hi.runs.master
  -- the ready queue starts with the task of CPU 0
  obtain ⟨second, l, hq⟩ : ∃ second l, q .readyQueue = p :: second :: l ∧
      k' = ({ k with runnings := Function.update k.runnings 1 (some second) }.setStatus second
        .running).switchTo 1 .pid0Pcb2 .ret := by
    cases hq : q .readyQueue with
    | nil =>
      rw [hq] at hnext
      simp [Kernel.slaveJoin, hnext] at hk
    | cons first l =>
      have hfirst : first = p := by
        rcases hi.runs.head h1 (by simp) p hp with hidle | ⟨l', hl'⟩
        · have := hi.idle h1 (by rw [hp, hidle])
          rw [hq] at this
          cases this
        · rw [hq, List.cons.injEq] at hl'
          exact hl'.1
      subst hfirst
      have hsecond : k.links.next (.inr first) = some ((l.map Sum.inr).headD (.inl .readyQueue)) :=
        hr.next_entry (l := []) hq
      rw [hq] at hnext
      simp only [List.map_cons, List.headD_cons] at hnext
      cases l with
      | nil => simp [Kernel.slaveJoin, hnext, hsecond] at hk
      | cons second l =>
        simp only [Kernel.slaveJoin, hnext, hsecond, List.map_cons, List.headD_cons,
          Option.some.injEq] at hk
        exact ⟨second, l, rfl, hk.symm⟩
  obtain ⟨hq, rfl⟩ := hq
  have hsecond : second ∈ q .readyQueue := by simp [hq]
  have hne : second ≠ p := by
    have hnodup := hr.nodup .readyQueue
    rw [hq, List.nodup_cons] at hnodup
    rintro rfl
    exact hnodup.1 List.mem_cons_self
  refine ⟨⟨⟨⟨hr, hi.lists.init, hi.lists.slots⟩, ?_, ?_, hi.stuck⟩, ?_⟩, second, hsecond, rfl⟩
  · constructor
    case master => simpa [switchTo, setStatus] using hi.runs.master
    case joined => simp
    case run =>
      intro d x _ hx
      by_cases hd : d = 1
      · subst hd
        simp only [switchTo, setStatus, Function.update_self, Option.some.injEq] at hx
        exact .inr (hx ▸ hsecond)
      · simp only [switchTo, setStatus, Function.update_of_ne hd] at hx
        exact hi.runs.run d x (by simp) hx
    case distinct =>
      intro d e x _ _ hdx hex
      have h01 : (0 : Cpu) ≠ 1 := by decide
      simp only [switchTo, setStatus] at hdx hex
      rcases cpu_cases d with rfl | rfl <;> rcases cpu_cases e with rfl | rfl
      · rfl
      · rw [Function.update_of_ne h01, hp] at hdx
        rw [Function.update_self] at hex
        exact absurd (Option.some.inj (hex.trans hdx.symm)) hne
      · rw [Function.update_of_ne h01, hp] at hex
        rw [Function.update_self] at hdx
        exact absurd (Option.some.inj (hdx.trans hex.symm)) hne
      · rfl
    case status =>
      intro x hx
      by_cases hxs : x = second
      · subst hxs
        simp only [switchTo, setStatus, Function.update_self, true_iff]
        exact ⟨1, by simp, Function.update_self ..⟩
      · simp only [switchTo, setStatus, Function.update_of_ne hxs]
        rw [hi.runs.status x hx]
        constructor
        · rintro ⟨d, -, hd⟩
          refine ⟨d, by simp, ?_⟩
          rwa [Function.update_of_ne]
          rintro rfl
          exact Option.some_ne_none x (hd.symm.trans h1)
        · rintro ⟨d, -, hd⟩
          refine ⟨d, by simp, ?_⟩
          rwa [Function.update_of_ne] at hd
          rintro rfl
          rw [Function.update_self, Option.some.injEq] at hd
          exact hxs hd.symm
    case head => simp [switchTo, setStatus]
    case satp =>
      intro d _
      by_cases hd : d = 1
      · subst hd
        refine .inl ((hi.runs.satp 1 (by simp)).resolve_right ?_)
        rintro ⟨x, hx, -⟩
        exact Option.some_ne_none x (hx.symm.trans h1)
      · simp only [switchTo, setStatus, Function.update_of_ne hd]
        exact hi.runs.satp d (by simp)
  · refine hi.life.congr ?_ (fun _ => Iff.rfl) (fun _ h => h) (fun _ _ h => h)
    have hc : (fun d => Function.update k.cont .pid0Pcb2 .ret (idlePcb d)) =
        fun d => k.cont (idlePcb d) := by
      funext d
      by_cases hd : idlePcb d = .pid0Pcb2
      · rw [hd, Function.update_self, ← hd]
        exact (hi.life.idleCont d).symm
      · rw [Function.update_of_ne hd]
    simp only [lifeFields, switchTo, setStatus, hc]
  · intro h
    simp [switchTo, setStatus] at h

/-- A step with care keeps the invariant, and gives no old pid to another PCB. -/
theorem Inv.step {e : Event} (hi : k.Inv q) (he : k.Careful e) (hk : k.step e = some k') :
    k.Leads k' := by
  cases e with
  | trap c call env =>
    simp only [Kernel.step] at hk
    split at hk
    · split at hk
      · cases hk
      · rename_i p hrun
        split at hk
        · rename_i hcall
          by_cases hp : p = idlePcb c
          · obtain rfl := hcall.resolve_right (not_not.2 hp)
            obtain ⟨k₁, q₁, q₂, L, r, hw, hk₁, -, -, hinv⟩ := hi.toMid.doScheduler hrun env
            obtain ⟨-, hquiet⟩ := hw.mid (by simp [Scanned]) hi.toMid
            obtain rfl := Option.some.inj (hk.symm.trans hk₁)
            exact Leads.of_same hinv hquiet.pid hquiet.processId
          · exact hi.toMid.handle hrun hp (he p hrun) hk
        · cases hk
    · cases hk
  | resume c env =>
    simp only [Kernel.step] at hk
    split at hk
    · split at hk
      · cases hk
      · rename_i p hrun
        exact hi.goOn hrun hk
    · cases hk
  | slaveJoin =>
    simp only [Kernel.step] at hk
    split at hk
    · rename_i hcond
      obtain ⟨hinv, second, -, rfl⟩ := hi.slaveJoin hcond.2.2 hk
      exact Leads.of_same hinv rfl rfl
    · cases hk

end Step

end Kernel
end Sched
end UcasKernel
