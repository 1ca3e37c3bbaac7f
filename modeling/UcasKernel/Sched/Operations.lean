/-
What the operations of the kernel do to the invariant of the scheduler.

The operations that wake tasks are sequences of `do_unblock` (`Wakes`), apart from
the release of a mutex; they keep every `Mid` invariant and change only queues,
status fields and synchronisation objects (`Quiet`).  Those that end in a switch
or a return lead from the invariant to the invariant.
-/
import UcasKernel.Sched.Invariant

namespace UcasKernel
namespace Sched
namespace Kernel

/-- `k'` differs from `k` in the heap of list nodes, status fields and
synchronisation objects only. -/
def Quiet (k k' : Kernel) : Prop :=
  k' = { k with
    links := k'.links
    status := k'.status
    mlocks := k'.mlocks
    barriers := k'.barriers
    mailboxes := k'.mailboxes }

namespace Quiet

variable {k k' k'' : Kernel}

lemma refl (k : Kernel) : k.Quiet k := rfl

lemma trans (h : k.Quiet k') (h' : k'.Quiet k'') : k.Quiet k'' := by
  rw [Quiet] at h h' ⊢
  rw [h', h]

lemma pid (h : k.Quiet k') : k'.pid = k.pid := by rw [h]
lemma pgdir (h : k.Quiet k') : k'.pgdir = k.pgdir := by rw [h]
lemma threads (h : k.Quiet k') : k'.threads = k.threads := by rw [h]
lemma runnings (h : k.Quiet k') : k'.runnings = k.runnings := by rw [h]
lemma processId (h : k.Quiet k') : k'.processId = k.processId := by rw [h]
lemma inKernel (h : k.Quiet k') : k'.inKernel = k.inKernel := by rw [h]

end Quiet

/-- `k'` and its queues come from `k` by waking PCBs of the queues in `from'`. -/
inductive Wakes (from' : Head → Prop) (k : Kernel) (q : Head → List Pcb) :
    Kernel → (Head → List Pcb) → Prop
  | refl : Wakes from' k q k q
  | tail {k' k'' : Kernel} {q' : Head → List Pcb} {p : Pcb} {h : Head} (hw : Wakes from' k q k' q')
      (hh : from' h) (hp : p ∈ q' h) (hk : k'.doUnblock p = some k'') :
      Wakes from' k q k'' (move q' p h .readyQueue)

section Mid

variable {k : Kernel} {q : Head → List Pcb} {out : Option Cpu} {gone : Option Pcb}

/-- A change of the synchronisation objects keeps `Mid`. -/
lemma Mid.sync (hm : k.Mid q out gone) (mlocks : Slot → MutexLock) (barriers : Slot → Barrier)
    (mailboxes : Slot → Locking.Mailbox) :
    Mid { k with mlocks := mlocks, barriers := barriers, mailboxes := mailboxes } q out gone :=
  ⟨⟨hm.lists.repr, hm.lists.init, hm.lists.slots⟩,
    ⟨hm.runs.master, hm.runs.joined, hm.runs.run, hm.runs.distinct, hm.runs.status, hm.runs.head,
      hm.runs.satp⟩,
    hm.life.congr rfl (fun _ => Iff.rfl) (fun _ h => h) (fun _ _ h => h), hm.stuck⟩

lemma Mid.setMlock (hm : k.Mid q out gone) (m : Slot) (mutex : MutexLock) :
    (k.setMlock m mutex).Mid q out gone := hm.sync _ k.barriers k.mailboxes

lemma Mid.setBarrier (hm : k.Mid q out gone) (b : Slot) (bar : Barrier) :
    (k.setBarrier b bar).Mid q out gone := hm.sync k.mlocks _ k.mailboxes

lemma Mid.setMailbox (hm : k.Mid q out gone) (i : Slot) (mbox : Locking.Mailbox) :
    (k.setMailbox i mbox).Mid q out gone := hm.sync k.mlocks k.barriers _

lemma Mid.init {h : Head} (hm : k.Mid q out gone) (hh : ∀ r, h = .waitList r → k.pid r ≠ 0) :
    k.links.Init h := by
  cases h with
  | waitList r => exact hm.life.waitInit r (hh r rfl)
  | _ => exact hm.lists.init _ (by simp)

/-! ## Waking -/

/-- Waking PCBs keeps `Mid`. -/
lemma Wakes.mid {from' : Head → Prop} {k' : Kernel} {q' : Head → List Pcb}
    (hw : Wakes from' k q k' q') (hfrom : ¬ from' .readyQueue) (hm : k.Mid q out gone) :
    k'.Mid q' out gone ∧ k.Quiet k' := by
  induction hw with
  | refl => exact ⟨hm, Quiet.refl k⟩
  | tail hw hh hp hk ih =>
    obtain ⟨hm', hquiet⟩ := ih
    obtain ⟨L, hL, hm''⟩ := hm'.doUnblock hp (fun heq => hfrom (heq ▸ hh))
    obtain rfl := Option.some.inj (hk.symm.trans hL)
    exact ⟨hm'', hquiet.trans rfl⟩

lemma Wakes.mlocks {from' : Head → Prop} {k' : Kernel} {q' : Head → List Pcb}
    (hw : Wakes from' k q k' q') (hfrom : ¬ from' .readyQueue) (hm : k.Mid q out gone) :
    k'.mlocks = k.mlocks := by
  induction hw with
  | refl => rfl
  | tail hw hh hp hk ih =>
    obtain ⟨L, hL, -⟩ := (hw.mid hfrom hm).1.doUnblock hp (fun heq => hfrom (heq ▸ hh))
    obtain rfl := Option.some.inj (hk.symm.trans hL)
    exact ih

lemma Wakes.trans {from' : Head → Prop} {k' k'' : Kernel} {q' q'' : Head → List Pcb}
    (hw : Wakes from' k q k' q') (hw' : Wakes from' k' q' k'' q'') : Wakes from' k q k'' q'' := by
  induction hw' with
  | refl => exact hw
  | tail _ hh hp hk ih => exact ih.tail hh hp hk

lemma Wakes.mono {from' to' : Head → Prop} {k' : Kernel} {q' : Head → List Pcb}
    (hw : Wakes from' k q k' q') (hsub : ∀ h, from' h → to' h) : Wakes to' k q k' q' := by
  induction hw with
  | refl => exact .refl
  | tail _ hh hp hk ih => exact ih.tail (hsub _ hh) hp hk

lemma Mid.unblockAll {h : Head} (hm : k.Mid q out gone) (hne : h ≠ .readyQueue)
    (hh : ∀ r, h = .waitList r → k.pid r ≠ 0) :
    ∃ k' q', Kernel.unblockAll h loopBound k = some k' ∧ Wakes (· = h) k q k' q' ∧
      q' h = [] := by
  refine unblockAll_rule (P := fun k' q' => Wakes (· = h) k q k' q') hne (fun k' q' hw => ?_)
    (fun k' q' p hw hp => ?_) .refl
  · obtain ⟨hm', hquiet⟩ := hw.mid hne.symm hm
    exact ⟨hm'.lists.repr, hm'.init fun r hr => by rw [hquiet.pid]; exact hh r hr⟩
  · obtain ⟨L, hL, -⟩ := (hw.mid hne.symm hm).1.doUnblock hp hne
    exact ⟨_, hL, hw.tail rfl hp hL⟩

/-- The wake-up scans of `do_scheduler`. -/
lemma Mid.forEachEntrySafe {h : Head} (body : ℕ → Pcb → Kernel → Option Kernel)
    (hm : k.Mid q out gone) (hne : h ≠ .readyQueue) (hh : ∀ r, h ≠ .waitList r)
    (hbody : ∀ i p k, body i p k = k.doUnblock p ∨ body i p k = some k) :
    ∃ k' q', Kernel.forEachEntrySafe h body loopBound 0 (k.links.next (.inl h)) k = some k' ∧
      Wakes (· = h) k q k' q' := by
  refine forEachEntrySafe_rule (P := fun k' q' => Wakes (· = h) k q k' q')
    (fun k' q' hw => (hw.mid hne.symm hm).1.lists.repr) (fun k' q' p i hw hp => ?_) .refl
    (hm.lists.init h hh)
  rcases hbody i p k' with heq | heq
  · obtain ⟨L, hL, -⟩ := (hw.mid hne.symm hm).1.doUnblock hp hne
    exact ⟨_, _, heq.trans hL, hw.tail rfl hp hL, .inr (move_from hne)⟩
  · exact ⟨k', q', heq, hw, .inl rfl⟩

/-- The queues that the scans of `do_scheduler` wake. -/
def Scanned (h : Head) : Prop := h = .sleepQueue ∨ h = .sendBlockQueue ∨ h = .recvBlockQueue

lemma Mid.checkSleeping (hm : k.Mid q out gone) (env : Env) :
    ∃ k' q', k.checkSleeping env = some k' ∧ Wakes Scanned k q k' q' := by
  obtain ⟨k', q', hk', hw⟩ := hm.forEachEntrySafe (h := .sleepQueue)
    (fun i p k => if env.clock i ≥ k.wakeupTime p then k.doUnblock p else some k)
    (by simp) (by simp) fun i p k => by
      by_cases h : env.clock i ≥ k.wakeupTime p
      · exact .inl (if_pos h)
      · exact .inr (if_neg h)
  exact ⟨k', q', hk', hw.mono fun h heq => .inl heq⟩

lemma Mid.checkNetSend (hm : k.Mid q out gone) (env : Env) :
    ∃ k' q', k.checkNetSend env = some k' ∧ Wakes Scanned k q k' q' := by
  unfold Kernel.checkNetSend
  split
  · obtain ⟨k', q', hk', hw⟩ := hm.forEachEntrySafe (h := .sendBlockQueue)
      (fun _ p k => k.doUnblock p) (by simp) (by simp) fun i p k => .inl rfl
    exact ⟨k', q', hk', hw.mono fun h heq => .inr (.inl heq)⟩
  · exact ⟨k, q, rfl, .refl⟩

lemma Mid.checkNetRecv (hm : k.Mid q out gone) (env : Env) :
    ∃ k' q', k.checkNetRecv env = some k' ∧ Wakes Scanned k q k' q' := by
  unfold Kernel.checkNetRecv
  split
  · obtain ⟨k', q', hk', hw⟩ := hm.forEachEntrySafe (h := .recvBlockQueue)
      (fun _ p k => k.doUnblock p) (by simp) (by simp) fun i p k => .inl rfl
    exact ⟨k', q', hk', hw.mono fun h heq => .inr (.inr heq)⟩
  · exact ⟨k, q, rfl, .refl⟩

/-- The three scans. -/
lemma Mid.scans (hm : k.Mid q out gone) (env : Env) :
    ∃ k₁ k₂ k₃ q₃, k.checkSleeping env = some k₁ ∧ k₁.checkNetSend env = some k₂ ∧
      k₂.checkNetRecv env = some k₃ ∧ Wakes Scanned k q k₃ q₃ := by
  have hready : ¬ Scanned .readyQueue := by simp [Scanned]
  obtain ⟨k₁, q₁, hk₁, hw₁⟩ := hm.checkSleeping env
  obtain ⟨k₂, q₂, hk₂, hw₂⟩ := (hw₁.mid hready hm).1.checkNetSend env
  obtain ⟨k₃, q₃, hk₃, hw₃⟩ := ((hw₁.trans hw₂).mid hready hm).1.checkNetRecv env
  exact ⟨k₁, k₂, k₃, q₃, hk₁, hk₂, hk₃, (hw₁.trans hw₂).trans hw₃⟩

/-- The mutex was given up, or passed to the first waiter. -/
def Released (k : Kernel) (q : Head → List Pcb) (m : Slot) (k' : Kernel) (q' : Head → List Pcb) :
    Prop :=
  q (.blockQueue m) = [] ∧ k' = k.setMlock m ⟨false, 0⟩ ∧ q' = q ∨
    ∃ p l L, q (.blockQueue m) = p :: l ∧
      k' = { (k.setMlock m ⟨(k.mlocks m).locked, k.pid p⟩).setStatus p .ready with links := L } ∧
      q' = move q p (.blockQueue m) .readyQueue

lemma Mid.mutexLockRelease (hm : k.Mid q out gone) (m : Slot) :
    ∃ k' q', k.mutexLockRelease m = some k' ∧ k'.Mid q' out gone ∧ k.Quiet k' ∧
      k.Released q m k' q' := by
  have hi : k.links.Init (.blockQueue m) := hm.lists.init _ (by simp)
  unfold Kernel.mutexLockRelease
  by_cases hempty : q (.blockQueue m) = []
  · rw [if_pos ((isQueueEmpty_iff hm.lists.repr hi).2 hempty)]
    exact ⟨_, q, rfl, hm.setMlock _ _, rfl, .inl ⟨hempty, rfl, rfl⟩⟩
  · rw [if_neg fun h => hempty ((isQueueEmpty_iff hm.lists.repr hi).1 h)]
    obtain ⟨p, l, hq⟩ := List.exists_cons_of_ne_nil hempty
    have hp : p ∈ q (.blockQueue m) := by rw [hq]; exact List.mem_cons_self
    obtain ⟨L, hL, hm'⟩ :=
      (hm.setMlock m ⟨(k.mlocks m).locked, k.pid p⟩).doUnblock hp (by simp)
    refine ⟨_, _, ?_, hm', rfl, .inr ⟨p, l, L, hq, rfl, rfl⟩⟩
    simp only [firstEntry_spec hm.lists.repr hq, Option.bind_eq_bind, Option.bind_some, hL]

lemma Mid.conditionSignal (hm : k.Mid q out gone) (c : Slot) :
    ∃ k' q', k.conditionSignal c = some k' ∧ Wakes (· = .condWaitList c) k q k' q' := by
  have hi : k.links.Init (.condWaitList c) := hm.lists.init _ (by simp)
  unfold Kernel.conditionSignal
  by_cases hempty : q (.condWaitList c) = []
  · rw [if_pos ((isQueueEmpty_iff hm.lists.repr hi).2 hempty)]
    exact ⟨k, q, rfl, .refl⟩
  · rw [if_neg fun h => hempty ((isQueueEmpty_iff hm.lists.repr hi).1 h)]
    obtain ⟨p, l, hq⟩ := List.exists_cons_of_ne_nil hempty
    have hp : p ∈ q (.condWaitList c) := by rw [hq]; exact List.mem_cons_self
    obtain ⟨L, hL, hm'⟩ := hm.doUnblock hp (by simp)
    refine ⟨_, _, ?_, Wakes.refl.tail rfl hp hL⟩
    simp only [firstEntry_spec hm.lists.repr hq, Option.bind_eq_bind, Option.bind_some, hL]

lemma Mid.conditionBroadcast (hm : k.Mid q out gone) (c : Slot) :
    ∃ k' q', k.conditionBroadcast c = some k' ∧ Wakes (· = .condWaitList c) k q k' q' := by
  obtain ⟨k', q', hk', hw, -⟩ := hm.unblockAll (h := .condWaitList c) (by simp) (by simp)
  exact ⟨k', q', hk', hw⟩

/-- The loop of `release_pcb` over the mutexes: `P ms` holds while the mutexes `ms`
are left. -/
theorem releaseMlocks_rule (pid : ℤ) (ms : List Slot)
    {P : List Slot → Kernel → (Head → List Pcb) → Prop}
    (hskip : ∀ m ms k q, P (m :: ms) k q → (k.mlocks m).pid ≠ pid → P ms k q)
    (hrelease : ∀ m ms k q, P (m :: ms) k q → (k.mlocks m).pid = pid →
      ∃ k' q', k.mutexLockRelease m = some k' ∧ P ms k' q') (hP : P ms k q) :
    ∃ k' q', Kernel.releaseMlocks pid ms k = some k' ∧ P [] k' q' := by
  induction ms generalizing k q with
  | nil => exact ⟨k, q, rfl, hP⟩
  | cons m ms ih =>
    rw [Kernel.releaseMlocks]
    by_cases hpid : (k.mlocks m).pid = pid
    · obtain ⟨k₁, q₁, hk₁, hP₁⟩ := hrelease m ms k q hP hpid
      obtain ⟨k₂, q₂, hk₂, hP₂⟩ := ih hP₁
      refine ⟨k₂, q₂, ?_, hP₂⟩
      rw [if_pos hpid, hk₁]
      exact hk₂
    · rw [if_neg hpid]
      exact ih (hskip m ms k q hP hpid)

lemma Mid.releaseMlocks (hm : k.Mid q out gone) (pid : ℤ) (ms : List Slot) :
    ∃ k' q', Kernel.releaseMlocks pid ms k = some k' ∧ k'.Mid q' out gone ∧ k.Quiet k' := by
  refine releaseMlocks_rule pid ms (P := fun _ k' q' => k'.Mid q' out gone ∧ k.Quiet k')
    (fun _ _ _ _ hP _ => hP) (fun m _ k' q' hP _ => ?_) ⟨hm, Quiet.refl k⟩
  obtain ⟨k₁, q₁, hk₁, hm₁, hquiet₁, -⟩ := hP.1.mutexLockRelease m
  exact ⟨k₁, q₁, hk₁, hm₁, hP.2.trans hquiet₁⟩

end Mid

/-! ## Blocking and scheduling -/

/-- The kernel once the task `p` of CPU `c` left the CPU with a status, the heap it
left, and `r` was picked. -/
def switched (k : Kernel) (c : Cpu) (p : Pcb) (L : Links Head Pcb) (status : TaskStatus) (r : Pcb)
    (cont : Cont) : Kernel :=
  { k with
    links := L
    status := Function.update (Function.update k.status p status) r .running
    runnings := Function.update k.runnings c (some r)
    satp := Function.update k.satp c (k.pgdir r)
    cont := Function.update k.cont p cont
    inKernel := some c }

section Inv

variable {k : Kernel} {q : Head → List Pcb} {c : Cpu} {p : Pcb}

/-- `do_block` of the running task, from a state with the invariant of the middle
of a step. -/
lemma Mid.doBlock {h : Head} (cont : Cont) (hm : k.Mid q none none) (hrun : k.runnings c = some p)
    (hp : p ≠ idlePcb c) (hh : ∀ r, h = .waitList r → k.pid r ≠ 0) :
    ∃ L r, k.doBlock c p h cont = some (k.switched c p L .blocked r cont) ∧
      (r = idlePcb c ∨ r ∈ move q p .readyQueue h .readyQueue) ∧
      (k.switched c p L .blocked r cont).Inv (move q p .readyQueue h) := by
  obtain ⟨L, hL, hm'⟩ := hm.leave .blocked hrun hp (hm.init hh) hh (by simp)
  have hpr : p ∈ q .readyQueue := (hm.runs.run c p (by simp) hrun).resolve_left hp
  obtain ⟨r, hr, hmem, hinv⟩ := hm'.reschedule p cont fun d hd =>
    absurd (hd ▸ hpr) (hm.lists.idle_notMem d _)
  refine ⟨L, r, ?_, hmem, hinv⟩
  simp only [Option.bind_eq_some_iff] at hL
  obtain ⟨k₁, hk₁, hk₂⟩ := hL
  simp only [Kernel.doBlock, hk₁, hk₂, Option.bind_eq_bind, Option.bind_some, hr]
  rfl

/-- `do_scheduler`: the scans, then the task goes to the tail of the ready queue,
unless it is an idle task. -/
lemma Mid.doScheduler (hm : k.Mid q none none) (hrun : k.runnings c = some p) (env : Env) :
    ∃ k₁ q₁ q₂ L r, Wakes Scanned k q k₁ q₁ ∧
      k.doScheduler c p env = some (k₁.switched c p L .ready r .ret) ∧
      (p = idlePcb c ∧ q₂ = q₁ ∨ p ≠ idlePcb c ∧ q₂ = move q₁ p .readyQueue .readyQueue) ∧
      (r = idlePcb c ∨ r ∈ q₂ .readyQueue) ∧ (k₁.switched c p L .ready r .ret).Inv q₂ := by
  obtain ⟨k₁, k₂, k₃, q₃, hk₁, hk₂, hk₃, hw⟩ := hm.scans env
  obtain ⟨hm₃, hquiet₃⟩ := hw.mid (by simp [Scanned]) hm
  have hrun₃ : k₃.runnings c = some p := by rw [hquiet₃.runnings, hrun]
  have hidle : (p ≠ .pid0Pcb ∧ p ≠ .pid0Pcb2) ↔ p ≠ idlePcb c := by
    rcases hm₃.runs.run c p (by simp) hrun₃ with rfl | hmem
    · rcases cpu_cases c with rfl | rfl <;> simp [idlePcb]
    · obtain ⟨i, rfl⟩ := hm₃.lists.slots _ _ hmem
      simp [(idlePcb_ne_slot c i).symm]
  by_cases hp : p = idlePcb c
  · obtain ⟨r, hr, hmem, hinv⟩ := (hm₃.leaveIdle (hp ▸ hrun₃)).reschedule p .ret
      fun _ _ => rfl
    refine ⟨k₃, q₃, q₃, k₃.links, r, hw, ?_, .inl ⟨hp, rfl⟩, hmem, ?_⟩
    · simp only [Kernel.doScheduler, hk₁, hk₂, hk₃, Option.bind_eq_bind, Option.bind_some]
      rw [if_neg (by rw [hidle, hp]; simp)]
      rw [← hp] at hr
      exact hr
    · rw [← hp] at hinv
      exact hinv
  · obtain ⟨L, hL, hm'⟩ := hm₃.leave .ready hrun₃ hp
      (hm₃.lists.init .readyQueue (by simp)) (by simp) (by simp)
    obtain ⟨r, hr, hmem, hinv⟩ := hm'.reschedule p .ret fun _ _ => rfl
    refine ⟨k₃, q₃, _, L, r, hw, ?_, .inr ⟨hp, rfl⟩, hmem, hinv⟩
    -- the status is set before the move in the code
    have hL' : (((k₃.setStatus p .ready).listDeleteEntry p).bind fun k =>
        k.listAddTail p .readyQueue) = some ({ k₃ with links := L }.setStatus p .ready) := by
      simp only [listDeleteEntry, listAddTail, Option.bind_eq_some_iff, Option.map_eq_some_iff]
        at hL ⊢
      obtain ⟨_, ⟨L₁, hL₁, rfl⟩, L₂, hL₂, heq⟩ := hL
      have hLeq : L₂ = L := congrArg Kernel.links heq
      exact ⟨_, ⟨L₁, hL₁, rfl⟩, L₂, hL₂, by rw [hLeq]; rfl⟩
    simp only [Kernel.doScheduler, hk₁, hk₂, hk₃, Option.bind_eq_bind, Option.bind_some]
    rw [if_pos (hidle.2 hp), ← Option.bind_assoc, hL', Option.bind_some, hr]
    rfl

/-- The wake-up time of a PCB is no part of the invariant. -/
lemma Mid.setWakeup (hm : k.Mid q none none) (wakeupTime : Pcb → ℕ) :
    Mid { k with wakeupTime := wakeupTime } q none none :=
  ⟨⟨hm.lists.repr, hm.lists.init, hm.lists.slots⟩,
    ⟨hm.runs.master, hm.runs.joined, hm.runs.run, hm.runs.distinct, hm.runs.status, hm.runs.head,
      hm.runs.satp⟩,
    hm.life.congr rfl (fun _ => Iff.rfl) (fun _ h => h) (fun _ _ h => h), hm.stuck⟩

/-- A return of the running task. -/
lemma Mid.retFromKernel (hm : k.Mid q none none) (hrun : k.runnings c = some p)
    (hp : p ≠ idlePcb c) : (k.retFromKernel c).Inv q := (hm.inv hrun hp).retFromKernel hrun

end Inv

end Kernel
end Sched
end UcasKernel
