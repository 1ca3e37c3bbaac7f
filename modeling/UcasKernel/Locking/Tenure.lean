/-
How a mutex is lost.

A tenure run is a run of the scheduler with a record of who holds which mutex: a
task holds it from the return of `do_mutex_lock_acquire` or `do_condition_wait`
until it releases it itself.  A mutex can also be released by a task that does not
hold it, by the last `do_mbox_close` of the mailbox that has the same index, and by
the end of any thread of the process, since the owner is recorded as a pid.  In
every run in which no step does that to a mutex that somebody else has, a mutex is
lost only by its owner.
-/
import UcasKernel.Locking.Monitor
import UcasKernel.Locking.Owners

namespace UcasKernel
namespace Sched

open Trace Kernel

namespace Kernel

/-- The task was handed the mutex and has not gone on. -/
def HasNext (k : Kernel) (m : Slot) (p : Pcb) : Prop :=
  k.pid p ≠ 0 ∧ (k.cont p).mutex = some m ∧ k.Suspended p ∧ ¬ k.links.On (.blockQueue m) p

end Kernel

/-- A kernel with the record. -/
structure Tenure where
  kernel : Kernel
  holds : Slot → Pcb → Bool

namespace Tenure

/-! ## The record -/

/-- The mutex that a step releases; `do_mbox_send` and `do_mbox_recv` release the one
they were blocked on. -/
def gives (k : Kernel) : Event → Option Slot
  | .trap _ (.mutexLockRelease mlockIdx) _ => slotOf mlockIdx
  | .trap _ (.conditionWait _ mutexIdx) _ => slotOf mutexIdx
  | .trap _ (.mboxClose mboxIdx) _ =>
    (slotOf mboxIdx).bind fun i =>
      if (k.mailboxes i).ref = 1 then slotOf (k.mailboxes i).mutexId else none
  | .resume cpuid _ =>
    match (k.runnings cpuid).map k.cont with
    | some (.mboxSendLocked _ m _) => some m
    | some (.mboxRecvLocked _ m _) => some m
    | _ => none
  | _ => none

/-- Who of the live tasks holds a mutex after a step. -/
def Records (holds : Slot → Pcb → Prop) (e : Event) (k k' : Kernel) (m : Slot) (p : Pcb) : Prop :=
  holds m p ∧ ¬ (gives k e = some m ∧ Monitor.actor k e = some p) ∨
    Monitor.takes k e = some m ∧ Monitor.actor k e = some p ∧ k'.inKernel = none

instance (holds : Slot → Pcb → Bool) (e : Event) (k k' : Kernel) (m : Slot) (p : Pcb) :
    Decidable (Records (fun m p => holds m p = true) e k k' m p) :=
  inferInstanceAs (Decidable (_ ∨ _))

/-- The record after a step that leads to `k'`. -/
def advance (g : Tenure) (e : Event) (k' : Kernel) : Tenure where
  kernel := k'
  holds := fun m p => k'.pid p ≠ 0 ∧ Records (fun m p => g.holds m p = true) e g.kernel k' m p

def step (g : Tenure) (e : Event) : Option Tenure := (g.kernel.step e).map (g.advance e)

def boot (tasks : List (List UInt8)) : Tenure := ⟨Kernel.boot tasks, fun _ _ => false⟩

/-! ## The law -/

/-- The task holds the mutex, or was handed it. -/
def Has (g : Tenure) (m : Slot) (p : Pcb) : Prop := g.holds m p = true ∨ g.kernel.HasNext m p

/-- The step takes no mutex away: those that other tasks than the one of the step
hold, and that live on, are locked for them, and nobody else has them. -/
def Keeps (g : Tenure) (e : Event) (g' : Tenure) : Prop :=
  ∀ m t, g.holds m t = true → Monitor.actor g.kernel e ≠ some t → g'.kernel.pid t ≠ 0 →
    (g'.kernel.mlocks m).locked = true ∧ (g'.kernel.mlocks m).pid = g'.kernel.pid t ∧
      ∀ u, g'.Has m u → u = t

/-- All other tasks that have the mutex wait for it themselves, as its first waiter. -/
def Yields (g : Tenure) (m : Slot) (p : Pcb) : Prop :=
  ∀ u, u ≠ p → g.Has m u → g.kernel.firstEntry (.blockQueue m) = some u

/-- The calls that take no mutex away and leave the queues in order. -/
def SafeCall (g : Tenure) (p : Pcb) : Call → Prop
  | .mutexLockRelease mlockIdx => ∀ m, slotOf mlockIdx = some m → g.Yields m p
  | .conditionWait _ mutexIdx => ∀ m, slotOf mutexIdx = some m → g.Yields m p
  | .mboxClose mboxIdx => ∀ i m, slotOf mboxIdx = some i → (g.kernel.mailboxes i).ref = 1 →
      slotOf (g.kernel.mailboxes i).mutexId = some m → g.Yields m p
  | .exit => g.kernel.Alone p
  | .kill pid => pid ≠ 0 ∧ ∀ i, g.kernel.findPid pid = some i →
      ((∀ c, g.kernel.runnings c ≠ some (.slot i)) ∨ p = .slot i ∧ g.kernel.Alone p) ∧
        ∀ m u, g.Has m u → u ≠ .slot i → g.kernel.pid u ≠ pid
  | .waitpid pid => pid ≠ 0
  | .barrierDestroy barIdx => ∀ b, slotOf barIdx = some b →
      g.kernel.isQueueEmpty (.blockList b) = true
  | _ => True

def Safe (g : Tenure) : Event → Prop
  | .trap cpuid call _ => ∀ p, g.kernel.runnings cpuid = some p → g.SafeCall p call
  | _ => True

end Tenure

namespace Kernel

/-! ## Parts of steps -/

/-- What holds after a step: the invariant of the scheduler only while no CPU is
stuck. -/
def Kept (k' : Kernel) (inside : Slot → Pcb → Prop) : Prop :=
  ∃ q', k'.Lists q' ∧ k'.Life q' none ∧ k'.Owners q' inside none ∧ (k'.stuck = false → k'.Inv q')

section Steps

variable {k k₁ k' : Kernel} {q q₁ : Head → List Pcb} {inside inside₁ : Slot → Pcb → Prop}
  {c : Cpu} {p : Pcb} {m : Slot}

lemma Kept.mono (hk : k.Kept inside) (hsub : ∀ m p, inside₁ m p → inside m p) : k.Kept inside₁ := by
  obtain ⟨q', hlists, hlife, ho, hinv⟩ := hk
  exact ⟨q', hlists, hlife, ho.forget hsub, hinv⟩

lemma Mid.keptReturn (hm : k.Mid q none none) (ho : k.Owners q inside (some p))
    (hrun : k.runnings c = some p) (hp : p ≠ idlePcb c) : (k.retFromKernel c).Kept inside := by
  have hinv := hm.retFromKernel hrun hp
  exact ⟨q, hinv.lists, hinv.life, ho.ret hrun, fun _ => hinv⟩

lemma Mid.keptBlock {h : Head} {cont : Cont} (hm : k.Mid q none none)
    (ho : k.Owners q inside (some p)) (hrun : k.runnings c = some p) (hp : p ≠ idlePcb c)
    (hh : ∀ r, h = .waitList r → k.pid r ≠ 0) (hne : h ≠ .readyQueue)
    (hcont : ∀ m, cont.mutex = some m ↔ h = .blockQueue m)
    (hlocked : ∀ m, h = .blockQueue m → (k.mlocks m).locked = true)
    (hk : k.doBlock c p h cont = some k') : k'.Kept inside ∧ k'.inKernel = some c := by
  obtain ⟨L, r, hk₁, hpick, hinv⟩ := hm.doBlock cont hrun hp hh
  obtain rfl := Option.some.inj (hk.symm.trans hk₁)
  have ho' : (k.switched c p L .blocked r cont).Owners _ inside none :=
    ho.switch hm hrun (hm.running_live hrun hp).1 (.inr ⟨hne, hcont⟩) hlocked hpick
  exact ⟨⟨_, hinv.lists, hinv.life, ho', fun _ => hinv⟩, rfl⟩

/-- A block on a queue that is no queue of a mutex. -/
lemma Mid.keptWait {h : Head} {cont : Cont} (hm : k.Mid q none none)
    (ho : k.Owners q inside (some p)) (hrun : k.runnings c = some p) (hp : p ≠ idlePcb c)
    (hh : ∀ r, h = .waitList r → k.pid r ≠ 0) (hne : h ≠ .readyQueue)
    (hcont : cont.mutex = none) (hq : ∀ m, h ≠ .blockQueue m)
    (hk : k.doBlock c p h cont = some k') : k'.Kept inside := by
  refine (hm.keptBlock ho hrun hp hh hne (fun m => ?_) (fun m hm' => absurd hm' (hq m)) hk).1
  rw [hcont]
  exact ⟨fun h => (Option.some_ne_none m h.symm).elim, fun h => absurd h (hq m)⟩

lemma Mid.keptScheduler {env : Env} (hm : k.Mid q none none) (ho : k.Owners q inside (some p))
    (hrun : k.runnings c = some p) (hk : k.doScheduler c p env = some k') : k'.Kept inside := by
  obtain ⟨k₁, q₁, q₂, L, r, hw, hk₁, hq₂, hpick, hinv⟩ := hm.doScheduler hrun env
  obtain rfl := Option.some.inj (hk.symm.trans hk₁)
  obtain ⟨hm₁, hquiet⟩ := hw.mid (by simp [Scanned]) hm
  have ho₁ := hw.owners (by simp [Scanned]) (by simp [Scanned]) hm ho
  have hrun₁ : k₁.runnings c = some p := by rw [hquiet.runnings, hrun]
  rcases hq₂ with ⟨rfl, rfl⟩ | ⟨hp, rfl⟩
  · exact ⟨_, hinv.lists, hinv.life, ho₁.switchOff _ _ _ hm₁ hrun₁ (hm₁.lists.idle_notMem c) hpick,
      fun _ => hinv⟩
  · have ho' : (k₁.switched c p L .ready r .ret).Owners _ inside none :=
      ho₁.switch hm₁ hrun₁ (hm₁.running_live hrun₁ hp).1 (.inl ⟨rfl, rfl⟩) (by simp) hpick
    exact ⟨_, hinv.lists, hinv.life, ho', fun _ => hinv⟩

/-- A release of a mutex that others have only if they are its first waiter. -/
lemma Mid.keptRelease (hm : k.Mid q none none) (ho : k.Owners q inside (some p))
    (hfirst : ∀ x, x ≠ p → k.Owns q inside (some p) m x → ∃ l, q (.blockQueue m) = x :: l) :
    ∃ k₁ q₁, k.mutexLockRelease m = some k₁ ∧ k₁.Mid q₁ none none ∧ k.Quiet k₁ ∧
      k₁.Owners q₁ (fun n x => inside n x ∧ ¬ (n = m ∧ x = p)) (some p) := by
  obtain ⟨k₁, q₁, hk₁, hm₁, hquiet, hrel⟩ := hm.mutexLockRelease m
  refine ⟨k₁, q₁, hk₁, hm₁, hquiet, ?_⟩
  refine (ho.release hm (fun n x hx => hx.1) (fun x hx => ?_)
    (fun x hx => (hm.life.live x (by simp)).2 ⟨_, hx⟩) hrel).1
  have hxp : x ≠ p := by
    rintro rfl
    rcases hx with hx | hx
    · exact hx.2 ⟨rfl, rfl⟩
    · exact hx.2.2.2 rfl
  exact hfirst x hxp (hx.imp_left And.left)

/-- The same by the task that is inside of the mutex: nobody else has it. -/
lemma Mid.keptRelease_of_inside (hm : k.Mid q none none) (ho : k.Owners q inside (some p))
    (hin : inside m p) :
    ∃ k₁ q₁, k.mutexLockRelease m = some k₁ ∧ k₁.Mid q₁ none none ∧ k.Quiet k₁ ∧
      k₁.Owners q₁ (fun n x => inside n x ∧ ¬ (n = m ∧ x = p)) (some p) :=
  hm.keptRelease ho fun x hxp hx => absurd (ho.unique m x p hx (.inl hin)) hxp

/-- `do_mutex_lock_acquire` and what follows. -/
lemma Mid.keptAcquire {cont : Cont} {next : Kernel → Option Kernel} (hm : k.Mid q none none)
    (ho : k.Owners q inside (some p)) (hrun : k.runnings c = some p) (hp : p ≠ idlePcb c)
    (hcont : cont.mutex = some m) (hk : k.mutexLockAcquire c p m cont next = some k') :
    k'.Kept inside ∧ k'.inKernel = some c ∨
      ¬ inside m p ∧ ∃ k₁ : Kernel, next k₁ = some k' ∧ k₁.Mid q none none ∧
        k₁.runnings = k.runnings ∧ k₁.Owners q (fun n x => inside n x ∨ n = m ∧ x = p) (some p) := by
  unfold Kernel.mutexLockAcquire at hk
  split at hk
  · rename_i hlocked
    refine .inl (hm.keptBlock ho hrun hp (by simp) (by simp) (fun n => ?_) (fun n hn => ?_) hk)
    · rw [hcont, Option.some.injEq, Head.blockQueue.injEq]
    · exact Head.blockQueue.inj hn ▸ hlocked
  · rename_i hlocked
    exact .inr ⟨fun hin => hlocked (ho.locked m p (.inl hin)), _, hk, hm.setMlock m _, rfl,
      ho.take (by simpa using hlocked) (hm.running_live hrun hp).2⟩

/-- The end of a transfer: wake the other side, release the mutex and return. -/
lemma Mid.keptTransfer {h : Head} (hm : k.Mid q none none) (ho : k.Owners q inside (some p))
    (hrun : k.runnings c = some p) (hp : p ≠ idlePcb c) (hin : inside m p) (hne : h ≠ .readyQueue)
    (hh : ∀ r, h ≠ .waitList r) (hq : ∀ m, h ≠ .blockQueue m)
    (hk : (Kernel.unblockAll h loopBound k).bind (fun k => (k.mutexLockRelease m).bind
      fun k => some (k.retFromKernel c)) = some k') :
    k'.Kept fun n x => inside n x ∧ ¬ (n = m ∧ x = p) := by
  obtain ⟨k₁, q₁, hk₁, hw, -⟩ := hm.unblockAll hne fun r hr => absurd hr (hh r)
  obtain ⟨hm₁, hquiet₁⟩ := hw.mid hne.symm hm
  have ho₁ := hw.owners hne.symm (fun m heq => hq m heq.symm) hm ho
  obtain ⟨k₂, q₂, hk₂, hm₂, hquiet₂, ho₂⟩ := hm₁.keptRelease_of_inside ho₁ hin
  rw [hk₁, Option.bind_some, hk₂, Option.bind_some, Option.some.injEq] at hk
  subst hk
  exact hm₂.keptReturn ho₂ (by rw [hquiet₂.runnings, hquiet₁.runnings, hrun]) hp

/-- The other branch: release the mutex and block. -/
lemma Mid.keptReleaseBlock {h : Head} {cont : Cont} (hm : k.Mid q none none)
    (ho : k.Owners q inside (some p)) (hrun : k.runnings c = some p) (hp : p ≠ idlePcb c)
    (hin : inside m p) (hne : h ≠ .readyQueue) (hh : ∀ r, h ≠ .waitList r)
    (hcont : cont.mutex = none) (hq : ∀ m, h ≠ .blockQueue m)
    (hk : (k.mutexLockRelease m).bind (fun k => k.doBlock c p h cont) = some k') :
    k'.Kept fun n x => inside n x ∧ ¬ (n = m ∧ x = p) := by
  obtain ⟨k₁, q₁, hk₁, hm₁, hquiet₁, ho₁⟩ := hm.keptRelease_of_inside ho hin
  rw [hk₁, Option.bind_some] at hk
  exact hm₁.keptWait ho₁ (by rw [hquiet₁.runnings, hrun]) hp (fun r hr => absurd hr (hh r)) hne
    hcont hq hk

lemma Mid.keptMboxSendLocked {i : Slot} {msg : List UInt8} (hm : k.Mid q none none)
    (ho : k.Owners q inside (some p)) (hrun : k.runnings c = some p) (hp : p ≠ idlePcb c)
    (hin : inside m p) (hk : k.mboxSendLocked c p i m msg = some k') :
    k'.Kept fun n x => inside n x ∧ ¬ (n = m ∧ x = p) := by
  unfold Kernel.mboxSendLocked at hk
  split at hk
  · exact (hm.setMailbox i _).keptTransfer (h := .recvList i) (ho.congr rfl rfl rfl rfl rfl) hrun hp
      hin (by simp) (by simp) (by simp) hk
  · exact hm.keptReleaseBlock ho hrun hp hin (by simp) (by simp) rfl (by simp) hk

lemma Mid.keptMboxRecvLocked {i : Slot} {msgLength : ℕ} (hm : k.Mid q none none)
    (ho : k.Owners q inside (some p)) (hrun : k.runnings c = some p) (hp : p ≠ idlePcb c)
    (hin : inside m p) (hk : k.mboxRecvLocked c p i m msgLength = some k') :
    k'.Kept fun n x => inside n x ∧ ¬ (n = m ∧ x = p) := by
  unfold Kernel.mboxRecvLocked at hk
  split at hk
  · exact (hm.setMailbox i _).keptTransfer (h := .sendList i) (ho.congr rfl rfl rfl rfl rfl) hrun hp
      hin (by simp) (by simp) (by simp) hk
  · exact hm.keptReleaseBlock ho hrun hp hin (by simp) (by simp) rfl (by simp) hk

lemma Mid.keptMboxSend {i : Slot} {msg : List UInt8} (hm : k.Mid q none none)
    (ho : k.Owners q inside (some p)) (hrun : k.runnings c = some p) (hp : p ≠ idlePcb c)
    (hk : k.mboxSend c p i m msg = some k') : k'.Kept inside := by
  rcases hm.keptAcquire ho hrun hp rfl hk with ⟨hkept, -⟩ | ⟨hnot, k₁, hk₁, hm₁, hrun₁, ho₁⟩
  · exact hkept
  · refine (hm₁.keptMboxSendLocked ho₁ (by rw [hrun₁, hrun]) hp (.inr ⟨rfl, rfl⟩) hk₁).mono ?_
    exact fun n x hx => ⟨.inl hx, fun heq => hnot (heq.1 ▸ heq.2 ▸ hx)⟩

lemma Mid.keptMboxRecv {i : Slot} {msgLength : ℕ} (hm : k.Mid q none none)
    (ho : k.Owners q inside (some p)) (hrun : k.runnings c = some p) (hp : p ≠ idlePcb c)
    (hk : k.mboxRecv c p i m msgLength = some k') : k'.Kept inside := by
  rcases hm.keptAcquire ho hrun hp rfl hk with ⟨hkept, -⟩ | ⟨hnot, k₁, hk₁, hm₁, hrun₁, ho₁⟩
  · exact hkept
  · refine (hm₁.keptMboxRecvLocked ho₁ (by rw [hrun₁, hrun]) hp (.inr ⟨rfl, rfl⟩) hk₁).mono ?_
    exact fun n x hx => ⟨.inl hx, fun heq => hnot (heq.1 ▸ heq.2 ▸ hx)⟩

/-- A return after some wake-ups from queues that are no queues of mutexes. -/
lemma Mid.keptWakes {from' : Head → Prop} (hm : k.Mid q none none)
    (ho : k.Owners q inside (some p)) (hrun : k.runnings c = some p) (hp : p ≠ idlePcb c)
    (hready : ¬ from' .readyQueue) (hfrom : ∀ m, ¬ from' (.blockQueue m))
    (hw : Wakes from' k q k₁ q₁) : (k₁.retFromKernel c).Kept inside := by
  obtain ⟨hm₁, hquiet⟩ := hw.mid hready hm
  exact hm₁.keptReturn (hw.owners hready hfrom hm ho) (by rw [hquiet.runnings, hrun]) hp

lemma Mid.keptBarrierWait {b : Slot} (hm : k.Mid q none none) (ho : k.Owners q inside (some p))
    (hrun : k.runnings c = some p) (hp : p ≠ idlePcb c) (hk : k.barrierWait c p b = some k') :
    k'.Kept inside := by
  have hm₁ := hm.setBarrier b { k.barriers b with current := (k.barriers b).current + 1 }
  have ho₁ : (k.setBarrier b { k.barriers b with
      current := (k.barriers b).current + 1 }).Owners q inside (some p) :=
    ho.congr rfl rfl rfl rfl rfl
  simp only [Kernel.barrierWait] at hk
  split at hk
  · exact hm₁.keptWait ho₁ hrun hp (by simp) (by simp) rfl (by simp) hk
  · obtain ⟨k₂, q₂, hk₂, hw, -⟩ := hm₁.unblockAll (h := .blockList b) (by simp) (by simp)
    obtain ⟨hm₂, hquiet₂⟩ := hw.mid (by simp) hm₁
    have ho₂ := hw.owners (by simp) (by simp) hm₁ ho₁
    rw [hk₂, Option.bind_eq_bind, Option.bind_some, Option.some.injEq] at hk
    subst hk
    exact (hm₂.setBarrier b _).keptReturn (p := p) (ho₂.congr rfl rfl rfl rfl rfl)
      ((congrFun hquiet₂.runnings c).trans hrun) hp

lemma Mid.keptThreadJoin {thread : ℤ} {n : ℕ} {node : Option Node} (hm : k.Mid q none none)
    (ho : k.Owners q inside (some p)) (hrun : k.runnings c = some p) (hp : p ≠ idlePcb c)
    (hk : Kernel.threadJoinLoop c p thread n node k = some k') : k'.Kept inside := by
  induction n generalizing node with
  | zero => cases hk
  | succ n ih =>
    cases node with
    | none => cases hk
    | some node =>
      cases node with
      | inl h =>
        rw [Kernel.threadJoinLoop] at hk
        split at hk
        · obtain rfl := Option.some.inj hk
          exact hm.keptReturn ho hrun hp
        · cases hk
      | inr r =>
        simp only [Kernel.threadJoinLoop] at hk
        split at hk
        · rename_i hfound
          refine hm.keptWait ho hrun hp (fun r' hr' => ?_) (by simp) rfl (by simp) hk
          obtain rfl := Head.waitList.inj hr'
          rw [hfound.1]
          exact (hm.running_live hrun hp).2
        · exact ih hk

lemma Mid.keptNetSend {env : Env} (hm : k.Mid q none none) (ho : k.Owners q inside (some p))
    (hrun : k.runnings c = some p) (hp : p ≠ idlePcb c) (hk : k.netSend c p env = some k') :
    k'.Kept inside := by
  unfold Kernel.netSend at hk
  split at hk
  · obtain rfl := Option.some.inj hk
    exact hm.keptReturn ho hrun hp
  · exact hm.keptWait ho hrun hp (by simp) (by simp) rfl (by simp) hk

lemma Mid.keptNetRecv {env : Env} {left i : ℕ} (hm : k.Mid q none none)
    (ho : k.Owners q inside (some p)) (hrun : k.runnings c = some p) (hp : p ≠ idlePcb c)
    (hk : Kernel.netRecv c p env left i k = some k') : k'.Kept inside := by
  induction left generalizing i with
  | zero =>
    obtain rfl := Option.some.inj hk
    exact hm.keptReturn ho hrun hp
  | succ left ih =>
    rw [Kernel.netRecv] at hk
    split at hk
    · exact ih hk
    · exact hm.keptWait ho hrun hp (by simp) (by simp) rfl (by simp) hk

/-- `do_exit` of a task without other threads. -/
lemma Mid.keptExit {i : Slot} (hm : k.Mid q none none) (ho : k.Owners q inside (some (.slot i)))
    (hpid : k.pid (.slot i) ≠ 0) (hrun : k.runnings c = some (.slot i))
    (halone : k.Alone (.slot i)) (hk : k.doExit c (.slot i) = some k') :
    k'.Kept (fun m x => inside m x ∧ x ≠ .slot i) ∧ k'.pid = Function.update k.pid (.slot i) 0 := by
  have hother : ∀ m x, k.Owns q inside (some (.slot i)) m x → x ≠ .slot i →
      k.pid x ≠ k.pid (.slot i) := by
    intro m x hx hxi heq
    obtain ⟨g, hmem⟩ := (hm.life.live x (by simp)).1 (heq ▸ hpid)
    obtain ⟨j, rfl⟩ := hm.lists.slots g x hmem
    exact hxi (halone j heq)
  obtain ⟨k₁, q₁, hk₁, hm₁, hempty, hpid₁, hrun₁, -, ho₁⟩ :=
    ho.releasePcb hm hpid (.inr ⟨c, rfl, hrun⟩) hother
  have hpid₁' : k₁.pid (.slot i) ≠ 0 := by rwa [← hpid₁]
  have hzero := hm₁.threads_eq_zero hpid₁' (by
    intro j hj
    rw [← hpid₁] at hj
    exact halone j hj)
  obtain ⟨r, hr, hk', hinv⟩ := hm₁.exitRest hk₁ hpid₁' hempty hzero
  obtain rfl := Option.some.inj (hk.symm.trans hk')
  refine ⟨⟨q₁, hinv.lists, hinv.life, ?_, fun _ => hinv⟩, by rw [hpid₁]; rfl⟩
  have ho₂ := (ho₁.clearPid (hm₁.life.off _ rfl)).switchOff k₁.links r (k₁.status (.slot i))
    (hm₁.dropPid hempty) (c := c) (hrun₁ ▸ hrun) (hm₁.life.off _ rfl) hr
  exact ho₂.congr rfl rfl rfl rfl rfl

/-- The end of a kill, when the PCB is released. -/
lemma Mid.keptKilled {i : Slot} (hm : k.Mid q none (some (.slot i)))
    (ho : k.Owners q (fun m x => inside m x ∧ x ≠ .slot i) (some p)) (hrun : k.runnings c = some p)
    (hp : p ≠ idlePcb c) (hpid : k.pid (.slot i) ≠ 0) (hempty : q (.waitList (.slot i)) = []) :
    (((if k.threads (k.pid (.slot i)) = 0 then k.freePgdir (.slot i) else k).clearPid
      (.slot i)).retFromKernel c).Kept fun m x => inside m x ∧ x ≠ .slot i := by
  have ho' := ho.clearPid (hm.life.off _ rfl)
  split
  · rename_i hzero
    exact (hm.clearPid hpid hempty hzero).keptReturn (ho'.congr rfl rfl rfl rfl rfl) hrun hp
  · exact (hm.dropPid hempty).keptReturn ho' hrun hp

/-- `do_kill` of a process whose PCB does not run, or of the caller without other
threads; the other threads of the process have no mutex. -/
lemma Mid.keptKill {i : Slot} {pid n : ℤ} (hm : k.Mid q none none)
    (ho : k.Owners q inside (some p)) (hrun : k.runnings c = some p) (hp : p ≠ idlePcb c)
    (hpid : pid ≠ 0) (hfind : k.findPid pid = some i)
    (hcase : (∀ d, k.runnings d ≠ some (.slot i)) ∨ p = .slot i ∧ k.Alone p)
    (hother : ∀ m x, k.Owns q inside (some p) m x → x ≠ .slot i → k.pid x ≠ pid)
    (hk : k.doKill pid = some (n, k₁)) :
    (k₁.retFromKernel c).Kept (fun m x => inside m x ∧ x ≠ .slot i) ∧
      k₁.pid = Function.update k.pid (.slot i) 0 := by
  have hpid' : k.pid (.slot i) = pid := findPid_spec hfind
  have hpid₀ : k.pid (.slot i) ≠ 0 := by rwa [hpid']
  have hother' : ∀ m x, k.Owns q inside (some p) m x → x ≠ .slot i → k.pid x ≠ k.pid (.slot i) := by
    rw [hpid']
    exact hother
  simp only [Kernel.doKill, hfind] at hk
  rcases hcase with hno | ⟨rfl, halone⟩
  · obtain ⟨k₂, q₂, hk₂, hm₂, hempty, hpid₂, hrun₂, -, ho₂⟩ :=
      ho.releasePcb hm hpid₀ (.inl ⟨rfl, hno⟩) hother'
    simp only [hk₂, Option.bind_eq_bind, Option.bind_some, Option.some.injEq, Prod.mk.injEq] at hk
    obtain ⟨-, rfl⟩ := hk
    refine ⟨hm₂.keptKilled ho₂ (hrun₂ ▸ hrun) hp (hpid₂ ▸ hpid₀) hempty, ?_⟩
    rw [hpid₂]
    split <;> rfl
  · -- the caller killed itself: its page directory is gone
    obtain ⟨k₂, q₂, hk₂, hm₂, hempty, hpid₂, hrun₂, -, ho₂⟩ :=
      ho.releasePcb hm hpid₀ (.inr ⟨c, rfl, hrun⟩) hother'
    have hpid₂' : k₂.pid (.slot i) ≠ 0 := by rwa [← hpid₂]
    have hzero := hm₂.threads_eq_zero hpid₂' (by
      intro j hj
      rw [← hpid₂] at hj
      exact halone j hj)
    simp only [hk₂, Option.bind_eq_bind, Option.bind_some, hzero, if_true, Option.some.injEq,
      Prod.mk.injEq] at hk
    obtain ⟨-, rfl⟩ := hk
    have hrun₃ : ((k₂.freePgdir (.slot i)).clearPid (.slot i)).runnings c = some (.slot i) :=
      hrun₂ ▸ hrun
    have ho₃ : ((k₂.freePgdir (.slot i)).clearPid (.slot i)).Owners q₂ _ (some (.slot i)) :=
      (ho₂.clearPid (hm₂.life.off _ rfl)).congr rfl rfl rfl rfl rfl
    have hframe := (hm₂.clearPid hpid₂' hempty hzero).returnFrame (c := c)
    refine ⟨⟨q₂, hframe.1, hframe.2, ho₃.ret hrun₃, fun hstuck => ?_⟩, by rw [hpid₂]; rfl⟩
    simp only [Kernel.retFromKernel, switchPgdir, hrun₃, Bool.or_eq_false_iff] at hstuck
    simp [Kernel.clearPid, Kernel.freePgdir] at hstuck

end Steps

end Kernel

namespace Tenure

/-! ## Steps -/

section Steps

variable {g g' : Tenure} {k' : Kernel} {q : Head → List Pcb} {c : Cpu} {p : Pcb} {m : Slot}
  {e : Event}

/-- Who has a mutex, by the queues. -/
lemma has_iff (hlists : g.kernel.Lists q) (hlife : g.kernel.Life q none)
    (ho : g.kernel.Owners q (fun m p => g.holds m p = true) none) :
    g.Has m p ↔ g.kernel.Owns q (fun m p => g.holds m p = true) none m p := by
  refine or_congr_right ⟨?_, ?_⟩
  · rintro ⟨hpid, hc, hs, hon⟩
    obtain ⟨h, hp⟩ := (hlife.live p (by simp)).1 hpid
    refine ⟨?_, hc, hs, by simp⟩
    by_contra hready
    have hne : h ≠ .readyQueue := fun heq => hready (heq ▸ hp)
    rw [(ho.waits h p hp hne m).1 hc] at hp
    exact hon (hlists.repr.on_iff.2 hp)
  · rintro ⟨hp, hc, hs, -⟩
    refine ⟨(hlife.live p (by simp)).2 ⟨_, hp⟩, hc, hs, fun hon => ?_⟩
    have := hlists.repr.disjoint _ _ p hp (hlists.repr.on_iff.1 hon)
    cases this

lemma owns_of_begun {k : Kernel} {inside : Slot → Pcb → Prop} {x : Pcb}
    (hx : k.Owns q inside (some p) m x) : k.Owns q inside none m x :=
  hx.imp_right fun ⟨hx, hc, hs, _⟩ => ⟨hx, hc, hs, by simp⟩

/-- The first waiter, by the queues. -/
lemma Yields.first (hy : g.Yields m p) (hm : g.kernel.Mid q none none)
    (ho : g.kernel.Owners q (fun m p => g.holds m p = true) none) {x : Pcb} (hxp : x ≠ p)
    (hx : g.kernel.Owns q (fun m p => g.holds m p = true) (some p) m x) :
    ∃ l, q (.blockQueue m) = x :: l := by
  have hfirst := hy x hxp ((has_iff hm.lists hm.life ho).2 (owns_of_begun hx))
  cases hq : q (.blockQueue m) with
  | nil =>
    have hnext := hm.lists.repr.next_head (hm.lists.init (.blockQueue m) (by simp))
    simp [firstEntry, hnext, hq] at hfirst
  | cons y l =>
    rw [firstEntry_spec hm.lists.repr hq, Option.some.injEq] at hfirst
    exact ⟨l, by rw [hfirst]⟩

/-- The record of a step that takes no mutex. -/
lemma Records.same {holds : Slot → Pcb → Prop} {k : Kernel} {x : Pcb}
    (ht : Monitor.takes k e = none) (hr : Records holds e k k' m x) : holds m x := by
  rcases hr with hr | hr
  · exact hr.1
  · rw [ht] at hr
    cases hr.1

/-- A call of a task that is not idle. -/
lemma keptHandle {env : Env} {call : Call} (hm : g.kernel.Mid q none none)
    (ho : g.kernel.Owners q (fun m p => g.holds m p = true) none)
    (hrun : g.kernel.runnings c = some p) (hp : p ≠ idlePcb c) (hcall : g.SafeCall p call)
    (hk : g.kernel.handle c p env call = some k') :
    ∃ inside, k'.Kept inside ∧ ∀ m x, k'.pid x ≠ 0 →
      Records (fun m p => g.holds m p = true) (.trap c call env) g.kernel k' m x → inside m x := by
  obtain ⟨hready, hpid⟩ := hm.running_live hrun hp
  have ho₀ := ho.begin p
  -- a call whose task neither takes nor releases a mutex
  have hplain : ∀ {inside : Slot → Pcb → Prop}, Monitor.takes g.kernel (.trap c call env) = none →
      (∀ m x, k'.pid x ≠ 0 → g.holds m x = true → inside m x) → k'.Kept inside →
      ∃ inside, k'.Kept inside ∧ ∀ m x, k'.pid x ≠ 0 → Records (fun m p => g.holds m p = true)
        (.trap c call env) g.kernel k' m x → inside m x :=
    fun ht hsub hkept => ⟨_, hkept, fun m x hx hr => hsub m x hx (hr.same ht)⟩
  -- a call that releases `m` first
  have hgives : ∀ m, gives g.kernel (.trap c call env) = some m →
      Monitor.takes g.kernel (.trap c call env) = none →
      k'.Kept (fun n x => g.holds n x = true ∧ ¬ (n = m ∧ x = p)) →
      ∃ inside, k'.Kept inside ∧ ∀ m x, k'.pid x ≠ 0 → Records (fun m p => g.holds m p = true)
        (.trap c call env) g.kernel k' m x → inside m x := by
    refine fun m hg ht hkept => ⟨_, hkept, fun n x _ hr => ?_⟩
    rcases hr with ⟨hx, hnot⟩ | hr
    · refine ⟨hx, ?_⟩
      rintro ⟨rfl, rfl⟩
      exact hnot ⟨hg, hrun⟩
    · rw [ht] at hr
      cases hr.1
  cases call with
  | irqTimer | yield => exact hplain rfl (fun _ _ _ hx => hx) (hm.keptScheduler ho₀ hrun hk)
  | sleep sleepTime =>
    have ho₁ : Kernel.Owners { g.kernel with
        wakeupTime := Function.update g.kernel.wakeupTime p (env.clock 0 + sleepTime) } q
        (fun m p => g.holds m p = true) (some p) := ho₀.congr rfl rfl rfl rfl rfl
    exact hplain rfl (fun _ _ _ hx => hx) ((hm.setWakeup _).keptWait (h := .sleepQueue) ho₁ hrun hp
      (by simp) (by simp) rfl (by simp) hk)
  | exec name =>
    obtain ⟨k₁, hk₁, rfl⟩ := Option.map_eq_some_iff.1 hk
    rcases hm.createPcb hk₁ with rfl | ⟨i, L, hfree, rfl, hm₁⟩
    · exact hplain rfl (fun _ _ _ hx => hx) (hm.keptReturn ho₀ hrun hp)
    · have ho₁ : Kernel.Owners { g.kernel with
          processId := g.kernel.processId + 1, nextPgdir := g.kernel.nextPgdir + 1 } q
          (fun m p => g.holds m p = true) (some p) := ho₀.congr rfl rfl rfl rfl rfl
      exact hplain rfl (fun _ _ _ hx => hx)
        (hm₁.keptReturn (p := p) (ho₁.created _ _ _ hm.grow hfree) hrun hp)
  | exit =>
    obtain ⟨i, rfl⟩ := hm.lists.slots _ _ hready
    obtain ⟨hkept, hpid'⟩ := hm.keptExit ho₀ hpid hrun hcall hk
    refine hplain rfl (fun m x hx hin => ⟨hin, ?_⟩) hkept
    rintro rfl
    exact hx (by rw [hpid', Function.update_self])
  | kill pid =>
    obtain ⟨k₁, hk₁, rfl⟩ := Option.map_eq_some_iff.1 hk
    obtain ⟨⟨n, k₂⟩, hk₂, rfl⟩ := Option.map_eq_some_iff.1 hk₁
    cases hfind : g.kernel.findPid pid with
    | none =>
      rw [Kernel.doKill, hfind, Option.some.injEq, Prod.mk.injEq] at hk₂
      obtain ⟨-, rfl⟩ := hk₂
      exact hplain rfl (fun _ _ _ hx => hx) (hm.keptReturn ho₀ hrun hp)
    | some i =>
      obtain ⟨hcase, hother⟩ := hcall.2 i hfind
      obtain ⟨hkept, hpid'⟩ := hm.keptKill ho₀ hrun hp hcall.1 hfind hcase
        (fun m x hx hxi => hother m x ((has_iff hm.lists hm.life ho).2 (owns_of_begun hx)) hxi) hk₂
      refine hplain rfl (fun m x hx hin => ⟨hin, ?_⟩) hkept
      rintro rfl
      exact hx (by rw [retFromKernel_pid, hpid', Function.update_self])
  | waitpid pid =>
    change g.kernel.doWaitpid c p pid = some k' at hk
    unfold Kernel.doWaitpid at hk
    refine hplain rfl (fun _ _ _ hx => hx) ?_
    split at hk
    · obtain rfl := Option.some.inj hk
      exact hm.keptReturn ho₀ hrun hp
    · rename_i i hi
      refine hm.keptWait ho₀ hrun hp (fun r hr => ?_) (by simp) rfl (by simp) hk
      obtain rfl := Head.waitList.inj hr
      rw [findPid_spec hi]
      exact hcall
  | threadCreate =>
    obtain ⟨k₁, hk₁, rfl⟩ := Option.map_eq_some_iff.1 hk
    refine hplain rfl (fun _ _ _ hx => hx) ?_
    unfold Kernel.doThreadCreate at hk₁
    split at hk₁
    · obtain rfl := Option.some.inj hk₁
      exact hm.keptReturn ho₀ hrun hp
    · rename_i i hi
      have hl := hm.life
      obtain ⟨L, hL, hm₁⟩ := hm.initPcb i (g.kernel.pid p) (g.kernel.pgdir p)
        (findUnusedPcb_spec hi) (hl.pidRange p hpid) ⟨hl.pgdirPos p hpid, hl.pgdirLt p⟩
        (hl.pgdirLive p (by simp) hpid) (fun r hr heq => hl.pgdirPid r p hr hpid heq)
      obtain rfl := Option.some.inj (hk₁.symm.trans hL)
      exact hm₁.keptReturn (p := p) (ho₀.created _ _ _ hm (findUnusedPcb_spec hi)) hrun hp
  | threadJoin thread =>
    exact hplain rfl (fun _ _ _ hx => hx) (hm.keptThreadJoin ho₀ hrun hp hk)
  | mutexLockAcquire idx =>
    obtain ⟨m, hm', hk⟩ := Option.bind_eq_some_iff.1 hk
    rcases hm.keptAcquire ho₀ hrun hp rfl hk with
      ⟨hkept, hker⟩ | ⟨-, k₁, hk₁, hm₁, hrun₁, ho₁⟩
    · refine ⟨_, hkept, fun n x _ hr => ?_⟩
      rcases hr with hr | ⟨-, -, hnone⟩
      · exact hr.1
      · rw [hker] at hnone
        cases hnone
    · obtain rfl := Option.some.inj hk₁
      refine ⟨_, hm₁.keptReturn ho₁ (by rw [hrun₁, hrun]) hp, fun n x _ hr => ?_⟩
      rcases hr with hr | ⟨ht, hact, -⟩
      · exact .inl hr.1
      · exact .inr ⟨(Option.some.inj (hm'.symm.trans ht)).symm,
          (Option.some.inj (hrun.symm.trans hact)).symm⟩
  | mutexLockRelease idx =>
    obtain ⟨m, hm', hk⟩ := Option.bind_eq_some_iff.1 hk
    obtain ⟨k₁, hk₁, rfl⟩ := Option.map_eq_some_iff.1 hk
    obtain ⟨k₂, q₂, hk₂, hm₂, hquiet, ho₂⟩ := hm.keptRelease ho₀ fun x hxp hx =>
      (hcall m hm').first hm ho hxp hx
    obtain rfl := Option.some.inj (hk₁.symm.trans hk₂)
    exact hgives m hm' rfl (hm₂.keptReturn ho₂ (by rw [hquiet.runnings, hrun]) hp)
  | barrierInit key goal =>
    obtain ⟨k₁, hk₁, rfl⟩ := Option.map_eq_some_iff.1 hk
    obtain ⟨b, -, hk₁⟩ := Option.bind_eq_some_iff.1 hk₁
    obtain rfl := Option.some.inj hk₁
    exact hplain rfl (fun _ _ _ hx => hx)
      ((hm.setBarrier b _).keptReturn (ho₀.congr rfl rfl rfl rfl rfl) hrun hp)
  | barrierWait idx =>
    obtain ⟨b, -, hk⟩ := Option.bind_eq_some_iff.1 hk
    exact hplain rfl (fun _ _ _ hx => hx) (hm.keptBarrierWait ho₀ hrun hp hk)
  | barrierDestroy idx =>
    obtain ⟨b, hb, hk⟩ := Option.bind_eq_some_iff.1 hk
    obtain ⟨k₁, hk₁, rfl⟩ := Option.map_eq_some_iff.1 hk
    have hempty : (g.kernel.setBarrier b { g.kernel.barriers b with current := 0 }).isQueueEmpty
        (.blockList b) = true := hcall b hb
    rw [Kernel.barrierDestroy, loopBound, deleteAll, if_pos hempty, Option.some.injEq] at hk₁
    subst hk₁
    exact hplain rfl (fun _ _ _ hx => hx)
      ((hm.setBarrier b _).keptReturn (ho₀.congr rfl rfl rfl rfl rfl) hrun hp)
  | conditionWait condIdx mutexIdx =>
    obtain ⟨i, -, hk⟩ := Option.bind_eq_some_iff.1 hk
    obtain ⟨m, hm', hk⟩ := Option.bind_eq_some_iff.1 hk
    obtain ⟨k₂, q₂, hk₂, hm₂, hquiet, ho₂⟩ := hm.keptRelease ho₀ fun x hxp hx =>
      (hcall m hm').first hm ho hxp hx
    rw [Kernel.conditionWait, hk₂, Option.bind_eq_bind, Option.bind_some] at hk
    exact hgives m hm' rfl (hm₂.keptWait ho₂ (by rw [hquiet.runnings, hrun]) hp (by simp)
      (by simp) rfl (by simp) hk)
  | conditionSignal idx =>
    obtain ⟨i, -, hk⟩ := Option.bind_eq_some_iff.1 hk
    obtain ⟨k₁, hk₁, rfl⟩ := Option.map_eq_some_iff.1 hk
    obtain ⟨k₂, q₂, hk₂, hw⟩ := hm.conditionSignal i
    obtain rfl := Option.some.inj (hk₁.symm.trans hk₂)
    exact hplain rfl (fun _ _ _ hx => hx) (hm.keptWakes ho₀ hrun hp (by simp) (by simp) hw)
  | conditionBroadcast idx | conditionDestroy idx =>
    obtain ⟨i, -, hk⟩ := Option.bind_eq_some_iff.1 hk
    obtain ⟨k₁, hk₁, rfl⟩ := Option.map_eq_some_iff.1 hk
    obtain ⟨k₂, q₂, hk₂, hw⟩ := hm.conditionBroadcast i
    obtain rfl := Option.some.inj (hk₁.symm.trans hk₂)
    exact hplain rfl (fun _ _ _ hx => hx) (hm.keptWakes ho₀ hrun hp (by simp) (by simp) hw)
  | mboxOpen name =>
    obtain ⟨k₁, hk₁, rfl⟩ := Option.map_eq_some_iff.1 hk
    refine hplain rfl (fun _ _ _ hx => hx) ?_
    unfold Kernel.mboxOpen at hk₁
    split at hk₁
    · obtain rfl := Option.some.inj hk₁
      exact (hm.setMailbox _ _).keptReturn (ho₀.congr rfl rfl rfl rfl rfl) hrun hp
    · split at hk₁
      · split at hk₁
        · obtain rfl := Option.some.inj hk₁
          exact (hm.setMailbox _ _).keptReturn (ho₀.congr rfl rfl rfl rfl rfl) hrun hp
        · cases hk₁
      · obtain rfl := Option.some.inj hk₁
        exact hm.keptReturn ho₀ hrun hp
  | mboxClose idx =>
    obtain ⟨i, hi, hk⟩ := Option.bind_eq_some_iff.1 hk
    obtain ⟨k₁, hk₁, rfl⟩ := Option.map_eq_some_iff.1 hk
    have hm₁ := hm.setMailbox i
      { g.kernel.mailboxes i with ref := (g.kernel.mailboxes i).ref - 1 }
    have ho₁ : (g.kernel.setMailbox i
        { g.kernel.mailboxes i with ref := (g.kernel.mailboxes i).ref - 1 }).Owners q
        (fun m p => g.holds m p = true) (some p) := ho₀.congr rfl rfl rfl rfl rfl
    simp only [Kernel.mboxClose] at hk₁
    split at hk₁
    · rename_i hzero
      obtain ⟨m, hm', hk₁⟩ := Option.bind_eq_some_iff.1 hk₁
      have hone : (g.kernel.mailboxes i).ref = 1 := by omega
      obtain ⟨k₂, q₂, hk₂, hm₂, hquiet₂, ho₂⟩ := hm₁.keptRelease (m := m) ho₁ fun x hxp hx =>
        (hcall i m hi hone hm').first hm ho hxp hx
      rw [hk₂, Option.bind_eq_bind, Option.bind_some, Option.some.injEq] at hk₁
      subst hk₁
      refine hgives m ?_ rfl ((hm₂.setMailbox i _).keptReturn (p := p)
        (ho₂.congr rfl rfl rfl rfl rfl) ((congrFun hquiet₂.runnings c).trans hrun) hp)
      simp only [gives, hi, Option.bind_some, hone, if_true]
      exact hm'
    · obtain rfl := Option.some.inj hk₁
      exact hplain rfl (fun _ _ _ hx => hx) (hm₁.keptReturn ho₁ hrun hp)
  | mboxSend idx msg =>
    obtain ⟨i, -, hk⟩ := Option.bind_eq_some_iff.1 hk
    obtain ⟨m, -, hk⟩ := Option.bind_eq_some_iff.1 hk
    exact hplain rfl (fun _ _ _ hx => hx) (hm.keptMboxSend ho₀ hrun hp hk)
  | mboxRecv idx msgLength =>
    obtain ⟨i, -, hk⟩ := Option.bind_eq_some_iff.1 hk
    obtain ⟨m, -, hk⟩ := Option.bind_eq_some_iff.1 hk
    exact hplain rfl (fun _ _ _ hx => hx) (hm.keptMboxRecv ho₀ hrun hp hk)
  | netSend => exact hplain rfl (fun _ _ _ hx => hx) (hm.keptNetSend ho₀ hrun hp hk)
  | netRecv pktNum => exact hplain rfl (fun _ _ _ hx => hx) (hm.keptNetRecv ho₀ hrun hp hk)

/-- The task switched to goes on. -/
lemma keptGoOn {env : Env} (hi : g.kernel.Inv q)
    (ho : g.kernel.Owners q (fun m p => g.holds m p = true) none)
    (hrun : g.kernel.runnings c = some p) (hin : g.kernel.inKernel = some c)
    (hk : g.kernel.goOn c p env (g.kernel.cont p) = some k') :
    ∃ inside, k'.Kept inside ∧ ∀ m x, k'.pid x ≠ 0 →
      Records (fun m p => g.holds m p = true) (.resume c env) g.kernel k' m x → inside m x := by
  have hm := hi.toMid
  have ho₀ := ho.begin p
  have htakes : (∀ m, g.kernel.cont p ≠ .mutexLockAcquire m) →
      (∀ m, g.kernel.cont p ≠ .conditionWait m) →
      Monitor.takes g.kernel (.resume c env) = none := by
    intro h₁ h₂
    simp only [Monitor.takes, hrun, Option.map_some]
    split <;> simp_all
  -- a task that takes no mutex
  have hplain : (∀ m, g.kernel.cont p ≠ .mutexLockAcquire m) →
      (∀ m, g.kernel.cont p ≠ .conditionWait m) → k'.Kept (fun m x => g.holds m x = true) →
      ∃ inside, k'.Kept inside ∧ ∀ m x, k'.pid x ≠ 0 → Records (fun m p => g.holds m p = true)
        (.resume c env) g.kernel k' m x → inside m x :=
    fun h₁ h₂ hkept => ⟨_, hkept, fun m x _ hr => hr.same (htakes h₁ h₂)⟩
  by_cases hp : p = idlePcb c
  · have hcont : g.kernel.cont p = .ret := by
      rw [hp]
      exact hi.life.idleCont c
    rw [hcont] at hk
    obtain rfl := Option.some.inj hk
    have hinv := hi.retFromKernel hrun
    exact hplain (by simp [hcont]) (by simp [hcont])
      ⟨q, hinv.lists, hinv.life, ho₀.ret hrun, fun _ => hinv⟩
  · obtain ⟨hready, hpid⟩ := hm.running_live hrun hp
    have hsus : g.kernel.Suspended p := fun d hd => by
      rw [hm.runs.distinct d c p (by simp) (by simp) hd hrun, hin]
    -- a task that was handed a mutex has it now
    have henter : ∀ m, (g.kernel.cont p).mutex = some m → g.kernel.Owners q
        (fun n x => g.holds n x = true ∨ n = m ∧ x = p) (some p) :=
      fun m hm' => ho.enter hm ⟨hready, hm', hsus, by simp⟩
    -- `do_mbox_send` and `do_mbox_recv` release it again
    have hgives : ∀ m, gives g.kernel (.resume c env) = some m →
        Monitor.takes g.kernel (.resume c env) = none →
        k'.Kept (fun n x => (g.holds n x = true ∨ n = m ∧ x = p) ∧ ¬ (n = m ∧ x = p)) →
        ∃ inside, k'.Kept inside ∧ ∀ m x, k'.pid x ≠ 0 → Records (fun m p => g.holds m p = true)
          (.resume c env) g.kernel k' m x → inside m x := by
      refine fun m hg ht hkept => ⟨_, hkept, fun n x _ hr => ?_⟩
      rcases hr with ⟨hx, hnot⟩ | hr
      · refine ⟨.inl hx, ?_⟩
        rintro ⟨rfl, rfl⟩
        exact hnot ⟨hg, hrun⟩
      · rw [ht] at hr
        cases hr.1
    cases hcont : g.kernel.cont p with
    | ret | waitpid =>
      rw [hcont] at hk
      obtain rfl := Option.some.inj hk
      exact hplain (by simp [hcont]) (by simp [hcont]) (hm.keptReturn ho₀ hrun hp)
    | mutexLockAcquire m =>
      rw [hcont] at hk
      obtain rfl := Option.some.inj hk
      refine ⟨_, hm.keptReturn (henter m (by rw [hcont]; rfl)) hrun hp, fun n x _ hr => ?_⟩
      rcases hr with hr | ⟨ht, hact, -⟩
      · exact .inl hr.1
      · simp only [Monitor.takes, hrun, Option.map_some, hcont, Option.some.injEq] at ht
        exact .inr ⟨ht.symm, (Option.some.inj (hrun.symm.trans hact)).symm⟩
    | conditionWait m =>
      rw [hcont] at hk
      have hk' : g.kernel.mutexLockAcquire c p m (.mutexLockAcquire m)
        (fun k => some (k.retFromKernel c)) = some k' := hk
      rcases hm.keptAcquire ho₀ hrun hp rfl hk' with
        ⟨hkept, hker⟩ | ⟨-, k₁, hk₁, hm₁, hrun₁, ho₁⟩
      · refine ⟨_, hkept, fun n x _ hr => ?_⟩
        rcases hr with hr | ⟨-, -, hnone⟩
        · exact hr.1
        · rw [hker] at hnone
          cases hnone
      · obtain rfl := Option.some.inj hk₁
        refine ⟨_, hm₁.keptReturn ho₁ (by rw [hrun₁, hrun]) hp, fun n x _ hr => ?_⟩
        rcases hr with hr | ⟨ht, hact, -⟩
        · exact .inl hr.1
        · simp only [Monitor.takes, hrun, Option.map_some, hcont, Option.some.injEq] at ht
          exact .inr ⟨ht.symm, (Option.some.inj (hrun.symm.trans hact)).symm⟩
    | mboxSendLocked i m msg =>
      refine hgives m ?_ (htakes (by simp [hcont]) (by simp [hcont]))
        (hm.keptMboxSendLocked (henter m (by rw [hcont]; rfl)) hrun hp (.inr ⟨rfl, rfl⟩)
          (by rwa [hcont] at hk))
      simp only [gives, hrun, Option.map_some, hcont]
    | mboxRecvLocked i m msgLength =>
      refine hgives m ?_ (htakes (by simp [hcont]) (by simp [hcont]))
        (hm.keptMboxRecvLocked (henter m (by rw [hcont]; rfl)) hrun hp (.inr ⟨rfl, rfl⟩)
          (by rwa [hcont] at hk))
      simp only [gives, hrun, Option.map_some, hcont]
    | mboxSendWoken i m msg =>
      exact hplain (by simp [hcont]) (by simp [hcont])
        (hm.keptMboxSend ho₀ hrun hp (by rwa [hcont] at hk))
    | mboxRecvWoken i m msgLength =>
      exact hplain (by simp [hcont]) (by simp [hcont])
        (hm.keptMboxRecv ho₀ hrun hp (by rwa [hcont] at hk))
    | netSend =>
      exact hplain (by simp [hcont]) (by simp [hcont])
        (hm.keptNetSend ho₀ hrun hp (by rwa [hcont] at hk))
    | netRecv left =>
      exact hplain (by simp [hcont]) (by simp [hcont])
        (hm.keptNetRecv ho₀ hrun hp (by rwa [hcont] at hk))
    | threadJoin thread next =>
      exact hplain (by simp [hcont]) (by simp [hcont])
        (hm.keptThreadJoin ho₀ hrun hp (by rwa [hcont] at hk))

end Steps

/-! ## Runs -/

/-- The invariant of a tenure run. -/
def Good (g : Tenure) : Prop := g.kernel.Kept fun m p => g.holds m p = true

section Runs

variable {g g' : Tenure} {k' : Kernel} {inside : Slot → Pcb → Prop} {e : Event}

/-- What a step leaves, as the record tells it. -/
lemma good_of_kept (hkept : k'.Kept inside) (hrec : ∀ m x, k'.pid x ≠ 0 →
      Records (fun m p => g.holds m p = true) e g.kernel k' m x → inside m x)
    (hk : g.kernel.step e = some k') (hs : g.step e = some g') : g'.Good := by
  rw [step, hk, Option.map_some, Option.some.injEq] at hs
  subst hs
  refine hkept.mono fun m x hx => ?_
  simp only [advance, decide_eq_true_eq] at hx
  exact hrec m x hx.1 hx.2

/-- A safe step keeps the invariant. -/
lemma Good.step (hg : g.Good) (he : g.Safe e) (hs : g.step e = some g') : g'.Good := by
  obtain ⟨q, hlists, hlife, ho, hinv⟩ := hg
  obtain ⟨k', hk, -⟩ := Option.map_eq_some_iff.1 hs
  have hk' := hk
  cases e with
  | trap c call env =>
    simp only [Kernel.step] at hk'
    split at hk'
    · rename_i hcond
      have hm := (hinv hcond.2).toMid
      split at hk'
      · cases hk'
      · rename_i p hrun
        split at hk'
        · rename_i hcall
          by_cases hp : p = idlePcb c
          · obtain rfl := hcall.resolve_right (not_not.2 hp)
            exact good_of_kept (hm.keptScheduler (ho.begin p) hrun hk')
              (fun m x _ hr => hr.same rfl) hk hs
          · obtain ⟨inside, hkept, hrec⟩ := keptHandle hm ho hrun hp (he p hrun) hk'
            exact good_of_kept hkept hrec hk hs
        · cases hk'
    · cases hk'
  | resume c env =>
    simp only [Kernel.step] at hk'
    split at hk'
    · rename_i hcond
      split at hk'
      · cases hk'
      · rename_i p hrun
        obtain ⟨inside, hkept, hrec⟩ := keptGoOn (hinv hcond.2) ho hrun hcond.1 hk'
        exact good_of_kept hkept hrec hk hs
    · cases hk'
  | slaveJoin =>
    simp only [Kernel.step] at hk'
    split at hk'
    · rename_i hcond
      have hi := hinv hcond.2.1
      obtain ⟨hinv', second, hsecond, heq⟩ := hi.slaveJoin hcond.2.2 hk'
      have ho' := ho.slaveJoin hi.toMid hcond.2.2 hsecond
      rw [← heq] at ho'
      exact good_of_kept ⟨q, hinv'.lists, hinv'.life, ho', fun _ => hinv'⟩
        (fun m x _ hr => hr.same rfl) hk hs
    · cases hk'

/-- A step that leads to a good state takes no mutex away. -/
lemma Good.keeps (hg : g'.Good) (hs : g.step e = some g') : g.Keeps e g' := by
  intro m t ht hactor hlive
  obtain ⟨q, hlists, hlife, ho, -⟩ := hg
  have hown : g'.holds m t = true := by
    obtain ⟨k', hk, rfl⟩ := Option.map_eq_some_iff.1 hs
    simp only [advance, decide_eq_true_eq]
    exact ⟨hlive, .inl ⟨ht, fun h => hactor h.2⟩⟩
  refine ⟨ho.locked m t (.inl hown), ho.pid m t (.inl hown), fun u hu => ?_⟩
  exact ho.unique m u t ((has_iff hlists hlife ho).1 hu) (.inl hown)

lemma boot_good (tasks : List (List UInt8)) : (boot tasks).Good := by
  have hi := boot_inv tasks
  have hready : ∀ h p, p ∈ bootQueues h → h = .readyQueue := by
    intro h p hp
    by_contra hh
    simp [bootQueues, hh] at hp
  have hno : ∀ m p, ¬ (boot tasks).kernel.Owns bootQueues
      (fun m p => (boot tasks).holds m p = true) none m p := by
    rintro m p (hp | ⟨-, hc, -⟩)
    · cases hp
    · cases hc
  exact ⟨bootQueues, hi.lists, hi.life, ⟨fun m p hp => absurd hp (hno m p),
    fun m p hp => absurd hp (hno m p), fun m p _ hp => absurd hp (hno m p),
    fun m p hp => absurd (.inl hp) (hno m p), fun m hm => absurd rfl hm,
    fun h p hp hh => absurd (hready h p hp) hh, fun h p hp hh => absurd (hready h p hp) hh⟩,
    fun _ => hi⟩

end Runs

/-- In every safe run, no safe step takes a mutex away from a task that holds it and
does not make the step. -/
theorem mutex_lost_only_by_owner {tasks : List (List UInt8)} {es : List Event} {g : Tenure}
    (hes : StepsMeet step Safe (boot tasks) es) (hrun : run step (boot tasks) es = some g)
    (e : Event) (g' : Tenure) (he : g.Safe e) (hs : g.step e = some g') : g.Keeps e g' := by
  have hg : g.Good := run_invariant (fun _ _ _ hg he hs => Good.step hg he hs) (boot_good tasks)
    hes hrun
  exact (hg.step he hs).keeps hs

/-- The shell acquires mutex 0 and gives the CPU to another task. -/
def strayRun : List Event :=
  [.trap 0 (.exec [104]) quietEnv, .trap 0 (.mutexLockAcquire 0) quietEnv, .trap 0 .yield quietEnv,
    .resume 0 quietEnv]

lemma strayRun_safe : StepsMeet step Safe (boot [[104]]) strayRun := by
  refine stepsMeet_cons (fun _ _ => trivial) fun _ _ => stepsMeet_cons (fun _ _ => trivial) ?_
  refine fun _ _ => stepsMeet_cons (fun _ _ => trivial) fun _ _ => stepsMeet_cons trivial ?_
  exact fun _ _ => stepsMeet_nil _ _

/-- The task acquires the mutex too, and blocks. -/
theorem mutex_lost_only_by_owner_strayRun :
    ∃ g g' : Tenure, run step (boot [[104]]) strayRun = some g ∧ g.holds 0 (.slot 0) = true ∧
      g.step (.trap 0 (.mutexLockAcquire 0) quietEnv) = some g' ∧
      g.Keeps (.trap 0 (.mutexLockAcquire 0) quietEnv) g' := by
  have hsome : ((run step (boot [[104]]) strayRun).bind fun g =>
      (g.step (.trap 0 (.mutexLockAcquire 0) quietEnv)).map fun _ => g.holds 0 (.slot 0)) =
      some true := by decide
  obtain ⟨g, hg, hsome⟩ := Option.bind_eq_some_iff.1 hsome
  obtain ⟨g', hg', hholds⟩ := Option.map_eq_some_iff.1 hsome
  exact ⟨g, g', hg, hholds, hg', mutex_lost_only_by_owner strayRun_safe hg _ g'
    (fun _ _ => trivial) hg'⟩

/-- The task releases the mutex of the shell. -/
theorem release_without_ownership : ¬ ∀ (tasks : List (List UInt8)) (es : List Event) (g : Tenure)
    (e : Event) (g' : Tenure), run step (boot tasks) es = some g → g.step e = some g' →
    g.Keeps e g' := by
  intro hall
  have hlost : ((run step (boot [[104]]) strayRun).bind fun g =>
      (g.step (.trap 0 (.mutexLockRelease 0) quietEnv)).map fun g' =>
        (g.holds 0 (.slot 0), decide (g.kernel.runnings 0 = some (.slot 1)),
          g'.kernel.pid (.slot 0), (g'.kernel.mlocks 0).locked)) =
      some (true, true, 1, false) := by decide
  obtain ⟨g, hg, hlost⟩ := Option.bind_eq_some_iff.1 hlost
  obtain ⟨g', hg', hlost⟩ := Option.map_eq_some_iff.1 hlost
  simp only [Prod.mk.injEq, decide_eq_true_eq] at hlost
  obtain ⟨hholds, hactor, hpid, hfree⟩ := hlost
  obtain ⟨hlocked, -⟩ := hall _ _ g _ g' hg hg' 0 (.slot 0) hholds
    (by rw [Monitor.actor, hactor]; decide) (by rw [hpid]; decide)
  rw [hfree] at hlocked
  cases hlocked

end Tenure
end Sched
end UcasKernel
