/-
Barriers over whole runs.

A barrier has a counter of arrivals and a list of the tasks that wait.  Only
`do_barrier_wait` touches both; other calls leave the list and the counter alone, as
long as no task that waits is killed: `release_pcb` takes a task off the list and does
not know of the counter.
-/
import UcasKernel.Lib.Keeps
import UcasKernel.Locking.Objects
import UcasKernel.Sched.Runs

namespace UcasKernel
namespace Sched

open Trace

namespace Kernel

/-! ## Reading a queue -/

/-- The PCBs from a node on. -/
def entriesFrom (k : Kernel) : ℕ → Option Node → List Pcb
  | n + 1, some (.inr p) => p :: k.entriesFrom n (k.links.next (.inr p))
  | _, _ => []

/-- The PCBs of a queue, in order. -/
def queue (k : Kernel) (h : Head) : List Pcb := k.entriesFrom loopBound (k.links.next (.inl h))

section Queue

variable {k : Kernel} {q : Head → List Pcb} {h : Head}

lemma Lists.queue_eq (hl : k.Lists q) (hi : k.links.Init h) : k.queue h = q h := by
  have hr := hl.repr
  have hloop : ∀ (n : ℕ) (kept rest : List Pcb), q h = kept ++ rest → rest.length < n →
      k.entriesFrom n (some ((rest.map Sum.inr).headD (.inl h))) = rest := by
    intro n
    induction n with
    | zero => intro kept rest hq hlen; omega
    | succ n ih =>
      intro kept rest hq hlen
      cases rest with
      | nil => rfl
      | cons p rest =>
        simp only [List.map_cons, List.headD_cons, entriesFrom, hr.next_entry hq]
        rw [ih (kept ++ [p]) rest (by rw [hq]; simp) (by rw [List.length_cons] at hlen; omega)]
  rw [queue, hr.next_head hi]
  exact hloop loopBound [] (q h) rfl (length_lt_loopBound hr h)

end Queue

/-! ## What does not touch a barrier -/

/-- The list and the counter of the barrier are as they were. -/
structure Same (b : Slot) (k : Kernel) (q : Head → List Pcb) (k' : Kernel) (q' : Head → List Pcb) :
    Prop where
  list : q' (.blockList b) = q (.blockList b)
  barrier : k'.barriers b = k.barriers b

/-- The step leads to the invariant and does not touch the barrier. -/
def Steady (b : Slot) (k : Kernel) (q : Head → List Pcb) (k' : Kernel) : Prop :=
  ∃ q', k'.Inv q' ∧ Same b k q k' q'

section Steady

variable {b : Slot} {k k₁ k' : Kernel} {q q₁ q' : Head → List Pcb} {out : Option Cpu}
  {gone : Option Pcb} {c : Cpu} {p : Pcb} {m : Slot}

lemma Same.refl : Same b k q k q := ⟨rfl, rfl⟩

lemma Same.trans (h : Same b k q k₁ q₁) (h' : Same b k₁ q₁ k' q') : Same b k q k' q' :=
  ⟨h'.list.trans h.list, h'.barrier.trans h.barrier⟩

lemma Steady.after (hs : Steady b k₁ q₁ k') (h : Same b k q k₁ q₁) : Steady b k q k' := by
  obtain ⟨q', hinv, hsame⟩ := hs
  exact ⟨q', hinv, h.trans hsame⟩

lemma SameObject.same (h : SameObject .barrier b k q k' q') : Same b k q k' q' :=
  ⟨h.list, h.barriers rfl⟩

lemma Wakes.same {from' : Head → Prop} (hw : Wakes from' k q k' q') (hfrom : ¬ from' .readyQueue)
    (hb : ¬ from' (.blockList b)) (hm : k.Mid q out gone) : Same b k q k' q' := by
  have hsame : SameObject .barrier b k q k' q' := hw.sameObject hfrom hb hm
  exact hsame.same

lemma Released.same (h : k.Released q m k' q') : Same b k q k' q' := by
  have hsame : SameObject .barrier b k q k' q' := h.sameObject (by simp [Kind.queue])
  exact hsame.same

lemma Mid.releaseMlocks_same (hm : k.Mid q out gone) (pid : ℤ) (ms : List Slot) :
    ∃ k' q', Kernel.releaseMlocks pid ms k = some k' ∧ k'.Mid q' out gone ∧ k.Quiet k' ∧
      Same b k q k' q' := by
  refine releaseMlocks_rule pid ms
    (P := fun _ k' q' => k'.Mid q' out gone ∧ k.Quiet k' ∧ Same b k q k' q')
    (fun _ _ _ _ hP _ => hP) (fun m _ k' q' hP _ => ?_) ⟨hm, Quiet.refl k, .refl⟩
  obtain ⟨k₁, q₁, hk₁, hm₁, hquiet₁, hrel⟩ := hP.1.mutexLockRelease m
  exact ⟨k₁, q₁, hk₁, hm₁, hP.2.1.trans hquiet₁, hP.2.2.trans hrel.same⟩

lemma retFromKernel_status (k : Kernel) (c : Cpu) : (k.retFromKernel c).status = k.status := by
  unfold Kernel.retFromKernel switchPgdir
  cases k.runnings c <;> rfl

lemma Inv.steadyReturns (hi : k.Inv q) (hrun : k.runnings c = some p) :
    Steady b k q (k.retFromKernel c) :=
  ⟨q, hi.retFromKernel hrun, rfl, congrFun (retFromKernel_eq k c).2.2 b⟩

lemma Mid.steadyReturns (hm : k.Mid q none none) (hrun : k.runnings c = some p)
    (hp : p ≠ idlePcb c) : Steady b k q (k.retFromKernel c) :=
  (hm.inv hrun hp).steadyReturns hrun

lemma Mid.steadyReturning {o : Option Kernel} (hrun : k.runnings c = some p) (hp : p ≠ idlePcb c)
    (ho : ∀ k', o = some k' →
      ∃ q', k'.Mid q' none none ∧ k'.runnings = k.runnings ∧ Same b k q k' q')
    (hk : Kernel.returning o c = some k') : Steady b k q k' := by
  obtain ⟨k₁, hk₁, rfl⟩ := Option.map_eq_some_iff.1 hk
  obtain ⟨q₁, hm₁, hrun₁, hsame⟩ := ho k₁ hk₁
  exact (hm₁.steadyReturns (p := p) (by rw [hrun₁, hrun]) hp).after hsame

lemma Mid.steadyBlocks {h : Head} {cont : Cont} (hm : k.Mid q none none)
    (hrun : k.runnings c = some p) (hp : p ≠ idlePcb c) (hh : ∀ r, h = .waitList r → k.pid r ≠ 0)
    (hb : h ≠ .blockList b) (hk : k.doBlock c p h cont = some k') : Steady b k q k' := by
  obtain ⟨L, r, hk₁, -, hinv⟩ := hm.doBlock cont hrun hp hh
  obtain rfl := Option.some.inj (hk.symm.trans hk₁)
  exact ⟨_, hinv, move_of_ne (by simp) hb.symm, rfl⟩

lemma Mid.steadyScheduler {env : Env} (hm : k.Mid q none none) (hrun : k.runnings c = some p)
    (hk : k.doScheduler c p env = some k') : Steady b k q k' := by
  obtain ⟨k₁, q₁, q₂, L, r, hw, hk₁, hq₂, -, hinv⟩ := hm.doScheduler hrun env
  obtain rfl := Option.some.inj (hk.symm.trans hk₁)
  have hsame : Same b k q k₁ q₁ := hw.same (by simp [Scanned]) (by simp [Scanned]) hm
  refine ⟨q₂, hinv, ?_, hsame.barrier⟩
  rcases hq₂ with ⟨-, rfl⟩ | ⟨-, rfl⟩
  · exact hsame.list
  · rw [move_of_ne (by simp) (by simp)]
    exact hsame.list

lemma Mid.steadyAcquire {cont : Cont} {next : Kernel → Option Kernel} (hm : k.Mid q none none)
    (hrun : k.runnings c = some p) (hp : p ≠ idlePcb c)
    (hnext : ∀ k₁ k', k₁.Mid q none none → k₁.runnings = k.runnings → next k₁ = some k' →
      Steady b k₁ q k')
    (hk : k.mutexLockAcquire c p m cont next = some k') : Steady b k q k' := by
  unfold Kernel.mutexLockAcquire at hk
  split at hk
  · exact hm.steadyBlocks hrun hp (by simp) (by simp) hk
  · exact (hnext _ k' (hm.setMlock m _) rfl hk).after ⟨rfl, rfl⟩

/-- Another barrier. -/
lemma Mid.steadyBarrierWait {b' : Slot} (hm : k.Mid q none none) (hrun : k.runnings c = some p)
    (hp : p ≠ idlePcb c) (hb : b' ≠ b) (hk : k.barrierWait c p b' = some k') :
    Steady b k q k' := by
  have hset : ∀ (k : Kernel) q bar, Same b k q (k.setBarrier b' bar) q := fun k q bar =>
    ⟨rfl, Function.update_of_ne hb.symm ..⟩
  have hm₁ := hm.setBarrier b' { k.barriers b' with current := (k.barriers b').current + 1 }
  simp only [Kernel.barrierWait] at hk
  split at hk
  · exact (hm₁.steadyBlocks hrun hp (by simp) (by simpa using hb) hk).after (hset ..)
  · obtain ⟨k₂, q₂, hk₂, hw, -⟩ := hm₁.unblockAll (h := .blockList b') (by simp) (by simp)
    obtain ⟨hm₂, hquiet₂⟩ := hw.mid (by simp) hm₁
    have hsame : Same b _ q k₂ q₂ := hw.same (by simp) (by simpa using hb.symm) hm₁
    rw [hk₂, Option.bind_eq_bind, Option.bind_some, Option.some.injEq] at hk
    subst hk
    exact ((hm₂.setBarrier b' _).steadyReturns (p := p)
      ((congrFun hquiet₂.runnings c).trans hrun) hp).after
        (((hset ..).trans hsame).trans (hset ..))

lemma Mid.steadyConditionWait {i : Slot} (hm : k.Mid q none none) (hrun : k.runnings c = some p)
    (hp : p ≠ idlePcb c) (hk : k.conditionWait c p i m = some k') : Steady b k q k' := by
  obtain ⟨k₁, q₁, hk₁, hm₁, hquiet₁, hrel⟩ := hm.mutexLockRelease m
  rw [Kernel.conditionWait, hk₁, Option.bind_eq_bind, Option.bind_some] at hk
  exact (hm₁.steadyBlocks ((congrFun hquiet₁.runnings c).trans hrun) hp (by simp) (by simp)
    hk).after hrel.same

lemma Mid.steadyTransfer {h : Head} (hm : k.Mid q none none) (hrun : k.runnings c = some p)
    (hp : p ≠ idlePcb c) (hne : h ≠ .readyQueue) (hh : ∀ r, h ≠ .waitList r)
    (hb : h ≠ .blockList b)
    (hk : (Kernel.unblockAll h loopBound k).bind (fun k => (k.mutexLockRelease m).bind
      fun k => some (k.retFromKernel c)) = some k') : Steady b k q k' := by
  obtain ⟨k₁, q₁, hk₁, hw, -⟩ := hm.unblockAll hne fun r hr => absurd hr (hh r)
  obtain ⟨hm₁, hquiet₁⟩ := hw.mid hne.symm hm
  obtain ⟨k₂, q₂, hk₂, hm₂, hquiet₂, hrel⟩ := hm₁.mutexLockRelease m
  rw [hk₁, Option.bind_some, hk₂, Option.bind_some, Option.some.injEq] at hk
  subst hk
  exact (hm₂.steadyReturns (p := p)
    ((congrFun (hquiet₂.runnings.trans hquiet₁.runnings) c).trans hrun) hp).after
      ((hw.same hne.symm hb.symm hm).trans hrel.same)

lemma Mid.steadyReleaseBlock {h : Head} {cont : Cont} (hm : k.Mid q none none)
    (hrun : k.runnings c = some p) (hp : p ≠ idlePcb c) (hh : ∀ r, h ≠ .waitList r)
    (hb : h ≠ .blockList b)
    (hk : (k.mutexLockRelease m).bind (fun k => k.doBlock c p h cont) = some k') :
    Steady b k q k' := by
  obtain ⟨k₁, q₁, hk₁, hm₁, hquiet₁, hrel⟩ := hm.mutexLockRelease m
  rw [hk₁, Option.bind_some] at hk
  exact (hm₁.steadyBlocks ((congrFun hquiet₁.runnings c).trans hrun) hp
    (fun r hr => absurd hr (hh r)) hb hk).after hrel.same

lemma Mid.steadySendLocked {i : Slot} {msg : List UInt8} (hm : k.Mid q none none)
    (hrun : k.runnings c = some p) (hp : p ≠ idlePcb c)
    (hk : k.mboxSendLocked c p i m msg = some k') : Steady b k q k' := by
  unfold Kernel.mboxSendLocked at hk
  split at hk
  · exact ((hm.setMailbox i _).steadyTransfer (h := .recvList i) hrun hp (by simp) (by simp)
      (by simp) hk).after ⟨rfl, rfl⟩
  · exact hm.steadyReleaseBlock hrun hp (by simp) (by simp) hk

lemma Mid.steadyRecvLocked {i : Slot} {n : ℕ} (hm : k.Mid q none none)
    (hrun : k.runnings c = some p) (hp : p ≠ idlePcb c)
    (hk : k.mboxRecvLocked c p i m n = some k') : Steady b k q k' := by
  unfold Kernel.mboxRecvLocked at hk
  split at hk
  · exact ((hm.setMailbox i _).steadyTransfer (h := .sendList i) hrun hp (by simp) (by simp)
      (by simp) hk).after ⟨rfl, rfl⟩
  · exact hm.steadyReleaseBlock hrun hp (by simp) (by simp) hk

lemma Mid.steadySend {i : Slot} {msg : List UInt8} (hm : k.Mid q none none)
    (hrun : k.runnings c = some p) (hp : p ≠ idlePcb c) (hk : k.mboxSend c p i m msg = some k') :
    Steady b k q k' :=
  hm.steadyAcquire hrun hp
    (fun _ _ hm₁ hrun₁ hk₁ => hm₁.steadySendLocked (by rw [hrun₁, hrun]) hp hk₁) hk

lemma Mid.steadyRecv {i : Slot} {n : ℕ} (hm : k.Mid q none none)
    (hrun : k.runnings c = some p) (hp : p ≠ idlePcb c) (hk : k.mboxRecv c p i m n = some k') :
    Steady b k q k' :=
  hm.steadyAcquire hrun hp
    (fun _ _ hm₁ hrun₁ hk₁ => hm₁.steadyRecvLocked (by rw [hrun₁, hrun]) hp hk₁) hk

lemma Mid.same_mboxOpen {name : List UInt8} (hm : k.Mid q none none)
    (hk : k.mboxOpen name = some k') :
    ∃ q', k'.Mid q' none none ∧ k'.runnings = k.runnings ∧ Same b k q k' q' := by
  obtain ⟨hm', hrun, -⟩ := hm.mboxOpen hk
  refine ⟨q, hm', hrun, rfl, ?_⟩
  have hkeep : Keeps (fun k => k.barriers b) k (k.mboxOpen name) := by
    unfold Kernel.mboxOpen
    split
    · exact .some rfl
    · split
      · exact .ite (.some rfl) .none
      · exact .some rfl
  exact hkeep k' hk

lemma Mid.same_mboxClose {i : Slot} (hm : k.Mid q none none) (hk : k.mboxClose i = some k') :
    ∃ q', k'.Mid q' none none ∧ k'.runnings = k.runnings ∧ Same b k q k' q' := by
  have hm₁ := hm.setMailbox i { k.mailboxes i with ref := (k.mailboxes i).ref - 1 }
  simp only [Kernel.mboxClose] at hk
  split at hk
  · obtain ⟨m, -, hk⟩ := Option.bind_eq_some_iff.1 hk
    obtain ⟨k₂, q₂, hk₂, hm₂, hquiet₂, hrel⟩ := hm₁.mutexLockRelease m
    rw [hk₂, Option.bind_eq_bind, Option.bind_some, Option.some.injEq] at hk
    subst hk
    have hsame : Same b (k.setMailbox i { k.mailboxes i with ref := (k.mailboxes i).ref - 1 }) q
        k₂ q₂ := hrel.same
    exact ⟨q₂, hm₂.setMailbox i _, hquiet₂.runnings, hsame.list, hsame.barrier⟩
  · obtain rfl := Option.some.inj hk
    exact ⟨q, hm₁, rfl, rfl, rfl⟩

lemma Mid.steadyNetSend {env : Env} (hm : k.Mid q none none) (hrun : k.runnings c = some p)
    (hp : p ≠ idlePcb c) (hk : k.netSend c p env = some k') : Steady b k q k' := by
  unfold Kernel.netSend at hk
  split at hk
  · obtain rfl := Option.some.inj hk
    exact hm.steadyReturns hrun hp
  · exact hm.steadyBlocks hrun hp (by simp) (by simp) hk

lemma Mid.steadyNetRecv {env : Env} {left i : ℕ} (hm : k.Mid q none none)
    (hrun : k.runnings c = some p) (hp : p ≠ idlePcb c)
    (hk : Kernel.netRecv c p env left i k = some k') : Steady b k q k' := by
  induction left generalizing i with
  | zero =>
    obtain rfl := Option.some.inj hk
    exact hm.steadyReturns hrun hp
  | succ left ih =>
    rw [Kernel.netRecv] at hk
    split at hk
    · exact ih hk
    · exact hm.steadyBlocks hrun hp (by simp) (by simp) hk

lemma Mid.steadyThreadJoin {thread : ℤ} {n : ℕ} {node : Option Node} (hm : k.Mid q none none)
    (hrun : k.runnings c = some p) (hp : p ≠ idlePcb c)
    (hk : Kernel.threadJoinLoop c p thread n node k = some k') : Steady b k q k' := by
  induction n generalizing node with
  | zero => cases hk
  | succ n ih =>
    match node with
    | none => cases hk
    | some (.inl h) =>
      rw [Kernel.threadJoinLoop] at hk
      split at hk
      · obtain rfl := Option.some.inj hk
        exact hm.steadyReturns hrun hp
      · cases hk
    | some (.inr r) =>
      simp only [Kernel.threadJoinLoop] at hk
      split at hk
      · rename_i hfound
        refine hm.steadyBlocks hrun hp (fun r' hr' => ?_) (by simp) hk
        obtain rfl := Head.waitList.inj hr'
        rw [hfound.1]
        exact (hm.running_live hrun hp).2
      · exact ih hk

/-- `release_pcb` of a PCB that does not wait on the barrier. -/
lemma Mid.releasePcb_same {i : Slot} (hm : k.Mid q none none) (hpid : k.pid (.slot i) ≠ 0)
    (hout : out = none ∧ (∀ c, k.runnings c ≠ some (.slot i)) ∨
      ∃ c, out = some c ∧ k.runnings c = some (.slot i))
    (hb : .slot i ∉ q (.blockList b)) :
    ∃ k' q', k.releasePcb (.slot i) = some k' ∧ k'.Mid q' out (some (.slot i)) ∧
      q' (.waitList (.slot i)) = [] ∧ k'.pid = k.pid ∧ k'.runnings = k.runnings ∧
      Same b k q k' q' := by
  obtain ⟨h, hp⟩ := (hm.life.live (.slot i) (by simp)).1 hpid
  obtain ⟨L, hL, hm₁⟩ := hm.remove hp hout
  have hne : Head.blockList b ≠ h := by
    rintro rfl
    exact hb hp
  have hsame₁ : Same b k q (k.retire (.slot i) L)
      (Function.update q h ((q h).erase (.slot i))) := ⟨Function.update_of_ne hne _ _, rfl⟩
  obtain ⟨k₂, q₂, hk₂, hm₂, hquiet₂, hsame₂⟩ :=
    hm₁.releaseMlocks_same (b := b) (k.pid (.slot i)) (List.finRange 16)
  obtain ⟨k₃, q₃, hk₃, hw, hempty⟩ := hm₂.unblockAll (h := .waitList (.slot i)) (by simp)
    (fun r hr => by
      obtain rfl := Head.waitList.inj hr
      rw [hquiet₂.pid]
      exact hpid)
  obtain ⟨hm₃, hquiet₃⟩ := hw.mid (by simp) hm₂
  refine ⟨k₃, q₃, ?_, hm₃, hempty, hquiet₃.pid.trans hquiet₂.pid,
    hquiet₃.runnings.trans hquiet₂.runnings,
    (hsame₁.trans hsame₂).trans (hw.same (by simp) (by simp) hm₂)⟩
  rw [releasePcb_eq hL, hk₂, Option.bind_some, hk₃]

lemma Mid.steadyExit {i : Slot} (hm : k.Mid q none none) (hpid : k.pid (.slot i) ≠ 0)
    (hrun : k.runnings c = some (.slot i)) (halone : k.Alone (.slot i))
    (hb : .slot i ∉ q (.blockList b)) (hk : k.doExit c (.slot i) = some k') :
    Steady b k q k' := by
  obtain ⟨k₁, q₁, hk₁, hm₁, hempty, hpid₁, -, hsame⟩ :=
    hm.releasePcb_same hpid (.inr ⟨c, rfl, hrun⟩) hb
  have hpid₁' : k₁.pid (.slot i) ≠ 0 := by rwa [hpid₁]
  have hlast := hm₁.threads_eq_zero hpid₁' (by
    intro j hj
    rw [hpid₁] at hj
    exact halone j hj)
  obtain ⟨r, -, hk', hinv⟩ := hm₁.exitRest hk₁ hpid₁' hempty hlast
  obtain rfl := Option.some.inj (hk.symm.trans hk')
  exact ⟨q₁, hinv, hsame.list, hsame.barrier⟩

/-- `do_kill` of a PCB that does not run and does not wait on the barrier, the last one of
its process or not. -/
lemma Mid.steadyKill {i : Slot} {pid n : ℤ} (hm : k.Mid q none none) (hpid : pid ≠ 0)
    (hfind : k.findPid pid = some i) (hnorun : ∀ c, k.runnings c ≠ some (.slot i))
    (hb : .slot i ∉ q (.blockList b)) (hk : k.doKill pid = some (n, k')) :
    ∃ q', k'.Mid q' none none ∧ k'.runnings = k.runnings ∧ Same b k q k' q' := by
  have hpid' : k.pid (.slot i) ≠ 0 := by rwa [findPid_spec hfind]
  obtain ⟨k₁, q₁, hk₁, hm₁, hempty, hpid₁, hrun₁, hsame⟩ :=
    hm.releasePcb_same hpid' (.inl ⟨rfl, hnorun⟩) hb
  have hpid₁' : k₁.pid (.slot i) ≠ 0 := by rwa [hpid₁]
  simp only [Kernel.doKill, hfind, hk₁, Option.bind_eq_bind, Option.bind_some, Option.some.injEq,
    Prod.mk.injEq] at hk
  obtain ⟨-, rfl⟩ := hk
  split
  · rename_i hlast
    exact ⟨q₁, hm₁.clearPid hpid₁' hempty hlast, hrun₁, hsame.list, hsame.barrier⟩
  · exact ⟨q₁, hm₁.dropPid hempty, hrun₁, hsame.list, hsame.barrier⟩

end Steady

/-! ## The barrier itself -/

/-- A call of the task `p` that leaves a barrier in use alone: it does not initialise it
again or destroy it, and does not kill a task that waits on it; nor does it break the
queues. -/
def BarrierCall (k : Kernel) (b : Slot) (p : Pcb) : Call → Prop
  | .barrierInit key _ => slotOf (key.tmod 16) ≠ some b
  | .barrierDestroy idx => ∀ b', slotOf idx = some b' →
      b' ≠ b ∧ k.isQueueEmpty (.blockList b') = true
  | .kill pid => pid ≠ 0 ∧ ∀ i, k.findPid pid = some i →
      .slot i ∉ k.queue (.blockList b) ∧ ∀ c, k.runnings c ≠ some (.slot i)
  | .exit => k.Alone p
  | .waitpid pid => pid ≠ 0
  | _ => True

/-- The step does not disturb the barrier. -/
def Undisturbed (b : Slot) (k : Kernel) : Event → Prop
  | .trap c call _ => ∀ p, k.runnings c = some p → k.BarrierCall b p call
  | _ => True

/-- The barrier was initialised with a goal, and nobody has come to it yet. -/
structure Initialised (b : Slot) (g : ℤ) (k : Kernel) : Prop where
  inv : ∃ q, k.Inv q
  queue : k.queue (.blockList b) = []
  barrier : k.barriers b = ⟨0, g⟩

/-- The counter is the number of the tasks on the list, and the goal is not reached. -/
structure Agree (b : Slot) (g : ℤ) (k : Kernel) : Prop where
  current : (k.barriers b).current = (k.queue (.blockList b)).length
  lt : (k.barriers b).current < g

/-- The step from `k` to `k'` opens the barrier: with the task that calls it, `g` live tasks
have come, and those that waited go to the ready queue in the order of their arrival. -/
structure Opens (b : Slot) (g : ℤ) (k : Kernel) (e : Event) (k' : Kernel) : Prop where
  call : ∃ c p idx env, e = .trap c (.barrierWait idx) env ∧ slotOf idx = some b ∧
    k.runnings c = some p ∧ k.pid p ≠ 0 ∧ p ∉ k.queue (.blockList b)
  arrived : (k.queue (.blockList b)).length + 1 = g
  live : ∀ r ∈ k.queue (.blockList b), k.pid r ≠ 0
  ready : k'.queue .readyQueue = k.queue .readyQueue ++ k.queue (.blockList b)
  status : ∀ r ∈ k.queue (.blockList b), k'.status r = .ready
  restart : k'.queue (.blockList b) = [] ∧ (k'.barriers b).current = 0

/-- Nobody leaves the list, unless the barrier opens. -/
def Round (b : Slot) (g : ℤ) (k : Kernel) (e : Event) (k' : Kernel) : Prop :=
  (∃ l, k'.queue (.blockList b) = k.queue (.blockList b) ++ l) ∨ Opens b g k e k'

section Rounds

variable {b : Slot} {g : ℤ} {k k' : Kernel} {q : Head → List Pcb} {c : Cpu} {p : Pcb} {e : Event}
  {h : Head}

/-- Waking all PCBs of a queue moves them to the ready queue in order. -/
lemma Mid.unblockAll_order {out : Option Cpu} {gone : Option Pcb} (hm : k.Mid q out gone)
    (hne : h ≠ .readyQueue) (hh : ∀ r, h = .waitList r → k.pid r ≠ 0) :
    ∃ k', Kernel.unblockAll h loopBound k = some k' ∧ k.Quiet k' ∧ k'.barriers = k.barriers ∧
      k'.Mid (Function.update (Function.update q h []) .readyQueue (q .readyQueue ++ q h)) out
        gone ∧ ∀ p, k.status p = .ready ∨ p ∈ q h → k'.status p = .ready := by
  have hlen := length_lt_loopBound hm.lists.repr h
  generalize loopBound = n at hlen ⊢
  induction n generalizing k q with
  | zero => omega
  | succ n ih =>
    rw [Kernel.unblockAll]
    have hi := hm.init hh
    by_cases hempty : q h = []
    · rw [if_pos ((isQueueEmpty_iff hm.lists.repr hi).2 hempty)]
      refine ⟨k, rfl, Quiet.refl k, rfl, ?_, fun p hp => hp.resolve_right (by simp [hempty])⟩
      rw [hempty, List.append_nil, ← hempty, Function.update_eq_self, Function.update_eq_self]
      exact hm
    · rw [if_neg fun hc => hempty ((isQueueEmpty_iff hm.lists.repr hi).1 hc)]
      obtain ⟨p, l, hq⟩ := List.exists_cons_of_ne_nil hempty
      have hp : p ∈ q h := by rw [hq]; exact List.mem_cons_self
      obtain ⟨L, hL, hm'⟩ := hm.doUnblock hp hne
      have hfrom : move q p h .readyQueue h = l := by
        rw [move_from hne, hq, List.erase_cons_head]
      obtain ⟨k', hk', hquiet, hbar, hm'', hstatus⟩ := ih hm' hh (by
        rw [hfrom]
        rw [hq, List.length_cons] at hlen
        omega)
      have hquiet₁ : k.Quiet { k.setStatus p .ready with links := L } := rfl
      refine ⟨k', ?_, hquiet₁.trans hquiet, hbar, ?_, fun x hx => hstatus x ?_⟩
      · simp only [firstEntry_spec hm.lists.repr hq, hL, hk', Option.bind_eq_bind,
          Option.bind_some]
      · have heq : Function.update (Function.update (move q p h .readyQueue) h []) .readyQueue
            (move q p h .readyQueue .readyQueue ++ move q p h .readyQueue h) =
            Function.update (Function.update q h []) .readyQueue (q .readyQueue ++ q h) := by
          funext x
          by_cases hx : x = .readyQueue
          · subst hx
            rw [Function.update_self, Function.update_self, hfrom, move_to hne.symm, hq]
            simp
          · rw [Function.update_of_ne hx, Function.update_of_ne hx]
            by_cases hxh : x = h
            · rw [hxh, Function.update_self, Function.update_self]
            · rw [Function.update_of_ne hxh, Function.update_of_ne hxh, move_of_ne hxh hx]
        rwa [heq] at hm''
      · by_cases hxp : x = p
        · exact .inl (by rw [hxp]; exact Function.update_self ..)
        · refine hx.imp (fun hx => ?_) fun hx => ?_
          · exact (Function.update_of_ne hxp _ _).trans hx
          · rw [hfrom]
            rw [hq, List.mem_cons] at hx
            exact hx.resolve_left hxp

/-- What `Agree` says in terms of the queues. -/
def AgreeQ (b : Slot) (g : ℤ) (k : Kernel) (q : Head → List Pcb) : Prop :=
  k.barriers b = ⟨(q (.blockList b)).length, g⟩ ∧ ((q (.blockList b)).length : ℤ) < g

lemma Mid.queue_eq {out : Option Cpu} {gone : Option Pcb} (hm : k.Mid q out gone)
    (hh : ∀ r, h ≠ .waitList r) : k.queue h = q h :=
  hm.lists.queue_eq (hm.lists.init h hh)

lemma AgreeQ.agree (ha : AgreeQ b g k q) (hm : k.Mid q none none) : k.Agree b g := by
  have hq : k.queue (.blockList b) = q (.blockList b) := hm.queue_eq (by simp)
  exact ⟨by rw [hq, ha.1], by rw [ha.1]; exact ha.2⟩

/-- A step that leads to `q'` without touching the barrier. -/
lemma Steady.round (hs : Steady b k q k') (hm : k.Mid q none none) (ha : AgreeQ b g k q) :
    ∃ q', k'.Inv q' ∧ AgreeQ b g k' q' ∧ Round b g k e k' := by
  obtain ⟨q', hinv, hsame⟩ := hs
  refine ⟨q', hinv, ?_, .inl ⟨[], ?_⟩⟩
  · rw [AgreeQ, hsame.barrier, hsame.list]
    exact ha
  · rw [hinv.queue_eq (by simp), hm.queue_eq (by simp), hsame.list, List.append_nil]

/-- A task comes to the barrier: it waits, or it opens it. -/
lemma Mid.barrierRound {idx : ℤ} {env : Env} (hm : k.Mid q none none) (hrun : k.runnings c = some p)
    (hp : p ≠ idlePcb c) (hidx : slotOf idx = some b) (ha : AgreeQ b g k q)
    (hk : k.barrierWait c p b = some k') :
    ∃ q', k'.Inv q' ∧ AgreeQ b g k' q' ∧ Round b g k (.trap c (.barrierWait idx) env) k' := by
  have hqb : k.queue (.blockList b) = q (.blockList b) := hm.queue_eq (by simp)
  obtain ⟨hready, hpid⟩ := hm.running_live hrun hp
  have hnot : p ∉ q (.blockList b) := fun hmem => by
    simpa using hm.lists.repr.disjoint _ _ p hready hmem
  have hm₁ := hm.setBarrier b { k.barriers b with current := (k.barriers b).current + 1 }
  simp only [Kernel.barrierWait] at hk
  rw [ha.1] at hk hm₁
  simp only at hk hm₁
  split at hk
  · rename_i hlt
    obtain ⟨L, r, hk₁, -, hinv⟩ := hm₁.doBlock (h := .blockList b) .ret hrun hp (by simp)
    obtain rfl := Option.some.inj (hk.symm.trans hk₁)
    have hto : move q p .readyQueue (.blockList b) (.blockList b) = q (.blockList b) ++ [p] :=
      move_to (by simp)
    refine ⟨_, hinv, ⟨?_, ?_⟩, .inl ⟨[p], ?_⟩⟩
    · rw [hto, List.length_append, List.length_singleton, Nat.cast_add, Nat.cast_one]
      exact Function.update_self ..
    · rw [hto, List.length_append, List.length_singleton]
      push_cast
      exact hlt
    · rw [hinv.queue_eq (by simp), hto, hqb]
  · rename_i hge
    have hg : ((q (.blockList b)).length : ℤ) + 1 = g := by
      have := ha.2
      omega
    obtain ⟨k₂, hk₂, hquiet, hbar, hm₂, hstatus⟩ :=
      hm₁.unblockAll_order (h := .blockList b) (by simp) (by simp)
    rw [hk₂, Option.bind_eq_bind, Option.bind_some, Option.some.injEq] at hk
    subst hk
    have hrun₂ : (k₂.setBarrier b { k₂.barriers b with current := 0 }).runnings c = some p :=
      (congrFun hquiet.runnings c).trans hrun
    have hinv := (hm₂.setBarrier b { k₂.barriers b with current := 0 }).retFromKernel hrun₂ hp
    have hbar' : ((k₂.setBarrier b { k₂.barriers b with current := 0 }).retFromKernel c).barriers b
        = ⟨0, g⟩ := by
      have hb : k₂.barriers b = ⟨(q (.blockList b)).length + 1, g⟩ := by
        rw [hbar]
        exact Function.update_self ..
      rw [(retFromKernel_eq _ c).2.2]
      refine (Function.update_self ..).trans ?_
      rw [hb]
    refine ⟨_, hinv, ⟨?_, ?_⟩, .inr ⟨⟨c, p, idx, env, rfl, hidx, hrun, hpid, by rwa [hqb]⟩,
      by rw [hqb]; exact hg, fun r hr => ?_, ?_, fun r hr => ?_, ?_, by rw [hbar']⟩⟩
    · rw [hbar']
      simp
    · simp only [Function.update_of_ne (show Head.blockList b ≠ .readyQueue by simp),
        Function.update_self, List.length_nil, Nat.cast_zero]
      omega
    · rw [hqb] at hr
      exact (hm.life.live r (by simp)).2 ⟨_, hr⟩
    · rw [hinv.queue_eq (by simp), Function.update_self, hm.queue_eq (by simp), hqb]
    · rw [hqb] at hr
      rw [retFromKernel_status]
      exact hstatus r (.inr hr)
    · rw [hinv.queue_eq (by simp), Function.update_of_ne (by simp), Function.update_self]

/-- A trap of a task that is not idle. -/
lemma Mid.roundHandle {env : Env} {call : Call} (hm : k.Mid q none none)
    (hrun : k.runnings c = some p) (hp : p ≠ idlePcb c) (hcall : k.BarrierCall b p call)
    (ha : AgreeQ b g k q) (hk : k.handle c p env call = some k') :
    ∃ q', k'.Inv q' ∧ AgreeQ b g k' q' ∧ Round b g k (.trap c call env) k' := by
  obtain ⟨hready, hpid⟩ := hm.running_live hrun hp
  have hnot : p ∉ q (.blockList b) := fun hmem => by
    simpa using hm.lists.repr.disjoint _ _ p hready hmem
  have hquiet : ∀ {k₂ : Kernel} {q₂ : Head → List Pcb}, k₂.Mid q₂ none none → k.Quiet k₂ →
      Same b k q k₂ q₂ → ∃ q', k₂.Mid q' none none ∧ k₂.runnings = k.runnings ∧
        Same b k q k₂ q' := fun hm₂ hquiet hsame => ⟨_, hm₂, hquiet.runnings, hsame⟩
  cases call with
  | barrierWait idx =>
    obtain ⟨b', hb', hk⟩ := Option.bind_eq_some_iff.1 hk
    by_cases hbb : b' = b
    · subst hbb
      exact hm.barrierRound hrun hp hb' ha hk
    · exact (hm.steadyBarrierWait hrun hp hbb hk).round hm ha
  | irqTimer => exact (hm.steadyScheduler hrun hk).round hm ha
  | yield => exact (hm.steadyScheduler hrun hk).round hm ha
  | sleep sleepTime =>
    have hk' : Kernel.doBlock { k with
        wakeupTime := Function.update k.wakeupTime p (env.clock 0 + sleepTime) } c p .sleepQueue
        .ret = some k' := hk
    have hsteady := (hm.setWakeup (Function.update k.wakeupTime p _)).steadyBlocks (b := b) hrun
      hp (by simp) (by simp) hk'
    have hsteady' : Steady b k q k' := hsteady.after ⟨rfl, rfl⟩
    exact hsteady'.round hm ha
  | exec name =>
    refine (Mid.steadyReturning hrun hp (fun k₁ hk₁ => ?_) hk).round hm ha
    rcases hm.createPcb hk₁ with rfl | ⟨i, L, -, rfl, hm₁⟩
    · exact ⟨q, hm, rfl, .refl⟩
    · exact ⟨_, hm₁, rfl, Function.update_of_ne (by simp) _ _, rfl⟩
  | exit =>
    obtain ⟨i, rfl⟩ := hm.lists.slots _ _ hready
    exact (hm.steadyExit hpid hrun hcall hnot hk).round hm ha
  | kill pid =>
    refine (Mid.steadyReturning hrun hp (fun k₁ hk₁ => ?_) hk).round hm ha
    obtain ⟨⟨n, k₂⟩, hk₂, rfl⟩ := Option.map_eq_some_iff.1 hk₁
    cases hfind : k.findPid pid with
    | none =>
      rw [Kernel.doKill, hfind, Option.some.injEq, Prod.mk.injEq] at hk₂
      obtain ⟨-, rfl⟩ := hk₂
      exact ⟨q, hm, rfl, .refl⟩
    | some i =>
      obtain ⟨hb, hnorun⟩ := hcall.2 i hfind
      rw [hm.queue_eq (by simp)] at hb
      exact hm.steadyKill hcall.1 hfind hnorun hb hk₂
  | waitpid pid =>
    have hk' : k.doWaitpid c p pid = some k' := hk
    unfold Kernel.doWaitpid at hk'
    split at hk'
    · obtain rfl := Option.some.inj hk'
      exact (hm.steadyReturns hrun hp).round hm ha
    · rename_i i hi
      refine (hm.steadyBlocks hrun hp (fun r hr => ?_) (by simp) hk').round hm ha
      obtain rfl := Head.waitList.inj hr
      have hpid0 : pid ≠ 0 := hcall
      rwa [findPid_spec hi]
  | threadCreate =>
    refine (Mid.steadyReturning hrun hp (fun k₁ hk₁ => ?_) hk).round hm ha
    unfold Kernel.doThreadCreate at hk₁
    split at hk₁
    · obtain rfl := Option.some.inj hk₁
      exact ⟨q, hm, rfl, .refl⟩
    · rename_i i hi
      have hl := hm.life
      obtain ⟨L, hL, hm'⟩ := hm.initPcb i (k.pid p) (k.pgdir p) (findUnusedPcb_spec hi)
        (hl.pidRange p hpid) ⟨hl.pgdirPos p hpid, hl.pgdirLt p⟩ (hl.pgdirLive p (by simp) hpid)
        (fun r hr heq => hl.pgdirPid r p hr hpid heq)
      obtain rfl := Option.some.inj (hk₁.symm.trans hL)
      exact ⟨_, hm', rfl, Function.update_of_ne (by simp) _ _, rfl⟩
  | threadJoin thread => exact (hm.steadyThreadJoin hrun hp hk).round hm ha
  | mutexLockAcquire idx =>
    obtain ⟨m, -, hk⟩ := Option.bind_eq_some_iff.1 hk
    refine (hm.steadyAcquire hrun hp (fun k₁ k₂ hm₁ hrun₁ hk₁ => ?_) hk).round hm ha
    obtain rfl := Option.some.inj hk₁
    exact hm₁.steadyReturns (p := p) (by rw [hrun₁, hrun]) hp
  | mutexLockRelease idx =>
    obtain ⟨m, -, hk⟩ := Option.bind_eq_some_iff.1 hk
    refine (Mid.steadyReturning hrun hp (fun k₁ hk₁ => ?_) hk).round hm ha
    obtain ⟨k₂, q₂, hk₂, hm₂, hquiet₂, hrel⟩ := hm.mutexLockRelease m
    obtain rfl := Option.some.inj (hk₁.symm.trans hk₂)
    exact hquiet hm₂ hquiet₂ hrel.same
  | barrierInit key goal =>
    refine (Mid.steadyReturning hrun hp (fun k₁ hk₁ => ?_) hk).round hm ha
    obtain ⟨b', hb', hk₁⟩ := Option.bind_eq_some_iff.1 hk₁
    obtain rfl := Option.some.inj hk₁
    refine ⟨q, hm.setBarrier b' _, rfl, rfl, Function.update_of_ne ?_ _ _⟩
    rintro rfl
    exact hcall hb'
  | barrierDestroy idx =>
    obtain ⟨b', hb', hk⟩ := Option.bind_eq_some_iff.1 hk
    refine (Mid.steadyReturning hrun hp (fun k₁ hk₁ => ?_) hk).round hm ha
    have hempty : (k.setBarrier b' { k.barriers b' with current := 0 }).isQueueEmpty
        (.blockList b') = true := (hcall b' hb').2
    rw [Kernel.barrierDestroy, loopBound, deleteAll, if_pos hempty, Option.some.injEq] at hk₁
    subst hk₁
    exact ⟨q, hm.setBarrier b' _, rfl, rfl, Function.update_of_ne (hcall b' hb').1.symm _ _⟩
  | conditionWait condIdx mutexIdx =>
    obtain ⟨i, -, hk⟩ := Option.bind_eq_some_iff.1 hk
    obtain ⟨m, -, hk⟩ := Option.bind_eq_some_iff.1 hk
    exact (hm.steadyConditionWait hrun hp hk).round hm ha
  | conditionSignal idx =>
    obtain ⟨i, -, hk⟩ := Option.bind_eq_some_iff.1 hk
    refine (Mid.steadyReturning hrun hp (fun k₁ hk₁ => ?_) hk).round hm ha
    obtain ⟨k₂, q₂, hk₂, hw⟩ := hm.conditionSignal i
    obtain ⟨hm₂, hquiet₂⟩ := hw.mid (by simp) hm
    obtain rfl := Option.some.inj (hk₁.symm.trans hk₂)
    exact hquiet hm₂ hquiet₂ (hw.same (by simp) (by simp) hm)
  | conditionBroadcast idx | conditionDestroy idx =>
    obtain ⟨i, -, hk⟩ := Option.bind_eq_some_iff.1 hk
    refine (Mid.steadyReturning hrun hp (fun k₁ hk₁ => ?_) hk).round hm ha
    obtain ⟨k₂, q₂, hk₂, hw⟩ := hm.conditionBroadcast i
    obtain ⟨hm₂, hquiet₂⟩ := hw.mid (by simp) hm
    obtain rfl := Option.some.inj (hk₁.symm.trans hk₂)
    exact hquiet hm₂ hquiet₂ (hw.same (by simp) (by simp) hm)
  | mboxOpen name =>
    exact (Mid.steadyReturning hrun hp (fun k₁ hk₁ => hm.same_mboxOpen hk₁) hk).round hm ha
  | mboxClose idx =>
    obtain ⟨i, -, hk⟩ := Option.bind_eq_some_iff.1 hk
    exact (Mid.steadyReturning hrun hp (fun k₁ hk₁ => hm.same_mboxClose hk₁) hk).round hm ha
  | mboxSend idx msg =>
    obtain ⟨i, -, hk⟩ := Option.bind_eq_some_iff.1 hk
    obtain ⟨m, -, hk⟩ := Option.bind_eq_some_iff.1 hk
    exact (hm.steadySend hrun hp hk).round hm ha
  | mboxRecv idx msgLength =>
    obtain ⟨i, -, hk⟩ := Option.bind_eq_some_iff.1 hk
    obtain ⟨m, -, hk⟩ := Option.bind_eq_some_iff.1 hk
    exact (hm.steadyRecv hrun hp hk).round hm ha
  | netSend => exact (hm.steadyNetSend hrun hp hk).round hm ha
  | netRecv pktNum => exact (hm.steadyNetRecv hrun hp hk).round hm ha

/-- The task switched to goes on; no continuation is at a barrier. -/
lemma Inv.roundGoOn {env : Env} (hi : k.Inv q) (hrun : k.runnings c = some p)
    (ha : AgreeQ b g k q) (hk : k.goOn c p env (k.cont p) = some k') :
    ∃ q', k'.Inv q' ∧ AgreeQ b g k' q' ∧ Round b g k (.resume c env) k' := by
  have hm := hi.toMid
  by_cases hp : p = idlePcb c
  · have hcont : k.cont p = .ret := by
      rw [hp]
      exact hi.life.idleCont c
    rw [hcont] at hk
    obtain rfl := Option.some.inj hk
    exact (hi.steadyReturns hrun).round hm ha
  · cases hcont : k.cont p with
    | ret | waitpid | mutexLockAcquire =>
      rw [hcont] at hk
      obtain rfl := Option.some.inj hk
      exact (hi.steadyReturns hrun).round hm ha
    | conditionWait m =>
      rw [hcont] at hk
      have hk' : k.mutexLockAcquire c p m (.mutexLockAcquire m)
        (fun k => some (k.retFromKernel c)) = some k' := hk
      refine (hm.steadyAcquire hrun hp (fun k₁ k₂ hm₁ hrun₁ hk₁ => ?_) hk').round hm ha
      obtain rfl := Option.some.inj hk₁
      exact hm₁.steadyReturns (p := p) (by rw [hrun₁, hrun]) hp
    | mboxSendLocked i m msg =>
      exact (hm.steadySendLocked hrun hp (by rwa [hcont] at hk)).round hm ha
    | mboxSendWoken i m msg => exact (hm.steadySend hrun hp (by rwa [hcont] at hk)).round hm ha
    | mboxRecvLocked i m msgLength =>
      exact (hm.steadyRecvLocked hrun hp (by rwa [hcont] at hk)).round hm ha
    | mboxRecvWoken i m msgLength =>
      exact (hm.steadyRecv hrun hp (by rwa [hcont] at hk)).round hm ha
    | netSend => exact (hm.steadyNetSend hrun hp (by rwa [hcont] at hk)).round hm ha
    | netRecv left => exact (hm.steadyNetRecv hrun hp (by rwa [hcont] at hk)).round hm ha
    | threadJoin thread next =>
      exact (hm.steadyThreadJoin hrun hp (by rwa [hcont] at hk)).round hm ha

lemma Inv.roundStep (hi : k.Inv q) (ha : AgreeQ b g k q) (hC : Undisturbed b k e)
    (hk : k.step e = some k') : ∃ q', k'.Inv q' ∧ AgreeQ b g k' q' ∧ Round b g k e k' := by
  cases e with
  | trap c call env =>
    simp only [Kernel.step] at hk
    split at hk
    · split at hk
      · cases hk
      · rename_i p hrun
        split at hk
        · rename_i hcall
          by_cases hp : p = idlePcb c
          · obtain rfl := hcall.resolve_right (not_not.2 hp)
            exact (hi.toMid.steadyScheduler hrun hk).round hi.toMid ha
          · exact hi.toMid.roundHandle hrun hp (hC p hrun) ha hk
        · cases hk
    · cases hk
  | resume c env =>
    simp only [Kernel.step] at hk
    split at hk
    · split at hk
      · cases hk
      · rename_i p hrun
        exact hi.roundGoOn hrun ha hk
    · cases hk
  | slaveJoin =>
    simp only [Kernel.step] at hk
    split at hk
    · rename_i hcond
      obtain ⟨hinv, second, -, rfl⟩ := hi.slaveJoin hcond.2.2 hk
      exact Steady.round ⟨q, hinv, rfl, rfl⟩ hi.toMid ha
    · cases hk

/-- As long as nobody who waits on a barrier is killed, its counter is the number of the
tasks on its list and below its goal, and they leave the list all at once, in order, when the
last task of the round has come. -/
theorem barrier_rounds {k₀ : Kernel} {es : List Event} (hinit : Initialised b g k₀) (hg : 1 ≤ g)
    (hes : StepsMeet Kernel.step (Undisturbed b) k₀ es) :
    Always Kernel.step (Agree b g) k₀ es ∧
      StepsMeet Kernel.step (fun k e => ∀ k', k.step e = some k' → Round b g k e k') k₀ es := by
  obtain ⟨q₀, hi₀⟩ := hinit.inv
  have hempty : q₀ (.blockList b) = [] := by
    rw [← hi₀.queue_eq (by simp)]
    exact hinit.queue
  have ha₀ : AgreeQ b g k₀ q₀ := by
    rw [AgreeQ, hinit.barrier, hempty]
    exact ⟨rfl, by simp only [List.length_nil, Nat.cast_zero]; omega⟩
  have hinv : ∀ k e k', (∃ q, k.Inv q ∧ AgreeQ b g k q) → Undisturbed b k e →
      k.step e = some k' → ∃ q, k'.Inv q ∧ AgreeQ b g k' q := by
    rintro k e k' ⟨q, hi, ha⟩ hC hk
    obtain ⟨q', hi', ha', -⟩ := hi.roundStep ha hC hk
    exact ⟨q', hi', ha'⟩
  refine ⟨(always_of_invariant hinv ⟨q₀, hi₀, ha₀⟩ hes).mono fun k ⟨q, hi, ha⟩ =>
    ha.agree hi.toMid, fun pre e post heq k hk k' hk' => ?_⟩
  obtain ⟨q, hi, ha⟩ := run_invariant hinv ⟨q₀, hi₀, ha₀⟩ (StepsMeet.of_append (heq ▸ hes)) hk
  obtain ⟨-, -, -, hround⟩ := hi.roundStep ha (hes pre e post heq k hk) hk'
  exact hround

/-- The shell starts a task and sets up a barrier for two. -/
def barrierRun : List Event :=
  [.trap 0 (.exec [104]) quietEnv, .trap 0 (.barrierInit 0 2) quietEnv]

lemma initialised_barrierRun : ∃ k, run Kernel.step (boot [[104]]) barrierRun = some k ∧
    Initialised 0 2 k := by
  have hrun : (run Kernel.step (boot [[104]]) barrierRun).map
      (fun k => (k.queue (.blockList 0), k.barriers 0)) = some ([], ⟨0, 2⟩) := by decide
  obtain ⟨k, hk, hvalues⟩ := Option.map_eq_some_iff.1 hrun
  obtain ⟨hqueue, hbar⟩ := Prod.mk.inj hvalues
  have hcareful : StepsMeet Kernel.step Careful (boot [[104]]) barrierRun := by
    refine stepsMeet_cons (fun _ _ => trivial) fun _ _ => ?_
    exact stepsMeet_cons (fun _ _ => trivial) fun _ _ => stepsMeet_nil _ _
  exact ⟨k, hk, inv_of_run hcareful hk, hqueue, hbar⟩

/-- The shell waits, the task comes and opens the barrier. -/
theorem barrier_rounds_two : ∃ k₀, run Kernel.step (boot [[104]]) barrierRun = some k₀ ∧
    Always Kernel.step (Agree 0 2) k₀ [.trap 0 (.barrierWait 0) quietEnv, .resume 0 quietEnv,
      .trap 0 (.barrierWait 0) quietEnv] := by
  obtain ⟨k₀, hk₀, hinit⟩ := initialised_barrierRun
  refine ⟨k₀, hk₀, (barrier_rounds hinit (by decide) ?_).1⟩
  exact stepsMeet_cons (fun _ _ => trivial) fun _ _ => stepsMeet_cons trivial fun _ _ =>
    stepsMeet_cons (fun _ _ => trivial) fun _ _ => stepsMeet_nil _ _

/-- The shell waits and is killed: it is counted, but it is not on the list. -/
theorem barrier_counts_killed : ∃ k₀, run Kernel.step (boot [[104]]) barrierRun = some k₀ ∧
    Initialised 0 2 k₀ ∧ ¬ Always Kernel.step (Agree 0 2) k₀
      [.trap 0 (.barrierWait 0) quietEnv, .resume 0 quietEnv, .trap 0 (.kill 1) quietEnv] := by
  obtain ⟨k₀, hk₀, hinit⟩ := initialised_barrierRun
  refine ⟨k₀, hk₀, hinit, fun h => ?_⟩
  have hrun : ((run Kernel.step (boot [[104]]) barrierRun).bind fun k =>
      run Kernel.step k [.trap 0 (.barrierWait 0) quietEnv, .resume 0 quietEnv,
        .trap 0 (.kill 1) quietEnv]).map (fun k =>
          ((k.barriers 0).current, k.queue (.blockList 0))) = some (1, []) := by decide
  rw [hk₀, Option.bind_some] at hrun
  obtain ⟨k, hk, hvalues⟩ := Option.map_eq_some_iff.1 hrun
  obtain ⟨hcurrent, hqueue⟩ := Prod.mk.inj hvalues
  have hagree := (h.last hk).current
  rw [hcurrent, hqueue] at hagree
  cases hagree

end Rounds

end Kernel
end Sched
end UcasKernel
