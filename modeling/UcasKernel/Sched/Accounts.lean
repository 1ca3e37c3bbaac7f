/-
What the scheduler leaves alone.

Moving PCBs between queues, switching to another task and locking change the queues,
the states of the tasks, of the CPUs and of the locks, and nothing else: that is one
rule for every function of the scheduler, whatever the queues look like, and for
everything `f` that ignores these.  The numbers of the processes and threads are such:
`create_pcb` and `do_thread_create` give a PCB its pid and its tid, the latter from
a counter for each pid; `release_pcb` counts down and its callers take the pid away.
-/
import UcasKernel.Lib.Keeps
import UcasKernel.Sched.Process

namespace UcasKernel
namespace Sched
namespace Kernel

/-- `f` does not look at the queues, at what the tasks and the CPUs do, at the locks and
at the bytes in the mailboxes. -/
class Ignores {α : Type*} (f : Kernel → α) : Prop where
  rest : ∀ (k : Kernel) (links : Links Head Pcb) (status : Pcb → TaskStatus)
    (wakeupTime : Pcb → ℕ) (cont : Pcb → Cont) (runnings : Cpu → Option Pcb)
    (inKernel : Option Cpu) (satp : Cpu → ℕ) (stuck : Bool) (mlocks : Slot → MutexLock)
    (barriers : Slot → Barrier),
    f { k with
      links := links, status := status, wakeupTime := wakeupTime, cont := cont
      runnings := runnings, inKernel := inKernel, satp := satp, stuck := stuck
      mlocks := mlocks, barriers := barriers } = f k
  setMailbox : ∀ (k : Kernel) (i : Slot) (mbox : Locking.Mailbox),
    mbox.name = (k.mailboxes i).name → mbox.mutexId = (k.mailboxes i).mutexId →
      mbox.ref = (k.mailboxes i).ref → f (k.setMailbox i mbox) = f k

/-- The pids, the tids, `threads`, `process_id` and the loaded tasks. -/
def accounts (k : Kernel) : (Pcb → ℤ) × (Pcb → ℤ) × (ℤ → ℤ) × ℤ × List (List UInt8) :=
  (k.pid, k.tid, k.threads, k.processId, k.tasks)

instance : Ignores accounts := ⟨fun _ _ _ _ _ _ _ _ _ _ _ => rfl, fun _ _ _ _ _ _ => rfl⟩

variable {α : Type*} {f : Kernel → α} [Ignores f]
  {k k' : Kernel} {c : Cpu} {p : Pcb} {h : Head} {env : Env}

/-! ## The queues -/

/-- An update of what `f` ignores. -/
lemma ignored {links : Links Head Pcb} {status : Pcb → TaskStatus} {wakeupTime : Pcb → ℕ}
    {cont : Pcb → Cont} {runnings : Cpu → Option Pcb} {inKernel : Option Cpu} {satp : Cpu → ℕ}
    {stuck : Bool} {mlocks : Slot → MutexLock} {barriers : Slot → Barrier} :
    f { k with
      links := links, status := status, wakeupTime := wakeupTime, cont := cont
      runnings := runnings, inKernel := inKernel, satp := satp, stuck := stuck
      mlocks := mlocks, barriers := barriers } = f k := Ignores.rest k _ _ _ _ _ _ _ _ _ _

lemma keeps_listDeleteEntry : Keeps f k (k.listDeleteEntry p) := .mapValue fun _ => ignored

lemma keeps_listAddTail : Keeps f k (k.listAddTail p h) := .mapValue fun _ => ignored

lemma keeps_doUnblock : Keeps f k (k.doUnblock p) :=
  keeps_listDeleteEntry.bind fun _ => keeps_listAddTail.of_eq ignored

lemma keeps_unblockAll (n : ℕ) : Keeps f k (unblockAll h n k) := by
  induction n generalizing k with
  | zero => exact .none
  | succ n ih => exact .ite (.some rfl) (.bindValue fun p => keeps_doUnblock.bind fun _ => ih)

lemma keeps_deleteAll (n : ℕ) : Keeps f k (deleteAll h n k) := by
  induction n generalizing k with
  | zero => exact .none
  | succ n ih => exact .ite (.some rfl) (.bindValue fun p => keeps_listDeleteEntry.bind fun _ => ih)

omit [Ignores f] in
lemma keeps_forEachEntrySafe {body : ℕ → Pcb → Kernel → Option Kernel}
    (hbody : ∀ i p k, Keeps f k (body i p k)) (n i : ℕ) (node : Option Node) :
    Keeps f k (forEachEntrySafe h body n i node k) := by
  induction n generalizing k i node with
  | zero => exact .none
  | succ n ih =>
    match node with
    | none => exact .none
    | some (.inl _) => exact .ite (.some rfl) .none
    | some (.inr p) => exact (hbody i p k).bind fun _ => ih _ _

lemma keeps_checkSleeping : Keeps f k (k.checkSleeping env) :=
  keeps_forEachEntrySafe (fun _ _ _ => .ite keeps_doUnblock (.some rfl)) _ _ _

lemma keeps_checkNetSend : Keeps f k (k.checkNetSend env) :=
  .ite (keeps_forEachEntrySafe (fun _ _ _ => keeps_doUnblock) _ _ _) (.some rfl)

lemma keeps_checkNetRecv : Keeps f k (k.checkNetRecv env) :=
  .ite (keeps_forEachEntrySafe (fun _ _ _ => keeps_doUnblock) _ _ _) (.some rfl)

/-! ## Switching -/

lemma switchPgdir_ignored (k : Kernel) (c : Cpu) : f (k.switchPgdir c) = f k := by
  unfold switchPgdir
  cases k.runnings c with
  | none => rfl
  | some p => exact ignored

lemma retFromKernel_ignored (k : Kernel) (c : Cpu) : f (k.retFromKernel c) = f k :=
  (ignored (k := k.switchPgdir c)).trans (switchPgdir_ignored k c)

lemma keeps_findIdleTask : Keeps f k (k.findIdleTask c) :=
  .bindValue fun _ => .some (ignored (f := f) (k := k))

lemma keeps_reschedule {cont : Cont} : Keeps f k (k.reschedule c p cont) :=
  keeps_findIdleTask.bind fun k => .some (ignored.trans (switchPgdir_ignored k c))

lemma keeps_doBlock {cont : Cont} : Keeps f k (k.doBlock c p h cont) :=
  keeps_listDeleteEntry.bind fun _ => keeps_listAddTail.bind fun _ =>
    keeps_reschedule.of_eq ignored

lemma keeps_doScheduler : Keeps f k (k.doScheduler c p env) := by
  refine keeps_checkSleeping.bind fun _ => keeps_checkNetSend.bind fun _ =>
    keeps_checkNetRecv.bind fun k => ?_
  by_cases hp : p ≠ .pid0Pcb ∧ p ≠ .pid0Pcb2
  · rw [if_pos hp]
    exact (keeps_listDeleteEntry.of_eq ignored).bind fun _ => keeps_listAddTail.bind fun _ =>
      keeps_reschedule
  · rw [if_neg hp]
    exact keeps_reschedule.of_eq ignored

lemma keeps_returning {o : Option Kernel} (ho : Keeps f k o) :
    Keeps f k (returning o c) := ho.map fun k => retFromKernel_ignored k c

lemma keeps_ret : Keeps f k (some (k.retFromKernel c)) := .some (retFromKernel_ignored k c)

/-! ## Synchronisation -/

lemma keeps_mutexLockRelease {m : Slot} : Keeps f k (k.mutexLockRelease m) :=
  .ite (.some ignored) (.bindValue fun _ => keeps_doUnblock.of_eq ignored)

lemma keeps_mutexLockAcquire {m : Slot} {cont : Cont} {next : Kernel → Option Kernel}
    (hnext : ∀ k, Keeps f k (next k)) :
    Keeps f k (k.mutexLockAcquire c p m cont next) :=
  .ite keeps_doBlock ((hnext _).of_eq ignored)

lemma keeps_releaseMlocks (pid : ℤ) (ms : List Slot) :
    Keeps f k (releaseMlocks pid ms k) := by
  induction ms generalizing k with
  | nil => exact .some rfl
  | cons m ms ih =>
    rw [releaseMlocks]
    split
    · exact keeps_mutexLockRelease.bind fun _ => ih
    · exact Keeps.bind (.some rfl) fun _ => ih

lemma keeps_barrierInit {key goal : ℤ} : Keeps f k (k.barrierInit key goal) :=
  .bindValue fun _ => .some ignored

lemma keeps_barrierWait {b : Slot} : Keeps f k (k.barrierWait c p b) :=
  .ite (keeps_doBlock.of_eq ignored) (((keeps_unblockAll _).of_eq ignored).bind fun k =>
    .some ((retFromKernel_ignored (k.setBarrier b _) c).trans ignored))

lemma keeps_barrierDestroy {b : Slot} : Keeps f k (k.barrierDestroy b) :=
  (keeps_deleteAll _).of_eq ignored

lemma keeps_conditionWait {i m : Slot} : Keeps f k (k.conditionWait c p i m) :=
  keeps_mutexLockRelease.bind fun _ => keeps_doBlock

lemma keeps_conditionSignal {i : Slot} : Keeps f k (k.conditionSignal i) :=
  .ite (.some rfl) (.bindValue fun _ => keeps_doUnblock)

lemma keeps_conditionBroadcast {i : Slot} : Keeps f k (k.conditionBroadcast i) :=
  keeps_unblockAll _

lemma keeps_mboxOpen {name : List UInt8} : Keeps accounts k (k.mboxOpen name) := by
  unfold mboxOpen
  split
  · exact .some rfl
  · split
    · exact .ite (.some rfl) .none
    · exact .some rfl

lemma keeps_mboxClose {i : Slot} : Keeps accounts k (k.mboxClose i) :=
  .ite (.bindValue fun _ => (keeps_mutexLockRelease.of_eq rfl).bind fun _ => .some rfl) (.some rfl)

/-- The copy loops only touch the bytes and the cursors. -/
lemma sendLoop_ignored (i : Slot) (msg : List UInt8) :
    f (k.setMailbox i ((k.mailboxes i).sendLoop msg)) = f k := by
  obtain ⟨hname, hid, href⟩ := (k.mailboxes i).handle_sendLoop msg
  exact Ignores.setMailbox k i _ hname hid href

lemma recvLoop_ignored (i : Slot) (n : ℕ) :
    f (k.setMailbox i ((k.mailboxes i).recvLoop n).2) = f k := by
  obtain ⟨hname, hid, href⟩ := (k.mailboxes i).handle_recvLoop n
  exact Ignores.setMailbox k i _ hname hid href

lemma keeps_mboxSendLocked {i m : Slot} {msg : List UInt8} :
    Keeps f k (k.mboxSendLocked c p i m msg) :=
  .ite (((keeps_unblockAll _).of_eq (sendLoop_ignored i msg)).bind fun _ =>
    keeps_mutexLockRelease.bind fun _ => keeps_ret) (keeps_mutexLockRelease.bind fun _ => keeps_doBlock)

lemma keeps_mboxSend {i m : Slot} {msg : List UInt8} :
    Keeps f k (k.mboxSend c p i m msg) := keeps_mutexLockAcquire fun _ => keeps_mboxSendLocked

lemma keeps_mboxRecvLocked {i m : Slot} {n : ℕ} :
    Keeps f k (k.mboxRecvLocked c p i m n) :=
  .ite (((keeps_unblockAll _).of_eq (recvLoop_ignored i n)).bind fun _ =>
    keeps_mutexLockRelease.bind fun _ => keeps_ret) (keeps_mutexLockRelease.bind fun _ => keeps_doBlock)

lemma keeps_mboxRecv {i m : Slot} {n : ℕ} : Keeps f k (k.mboxRecv c p i m n) :=
  keeps_mutexLockAcquire fun _ => keeps_mboxRecvLocked

/-! ## Waiting -/

lemma keeps_doWaitpid {pid : ℤ} : Keeps f k (k.doWaitpid c p pid) := by
  unfold doWaitpid
  split
  · exact keeps_ret
  · exact keeps_doBlock

lemma keeps_threadJoinLoop {thread : ℤ} (n : ℕ) (node : Option Node) :
    Keeps f k (threadJoinLoop c p thread n node k) := by
  induction n generalizing node with
  | zero => exact .none
  | succ n ih =>
    match node with
    | none => exact .none
    | some (.inl _) => exact .ite keeps_ret .none
    | some (.inr _) => exact .ite keeps_doBlock (ih _)

lemma keeps_netSend : Keeps f k (k.netSend c p env) := .ite keeps_ret keeps_doBlock

lemma keeps_netRecv (left i : ℕ) : Keeps f k (netRecv c p env left i k) := by
  induction left generalizing i with
  | zero => exact keeps_ret
  | succ left ih => exact .ite (ih _) keeps_doBlock

lemma keeps_goOn (cont : Cont) : Keeps f k (k.goOn c p env cont) := by
  cases cont with
  | ret => exact keeps_ret
  | waitpid => exact keeps_ret
  | mutexLockAcquire => exact keeps_ret
  | conditionWait => exact keeps_mutexLockAcquire fun _ => keeps_ret
  | mboxSendLocked => exact keeps_mboxSendLocked
  | mboxSendWoken => exact keeps_mboxSend
  | mboxRecvLocked => exact keeps_mboxRecvLocked
  | mboxRecvWoken => exact keeps_mboxRecv
  | netSend => exact keeps_netSend
  | netRecv => exact keeps_netRecv _ _
  | threadJoin => exact keeps_threadJoinLoop _ _

lemma keeps_slaveJoin : Keeps f k k.slaveJoin := by
  unfold slaveJoin
  split
  · exact .none
  · exact .none
  · split
    · exact .some (ignored (f := f) (k := k))
    · exact .none

end Kernel
end Sched
end UcasKernel
