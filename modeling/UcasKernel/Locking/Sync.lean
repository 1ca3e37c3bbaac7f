/-
Mutexes, barriers, condition variables and mailboxes, from
`kernel/locking/lock.c`, as operations on the kernel.

A function that may block is cut at its `do_block`: the part before it ends in
`doBlock` with a `Cont`, the part behind it is the function `resume` calls.
Indices are C `int`s from user registers; one outside of its table has no
defined result.
-/
import UcasKernel.Sched.Kernel

namespace UcasKernel
namespace Sched

/-- An index of a table with 16 elements. -/
def slotOf (i : ℤ) : Option Slot :=
  if h : 0 ≤ i ∧ i < 16 then some ⟨i.toNat, by omega⟩ else none

lemma slotOf_eq_some_iff {i : ℤ} {j : Slot} : slotOf i = some j ↔ i = (j : ℕ) := by
  unfold slotOf
  split
  · rw [Option.some.injEq, Fin.ext_iff]
    simp only
    omega
  · have := j.isLt
    simp only [reduceCtorEq, false_iff]
    omega

lemma slotOf_coe (j : Slot) : slotOf (j : ℕ) = some j := slotOf_eq_some_iff.2 rfl

namespace Kernel

def setMlock (k : Kernel) (m : Slot) (mutex : MutexLock) : Kernel :=
  { k with mlocks := Function.update k.mlocks m mutex }

def setBarrier (k : Kernel) (b : Slot) (bar : Barrier) : Kernel :=
  { k with barriers := Function.update k.barriers b bar }

def setMailbox (k : Kernel) (i : Slot) (mbox : Locking.Mailbox) : Kernel :=
  { k with mailboxes := Function.update k.mailboxes i mbox }

/-! ## Mutexes -/

/-- `do_mutex_lock_acquire` by task `p`, followed by `next`; `cont` is where a
task that has to wait goes on once it owns the mutex. -/
def mutexLockAcquire (k : Kernel) (cpuid : Cpu) (p : Pcb) (m : Slot) (cont : Cont)
    (next : Kernel → Option Kernel) : Option Kernel :=
  if (k.mlocks m).locked then k.doBlock cpuid p (.blockQueue m) cont
  else next (k.setMlock m ⟨true, k.pid p⟩)

/-- `do_mutex_lock_release`. -/
def mutexLockRelease (k : Kernel) (m : Slot) : Option Kernel :=
  if k.isQueueEmpty (.blockQueue m) then some (k.setMlock m ⟨false, 0⟩)
  else do
    let p ← k.firstEntry (.blockQueue m)
    let k := k.setMlock m ⟨(k.mlocks m).locked, k.pid p⟩
    k.doUnblock p

/-! ## Barriers -/

/-- `do_barrier_init`; the remainder of a negative key is negative. -/
def barrierInit (k : Kernel) (key goal : ℤ) : Option Kernel := do
  let b ← slotOf (key.tmod 16)
  some (k.setBarrier b { k.barriers b with goal := goal })

/-- `do_barrier_wait`. -/
def barrierWait (k : Kernel) (cpuid : Cpu) (p : Pcb) (b : Slot) : Option Kernel := do
  let bar := { k.barriers b with current := (k.barriers b).current + 1 }
  let k := k.setBarrier b bar
  if bar.current < bar.goal then k.doBlock cpuid p (.blockList b) .ret
  else
    let k ← unblockAll (.blockList b) loopBound k
    some ((k.setBarrier b { k.barriers b with current := 0 }).retFromKernel cpuid)

/-- The loop of `do_barrier_destroy`. -/
def deleteAll (queue : Head) : ℕ → Kernel → Option Kernel
  | 0, _ => none
  | n + 1, k =>
    if k.isQueueEmpty queue then some k
    else do
      let p ← k.firstEntry queue
      let k ← k.listDeleteEntry p
      deleteAll queue n k

/-- `do_barrier_destroy`. -/
def barrierDestroy (k : Kernel) (b : Slot) : Option Kernel :=
  deleteAll (.blockList b) loopBound (k.setBarrier b { k.barriers b with current := 0 })

/-! ## Condition variables -/

/-- `do_condition_wait` up to its `do_block`. -/
def conditionWait (k : Kernel) (cpuid : Cpu) (p : Pcb) (condIdx m : Slot) : Option Kernel := do
  let k ← k.mutexLockRelease m
  k.doBlock cpuid p (.condWaitList condIdx) (.conditionWait m)

/-- `do_condition_signal`. -/
def conditionSignal (k : Kernel) (condIdx : Slot) : Option Kernel :=
  if k.isQueueEmpty (.condWaitList condIdx) then some k
  else do
    let p ← k.firstEntry (.condWaitList condIdx)
    k.doUnblock p

/-- `do_condition_broadcast`, and the loop of `do_condition_destroy`. -/
def conditionBroadcast (k : Kernel) (condIdx : Slot) : Option Kernel :=
  unblockAll (.condWaitList condIdx) loopBound k

/-! ## Mailboxes -/

/-- The first slot that passes a test, in the order of the loops over the tables. -/
def firstSlot (test : Slot → Bool) : Option Slot := (List.finRange 16).find? test

/-- `do_mbox_open`.  A name that does not fit overruns the field. -/
def mboxOpen (k : Kernel) (name : List UInt8) : Option Kernel :=
  match firstSlot fun i => (k.mailboxes i).name = name with
  | some i =>
    some (k.setMailbox i { k.mailboxes i with ref := (k.mailboxes i).ref + 1 })
  | none =>
    match firstSlot fun i => (k.mailboxes i).ref = 0 with
    | some i =>
      if name.length < 32 then
        some (k.setMailbox i { k.mailboxes i with name := name, mutexId := (i : ℕ), ref := 1 })
      else none
    | none => some k

/-- `do_mbox_close`. -/
def mboxClose (k : Kernel) (i : Slot) : Option Kernel := do
  let mbox := { k.mailboxes i with ref := (k.mailboxes i).ref - 1 }
  let k := k.setMailbox i mbox
  if mbox.ref = 0 then
    let m ← slotOf mbox.mutexId
    let k ← k.mutexLockRelease m
    some (k.setMailbox i Locking.initMbox)
  else some k

/-- `do_mbox_send` from the test of its loop on, with the mutex held. -/
def mboxSendLocked (k : Kernel) (cpuid : Cpu) (p : Pcb) (i m : Slot) (msg : List UInt8) :
    Option Kernel :=
  if (k.mailboxes i).canWriteToBuffer msg.length then do
    let k := k.setMailbox i ((k.mailboxes i).sendLoop msg)
    let k ← unblockAll (.recvList i) loopBound k
    let k ← k.mutexLockRelease m
    some (k.retFromKernel cpuid)
  else do
    let k ← k.mutexLockRelease m
    k.doBlock cpuid p (.sendList i) (.mboxSendWoken i m msg)

/-- `do_mbox_send` from one of its acquires on. -/
def mboxSend (k : Kernel) (cpuid : Cpu) (p : Pcb) (i m : Slot) (msg : List UInt8) :
    Option Kernel :=
  k.mutexLockAcquire cpuid p m (.mboxSendLocked i m msg) fun k =>
    k.mboxSendLocked cpuid p i m msg

/-- `do_mbox_recv` from the test of its loop on, with the mutex held. -/
def mboxRecvLocked (k : Kernel) (cpuid : Cpu) (p : Pcb) (i m : Slot) (msgLength : ℕ) :
    Option Kernel :=
  if (k.mailboxes i).canReadFromBuffer msgLength then do
    let k := k.setMailbox i ((k.mailboxes i).recvLoop msgLength).2
    let k ← unblockAll (.sendList i) loopBound k
    let k ← k.mutexLockRelease m
    some (k.retFromKernel cpuid)
  else do
    let k ← k.mutexLockRelease m
    k.doBlock cpuid p (.recvList i) (.mboxRecvWoken i m msgLength)

/-- `do_mbox_recv` from one of its acquires on. -/
def mboxRecv (k : Kernel) (cpuid : Cpu) (p : Pcb) (i m : Slot) (msgLength : ℕ) :
    Option Kernel :=
  k.mutexLockAcquire cpuid p m (.mboxRecvLocked i m msgLength) fun k =>
    k.mboxRecvLocked cpuid p i m msgLength

end Kernel
end Sched
end UcasKernel
