/-
The dispatch of system calls, from `kernel/syscall/syscall.c` and `init/main.c`.

An `ecall` leaves the registers of the task in its trap frame.  `handle_syscall` takes the
number of the call from `a7` and passes `a0` to `a4` on; the handlers use some of them as
indices of the tables of the kernel.  The functions here log every index of a table that
is made from a register or from a field of the kernel, in the order of their use.  Without
the log they are the functions of the scheduler; the file system, the screen and the
shared pages have a state of their own on which no such index depends.
-/
import UcasKernel.Lib.Logged
import UcasKernel.Sched.Process

namespace UcasKernel
namespace Syscall

open Sched

/-! ## The tables -/

/-- The tables of the kernel; a slot of `tx_pkt_buffer` counts its bytes. -/
inductive Table
  | syscall
  | mlocks
  | barriers
  | conditions
  | mailboxes
  | fdescArray
  | txPktBuffer
deriving DecidableEq, Repr

/-- An index of a table, or the number of bytes written to a slot. -/
abbrev Use : Type := Table × ℤ

abbrev UseLog (α : Type) : Type := Logged Use α

/-- An element of a table with 16 elements. -/
def slot (table : Table) (i : ℤ) : UseLog Slot := .tell (table, i) (slotOf i)

/-- `NUM_SYSCALLS`. -/
def numSyscalls : ℕ := 96

/-- `TX_PKT_SIZE`. -/
def txPktSize : ℕ := 2048

/-- The functions in `syscall`. -/
inductive Handler
  | doExit | doExec | doSleep | doKill | doWaitpid | doProcessShow | doGetpid | doScheduler
  | screenWrite | biosGetchar | screenMoveCursor | screenReflush | screenClear | screenBackspace
  | getTimeBase | getTicks
  | doThreadCreate | doThreadJoin
  | doMutexLockInit | doMutexLockAcquire | doMutexLockRelease
  | doBarrierInit | doBarrierWait | doBarrierDestroy
  | doConditionInit | doConditionWait | doConditionSignal | doConditionBroadcast
  | doConditionDestroy
  | doMboxOpen | doMboxClose | doMboxSend | doMboxRecv
  | shmPageGet | shmPageDt
  | doNetSend | doNetRecv
  | doMkfs | doStatfs | doMkdir | doLs | doCd | doRmdir | doTouch | doFopen | doFclose | doFread
  | doFwrite | doCat | doLn | doRm | doLseek
deriving DecidableEq, Repr

/-- `syscall` as `init_syscall` fills it. -/
def syscallTable : ℕ → Option Handler
  | 0 => some .doExec
  | 1 => some .doExit
  | 2 => some .doSleep
  | 3 => some .doKill
  | 4 => some .doWaitpid
  | 5 => some .doProcessShow
  | 6 => some .doGetpid
  | 7 => some .doScheduler
  | 20 => some .screenWrite
  | 21 => some .biosGetchar
  | 22 => some .screenMoveCursor
  | 23 => some .screenReflush
  | 24 => some .screenClear
  | 25 => some .screenBackspace
  | 30 => some .getTimeBase
  | 31 => some .getTicks
  | 35 => some .doThreadCreate
  | 36 => some .doThreadJoin
  | 40 => some .doMutexLockInit
  | 41 => some .doMutexLockAcquire
  | 42 => some .doMutexLockRelease
  | 44 => some .doBarrierInit
  | 45 => some .doBarrierWait
  | 46 => some .doBarrierDestroy
  | 47 => some .doConditionInit
  | 48 => some .doConditionWait
  | 49 => some .doConditionSignal
  | 50 => some .doConditionBroadcast
  | 51 => some .doConditionDestroy
  | 52 => some .doMboxOpen
  | 53 => some .doMboxClose
  | 54 => some .doMboxSend
  | 55 => some .doMboxRecv
  | 56 => some .shmPageGet
  | 57 => some .shmPageDt
  | 63 => some .doNetSend
  | 64 => some .doNetRecv
  | 65 => some .doMkfs
  | 66 => some .doStatfs
  | 67 => some .doCd
  | 68 => some .doMkdir
  | 69 => some .doRmdir
  | 70 => some .doLs
  | 71 => some .doTouch
  | 72 => some .doCat
  | 73 => some .doFopen
  | 74 => some .doFread
  | 75 => some .doFwrite
  | 76 => some .doFclose
  | 77 => some .doLn
  | 78 => some .doRm
  | 79 => some .doLseek
  | _ => none

/-- `syscall[n]`; a null entry cannot be called. -/
def entry (n : ℤ) : Option Handler :=
  if 0 ≤ n ∧ n < numSyscalls then syscallTable n.toNat else none

/-- Within a table, and not a null entry of `syscall`. -/
def InRange (use : Use) : Prop :=
  match use.1 with
  | .syscall => entry use.2 ≠ none
  | .txPktBuffer => 0 ≤ use.2 ∧ use.2 ≤ txPktSize
  | _ => 0 ≤ use.2 ∧ use.2 < 16

instance (use : Use) : Decidable (InRange use) := by
  unfold InRange
  split <;> infer_instance

/-! ## The registers -/

/-- `regs_context_t.regs`. -/
abbrev Regs : Type := Fin 32 → BitVec 64

def regPosA0 : Fin 32 := 10
def regPosA1 : Fin 32 := 11
def regPosA2 : Fin 32 := 12
def regPosA7 : Fin 32 := 17

/-- A parameter of type `int`. -/
def argInt (regs : Regs) (i : Fin 32) : ℤ := ((regs i).setWidth 32).toInt

/-- A parameter of type `uint32_t`. -/
def argUint32 (regs : Regs) (i : Fin 32) : ℕ := ((regs i).setWidth 32).toNat

/-- The memory of the task: the bytes, and the strings that end at a zero byte. -/
structure UserMem where
  byte : BitVec 64 → UInt8
  string : BitVec 64 → List UInt8

/-- The bytes `msg[0 .. length - 1]`. -/
def UserMem.bytes (user : UserMem) (msg : BitVec 64) (length : ℤ) : List UInt8 :=
  (List.range length.toNat).map fun i => user.byte (msg + BitVec.ofNat 64 i)

/-! ## The handlers -/

section Handlers

variable (k : Kernel)

/-- `do_barrier_init`. -/
def barrierInitL (key goal : ℤ) : UseLog Kernel := do
  let b ← slot .barriers (key.tmod 16)
  pure (k.setBarrier b { k.barriers b with goal := goal })

/-- `do_mbox_close`. -/
def mboxCloseL (i : Slot) : UseLog Kernel := do
  let mbox := { k.mailboxes i with ref := (k.mailboxes i).ref - 1 }
  let k := k.setMailbox i mbox
  if mbox.ref = 0 then
    let m ← slot .mlocks mbox.mutexId
    let k ← .of (k.mutexLockRelease m)
    pure (k.setMailbox i Locking.initMbox)
  else pure k

/-- A call of the scheduler or of the locks by task `p`. -/
def handleL (cpuid : Cpu) (p : Pcb) (env : Env) : Call → UseLog Kernel
  | .mutexLockAcquire idx => do
    let m ← slot .mlocks idx
    .of (k.mutexLockAcquire cpuid p m (.mutexLockAcquire m) fun k =>
      some (k.retFromKernel cpuid))
  | .mutexLockRelease idx => do
    let m ← slot .mlocks idx
    .of (Kernel.returning (k.mutexLockRelease m) cpuid)
  | .barrierInit key goal => do
    let k ← barrierInitL k key goal
    pure (k.retFromKernel cpuid)
  | .barrierWait idx => do
    let b ← slot .barriers idx
    .of (k.barrierWait cpuid p b)
  | .barrierDestroy idx => do
    let b ← slot .barriers idx
    .of (Kernel.returning (k.barrierDestroy b) cpuid)
  | .conditionWait condIdx mutexIdx => do
    let c ← slot .conditions condIdx
    let m ← slot .mlocks mutexIdx
    .of (k.conditionWait cpuid p c m)
  | .conditionSignal idx => do
    let c ← slot .conditions idx
    .of (Kernel.returning (k.conditionSignal c) cpuid)
  | .conditionBroadcast idx => do
    let c ← slot .conditions idx
    .of (Kernel.returning (k.conditionBroadcast c) cpuid)
  | .conditionDestroy idx => do
    let c ← slot .conditions idx
    .of (Kernel.returning (k.conditionBroadcast c) cpuid)
  | .mboxClose idx => do
    let i ← slot .mailboxes idx
    let k ← mboxCloseL k i
    pure (k.retFromKernel cpuid)
  | .mboxSend idx msg => do
    let i ← slot .mailboxes idx
    let m ← slot .mlocks (k.mailboxes i).mutexId
    .of (k.mboxSend cpuid p i m msg)
  | .mboxRecv idx msgLength => do
    let i ← slot .mailboxes idx
    let m ← slot .mlocks (k.mailboxes i).mutexId
    .of (k.mboxRecv cpuid p i m msgLength)
  | call => .of (k.handle cpuid p env call)

end Handlers

/-! ## The system -/

/-- The kernel, and for each task the parameter `length` of `do_net_send`, which it keeps
while it waits for a descriptor. -/
structure System where
  kernel : Kernel
  length : Pcb → ℤ

namespace System

variable (s : System)

/-- A call of the scheduler or of the locks. -/
def callL (cpuid : Cpu) (p : Pcb) (env : Env) (call : Call) : UseLog System := do
  let k ← handleL s.kernel cpuid p env call
  pure { s with kernel := k }

/-- Back to the user. -/
def ret (cpuid : Cpu) : System := { s with kernel := s.kernel.retFromKernel cpuid }

/-- A call that stores a key in a table: `do_mutex_lock_init`, `do_condition_init`. -/
def initL (cpuid : Cpu) (table : Table) (key : ℤ) : UseLog System := do
  let _ ← slot table (key.tmod 16)
  pure (s.ret cpuid)

/-- A call on a descriptor. -/
def fdescL (cpuid : Cpu) (fd : ℤ) : UseLog System := do
  let _ ← slot .fdescArray fd
  pure (s.ret cpuid)

/-- The `memcpy` of `e1000_transmit`, if the driver has a descriptor.  Its length is a
`uint32_t`; a packet longer than its buffer overruns it. -/
def copyL (env : Env) (length : ℤ) : UseLog Unit :=
  if env.transmitted then
    .tell (.txPktBuffer, length % 2 ^ 32) (if length % 2 ^ 32 ≤ txPktSize then some () else none)
  else pure ()

/-- `do_net_send`. -/
def netSendL (cpuid : Cpu) (p : Pcb) (env : Env) (length : ℤ) : UseLog System := do
  let _ ← copyL env length
  let k ← .of (s.kernel.netSend cpuid p env)
  pure { kernel := k, length := Function.update s.length p length }

/-- The handlers.  A negative length copies nothing. -/
def dispatchL (cpuid : Cpu) (p : Pcb) (regs : Regs) (user : UserMem) (env : Env) :
    Handler → UseLog System
  | .doExit => s.callL cpuid p env .exit
  | .doExec => s.callL cpuid p env (.exec (user.string (regs regPosA0)))
  | .doSleep => s.callL cpuid p env (.sleep (argUint32 regs regPosA0))
  | .doKill => s.callL cpuid p env (.kill (argInt regs regPosA0))
  | .doWaitpid => s.callL cpuid p env (.waitpid (argInt regs regPosA0))
  | .doScheduler => s.callL cpuid p env .yield
  | .doThreadCreate => s.callL cpuid p env .threadCreate
  | .doThreadJoin => s.callL cpuid p env (.threadJoin (argInt regs regPosA0))
  | .doMutexLockInit => s.initL cpuid .mlocks (argInt regs regPosA0)
  | .doMutexLockAcquire => s.callL cpuid p env (.mutexLockAcquire (argInt regs regPosA0))
  | .doMutexLockRelease => s.callL cpuid p env (.mutexLockRelease (argInt regs regPosA0))
  | .doBarrierInit =>
    s.callL cpuid p env (.barrierInit (argInt regs regPosA0) (argInt regs regPosA1))
  | .doBarrierWait => s.callL cpuid p env (.barrierWait (argInt regs regPosA0))
  | .doBarrierDestroy => s.callL cpuid p env (.barrierDestroy (argInt regs regPosA0))
  | .doConditionInit => s.initL cpuid .conditions (argInt regs regPosA0)
  | .doConditionWait =>
    s.callL cpuid p env (.conditionWait (argInt regs regPosA0) (argInt regs regPosA1))
  | .doConditionSignal => s.callL cpuid p env (.conditionSignal (argInt regs regPosA0))
  | .doConditionBroadcast => s.callL cpuid p env (.conditionBroadcast (argInt regs regPosA0))
  | .doConditionDestroy => s.callL cpuid p env (.conditionDestroy (argInt regs regPosA0))
  | .doMboxOpen => s.callL cpuid p env (.mboxOpen (user.string (regs regPosA0)))
  | .doMboxClose => s.callL cpuid p env (.mboxClose (argInt regs regPosA0))
  | .doMboxSend =>
    s.callL cpuid p env (.mboxSend (argInt regs regPosA0)
      (user.bytes (regs regPosA1) (argInt regs regPosA2)))
  | .doMboxRecv =>
    s.callL cpuid p env (.mboxRecv (argInt regs regPosA0) (argInt regs regPosA2).toNat)
  | .doNetSend => s.netSendL cpuid p env (argInt regs regPosA1)
  | .doNetRecv => s.callL cpuid p env (.netRecv (argInt regs regPosA1).toNat)
  | .doFclose => s.fdescL cpuid (argInt regs regPosA0)
  | .doFread => s.fdescL cpuid (argInt regs regPosA0)
  | .doFwrite => s.fdescL cpuid (argInt regs regPosA0)
  | .doLseek => s.fdescL cpuid (argInt regs regPosA0)
  -- the other handlers use no index that comes from a register
  | _ => pure (s.ret cpuid)

/-- `handle_syscall`. -/
def handleSyscallL (cpuid : Cpu) (p : Pcb) (regs : Regs) (user : UserMem) (env : Env) :
    UseLog System := do
  let syscallNumber := (regs regPosA7).toInt
  let handler ← .tell (.syscall, syscallNumber) (entry syscallNumber)
  s.dispatchL cpuid p regs user env handler

end System

/-! ## Steps -/

/-- The steps of the system, with the registers at an `ecall`. -/
inductive Event
  | ecall (cpuid : Cpu) (regs : Regs) (user : UserMem) (env : Env)
  | irqTimer (cpuid : Cpu) (env : Env)
  | resume (cpuid : Cpu) (env : Env)
  | slaveJoin

namespace System

variable (s : System)

/-- The task that may trap on a CPU: not an idle task. -/
def trapping (cpuid : Cpu) : Option Pcb :=
  if s.kernel.inKernel = none ∧ s.kernel.stuck = false then
    (s.kernel.runnings cpuid).filter fun p => p ≠ idlePcb cpuid
  else none

/-- The task that goes on in `do_net_send` on a CPU. -/
def sending (cpuid : Cpu) : Option Pcb :=
  if s.kernel.inKernel = some cpuid ∧ s.kernel.stuck = false then
    (s.kernel.runnings cpuid).filter fun p => s.kernel.cont p = .netSend
  else none

/-- The packet that a task behind its `do_block` tries to send again. -/
def sendAgainL (env : Env) : Option Pcb → UseLog Unit
  | some p => copyL env (s.length p)
  | none => pure ()

/-- One step. -/
def stepL : Event → UseLog System
  | .ecall cpuid regs user env => do
    let p ← .of (s.trapping cpuid)
    s.handleSyscallL cpuid p regs user env
  | .irqTimer cpuid env => .of do
    let k ← s.kernel.step (.trap cpuid .irqTimer env)
    some { s with kernel := k }
  | .resume cpuid env => do
    let _ ← s.sendAgainL env (s.sending cpuid)
    .of do
      let k ← s.kernel.step (.resume cpuid env)
      some { s with kernel := k }
  | .slaveJoin => .of do
    let k ← s.kernel.step .slaveJoin
    some { s with kernel := k }

/-- The state after a step, if it has a defined result. -/
def step (e : Event) : Option System := (s.stepL e).result

/-- The indices a step uses. -/
def uses (e : Event) : List Use := (s.stepL e).log

/-- CPU 0 runs the shell and nothing is sent. -/
def boot (tasks : List (List UInt8)) : System := ⟨Kernel.boot tasks, fun _ => 0⟩

end System

/-! ## Without the log -/

open Logged

variable (k : Kernel)

lemma result_barrierInitL (key goal : ℤ) :
    (barrierInitL k key goal).result = k.barrierInit key goal :=
  result_bind_congr (result_tell _ _) fun _ => rfl

lemma result_mboxCloseL (i : Slot) : (mboxCloseL k i).result = k.mboxClose i := by
  rw [mboxCloseL, Kernel.mboxClose]
  dsimp only
  split
  · exact result_bind_congr (result_tell _ _) fun m =>
      result_bind_congr (result_of _) fun _ => rfl
  · rfl

/-- With the log a call does what it does without. -/
lemma result_handleL (cpuid : Cpu) (p : Pcb) (env : Env) (call : Call) :
    (handleL k cpuid p env call).result = k.handle cpuid p env call := by
  cases call with
  | barrierInit key goal =>
    rw [handleL, Kernel.handle, Kernel.returning, Option.map_eq_bind]
    exact result_bind_congr (result_barrierInitL k key goal) fun _ => rfl
  | mboxClose idx =>
    refine result_bind_congr (result_tell _ _) fun i => ?_
    rw [Kernel.returning, Option.map_eq_bind]
    exact result_bind_congr (result_mboxCloseL k i) fun _ => rfl
  | conditionWait | mboxSend | mboxRecv =>
    exact result_bind_congr (result_tell _ _) fun _ =>
      result_bind_congr (result_tell _ _) fun _ => rfl
  | mutexLockAcquire | mutexLockRelease | barrierWait | barrierDestroy | conditionSignal
  | conditionBroadcast | conditionDestroy =>
    exact result_bind_congr (result_tell _ _) fun _ => rfl
  | _ => rfl

end Syscall
end UcasKernel
