/-
Processes and threads, from `kernel/sched/sched.c`: creation, exit, kill, and the
two ways to wait for the end of another task.
-/
import UcasKernel.Locking.Sync

namespace UcasKernel
namespace Sched
namespace Kernel

/-- `find_unused_pcb`. -/
def findUnusedPcb (k : Kernel) : Option Slot := firstSlot fun i => k.pid (.slot i) = 0

/-- The slot that `do_kill` and `do_waitpid` find for a pid. -/
def findPid (k : Kernel) (pid : ℤ) : Option Slot := firstSlot fun i => k.pid (.slot i) = pid

/-- The common part of `create_pcb` and `do_thread_create`: the PCB of slot `i`
gets a pid and a page directory, its thread number, a place at the tail of the
ready queue, an empty wait list and a new context. -/
def initPcb (k : Kernel) (i : Slot) (pid : ℤ) (pgdir : ℕ) : Option Kernel := do
  let p := Pcb.slot i
  let threads := Function.update k.threads pid (k.threads pid + 1)
  let k := { k with
    pid := Function.update k.pid p pid
    threads := threads
    tid := Function.update k.tid p (threads pid) }
  let k := k.setStatus p .ready
  let k ← k.listAddTail p .readyQueue
  some { k with
    links := k.links.initHead (.waitList p)
    pgdir := Function.update k.pgdir p pgdir
    cont := Function.update k.cont p .ret }

instance (k : Kernel) (name : List UInt8) : Decidable (name ∈ k.tasks) := inferInstance

/-- `create_pcb`, and with it `do_exec`.  `tasks[i].name` is empty behind the last
loaded task; an image under an empty name cannot be loaded and the assertion
behind it fails. -/
def createPcb (k : Kernel) (name : List UInt8) : Option Kernel :=
  match k.findUnusedPcb with
  | none => some k
  | some i =>
    if name ∈ k.tasks then
      ({ k with processId := k.processId + 1, nextPgdir := k.nextPgdir + 1 } : Kernel).initPcb i
        k.processId k.nextPgdir
    else if name = [] ∧ k.tasks.length < 16 then none
    else some k

/-- `do_thread_create` by task `p`. -/
def doThreadCreate (k : Kernel) (p : Pcb) : Option Kernel :=
  match k.findUnusedPcb with
  | none => some k
  | some i => k.initPcb i (k.pid p) (k.pgdir p)

/-- The loop of `release_pcb` over the mutexes, from a list of indices. -/
def releaseMlocks (pid : ℤ) : List Slot → Kernel → Option Kernel
  | [], k => some k
  | m :: ms, k => do
    let k ← if (k.mlocks m).pid = pid then k.mutexLockRelease m else some k
    releaseMlocks pid ms k

/-- `release_pcb`. -/
def releasePcb (k : Kernel) (p : Pcb) : Option Kernel := do
  let k := k.setStatus p .exited
  let k := { k with threads := Function.update k.threads (k.pid p) (k.threads (k.pid p) - 1) }
  let k ← k.listDeleteEntry p
  let k ← releaseMlocks (k.pid p) (List.finRange 16) k
  unblockAll (.waitList p) loopBound k

/-- `free_pgdir` of the page directory of a PCB. -/
def freePgdir (k : Kernel) (p : Pcb) : Kernel :=
  { k with freed := Function.update k.freed (k.pgdir p) true }

/-- `p->pid = 0`. -/
def clearPid (k : Kernel) (p : Pcb) : Kernel := { k with pid := Function.update k.pid p 0 }

/-- `do_exit` by task `p`.  While other threads are left, `switch_to` goes from the
PCB to itself and returns. -/
def doExit (k : Kernel) (cpuid : Cpu) (p : Pcb) : Option Kernel := do
  let k ← k.releasePcb p
  if k.threads (k.pid p) = 0 then
    let k ← k.findIdleTask cpuid
    let k := ((k.switchPgdir cpuid).freePgdir p).clearPid p
    some (k.switchTo cpuid p .ret)
  else some ((k.clearPid p).retFromKernel cpuid)

/-- `do_kill`, with its result. -/
def doKill (k : Kernel) (pid : ℤ) : Option (ℤ × Kernel) :=
  match k.findPid pid with
  | none => some (0, k)
  | some i => do
    let killed := Pcb.slot i
    let k ← k.releasePcb killed
    let k := if k.threads (k.pid killed) = 0 then k.freePgdir killed else k
    some (1, k.clearPid killed)

/-- `do_waitpid` by task `p`. -/
def doWaitpid (k : Kernel) (cpuid : Cpu) (p : Pcb) (pid : ℤ) : Option Kernel :=
  match k.findPid pid with
  | none => some (k.retFromKernel cpuid)
  | some i => k.doBlock cpuid p (.waitList (.slot i)) (.waitpid i)

/-- The loop of `do_thread_join` by task `p`, from a node of the ready queue. -/
def threadJoinLoop (cpuid : Cpu) (p : Pcb) (thread : ℤ) : ℕ → Option Node → Kernel → Option Kernel
  | 0, _, _ => none
  | _ + 1, none, _ => none
  | _ + 1, some (.inl h), k => if h = .readyQueue then some (k.retFromKernel cpuid) else none
  | n + 1, some (.inr r), k =>
    let next := k.links.next (.inr r)
    if k.pid r = k.pid p ∧ k.tid r = thread then
      k.doBlock cpuid p (.waitList r) (.threadJoin thread next)
    else threadJoinLoop cpuid p thread n next k

/-- `do_thread_join`. -/
def doThreadJoin (k : Kernel) (cpuid : Cpu) (p : Pcb) (thread : ℤ) : Option Kernel :=
  threadJoinLoop cpuid p thread loopBound (k.links.next (.inl .readyQueue)) k

/-- `do_net_send`. -/
def netSend (k : Kernel) (cpuid : Cpu) (p : Pcb) (env : Env) : Option Kernel :=
  if env.transmitted then some (k.retFromKernel cpuid)
  else k.doBlock cpuid p .sendBlockQueue .netSend

/-- `do_net_recv` with `left` packets to go; `i` counts the polls of this step. -/
def netRecv (cpuid : Cpu) (p : Pcb) (env : Env) : ℕ → ℕ → Kernel → Option Kernel
  | 0, _, k => some (k.retFromKernel cpuid)
  | left + 1, i, k =>
    if env.polled i then netRecv cpuid p env left (i + 1) k
    else k.doBlock cpuid p .recvBlockQueue (.netRecv (left + 1))

end Kernel

/-! ## Steps -/

/-- The timer interrupt and the system calls that concern the scheduler. -/
inductive Call
  | irqTimer
  | yield
  | sleep (sleepTime : ℕ)
  | exec (name : List UInt8)
  | exit
  | kill (pid : ℤ)
  | waitpid (pid : ℤ)
  | threadCreate
  | threadJoin (thread : ℤ)
  | mutexLockAcquire (mlockIdx : ℤ)
  | mutexLockRelease (mlockIdx : ℤ)
  | barrierInit (key goal : ℤ)
  | barrierWait (barIdx : ℤ)
  | barrierDestroy (barIdx : ℤ)
  | conditionWait (condIdx mutexIdx : ℤ)
  | conditionSignal (condIdx : ℤ)
  | conditionBroadcast (condIdx : ℤ)
  | conditionDestroy (condIdx : ℤ)
  | mboxOpen (name : List UInt8)
  | mboxClose (mboxIdx : ℤ)
  | mboxSend (mboxIdx : ℤ) (msg : List UInt8)
  | mboxRecv (mboxIdx : ℤ) (msgLength : ℕ)
  | netSend
  | netRecv (pktNum : ℕ)
deriving DecidableEq, Repr

/-- The steps of the system: a trap of the task that runs on a CPU, up to its
return or its `switch_to`; the continuation of the task switched to; and the
first switch of CPU 1. -/
inductive Event
  | trap (cpuid : Cpu) (call : Call) (env : Env)
  | resume (cpuid : Cpu) (env : Env)
  | slaveJoin

namespace Kernel

/-- A call that returns without a switch. -/
def returning (k : Option Kernel) (cpuid : Cpu) : Option Kernel :=
  k.map fun k => k.retFromKernel cpuid

/-- The handler of a trap by task `p` on `cpuid`. -/
def handle (k : Kernel) (cpuid : Cpu) (p : Pcb) (env : Env) : Call → Option Kernel
  | .irqTimer => k.doScheduler cpuid p env
  | .yield => k.doScheduler cpuid p env
  | .sleep sleepTime => k.doSleep cpuid p sleepTime env
  | .exec name => returning (k.createPcb name) cpuid
  | .exit => k.doExit cpuid p
  | .kill pid => returning ((k.doKill pid).map (·.2)) cpuid
  | .waitpid pid => k.doWaitpid cpuid p pid
  | .threadCreate => returning (k.doThreadCreate p) cpuid
  | .threadJoin thread => k.doThreadJoin cpuid p thread
  | .mutexLockAcquire idx => do
    let m ← slotOf idx
    k.mutexLockAcquire cpuid p m (.mutexLockAcquire m) fun k => some (k.retFromKernel cpuid)
  | .mutexLockRelease idx => do
    let m ← slotOf idx
    returning (k.mutexLockRelease m) cpuid
  | .barrierInit key goal => returning (k.barrierInit key goal) cpuid
  | .barrierWait idx => do
    let b ← slotOf idx
    k.barrierWait cpuid p b
  | .barrierDestroy idx => do
    let b ← slotOf idx
    returning (k.barrierDestroy b) cpuid
  | .conditionWait condIdx mutexIdx => do
    let c ← slotOf condIdx
    let m ← slotOf mutexIdx
    k.conditionWait cpuid p c m
  | .conditionSignal idx => do
    let c ← slotOf idx
    returning (k.conditionSignal c) cpuid
  | .conditionBroadcast idx => do
    let c ← slotOf idx
    returning (k.conditionBroadcast c) cpuid
  | .conditionDestroy idx => do
    let c ← slotOf idx
    returning (k.conditionBroadcast c) cpuid
  | .mboxOpen name => returning (k.mboxOpen name) cpuid
  | .mboxClose idx => do
    let i ← slotOf idx
    returning (k.mboxClose i) cpuid
  | .mboxSend idx msg => do
    let i ← slotOf idx
    let m ← slotOf (k.mailboxes i).mutexId
    k.mboxSend cpuid p i m msg
  | .mboxRecv idx msgLength => do
    let i ← slotOf idx
    let m ← slotOf (k.mailboxes i).mutexId
    k.mboxRecv cpuid p i m msgLength
  | .netSend => k.netSend cpuid p env
  | .netRecv pktNum => netRecv cpuid p env pktNum 0 k

/-- What task `p` does behind its `switch_to`. -/
def goOn (k : Kernel) (cpuid : Cpu) (p : Pcb) (env : Env) : Cont → Option Kernel
  | .ret => some (k.retFromKernel cpuid)
  | .waitpid _ => some (k.retFromKernel cpuid)
  | .mutexLockAcquire _ => some (k.retFromKernel cpuid)
  | .conditionWait m =>
    k.mutexLockAcquire cpuid p m (.mutexLockAcquire m) fun k => some (k.retFromKernel cpuid)
  | .mboxSendLocked i m msg => k.mboxSendLocked cpuid p i m msg
  | .mboxSendWoken i m msg => k.mboxSend cpuid p i m msg
  | .mboxRecvLocked i m msgLength => k.mboxRecvLocked cpuid p i m msgLength
  | .mboxRecvWoken i m msgLength => k.mboxRecv cpuid p i m msgLength
  | .netSend => k.netSend cpuid p env
  | .netRecv left => netRecv cpuid p env left 0 k
  | .threadJoin thread next => threadJoinLoop cpuid p thread loopBound next k

/-- `slave_wait_for_task` with two or more tasks on the ready queue, and the
`switch_to` of `main` behind it. -/
def slaveJoin (k : Kernel) : Option Kernel :=
  match k.links.next (.inl .readyQueue) with
  | none => none
  | some (.inl _) => none
  | some (.inr first) =>
    match k.links.next (.inr first) with
    | some (.inr second) =>
      some (({ k with runnings := Function.update k.runnings 1 (some second) }.setStatus second
        .running).switchTo 1 .pid0Pcb2 .ret)
    | _ => none

/-- One step.  A CPU enters the kernel when no CPU is in it; the idle tasks make
no system calls. -/
def step (k : Kernel) : Event → Option Kernel
  | .trap cpuid call env =>
    if k.inKernel = none ∧ k.stuck = false then
      match k.runnings cpuid with
      | none => none
      | some p =>
        if call = .irqTimer ∨ p ≠ idlePcb cpuid then k.handle cpuid p env call else none
    else none
  | .resume cpuid env =>
    if k.inKernel = some cpuid ∧ k.stuck = false then
      match k.runnings cpuid with
      | none => none
      | some p => k.goOn cpuid p env (k.cont p)
    else none
  | .slaveJoin =>
    if k.inKernel = none ∧ k.stuck = false ∧ k.runnings 1 = none then k.slaveJoin else none

/-- The state in which CPU 0 runs the shell, in slot 0 and with pid 1, and CPU 1
waits. -/
def boot (tasks : List (List UInt8)) : Kernel where
  links :=
    let empty : Links Head Pcb :=
      ⟨fun n => match n with
        | .inl (.waitList _) => none
        | .inl h => some (.inl h)
        | .inr _ => none,
       fun n => match n with
        | .inl (.waitList _) => none
        | .inl h => some (.inl h)
        | .inr _ => none⟩
    (empty.insert (.inr (.slot 0)) (.inl .readyQueue) (.inl .readyQueue)).initHead
      (.waitList (.slot 0))
  pid := Function.update (fun _ => 0) (.slot 0) 1
  tid := Function.update (fun _ => 0) (.slot 0) 1
  status := Function.update (fun _ => .blocked) (.slot 0) .running
  wakeupTime := fun _ => 0
  pgdir := Function.update (fun _ => 0) (.slot 0) 1
  cont := fun _ => .ret
  threads := Function.update (fun _ => 0) 1 1
  processId := 2
  runnings := fun c => if c = 0 then some (.slot 0) else none
  inKernel := none
  satp := fun c => if c = 0 then 1 else 0
  nextPgdir := 2
  freed := fun _ => false
  stuck := false
  mlocks := fun _ => ⟨false, 0⟩
  barriers := fun _ => ⟨0, 0⟩
  mailboxes := fun _ => Locking.initMbox
  tasks := tasks

end Kernel
end Sched
end UcasKernel
