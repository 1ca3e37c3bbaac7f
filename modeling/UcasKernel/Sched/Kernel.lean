/-
The state of the scheduler and the functions of `kernel/sched/sched.c` that move
PCBs between queues.

All queues of the kernel are circular lists through the field `list` of the
PCBs, so there is one heap of list nodes for all of them.  A running PCB stays
on the ready queue; only `status` and `runnings` tell that it runs.  A task that
was switched away from goes on behind its `switch_to`; what it does there is its
`cont`.

Following a pointer that was never set, or reading a queue head as a PCB, has no
defined result, and a loop over a queue gives up after more rounds than there
are PCBs.
-/
import UcasKernel.Lib.DList
import UcasKernel.Lib.Index
import UcasKernel.Locking.Mailbox
import Mathlib.Data.Fintype.Card
import Mathlib.Data.Fintype.Sum
import Mathlib.Tactic.DeriveFintype

namespace UcasKernel
namespace Sched

/-- `task_status_t`. -/
inductive TaskStatus
  | blocked
  | running
  | ready
  | exited
deriving DecidableEq, Repr

/-- `NUM_MAX_TASK`, and the sizes of `mlocks`, `barriers`, `conditions` and
`mailboxes`, which are the same number. -/
abbrev Slot := Fin 16

/-- The PCBs: `pcb[i]` and the idle tasks `pid0_pcb` and `pid0_pcb2`. -/
inductive Pcb
  | slot (i : Slot)
  | pid0Pcb
  | pid0Pcb2
deriving DecidableEq, Repr, Fintype

/-- `NR_CPUS` is 2. -/
abbrev Cpu := Fin 2

/-- The idle task of a CPU. -/
def idlePcb (c : Cpu) : Pcb := if c = 0 then .pid0Pcb else .pid0Pcb2

/-- The heads of the queues. -/
inductive Head
  | readyQueue
  | sleepQueue
  | sendBlockQueue
  | recvBlockQueue
  | blockQueue (mlockIdx : Slot)
  | blockList (barIdx : Slot)
  | condWaitList (condIdx : Slot)
  | sendList (mboxIdx : Slot)
  | recvList (mboxIdx : Slot)
  | waitList (p : Pcb)
deriving DecidableEq, Repr

/-- A list node. -/
abbrev Node := Head ⊕ Pcb

/-- What a task does behind the `switch_to` that suspended it, named by the
caller of `do_block` and its local variables. -/
inductive Cont
  /-- return to the user: a new context, `do_scheduler`, `do_sleep`,
  `do_barrier_wait`, `do_exit` and the idle tasks -/
  | ret
  | waitpid (toWait : Slot)
  | mutexLockAcquire (mlockIdx : Slot)
  /-- `do_condition_wait` before it acquires the mutex again -/
  | conditionWait (mlockIdx : Slot)
  /-- `do_mbox_send` behind an acquire that blocked -/
  | mboxSendLocked (mboxIdx mutexId : Slot) (msg : List UInt8)
  /-- `do_mbox_send` behind its `do_block` on `send_list` -/
  | mboxSendWoken (mboxIdx mutexId : Slot) (msg : List UInt8)
  | mboxRecvLocked (mboxIdx mutexId : Slot) (msgLength : ℕ)
  | mboxRecvWoken (mboxIdx mutexId : Slot) (msgLength : ℕ)
  | netSend
  /-- `do_net_recv` with a number of packets to go -/
  | netRecv (left : ℕ)
  /-- `do_thread_join` with its saved pointer `p_q` -/
  | threadJoin (thread : ℤ) (next : Option Node)
deriving DecidableEq, Repr

/-- `mutex_lock_t`, without its queue. -/
structure MutexLock where
  locked : Bool
  pid : ℤ
deriving DecidableEq, Repr

/-- `barrier_t`, without its queue. -/
structure Barrier where
  current : ℤ
  goal : ℤ
deriving DecidableEq, Repr

/-- The kernel.  `current_running` is always the entry of `runnings` of the CPU
that is in the kernel, so it has no field of its own. -/
structure Kernel where
  links : Links Head Pcb
  pid : Pcb → ℤ
  tid : Pcb → ℤ
  status : Pcb → TaskStatus
  wakeupTime : Pcb → ℕ
  /-- Page directories are numbered in the order of their allocation; 0 is the
  one of the kernel. -/
  pgdir : Pcb → ℕ
  cont : Pcb → Cont
  /-- `threads`; a cell behind its end counts as a cell of its own. -/
  threads : ℤ → ℤ
  processId : ℤ
  runnings : Cpu → Option Pcb
  /-- The CPU that has switched to another task and not left the kernel yet. -/
  inKernel : Option Cpu
  satp : Cpu → ℕ
  nextPgdir : ℕ
  /-- The page directory was given to `free_pgdir`. -/
  freed : ℕ → Bool
  /-- A CPU flushed its TLB with a freed page directory in `satp`: it cannot fetch
  the next instruction, and it holds the kernel lock. -/
  stuck : Bool
  mlocks : Slot → MutexLock
  barriers : Slot → Barrier
  mailboxes : Slot → Locking.Mailbox
  /-- The names of the loaded tasks. -/
  tasks : List (List UInt8)

/-- What the devices answer during one step. -/
structure Env where
  /-- The results of the successive calls of `get_timer`. -/
  clock : ℕ → ℕ
  /-- `is_tx_desc_stat_dd` and `is_rx_desc_stat_dd` -/
  txDescDone : Bool
  rxDescDone : Bool
  /-- `e1000_transmit` accepts the packet. -/
  transmitted : Bool
  /-- The successive calls of `e1000_poll` find a packet. -/
  polled : ℕ → Bool

namespace Kernel

/-- A bound on the rounds of a loop over a queue: one more than there are PCBs. -/
def loopBound : ℕ := 19

def setStatus (k : Kernel) (p : Pcb) (status : TaskStatus) : Kernel :=
  { k with status := Function.update k.status p status }

/-- `list_delete_entry(&p->list)`. -/
def listDeleteEntry (k : Kernel) (p : Pcb) : Option Kernel :=
  (k.links.delete p).map fun links => { k with links := links }

/-- `list_add_tail(&p->list, head)`. -/
def listAddTail (k : Kernel) (p : Pcb) (head : Head) : Option Kernel :=
  (k.links.addTail p head).map fun links => { k with links := links }

/-- `is_queue_empty`. -/
def isQueueEmpty (k : Kernel) (queue : Head) : Bool := k.links.isEmpty queue

/-- `list_entry(queue->next, pcb_t)`. -/
def firstEntry (k : Kernel) (queue : Head) : Option Pcb :=
  match k.links.next (.inl queue) with
  | some (.inr p) => some p
  | _ => none

/-- `do_unblock`. -/
def doUnblock (k : Kernel) (p : Pcb) : Option Kernel := do
  let k ← k.listDeleteEntry p
  let k := k.setStatus p .ready
  k.listAddTail p .readyQueue

/-- `while (!is_queue_empty(queue)) do_unblock(queue->next)`. -/
def unblockAll (queue : Head) : ℕ → Kernel → Option Kernel
  | 0, _ => none
  | n + 1, k =>
    if k.isQueueEmpty queue then some k
    else do
      let p ← k.firstEntry queue
      let k ← k.doUnblock p
      unblockAll queue n k

/-- `list_for_each_entry_safe` over a queue, from a node, with a body that gets
the number of the round. -/
def forEachEntrySafe (head : Head) (body : ℕ → Pcb → Kernel → Option Kernel) :
    ℕ → ℕ → Option Node → Kernel → Option Kernel
  | 0, _, _, _ => none
  | _ + 1, _, none, _ => none
  | _ + 1, _, some (.inl h), k => if h = head then some k else none
  | n + 1, i, some (.inr p), k => do
    let q := k.links.next (.inr p)
    let k ← body i p k
    forEachEntrySafe head body n (i + 1) q k

/-- `check_sleeping`. -/
def checkSleeping (k : Kernel) (env : Env) : Option Kernel :=
  forEachEntrySafe .sleepQueue
    (fun i p k => if env.clock i ≥ k.wakeupTime p then k.doUnblock p else some k)
    loopBound 0 (k.links.next (.inl .sleepQueue)) k

/-- `check_net_send`. -/
def checkNetSend (k : Kernel) (env : Env) : Option Kernel :=
  if env.txDescDone then
    forEachEntrySafe .sendBlockQueue (fun _ p k => k.doUnblock p) loopBound 0
      (k.links.next (.inl .sendBlockQueue)) k
  else some k

/-- `check_net_recv`. -/
def checkNetRecv (k : Kernel) (env : Env) : Option Kernel :=
  if env.rxDescDone then
    forEachEntrySafe .recvBlockQueue (fun _ p k => k.doUnblock p) loopBound 0
      (k.links.next (.inl .recvBlockQueue)) k
  else some k

/-! ## Switching -/

/-- The loop of `find_idle_task` over the ready queue, from a node: the first PCB
that does not run. -/
def firstIdle (k : Kernel) : ℕ → Option Node → Option (Option Pcb)
  | 0, _ => none
  | _ + 1, none => none
  | _ + 1, some (.inl h) => if h = .readyQueue then some none else none
  | n + 1, some (.inr p) =>
    if k.status p = .running then k.firstIdle n (k.links.next (.inr p)) else some (some p)

/-- `find_idle_task`. -/
def findIdleTask (k : Kernel) (cpuid : Cpu) : Option Kernel := do
  let found ← k.firstIdle loopBound (k.links.next (.inl .readyQueue))
  let p := found.getD (idlePcb cpuid)
  some { k.setStatus p .running with runnings := Function.update k.runnings cpuid (some p) }

/-- `switch_pgdir`. -/
def switchPgdir (k : Kernel) (cpuid : Cpu) : Kernel :=
  match k.runnings cpuid with
  | none => k
  | some p =>
    { k with
      satp := Function.update k.satp cpuid (k.pgdir p)
      stuck := k.stuck || k.freed (k.pgdir p) }

/-- `switch_to(before, current_running)`: `before` goes on with `cont` when it is
switched to again, and the CPU stays in the kernel. -/
def switchTo (k : Kernel) (cpuid : Cpu) (before : Pcb) (cont : Cont) : Kernel :=
  { k with cont := Function.update k.cont before cont, inKernel := some cpuid }

/-- The last three statements of `do_scheduler` and `do_block`. -/
def reschedule (k : Kernel) (cpuid : Cpu) (before : Pcb) (cont : Cont) : Option Kernel := do
  let k ← k.findIdleTask cpuid
  some ((k.switchPgdir cpuid).switchTo cpuid before cont)

/-- `ret_from_kernel`. -/
def retFromKernel (k : Kernel) (cpuid : Cpu) : Kernel :=
  { k.switchPgdir cpuid with inKernel := none }

/-- `do_block`, called with the entry of the task `p` that runs on `cpuid`. -/
def doBlock (k : Kernel) (cpuid : Cpu) (p : Pcb) (queue : Head) (cont : Cont) : Option Kernel := do
  let k ← k.listDeleteEntry p
  let k ← k.listAddTail p queue
  (k.setStatus p .blocked).reschedule cpuid p cont

/-- `do_scheduler`, called by the task `p`. -/
def doScheduler (k : Kernel) (cpuid : Cpu) (p : Pcb) (env : Env) : Option Kernel := do
  let k ← k.checkSleeping env
  let k ← k.checkNetSend env
  let k ← k.checkNetRecv env
  let k := k.setStatus p .ready
  let k ←
    if p ≠ .pid0Pcb ∧ p ≠ .pid0Pcb2 then do
      let k ← k.listDeleteEntry p
      k.listAddTail p .readyQueue
    else some k
  k.reschedule cpuid p .ret

/-- `do_sleep`. -/
def doSleep (k : Kernel) (cpuid : Cpu) (p : Pcb) (sleepTime : ℕ) (env : Env) : Option Kernel :=
  ({ k with wakeupTime := Function.update k.wakeupTime p (env.clock 0 + sleepTime) } :
    Kernel).doBlock cpuid p .sleepQueue .ret

end Kernel
end Sched
end UcasKernel
