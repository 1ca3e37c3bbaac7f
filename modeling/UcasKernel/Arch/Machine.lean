/-
The machine under the scheduler: two harts, the memory, and the code of `entry.S` between the
tasks and the kernel.

A hart is outside of the kernel and runs the code of its task, or inside and runs C code for
it.  What runs outside of `entry.S` and of the scheduler is left open: a task leaves any
registers and any memory, and so does the C code of a handler, as far as `Event.Meets` allows.
A task keeps `tp` and the memory of the kernel; the C code for a task keeps the trapframes of
the other tasks, and `tp` in its own.  A new PCB gets a kernel stack of its own.

Taking a trap needs no lock, so both harts may be inside; the handlers take turns.
-/
import UcasKernel.Arch.Entry
import UcasKernel.Lib.Cells
import UcasKernel.Sched.Turns

namespace UcasKernel
namespace Arch

open Riscv Sched

/-- Where the code and the PCBs are. -/
structure Layout where
  labels : Labels
  pcbAddr : Pcb → Word
  aligned : ∀ p, Aligned (pcbAddr p)

structure Machine (M : Type) where
  kernel : Kernel
  hart : Cpu → Hart
  mem : M
  /-- The hart is in the kernel. -/
  inside : Cpu → Bool
  /-- The idle task of the CPU has gone through the end of `main`. -/
  started : Cpu → Bool

/-- What happens on a hart.  The registers and the memory in an event are those that the code
that ran leaves behind. -/
inductive Event (M : Type)
  /-- the task runs -/
  | user (cpuid : Cpu) (hart : Hart) (mem : M)
  /-- a trap, up to `interrupt_helper` -/
  | trap (cpuid : Cpu) (scause stval : Word)
  /-- a handler that calls nothing of the scheduler, and `ret_from_kernel` -/
  | serve (cpuid : Cpu) (hart : Hart) (mem : M)
  /-- a handler, or what a task does behind its `switch_to`, up to the next `switch_to` or
  `ret_from_kernel` -/
  | sched (e : Sched.Event) (hart : Hart) (mem : M)

/-- The cells of a kernel stack that `entry.S` uses: the trapframe and the `switchto_context_t`
below it. -/
def cells (k : Word) : List Word :=
  frameOffsets.map (fun o => k + o) ++ switchOffsets.map (fun o => k - SWITCH_TO_SIZE + o)

/-- The idle tasks and the PCBs in use have a kernel stack. -/
def Live (k : Kernel) (p : Pcb) : Prop := k.pid p ≠ 0 ∨ ∃ c, p = idlePcb c

namespace Machine

section Fields

variable {M : Type}

/-- The task in whose name a hart runs. -/
def own (s : Machine M) (c : Cpu) : Pcb := (s.kernel.runnings c).getD (idlePcb c)

/-- The state behind code of hart `c`. -/
def put (s : Machine M) (c : Cpu) (h : Hart) (m : M) : Machine M :=
  { s with hart := Function.update s.hart c h, mem := m }

def setInside (s : Machine M) (c : Cpu) (b : Bool) : Machine M :=
  { s with inside := Function.update s.inside c b }

def setStarted (s : Machine M) (c : Cpu) : Machine M :=
  { s with started := Function.update s.started c true }

def setKernel (s : Machine M) (k : Kernel) : Machine M := { s with kernel := k }

/-- The slot in whose name a hart runs. -/
def ownSlots (s : Machine M) (c : Cpu) : List Slot :=
  (List.finRange 16).filter fun i => s.kernel.runnings c = some (.slot i)

/-- The hart is outside of the kernel and runs the PCB. -/
def Out (s : Machine M) (c : Cpu) (p : Pcb) : Prop :=
  s.inside c = false ∧ s.kernel.runnings c = some p

instance (s : Machine M) (c : Cpu) (p : Pcb) : Decidable (s.Out c p) :=
  inferInstanceAs (Decidable (_ ∧ _))

variable (s : Machine M) (c d : Cpu) (h : Hart) (m : M) (b : Bool) (k : Kernel)

@[simp] lemma put_hart_self : (s.put c h m).hart c = h := Function.update_self ..
@[simp] lemma put_mem : (s.put c h m).mem = m := rfl
@[simp] lemma put_kernel : (s.put c h m).kernel = s.kernel := rfl
@[simp] lemma put_inside : (s.put c h m).inside = s.inside := rfl
@[simp] lemma put_started : (s.put c h m).started = s.started := rfl
@[simp] lemma setInside_hart : (s.setInside c b).hart = s.hart := rfl
@[simp] lemma setInside_mem : (s.setInside c b).mem = s.mem := rfl
@[simp] lemma setInside_kernel : (s.setInside c b).kernel = s.kernel := rfl
@[simp] lemma setInside_started : (s.setInside c b).started = s.started := rfl
@[simp] lemma setInside_inside_self : (s.setInside c b).inside c = b := Function.update_self ..
@[simp] lemma setStarted_hart : (s.setStarted c).hart = s.hart := rfl
@[simp] lemma setKernel_hart : (s.setKernel k).hart = s.hart := rfl
@[simp] lemma setKernel_mem : (s.setKernel k).mem = s.mem := rfl
@[simp] lemma setKernel_kernel : (s.setKernel k).kernel = k := rfl
@[simp] lemma setKernel_inside : (s.setKernel k).inside = s.inside := rfl
@[simp] lemma setKernel_started : (s.setKernel k).started = s.started := rfl

variable {s c d}

lemma mem_ownSlots {i : Slot} : i ∈ s.ownSlots c ↔ s.kernel.runnings c = some (.slot i) := by
  simp [ownSlots]

variable (s)

lemma put_hart_of_ne (hd : d ≠ c) : (s.put c h m).hart d = s.hart d :=
  Function.update_of_ne hd ..

lemma setStarted_started_of_ne (hd : d ≠ c) : (s.setStarted c).started d = s.started d :=
  Function.update_of_ne hd ..

lemma setInside_inside_of_ne (hd : d ≠ c) : (s.setInside c b).inside d = s.inside d :=
  Function.update_of_ne hd ..

end Fields

variable {M : Type} [Dwords M] (l : Layout)

/-- `kernel_sp` of a PCB. -/
def kernelSp (s : Machine M) (p : Pcb) : Word := load s.mem (l.pcbAddr p)

/-- The end of `ret_from_kernel`, or of `main` when an idle task goes on for the first time. -/
def leave (c : Cpu) (s : Machine M) : Option (Machine M) := do
  let p ← s.kernel.runnings c
  let h := { s.hart c with x := Function.update (s.hart c).x .tp (l.pcbAddr p) }
  if p = idlePcb c ∧ s.started c = false then
    let sstatus := setBit (h.csr .sstatus) SIE true
    let h := { h with csr := Function.update h.csr .sstatus sstatus }
    some (((s.put c h s.mem).setInside c false).setStarted c)
  else do
    let t ← retFromException { toHart := h, mem := s.mem }
    some ((s.put c t.toHart t.mem).setInside c false)

/-- `switch_to(before, current_running)`. -/
def switch (c : Cpu) (before : Pcb) (s : Machine M) : Option (Machine M) := do
  let next ← s.kernel.runnings c
  let t ← switchTo (l.pcbAddr before) (l.pcbAddr next) { toHart := s.hart c, mem := s.mem }
  some (s.put c t.toHart t.mem)

/-- One step. -/
def step (s : Machine M) : Event M → Option (Machine M)
  | .user c h m => if s.inside c = false then some (s.put c h m) else none
  | .trap c scause stval =>
    if s.inside c = false then do
      let t ← takeTrap l.labels scause stval { toHart := s.hart c, mem := s.mem }
      some ((s.put c t.toHart t.mem).setInside c true)
    else none
  | .serve c h m =>
    if s.inside c = true ∧ s.kernel.inKernel = none ∧ s.kernel.stuck = false then
      leave l c ((s.put c h m).setKernel (s.kernel.retFromKernel c))
    else none
  | .sched e h m =>
    if s.inside e.cpu = true then do
      let k ← s.kernel.step e
      let t := (s.put e.cpu h m).setKernel k
      if k.inKernel = none then leave l e.cpu t else switch l e.cpu (s.own e.cpu) t
    else none

/-! ## What the code that is left open must meet -/

/-- The task keeps `tp` and the memory of the kernel. -/
structure UserMeets (s : Machine M) (c : Cpu) (h : Hart) (m : M) : Prop where
  tp : h.x .tp = (s.hart c).x .tp
  kernelSp : ∀ p, Live s.kernel p → load m (l.pcbAddr p) = s.kernelSp l p
  cells : ∀ p, Live s.kernel p → ∀ a ∈ cells (s.kernelSp l p), load m a = load s.mem a

/-- The C code for a task keeps the kernel stacks of the others, and `tp` in its trapframe. -/
structure WorkMeets (s : Machine M) (c : Cpu) (m : M) : Prop where
  tp : load m (s.kernelSp l (s.own c) + offsetReg .tp) =
    load s.mem (s.kernelSp l (s.own c) + offsetReg .tp)
  kernelSp : ∀ p, Live s.kernel p → load m (l.pcbAddr p) = s.kernelSp l p
  cells : ∀ p, Live s.kernel p → p ≠ s.own c → ∀ a ∈ cells (s.kernelSp l p),
    load m a = load s.mem a

/-- A new PCB has a kernel stack of its own, and `tp` of its trapframe points to it. -/
structure NewStack (s : Machine M) (k : Kernel) (m : M) (p : Pcb) : Prop where
  aligned : Aligned (load m (l.pcbAddr p))
  tp : load m (load m (l.pcbAddr p) + offsetReg .tp) = l.pcbAddr p
  pcb : ∀ r, l.pcbAddr r ∉ cells (load m (l.pcbAddr p))
  apart : ∀ r, r ≠ p → Live s.kernel r ∨ Live k r →
    ∀ a ∈ cells (load m (l.pcbAddr r)), a ∉ cells (load m (l.pcbAddr p))

/-- What the code that runs in a step must meet. -/
def Meets (s : Machine M) : Event M → Prop
  | .user c h m => UserMeets l s c h m
  | .trap _ _ _ => True
  | .serve c _ m => WorkMeets l s c m
  | .sched e _ m => s.kernel.Orderly e ∧ WorkMeets l s e.cpu m ∧
      ∀ k, s.kernel.step e = some k → ∀ p, ¬ Live s.kernel p → Live k p → NewStack l s k m p

/-- The kernel stacks are apart from each other and from the PCBs. -/
structure Stacks (k : Kernel) (m : M) : Prop where
  aligned : ∀ p, Live k p → Aligned (load m (l.pcbAddr p))
  pcb : ∀ p r, Live k p → l.pcbAddr r ∉ cells (load m (l.pcbAddr p))
  apart : ∀ p r, Live k p → Live k r → p ≠ r →
    ∀ a ∈ cells (load m (l.pcbAddr p)), a ∉ cells (load m (l.pcbAddr r))

/-- CPU 0 runs the shell, and CPU 1 is in `main`. -/
structure Boots (tasks : List (List UInt8)) (s : Machine M) : Prop where
  kernel : s.kernel = Kernel.boot tasks
  inside : ∀ c, s.inside c = decide (c = 1)
  started : ∀ c, s.started c = false
  tp : (s.hart 0).x .tp = l.pcbAddr (.slot 0)
  kernelStacks : Stacks l s.kernel s.mem

/-! ## The processor of a task -/

/-- The processor of a task: the hart that runs its code, or else its trapframe. -/
def view (s : Machine M) (i : Slot) : Ctx :=
  match (List.finRange 2).find? fun c => decide (s.Out c (.slot i)) with
  | some c => (s.hart c).ctx
  | none => frameCtx s.mem (s.kernelSp l (.slot i))

/-- The processors that a step changes: the one of the task that runs, by the task or by the C
code for it, and the one of a new PCB. -/
def writes (s : Machine M) : Event M → List (Slot × Ctx)
  | .user c h _ => (s.ownSlots c).map fun i => (i, h.ctx)
  | .trap _ _ _ => []
  | .serve c _ m => (s.ownSlots c).map fun i => (i, frameCtx m (load m (l.pcbAddr (.slot i))))
  | .sched e _ m => ((List.finRange 16).filter fun i =>
      s.kernel.runnings e.cpu = some (.slot i) ∨ s.kernel.pid (.slot i) = 0).map fun i =>
        (i, frameCtx m (load m (l.pcbAddr (.slot i))))

end Machine
end Arch
end UcasKernel
