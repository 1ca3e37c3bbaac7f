/-
New processes and threads, from `kernel/sched/sched.c`.

`create_pcb` looks for a free PCB and then for the name in the first 16 entries of `tasks`.
It fills in the PCB, allocates a page directory and loads the image under the name; that the
loader finds the name is an assertion.  `do_exec` then puts the arguments on the new stack.
`do_thread_create` gives a PCB the page directory of its creator, and stacks of its own.
-/
import UcasKernel.Exec.Loader
import UcasKernel.Sched.Process

namespace UcasKernel
namespace Exec

open Mm Memory
open Sched (Kernel Pcb Slot)

def USER_VA_SP : ℕ := 0xf00010000
def USER_VA_SP_BASE : ℕ := 0xf0000f000
def NUM_MAX_TASK : ℕ := 16

def SR_SPP : ℕ := 0x100
def SR_SPIE : ℕ := 0x20
def SR_SUM : ℕ := 0x40000

/-- `sizeof(regs_context_t)` and `sizeof(switchto_context_t)`. -/
def sizeofRegsContext : ℕ := 288
def sizeofSwitchtoContext : ℕ := 112

/-- The scheduler and the memory manager.  The page directories of `kernel` are addresses
here; `name`, `kernelSp`, `userSp` and `cwdInum` are the other fields of the PCBs that a new
process sets.  The stores to a context need the addresses of `pcb` and `ret_from_kernel`. -/
structure System where
  kernel : Kernel
  mm : Mm.State
  info : Image.AppInfo
  name : Pcb → List UInt8
  kernelSp : Pcb → ℕ
  userSp : Pcb → ℕ
  cwdInum : Pcb → ℤ
  pcbAddr : Pcb → ℕ
  retFromKernel : ℕ

/-- `&regs[i]` in a context, and the fields behind `regs`. -/
def regAddr (context i : ℕ) : ℕ := context + 8 * i
def sstatusAddr (context : ℕ) : ℕ := regAddr context 32
def sepcAddr (context : ℕ) : ℕ := regAddr context 33

/-- The stores of `init_pcb_context` to the kernel stack. -/
def storeContexts (m : Memory) (ptRegs ptSwitchto pcb retFromKernel : ℕ) : Memory :=
  let m := m.storeWord (regAddr ptRegs 2) USER_VA_SP
  let m := m.storeWord (regAddr ptRegs 4) pcb
  let m := m.storeWord (sepcAddr ptRegs) USER_VA_START
  let sstatus := m.word (sstatusAddr ptRegs)
  let m := m.storeWord (sstatusAddr ptRegs) (sstatus &&& (2 ^ 64 - 1 - SR_SPP))
  let m := m.storeWord (sstatusAddr ptRegs) (m.word (sstatusAddr ptRegs) ||| SR_SPIE)
  let m := m.storeWord (sstatusAddr ptRegs) (m.word (sstatusAddr ptRegs) ||| SR_SUM)
  let m := m.storeWord (regAddr ptSwitchto 0) retFromKernel
  m.storeWord (regAddr ptSwitchto 1) ptRegs

/-- The stores of `do_thread_create` to the kernel stack. -/
def storeThreadContexts (m : Memory) (ptRegs ptSwitchto userStackUva pcb arg startRoutine
    retFromKernel : ℕ) : Memory :=
  let m := m.storeWord (regAddr ptRegs 2) (userStackUva + PAGE_SIZE)
  let m := m.storeWord (regAddr ptRegs 4) pcb
  let m := m.storeWord (regAddr ptRegs 10) arg
  let m := m.storeWord (sepcAddr ptRegs) startRoutine
  let sstatus := m.word (sstatusAddr ptRegs)
  let m := m.storeWord (sstatusAddr ptRegs) (sstatus &&& (2 ^ 64 - 1 - SR_SPP))
  let m := m.storeWord (sstatusAddr ptRegs) (m.word (sstatusAddr ptRegs) ||| SR_SPIE)
  let m := m.storeWord (sstatusAddr ptRegs) (m.word (sstatusAddr ptRegs) ||| SR_SUM)
  let m := m.storeWord (regAddr ptSwitchto 0) retFromKernel
  m.storeWord (regAddr ptSwitchto 1) ptRegs

namespace System

def setMm (s : System) (mm : Mm.State) : System := { s with mm := mm }

/-- `init_pcb_context`. -/
def initPcbContext (s : System) (p : Pcb) : Option System := do
  let pgdir := s.kernel.pgdir p
  let (kernelStack, m) ← s.mm.kalloc
  let kernelStack := kernelStack + PAGE_SIZE
  let mm := { s.mm with toMemory := m }
  let (userStack, mm) ← mm.allocPageHelper MAX_PRESENT_PFN USER_VA_SP_BASE pgdir
  let userStack := userStack + PAGE_SIZE
  let m ← mm.modifyPte USER_VA_SP_BASE pgdir fun pte => unsetAttribute pte PAGE_EXEC
  let ptRegs := kernelStack - sizeofRegsContext
  let ptSwitchto := ptRegs - sizeofSwitchtoContext
  let m := storeContexts m ptRegs ptSwitchto (s.pcbAddr p) s.retFromKernel
  some { s with
    mm := { mm with toMemory := m }
    kernelSp := Function.update s.kernelSp p ptRegs
    userSp := Function.update s.userSp p userStack }

/-- The search of `create_pcb` for the name. -/
def findName (s : System) (name : List UInt8) : Option ℕ :=
  (List.range NUM_MAX_TASK).find? fun i => (s.info.tasks i).name = name

/-- What `create_pcb` does with the free PCB `i` and the entry `task` of `tasks`. -/
def initProcess (s : System) (i : Slot) (task : ℕ) (name : List UInt8) : Option System := do
  let p := Pcb.slot i
  let (pgdir, m) ← s.mm.kalloc
  let processId ← addInt s.kernel.processId 1
  let kernel ← ({ s.kernel with processId := processId } : Kernel).initPcb i s.kernel.processId pgdir
  let s := { s with
    kernel := kernel
    mm := { s.mm with toMemory := m }
    name := Function.update s.name p name }
  let (loaded, mm) ← loadTaskImg s.mm s.info (s.info.tasks task).name pgdir
  -- `assert(load_task_img(tasks[i].name, p->pgdir) == 1)`
  if loaded ≠ 1 then none
  else (s.setMm { mm with toMemory := mm.sharePgtable pgdir PGDIR_VA }).initPcbContext p

/-- `create_pcb`: a PCB, or `NULL`. -/
def createPcb (s : System) (name : List UInt8) : Option (Option Slot × System) :=
  match s.kernel.findUnusedPcb with
  | none => some (none, s)
  | some i =>
    match s.findName name with
    | none => some (none, s)
    | some task => (s.initProcess i task name).map fun s => (some i, s)

/-- The page of the user stack of the thread with the number `tid`. -/
def userStackUva (tid : ℤ) : ℕ := ((USER_VA_SP_BASE + (tid - 1) * PAGE_SIZE) % 2 ^ 64).toNat

/-- `do_thread_create` by the task `mainThread`: the number of the new thread, or 0. -/
def doThreadCreate (s : System) (mainThread : Pcb) (startRoutine arg : ℕ) : Option (ℤ × System) :=
  match s.kernel.findUnusedPcb with
  | none => some (0, s)
  | some i => do
    let p := Pcb.slot i
    let kernel ← s.kernel.initPcb i (s.kernel.pid mainThread) (s.kernel.pgdir mainThread)
    let (kernelStack, m) ← s.mm.kalloc
    let kernelStack := kernelStack + PAGE_SIZE
    let userStackUva := userStackUva (kernel.tid p)
    let mm := { s.mm with toMemory := m }
    let (userStack, mm) ← mm.allocPageHelper MAX_PRESENT_PFN userStackUva (kernel.pgdir p)
    let userStack := userStack + PAGE_SIZE
    let m ← mm.modifyPte userStackUva (kernel.pgdir p) fun pte => unsetAttribute pte PAGE_EXEC
    let ptRegs := kernelStack - sizeofRegsContext
    let ptSwitchto := ptRegs - sizeofSwitchtoContext
    let m := storeThreadContexts m ptRegs ptSwitchto userStackUva (s.pcbAddr p) arg startRoutine
      s.retFromKernel
    some (kernel.tid p, { s with
      kernel := kernel
      mm := { mm with toMemory := m }
      name := Function.update s.name p (s.name mainThread)
      kernelSp := Function.update s.kernelSp p ptRegs
      userSp := Function.update s.userSp p userStack })

end System

/-! ## The arguments -/

/-- A pointer moved down. -/
def subPtr (p : ℕ) (n : ℤ) : ℕ := ((p - n) % 2 ^ 64).toNat

/-- `strlen`: it counts with an `int`. -/
def strlen (str : List UInt8) : Option ℤ := if str.length < 2 ^ 31 then some str.length else none

/-- The character `j` of a string, and `NUL` behind it. -/
def charAt (str : List UInt8) (j : ℕ) : ℕ := (str.getD j 0).toNat

/-- The copy of a string to the user stack, up to character `j`. -/
def copyString (m : Memory) (dest : ℕ) (str : List UInt8) : ℕ → Memory
  | 0 => m
  | j + 1 => (copyString m dest str j).storeByte (dest + j) (charAt str j)

/-- The variables of the loop of `do_exec`. -/
structure ArgCursor where
  mem : Memory
  userSpKva : ℕ
  userSpUva : ℕ
  kernelArgvPtr : ℕ

/-- The body of the loop, for `argv[i]`. -/
def pushArg (argv : ℕ → List UInt8) (c : ArgCursor) (i : ℕ) : Option ArgCursor := do
  let len ← addInt (← strlen (argv i)) 1
  let userSpKva := subPtr c.userSpKva len
  let userSpUva := subPtr c.userSpUva len
  let m := c.mem.storeWord c.kernelArgvPtr userSpUva
  let m := copyString m userSpKva (argv i) len.toNat
  some ⟨m, userSpKva, userSpUva, subPtr c.kernelArgvPtr (-8)⟩

/-- The cursors before the loop. -/
def firstCursor (m : Memory) (userSp : ℕ) (args : ℤ) : ArgCursor :=
  let kernelArgvBase := subPtr userSp (args * 8)
  ⟨m, kernelArgvBase, subPtr USER_VA_SP (args * 8), kernelArgvBase⟩

/-- The part of `do_exec` that sets the user stack: the memory, `user_sp_uva` and
`user_argv_base`. -/
def setUserStack (m : Memory) (userSp : ℕ) (argc : ℤ) (argv : ℕ → List UInt8) :
    Option (Memory × ℕ × ℕ) := do
  let args ← addInt argc 1
  let c := firstCursor m userSp args
  let userArgvBase := c.userSpUva
  let c ← (List.range argc.toNat).foldlM (pushArg argv) c
  let m := c.mem.storeWord c.kernelArgvPtr 0
  some (m, roundDown c.userSpUva 128, userArgvBase)

namespace System

/-- `do_exec` of the task with the PCB `current`: the pid of the new process, or 0. -/
def doExec (s : System) (current : Pcb) (name : List UInt8) (argc : ℤ) (argv : ℕ → List UInt8) :
    Option (ℤ × System) := do
  match ← s.createPcb name with
  | (none, s) => some (0, s)
  | (some i, s) =>
    let p := Pcb.slot i
    let (m, userSpUva, userArgvBase) ← setUserStack s.mm.toMemory (s.userSp p) argc argv
    let trapframe := s.kernelSp p
    let m := m.storeWord (regAddr trapframe 2) userSpUva
    let m := m.storeWord (regAddr trapframe 10) (argc % 2 ^ 64).toNat
    let m := m.storeWord (regAddr trapframe 11) userArgvBase
    some (s.kernel.pid p, { s with
      mm := { s.mm with toMemory := m }
      cwdInum := Function.update s.cwdInum p (s.cwdInum current) })

/-! ## An exec that fails -/

/-- The name is that of a loaded task. -/
def Loaded (s : System) (name : List UInt8) : Prop :=
  ∃ k : ℕ, k < s.info.tasksNum ∧ (s.info.tasks k).name = name

/-- A PCB is free. -/
def FreePcb (s : System) : Prop := ∃ i : Slot, s.kernel.pid (.slot i) = 0

variable {s t : System} {name : List UInt8} {i : Slot} {task : ℕ}

lemma findUnusedPcb_eq_none : s.kernel.findUnusedPcb = none ↔ ¬ s.FreePcb := by
  simp [Kernel.findUnusedPcb, Kernel.firstSlot, FreePcb]

lemma findName_eq_none : s.findName name = none ↔ ∀ i < NUM_MAX_TASK, (s.info.tasks i).name ≠ name := by
  simp [findName]

lemma findName_eq_some (h : s.findName name = some task) :
    task < NUM_MAX_TASK ∧ (s.info.tasks task).name = name := by
  refine ⟨List.mem_range.1 (List.mem_of_find?_eq_some h), ?_⟩
  simpa using List.find?_some h

end System

/-- The search of the loader ends at the name or behind the last task. -/
lemma findTask_cases {info : Image.AppInfo} {name : List UInt8} {i n r : ℕ} {b b' : ℤ}
    (h : findTask info name i b n = some (r, b')) :
    r = i + n ∨ r < i + n ∧ (info.tasks r).name = name := by
  induction n generalizing i b with
  | zero =>
    rw [findTask, Option.some.injEq, Prod.mk.injEq] at h
    exact Or.inl h.1.symm
  | succ n ih =>
    rw [findTask] at h
    split_ifs at h with hname
    · rw [Option.some.injEq, Prod.mk.injEq] at h
      obtain ⟨rfl, -⟩ := h
      exact Or.inr ⟨by omega, hname⟩
    · obtain ⟨b₁, -, h⟩ := Option.bind_eq_some_iff.1 h
      have := ih h
      rwa [Nat.add_right_comm, Nat.add_assoc] at this

namespace System

variable {s t : System} {name : List UInt8} {i : Slot} {task : ℕ}

/-- The loader does not find a name that is not loaded. -/
lemma loadTaskImg_eq_zero {mm mm' : Mm.State} {pgdir r : ℕ} (hnum : 0 ≤ s.info.tasksNum)
    (hname : ¬ s.Loaded name) (h : loadTaskImg mm s.info name pgdir = some (r, mm')) : r = 0 := by
  simp only [loadTaskImg, Option.bind_eq_bind, Option.bind_eq_some_iff] at h
  obtain ⟨b, -, ⟨idx, b'⟩, hfind, h⟩ := h
  have hend : (idx : ℤ) = s.info.tasksNum := by
    rcases findTask_cases hfind with hidx | ⟨hlt, hidx⟩
    · omega
    · exact absurd ⟨idx, by omega, hidx⟩ hname
  rw [if_pos hend, Option.some.injEq, Prod.mk.injEq] at h
  exact h.1.symm

/-- `create_pcb` does not get past its assertion when the name is in the table behind the
loaded tasks only. -/
lemma initProcess_eq_none (hnum : 0 ≤ s.info.tasksNum) (hname : ¬ s.Loaded (s.info.tasks task).name) :
    s.initProcess i task name = none := by
  rw [← Option.not_isSome_iff_eq_none, Option.isSome_iff_exists]
  rintro ⟨t, h⟩
  simp only [initProcess, Option.bind_eq_bind, Option.bind_eq_some_iff] at h
  obtain ⟨⟨pgdir, m⟩, -, id, -, kernel, -, ⟨r, mm⟩, hload, h⟩ := h
  have hr := loadTaskImg_eq_zero hnum hname hload
  rw [if_pos (by omega)] at h
  cases h

/-- A failed exec changes nothing exactly when no PCB is free, or the name is not in the part
of the table that `create_pcb` searches behind the loaded tasks. -/
theorem doExec_fails_iff (s : System) (current : Pcb) (name : List UInt8) (argc : ℤ)
    (argv : ℕ → List UInt8) (hnum : 0 ≤ s.info.tasksNum) (hfail : ¬ s.Loaded name ∨ ¬ s.FreePcb) :
    s.doExec current name argc argv = some (0, s) ↔
      ¬ s.FreePcb ∨ ∀ i < NUM_MAX_TASK, s.info.tasksNum ≤ i → (s.info.tasks i).name ≠ name := by
  by_cases hfree : s.FreePcb
  · have hname := hfail.resolve_right (not_not.2 hfree)
    obtain ⟨i, hi⟩ : ∃ i, s.kernel.findUnusedPcb = some i := by
      rw [← Option.ne_none_iff_exists', ne_eq, findUnusedPcb_eq_none]
      exact not_not.2 hfree
    rw [or_iff_right (not_not.2 hfree)]
    cases htask : s.findName name with
    | none =>
      have hcreate : s.createPcb name = some (none, s) := by simp only [createPcb, hi, htask]
      simp only [doExec, hcreate, Option.bind_eq_bind, Option.bind_some, true_iff]
      exact fun i hi _ => findName_eq_none.1 htask i hi
    | some task =>
      obtain ⟨hlt, heq⟩ := findName_eq_some htask
      have hcreate : s.createPcb name = none := by
        simp only [createPcb, hi, htask, initProcess_eq_none hnum (heq.symm ▸ hname), Option.map_none]
      simp only [doExec, hcreate, Option.bind_eq_bind, Option.bind_none, reduceCtorEq, false_iff]
      intro hno
      refine hno task hlt ?_ heq
      by_contra hle
      exact hname ⟨task, not_le.1 hle, heq⟩
  · have hi := findUnusedPcb_eq_none.2 hfree
    have hcreate : s.createPcb name = some (none, s) := by simp only [createPcb, hi]
    simp only [doExec, hcreate, Option.bind_eq_bind, Option.bind_some, hfree, not_false_eq_true,
      true_or]

/-- The system after boot, with one task; the shell has slot 0. -/
def bootOne : System where
  kernel := Kernel.boot [[115, 104]]
  mm := (Sharing.boot ⟨fun _ _ => 0, 0⟩ 1 1 (fun _ _ => 0) 100).state
  info := ⟨1, 1, 3, fun k => if k = 0 then ⟨[115, 104], 1, 5, 4000⟩ else ⟨[], 0, 0, 0⟩⟩
  name := Function.update (fun _ => []) (.slot 0) [115, 104]
  kernelSp := fun _ => 0
  userSp := fun _ => 0
  cwdInum := fun _ => 0
  pcbAddr := fun _ => 0
  retFromKernel := 0

/-- The exec of a name that is nowhere in the table. -/
theorem doExec_fails_iff_other :
    bootOne.doExec (.slot 0) [108, 115] 0 (fun _ => []) = some (0, bootOne) := by
  have hname : ¬ bootOne.Loaded [108, 115] := by
    rintro ⟨k, hk, heq⟩
    obtain rfl : k = 0 := by
      change (k : ℤ) < 1 at hk
      omega
    exact absurd heq (by decide)
  exact (doExec_fails_iff bootOne (.slot 0) [108, 115] 0 (fun _ => []) (by decide)
    (Or.inl hname)).2 (Or.inr (by decide))

/-- The exec of the empty name finds the first entry behind the loaded task. -/
theorem doExec_empty_name : bootOne.FreePcb ∧ ¬ bootOne.Loaded [] ∧
    bootOne.doExec (.slot 0) [] 0 (fun _ => []) = none := by
  refine ⟨⟨1, by decide⟩, ?_, ?_⟩
  · rintro ⟨k, hk, heq⟩
    obtain rfl : k = 0 := by
      change (k : ℤ) < 1 at hk
      omega
    exact absurd heq (by decide)
  · exact Option.isNone_iff_eq_none.1 (by decide +kernel)

end System

end Exec
end UcasKernel
