/-
Straight-line RISC-V code, traps and returns.

A hart has registers, the supervisor CSRs, a program counter and a mode; `x0` is
left out.  The memory is of any type with a `load` and a `store` of doublewords.
Code that runs from its first instruction to its last is a list, and a misaligned
access ends it.  A trap and `sret` are what the hardware does to `sstatus`.

Code that saves registers to a block of memory and later loads them again is the
same few lines many times.  `storeAll` and `loadAll` are its meaning: what a block
holds after a save, which registers a load sets, and what both leave alone.
-/
import Mathlib.Data.List.Nodup
import Mathlib.Logic.Function.Basic

namespace UcasKernel
namespace Riscv

abbrev Word := BitVec 64

/-- The registers but `x0`. -/
inductive Reg
  | ra | sp | gp | tp
  | t0 | t1 | t2
  | s0 | s1
  | a0 | a1 | a2 | a3 | a4 | a5 | a6 | a7
  | s2 | s3 | s4 | s5 | s6 | s7 | s8 | s9 | s10 | s11
  | t3 | t4 | t5 | t6
deriving DecidableEq, Repr

inductive Csr
  | sstatus | sscratch | sepc | stval | scause
deriving DecidableEq, Repr

def Aligned (a : Word) : Prop := a.toNat % 8 = 0

instance (a : Word) : Decidable (Aligned a) := inferInstanceAs (Decidable (_ = _))

/-- A memory of doublewords at the aligned addresses. -/
class Dwords (M : Type*) where
  load : M → Word → Word
  store : M → Word → Word → M
  load_store_self : ∀ {m a v}, Aligned a → load (store m a v) a = v
  load_store_of_ne : ∀ {m a b v}, Aligned a → Aligned b → b ≠ a → load (store m a v) b = load m b

export Dwords (load store)

/-- The plain memory. -/
instance plainMemory : Dwords (Word → Word) where
  load := fun m a => m a
  store := fun m a v => Function.update m a v
  load_store_self := fun _ => Function.update_self ..
  load_store_of_ne := fun _ _ hne => Function.update_of_ne hne ..

structure Hart where
  x : Reg → Word
  csr : Csr → Word
  pc : Word
  supervisor : Bool

structure State (M : Type*) extends Hart where
  mem : M

inductive Instr
  | ld (rd : Reg) (off : Word) (rs1 : Reg)
  | sd (rs2 : Reg) (off : Word) (rs1 : Reg)
  | li (rd : Reg) (imm : Word)
  | mv (rd rs : Reg)
  | addi (rd rs1 : Reg) (imm : Word)
  | andi (rd rs1 : Reg) (imm : Word)
  | ori (rd rs1 : Reg) (imm : Word)
  | or (rd rs1 rs2 : Reg)
  | csrr (rd : Reg) (csr : Csr)
  | csrw (csr : Csr) (rs : Reg)
  | csrrw (rd : Reg) (csr : Csr) (rs1 : Reg)
deriving DecidableEq, Repr

section Fields

variable {M : Type*}

def State.setReg (s : State M) (r : Reg) (v : Word) : State M :=
  { s with x := Function.update s.x r v }

def State.setCsr (s : State M) (c : Csr) (v : Word) : State M :=
  { s with csr := Function.update s.csr c v }

def State.setMem (s : State M) (m : M) : State M := { s with mem := m }

variable (s : State M) (r q : Reg) (c d : Csr) (v : Word) (m : M)

@[simp] lemma setReg_x : (s.setReg r v).x q = if q = r then v else s.x q := Function.update_apply ..
@[simp] lemma setReg_csr : (s.setReg r v).csr = s.csr := rfl
@[simp] lemma setReg_mem : (s.setReg r v).mem = s.mem := rfl
@[simp] lemma setReg_supervisor : (s.setReg r v).supervisor = s.supervisor := rfl
@[simp] lemma setCsr_x : (s.setCsr c v).x = s.x := rfl
@[simp] lemma setCsr_csr : (s.setCsr c v).csr d = if d = c then v else s.csr d :=
  Function.update_apply ..
@[simp] lemma setCsr_mem : (s.setCsr c v).mem = s.mem := rfl
@[simp] lemma setCsr_supervisor : (s.setCsr c v).supervisor = s.supervisor := rfl
@[simp] lemma setMem_x : (s.setMem m).x = s.x := rfl
@[simp] lemma setMem_csr : (s.setMem m).csr = s.csr := rfl
@[simp] lemma setMem_mem : (s.setMem m).mem = m := rfl
@[simp] lemma setMem_supervisor : (s.setMem m).supervisor = s.supervisor := rfl

end Fields

section Exec

variable {M : Type*} [Dwords M]

/-- One instruction; the program counter is that of the code around it. -/
def exec (s : State M) : Instr → Option (State M)
  | .ld rd off rs1 =>
    let a := s.x rs1 + off
    if Aligned a then some (s.setReg rd (load s.mem a)) else none
  | .sd rs2 off rs1 =>
    let a := s.x rs1 + off
    if Aligned a then some (s.setMem (store s.mem a (s.x rs2))) else none
  | .li rd imm => some (s.setReg rd imm)
  | .mv rd rs => some (s.setReg rd (s.x rs))
  | .addi rd rs1 imm => some (s.setReg rd (s.x rs1 + imm))
  | .andi rd rs1 imm => some (s.setReg rd (s.x rs1 &&& imm))
  | .ori rd rs1 imm => some (s.setReg rd (s.x rs1 ||| imm))
  | .or rd rs1 rs2 => some (s.setReg rd (s.x rs1 ||| s.x rs2))
  | .csrr rd csr => some (s.setReg rd (s.csr csr))
  | .csrw csr rs => some (s.setCsr csr (s.x rs))
  | .csrrw rd csr rs1 => some ((s.setCsr csr (s.x rs1)).setReg rd (s.csr csr))

/-- Straight-line code. -/
def execAll : List Instr → State M → Option (State M)
  | [], s => some s
  | i :: is, s => (exec s i).bind (execAll is)

@[simp] lemma execAll_nil (s : State M) : execAll [] s = some s := rfl

lemma execAll_cons (i : Instr) (is : List Instr) (s : State M) :
    execAll (i :: is) s = (exec s i).bind (execAll is) := by rw [execAll]

lemma execAll_cons_some {i : Instr} {is : List Instr} {s t : State M} (h : exec s i = some t) :
    execAll (i :: is) s = execAll is t := by
  rw [execAll_cons, h, Option.bind_some]

lemma execAll_append (is js : List Instr) (s : State M) :
    execAll (is ++ js) s = (execAll is s).bind (execAll js) := by
  induction is generalizing s with
  | nil => rfl
  | cons i is ih =>
    rw [List.cons_append, execAll_cons, execAll_cons, Option.bind_assoc]
    exact congrArg _ (funext ih)

section Steps

variable {s : State M} {rd rs rs1 rs2 : Reg} {off imm : Word} {c : Csr}

lemma exec_sd (h : Aligned (s.x rs1 + off)) :
    exec s (.sd rs2 off rs1) = some (s.setMem (store s.mem (s.x rs1 + off) (s.x rs2))) := by
  rw [exec]
  exact if_pos h

lemma exec_ld (h : Aligned (s.x rs1 + off)) :
    exec s (.ld rd off rs1) = some (s.setReg rd (load s.mem (s.x rs1 + off))) := by
  rw [exec]
  exact if_pos h

lemma exec_li : exec s (.li rd imm) = some (s.setReg rd imm) := by rw [exec]
lemma exec_mv : exec s (.mv rd rs) = some (s.setReg rd (s.x rs)) := by rw [exec]
lemma exec_addi : exec s (.addi rd rs imm) = some (s.setReg rd (s.x rs + imm)) := by rw [exec]
lemma exec_andi : exec s (.andi rd rs imm) = some (s.setReg rd (s.x rs &&& imm)) := by rw [exec]
lemma exec_ori : exec s (.ori rd rs imm) = some (s.setReg rd (s.x rs ||| imm)) := by rw [exec]
lemma exec_or : exec s (.or rd rs1 rs2) = some (s.setReg rd (s.x rs1 ||| s.x rs2)) := by rw [exec]
lemma exec_csrr : exec s (.csrr rd c) = some (s.setReg rd (s.csr c)) := by rw [exec]
lemma exec_csrw : exec s (.csrw c rs) = some (s.setCsr c (s.x rs)) := by rw [exec]
lemma exec_csrrw :
    exec s (.csrrw rd c rs) = some ((s.setCsr c (s.x rs)).setReg rd (s.csr c)) := by rw [exec]

end Steps

end Exec

lemma Aligned.add {a b : Word} (ha : Aligned a) (hb : Aligned b) : Aligned (a + b) := by
  unfold Aligned at *
  rw [BitVec.toNat_add]
  omega

/-! ## Blocks of registers -/

/-- `sd` of each register at its offset from `base`. -/
def saveRegs (base : Reg) (l : List (Reg × Word)) : List Instr := l.map fun e => .sd e.1 e.2 base

/-- `ld` of each register at its offset from `base`. -/
def loadRegs (base : Reg) (l : List (Reg × Word)) : List Instr := l.map fun e => .ld e.1 e.2 base

/-- Store each value at its offset from `a`. -/
def storeAll {M : Type*} [Dwords M] (a : Word) : List (Word × Word) → M → M
  | [], m => m
  | e :: l, m => storeAll a l (store m (a + e.1) e.2)

/-- Set each register to the doubleword at its offset from `a`. -/
def loadAll {M : Type*} [Dwords M] (m : M) (a : Word) :
    List (Reg × Word) → (Reg → Word) → Reg → Word
  | [], x => x
  | e :: l, x => loadAll m a l (Function.update x e.1 (load m (a + e.2)))

section Blocks

variable {M : Type*} [Dwords M] {a b off v : Word} {m : M} {x : Reg → Word} {r base : Reg}

/-- A save leaves the other addresses alone. -/
lemma load_storeAll_of_notMem {l : List (Word × Word)} (ha : Aligned a)
    (hl : ∀ e ∈ l, Aligned e.1) (hb : Aligned b) (hne : ∀ e ∈ l, b ≠ a + e.1) :
    load (storeAll a l m) b = load m b := by
  induction l generalizing m with
  | nil => rfl
  | cons e l ih =>
    simp only [List.forall_mem_cons] at hl hne
    rw [storeAll, ih hl.2 hne.2, Dwords.load_store_of_ne (ha.add hl.1) hb hne.1]

/-- A save stores its values. -/
lemma load_storeAll_of_mem {l : List (Word × Word)} (ha : Aligned a)
    (hl : ∀ e ∈ l, Aligned e.1) (hnodup : (l.map Prod.fst).Nodup) (hmem : (off, v) ∈ l) :
    load (storeAll a l m) (a + off) = v := by
  induction l generalizing m with
  | nil => cases hmem
  | cons e l ih =>
    simp only [List.forall_mem_cons] at hl
    rw [List.map_cons, List.nodup_cons] at hnodup
    rcases List.mem_cons.1 hmem with rfl | hmem
    · -- the later stores are elsewhere
      have hne : ∀ e ∈ l, a + off ≠ a + e.1 := by
        intro e he heq
        rw [BitVec.add_right_inj] at heq
        have hfst : e.1 ∈ l.map Prod.fst := List.mem_map_of_mem he
        exact hnodup.1 (heq ▸ hfst)
      rw [storeAll, load_storeAll_of_notMem ha hl.2 (ha.add hl.1) hne,
        Dwords.load_store_self (ha.add hl.1)]
    · exact ih hl.2 hnodup.2 hmem

lemma storeAll_append (a : Word) (l l' : List (Word × Word)) (m : M) :
    storeAll a (l ++ l') m = storeAll a l' (storeAll a l m) := by
  induction l generalizing m with
  | nil => rfl
  | cons e l ih => exact ih _

/-- A load leaves the other registers alone. -/
lemma loadAll_of_notMem {l : List (Reg × Word)} (hr : r ∉ l.map Prod.fst) :
    loadAll m a l x r = x r := by
  induction l generalizing x with
  | nil => rfl
  | cons e l ih =>
    rw [List.map_cons, List.mem_cons, not_or] at hr
    rw [loadAll, ih hr.2, Function.update_of_ne hr.1]

/-- A load sets its registers. -/
lemma loadAll_of_mem {l : List (Reg × Word)} (hnodup : (l.map Prod.fst).Nodup)
    (hmem : (r, off) ∈ l) : loadAll m a l x r = load m (a + off) := by
  induction l generalizing x with
  | nil => cases hmem
  | cons e l ih =>
    rw [List.map_cons, List.nodup_cons] at hnodup
    rcases List.mem_cons.1 hmem with rfl | hmem
    · rw [loadAll, loadAll_of_notMem hnodup.1, Function.update_self]
    · exact ih hnodup.2 hmem

lemma execAll_saveRegs {l : List (Reg × Word)} {s : State M} (ha : Aligned (s.x base))
    (hl : ∀ e ∈ l, Aligned e.2) :
    execAll (saveRegs base l) s =
      some (s.setMem (storeAll (s.x base) (l.map fun e => (e.2, s.x e.1)) s.mem)) := by
  induction l generalizing s with
  | nil => rfl
  | cons e l ih =>
    simp only [List.forall_mem_cons] at hl
    rw [saveRegs, List.map_cons, execAll_cons_some (exec_sd (ha.add hl.1))]
    exact ih (s := s.setMem (store s.mem (s.x base + e.2) (s.x e.1))) ha hl.2

lemma execAll_loadRegs {l : List (Reg × Word)} {s : State M} (ha : Aligned (s.x base))
    (hl : ∀ e ∈ l, Aligned e.2) (hbase : base ∉ l.map Prod.fst) :
    execAll (loadRegs base l) s = some { s with x := loadAll s.mem (s.x base) l s.x } := by
  induction l generalizing s with
  | nil => rfl
  | cons e l ih =>
    simp only [List.forall_mem_cons] at hl
    rw [List.map_cons, List.mem_cons, not_or] at hbase
    rw [loadRegs, List.map_cons, execAll_cons_some (exec_ld (ha.add hl.1))]
    have hx : (s.setReg e.1 (load s.mem (s.x base + e.2))).x base = s.x base :=
      Function.update_of_ne hbase.1 _ _
    have h := ih (s := s.setReg e.1 (load s.mem (s.x base + e.2))) (hx.symm ▸ ha) hl.2 hbase.2
    rw [hx] at h
    exact h

end Blocks

/-! ## Traps -/

def setBit (w : Word) (i : ℕ) (v : Bool) : Word :=
  if v then w ||| BitVec.twoPow 64 i else w &&& ~~~BitVec.twoPow 64 i

lemma getLsbD_setBit {w : Word} {i j : ℕ} {v : Bool} (hi : i < 64) :
    (setBit w i v).getLsbD j = if j = i then v else w.getLsbD j := by
  unfold setBit
  by_cases hj : j = i
  · subst hj
    cases v <;> simp [hi]
  · have hj' : ¬ i = j := fun h => hj h.symm
    cases v <;> simp [hj, hj', BitVec.getLsbD_twoPow]
    intro h
    exact BitVec.lt_of_getLsbD h

/-- The bits of `sstatus` that a trap stacks. -/
def SIE : ℕ := 1
def SPIE : ℕ := 5
def SPP : ℕ := 8

namespace Hart

/-- A trap is taken: the hart goes on at `handler` in supervisor mode, with interrupts off. -/
def trap (h : Hart) (handler cause tval : Word) : Hart :=
  let sstatus := h.csr .sstatus
  let sstatus := setBit sstatus SPP h.supervisor
  let sstatus := setBit sstatus SPIE (sstatus.getLsbD SIE)
  let sstatus := setBit sstatus SIE false
  let csr := Function.update h.csr .sstatus sstatus
  let csr := Function.update csr .sepc h.pc
  let csr := Function.update csr .stval tval
  { h with csr := Function.update csr .scause cause, pc := handler, supervisor := true }

def sret (h : Hart) : Hart :=
  let supervisor := (h.csr .sstatus).getLsbD SPP
  let sstatus := setBit (h.csr .sstatus) SIE ((h.csr .sstatus).getLsbD SPIE)
  let sstatus := setBit (setBit sstatus SPIE true) SPP false
  { h with
    csr := Function.update h.csr .sstatus sstatus
    pc := h.csr .sepc
    supervisor := supervisor }

end Hart
end Riscv
end UcasKernel
