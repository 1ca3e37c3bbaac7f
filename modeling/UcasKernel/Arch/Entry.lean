/-
`arch/riscv/kernel/entry.S`.

A trap saves the registers to the trapframe at `kernel_sp` of the task that `tp`
points to; `ret_from_exception` loads them from there.  `switch_to` saves the
callee-saved registers below the trapframe of one task and loads those of another.

Each block gets one lemma, which says what it stores, which registers it sets and
that it keeps the rest.  A `Ctx` is what a task sees of its processor: all
registers but `gp`, which the code neither saves nor loads, the program counter,
the mode, and the bits of `sstatus` above `SPP`.  A `Context` is what compiled code
sees behind a call of `switch_to`.
-/
import UcasKernel.Lib.Riscv

namespace UcasKernel
namespace Arch

open Riscv

/-! ## `regs.h` and `csr.h` -/

/-- The offsets `OFFSET_REG_*` of the registers. -/
def offsetReg : Reg → Word
  | .ra => 8
  | .sp => 16 | .gp => 24 | .tp => 32
  | .t0 => 40 | .t1 => 48 | .t2 => 56
  | .s0 => 64 | .s1 => 72
  | .a0 => 80 | .a1 => 88 | .a2 => 96 | .a3 => 104
  | .a4 => 112 | .a5 => 120 | .a6 => 128 | .a7 => 136
  | .s2 => 144 | .s3 => 152 | .s4 => 160 | .s5 => 168 | .s6 => 176
  | .s7 => 184 | .s8 => 192 | .s9 => 200 | .s10 => 208 | .s11 => 216
  | .t3 => 224 | .t4 => 232 | .t5 => 240 | .t6 => 248

def OFFSET_REG_SSTATUS : Word := 256
def OFFSET_REG_SEPC : Word := 264
def OFFSET_REG_SBADADDR : Word := 272
def OFFSET_REG_SCAUSE : Word := 280

def PCB_KERNEL_SP : Word := 0
def SWITCH_TO_SIZE : Word := 112

def SR_SPIE : Word := 0x20
def SR_SUM : Word := 0x40000
def SR_FS : Word := 0x6000

/-- The registers that the two macros go through, in their order. -/
def contextRegs : List Reg :=
  [.ra, .sp, .tp, .t0, .t1, .t2, .s0, .s1, .a1, .a2, .a3, .a4, .a5, .a6, .a7,
    .s2, .s3, .s4, .s5, .s6, .s7, .s8, .s9, .s10, .s11, .t3, .t4, .t5, .t6]

def contextOffsets : List (Reg × Word) := contextRegs.map fun r => (r, offsetReg r)

/-- The registers of `switch_to` with the offsets `SWITCH_TO_*`. -/
def switchToOffsets : List (Reg × Word) :=
  [(.ra, 0), (.sp, 8), (.s0, 16), (.s1, 24), (.s2, 32), (.s3, 40), (.s4, 48), (.s5, 56),
    (.s6, 64), (.s7, 72), (.s8, 80), (.s9, 88), (.s10, 96), (.s11, 104)]

/-! ## The code -/

def SAVE_CONTEXT : List Instr :=
  [.csrrw .a0 .sscratch .a0,
    .mv .a0 .tp,
    .ld .a0 PCB_KERNEL_SP .a0] ++
  saveRegs .a0 contextOffsets ++
  [.csrr .t0 .sscratch,
    .sd .t0 (offsetReg .a0) .a0,
    .mv .sp .a0,
    .csrr .t0 .sstatus,
    .sd .t0 OFFSET_REG_SSTATUS .sp,
    .li .t1 (SR_SUM ||| SR_FS),
    .or .t0 .t0 .t1,
    .csrw .sstatus .t0,
    .csrr .t0 .sepc,
    .sd .t0 OFFSET_REG_SEPC .sp,
    -- `sbadaddr` is the old name of `stval`
    .csrr .t0 .stval,
    .sd .t0 OFFSET_REG_SBADADDR .sp,
    .csrr .t0 .scause,
    .sd .t0 OFFSET_REG_SCAUSE .sp,
    .addi .sp .sp (-SWITCH_TO_SIZE)]

def RESTORE_CONTEXT : List Instr :=
  [.mv .a0 .tp,
    .ld .a0 PCB_KERNEL_SP .a0,
    .ld .t0 (offsetReg .a0) .a0,
    .csrw .sscratch .t0,
    .ld .t0 OFFSET_REG_SEPC .a0,
    .csrw .sepc .t0,
    .ld .t0 OFFSET_REG_SSTATUS .a0,
    .andi .t0 .t0 (-256),
    .ori .t0 .t0 SR_SPIE,
    .csrw .sstatus .t0] ++
  loadRegs .a0 contextOffsets ++
  [.csrrw .a0 .sscratch .a0]

/-- `exception_handler_entry` up to its `call`. -/
def exceptionHandlerEntry (retFromException : Word) : List Instr :=
  SAVE_CONTEXT ++
  [.li .ra retFromException,
    .mv .a0 .tp,
    .ld .a0 PCB_KERNEL_SP .a0,
    .csrr .a1 .stval,
    .csrr .a2 .scause]

/-- `switch_to` up to its `jr ra`. -/
def switchToBody : List Instr :=
  [.ld .a0 PCB_KERNEL_SP .a0,
    .addi .a0 .a0 (-SWITCH_TO_SIZE)] ++
  saveRegs .a0 switchToOffsets ++
  [.ld .a1 PCB_KERNEL_SP .a1,
    .addi .a1 .a1 (-SWITCH_TO_SIZE)] ++
  loadRegs .a1 switchToOffsets

/-- The addresses of the code that `entry.S` calls and is called at. -/
structure Labels where
  exceptionHandlerEntry : Word
  retFromException : Word
  interruptHelper : Word
  /-- behind the `call` in `exception_handler_entry` -/
  returnAddress : Word

section Code

variable {M : Type*} [Dwords M]

/-- A trap of the hart up to the first instruction of `interrupt_helper`. -/
def takeTrap (l : Labels) (cause tval : Word) (s : State M) : Option (State M) := do
  let s ← execAll (exceptionHandlerEntry l.retFromException)
    { s with toHart := s.toHart.trap l.exceptionHandlerEntry cause tval }
  some { s.setReg .ra l.returnAddress with pc := l.interruptHelper }

/-- `ret_from_exception`. -/
def retFromException (s : State M) : Option (State M) := do
  let s ← execAll RESTORE_CONTEXT s
  some { s with toHart := s.toHart.sret }

/-- `switch_to(prev, next)`. -/
def switchTo (prev next : Word) (s : State M) : Option (State M) := do
  let s ← execAll switchToBody ((s.setReg .a0 prev).setReg .a1 next)
  some { s with pc := s.x .ra }

/-! ## What the blocks of memory hold -/

/-- The processor of a task, as the task sees it. -/
@[ext] structure Ctx where
  x : Reg → Word
  pc : Word
  supervisor : Bool
  status : Word

/-- The bits of `sstatus` above `SPP`. -/
def statusMask : Word := ~~~0x1ff

end Code

end Arch

namespace Riscv

open Arch

/-- What a task sees of a hart. -/
def Hart.ctx (h : Hart) : Ctx where
  x := fun r => if r = .gp then 0 else h.x r
  pc := h.pc
  supervisor := h.supervisor
  status := h.csr .sstatus &&& statusMask

end Riscv

namespace Arch

open Riscv

section Specs

variable {M : Type*} [Dwords M]

/-- The `Ctx` in a trapframe. -/
def frameCtx (m : M) (k : Word) : Ctx where
  x := fun r => if r = .gp then 0 else load m (k + offsetReg r)
  pc := load m (k + OFFSET_REG_SEPC)
  supervisor := (load m (k + OFFSET_REG_SSTATUS)).getLsbD SPP
  status := load m (k + OFFSET_REG_SSTATUS) &&& statusMask

/-- What `SAVE_CONTEXT` stores. -/
def frameStores (h : Hart) : List (Word × Word) :=
  contextRegs.map (fun r => (offsetReg r, h.x r)) ++
    [(offsetReg .a0, h.x .a0), (OFFSET_REG_SSTATUS, h.csr .sstatus), (OFFSET_REG_SEPC, h.csr .sepc),
      (OFFSET_REG_SBADADDR, h.csr .stval), (OFFSET_REG_SCAUSE, h.csr .scause)]

/-- The offsets of `frameStores`. -/
def frameOffsets : List Word :=
  contextRegs.map offsetReg ++
    [offsetReg .a0, OFFSET_REG_SSTATUS, OFFSET_REG_SEPC, OFFSET_REG_SBADADDR, OFFSET_REG_SCAUSE]


lemma frameStores_offsets (h : Hart) : (frameStores h).map Prod.fst = frameOffsets := rfl

lemma frameOffsets_nodup : frameOffsets.Nodup := by decide

lemma frameOffsets_aligned : ∀ o ∈ frameOffsets, Aligned o := by
  have hall : (frameOffsets.all fun o => decide (Aligned o)) = true := by decide
  intro o ho
  exact of_decide_eq_true (List.all_eq_true.1 hall o ho)

lemma contextOffsets_aligned : ∀ e ∈ contextOffsets, Aligned e.2 := by decide

lemma switchToOffsets_aligned : ∀ e ∈ switchToOffsets, Aligned e.2 := by decide

lemma offsetReg_mem (r : Reg) (hr : r ≠ .gp) : offsetReg r ∈ frameOffsets := by
  revert hr
  cases r <;> decide

lemma aligned_frame {k o : Word} (hk : Aligned k) (ho : o ∈ frameOffsets) : Aligned (k + o) :=
  hk.add (frameOffsets_aligned o ho)

lemma frameStores_aligned (h : Hart) : ∀ e ∈ frameStores h, Aligned e.1 := by
  intro e he
  exact frameOffsets_aligned _ (frameStores_offsets h ▸ List.mem_map_of_mem he)

/-- `SAVE_CONTEXT` before its block of stores. -/
lemma execAll_saveHead {s : State M} {k : Word} (hpcb : Aligned (s.x .tp))
    (hk : load s.mem (s.x .tp) = k) :
    execAll [.csrrw .a0 .sscratch .a0, .mv .a0 .tp, .ld .a0 PCB_KERNEL_SP .a0] s =
      some ((((s.setCsr .sscratch (s.x .a0)).setReg .a0 (s.csr .sscratch)).setReg .a0
        (s.x .tp)).setReg .a0 k) := by
  have hzero : s.x .tp + PCB_KERNEL_SP = s.x .tp := BitVec.add_zero _
  rw [execAll_cons_some exec_csrrw, execAll_cons_some exec_mv,
    execAll_cons_some (exec_ld (by simpa [hzero] using hpcb))]
  simp [hzero, hk]

/-- The block of stores of `SAVE_CONTEXT`. -/
lemma execAll_saveBlock {s : State M} {x : Reg → Word} {k : Word} (hk : Aligned k)
    (ha0 : s.x .a0 = k) (hx : ∀ r, r ≠ .a0 → s.x r = x r) :
    execAll (saveRegs .a0 contextOffsets) s =
      some (s.setMem (storeAll k (contextRegs.map fun r => (offsetReg r, x r)) s.mem)) := by
  rw [execAll_saveRegs (ha0 ▸ hk) contextOffsets_aligned, ha0]
  have hmap : (contextOffsets.map fun e => (e.2, s.x e.1)) =
      contextRegs.map fun r => (offsetReg r, x r) := by
    rw [contextOffsets, List.map_map]
    refine List.map_congr_left fun r hr => ?_
    have hne : r ≠ .a0 := by
      revert hr
      cases r <;> decide
    simp [hx r hne]
  rw [hmap]

/-- `SAVE_CONTEXT` behind its block of stores. -/
lemma execAll_saveTail {s : State M} {k : Word} (hk : Aligned k) (ha0 : s.x .a0 = k) :
    ∃ t : State M, execAll [.csrr .t0 .sscratch, .sd .t0 (offsetReg .a0) .a0, .mv .sp .a0,
        .csrr .t0 .sstatus, .sd .t0 OFFSET_REG_SSTATUS .sp, .li .t1 (SR_SUM ||| SR_FS),
        .or .t0 .t0 .t1, .csrw .sstatus .t0, .csrr .t0 .sepc, .sd .t0 OFFSET_REG_SEPC .sp,
        .csrr .t0 .stval, .sd .t0 OFFSET_REG_SBADADDR .sp, .csrr .t0 .scause,
        .sd .t0 OFFSET_REG_SCAUSE .sp, .addi .sp .sp (-SWITCH_TO_SIZE)] s = some t ∧
      t.mem = storeAll k [(offsetReg .a0, s.csr .sscratch), (OFFSET_REG_SSTATUS, s.csr .sstatus),
        (OFFSET_REG_SEPC, s.csr .sepc), (OFFSET_REG_SBADADDR, s.csr .stval),
        (OFFSET_REG_SCAUSE, s.csr .scause)] s.mem ∧
      (∀ r, r ≠ .sp → r ≠ .t0 → r ≠ .t1 → t.x r = s.x r) ∧ t.x .sp = k - SWITCH_TO_SIZE ∧
      t.csr .stval = s.csr .stval ∧ t.csr .scause = s.csr .scause ∧
      t.supervisor = s.supervisor := by
  have h₁ : Aligned (k + offsetReg .a0) := aligned_frame hk (by decide)
  have h₂ : Aligned (k + OFFSET_REG_SSTATUS) := aligned_frame hk (by decide)
  have h₃ : Aligned (k + OFFSET_REG_SEPC) := aligned_frame hk (by decide)
  have h₄ : Aligned (k + OFFSET_REG_SBADADDR) := aligned_frame hk (by decide)
  have h₅ : Aligned (k + OFFSET_REG_SCAUSE) := aligned_frame hk (by decide)
  rw [execAll_cons_some exec_csrr, execAll_cons_some (exec_sd (by simpa [ha0] using h₁)),
    execAll_cons_some exec_mv, execAll_cons_some exec_csrr,
    execAll_cons_some (exec_sd (by simpa [ha0] using h₂)), execAll_cons_some exec_li,
    execAll_cons_some exec_or, execAll_cons_some exec_csrw, execAll_cons_some exec_csrr,
    execAll_cons_some (exec_sd (by simpa [ha0] using h₃)), execAll_cons_some exec_csrr,
    execAll_cons_some (exec_sd (by simpa [ha0] using h₄)), execAll_cons_some exec_csrr,
    execAll_cons_some (exec_sd (by simpa [ha0] using h₅)), execAll_cons_some exec_addi, execAll_nil]
  refine ⟨_, rfl, ?_, fun r hsp ht0 ht1 => ?_, ?_, ?_, ?_, ?_⟩
  · simp [storeAll, ha0]
  · simp [hsp, ht0, ht1]
  · simp [ha0, BitVec.sub_eq_add_neg]
  · simp
  · simp
  · simp

/-- `SAVE_CONTEXT` fills the trapframe and moves to the kernel stack. -/
lemma execAll_SAVE_CONTEXT {s : State M} {k : Word} (hpcb : Aligned (s.x .tp))
    (hk : load s.mem (s.x .tp) = k) (hka : Aligned k) :
    ∃ t : State M, execAll SAVE_CONTEXT s = some t ∧
      t.mem = storeAll k (frameStores s.toHart) s.mem ∧
      (∀ r, r ≠ .a0 → r ≠ .sp → r ≠ .t0 → r ≠ .t1 → t.x r = s.x r) ∧
      t.x .sp = k - SWITCH_TO_SIZE ∧ t.csr .stval = s.csr .stval ∧
      t.csr .scause = s.csr .scause ∧ t.supervisor = s.supervisor := by
  obtain ⟨t, ht, hmem, hx, hsp, hstval, hscause, hmode⟩ := execAll_saveTail (s :=
    (((((s.setCsr .sscratch (s.x .a0)).setReg .a0 (s.csr .sscratch)).setReg .a0
      (s.x .tp)).setReg .a0 k).setMem
        (storeAll k (contextRegs.map fun r => (offsetReg r, s.x r)) s.mem))) hka (by simp)
  refine ⟨t, ?_, ?_, ?_, hsp, ?_, ?_, ?_⟩
  · rw [SAVE_CONTEXT, execAll_append, execAll_append, execAll_saveHead hpcb hk, Option.bind_some,
      execAll_saveBlock (x := s.x) hka (by simp) (fun r hr => by simp [hr]), Option.bind_some]
    exact ht
  · rw [hmem, frameStores, storeAll_append]
    simp
  · intro r ha0 hsp ht0 ht1
    rw [hx r hsp ht0 ht1]
    simp [ha0]
  · simp [hstval]
  · simp [hscause]
  · simp [hmode]

/-- A trap fills the trapframe; `interrupt_helper` gets its address and the two CSRs. -/
theorem takeTrap_spec {s : State M} {k : Word} {l : Labels} (cause tval : Word)
    (hpcb : Aligned (s.x .tp)) (hk : load s.mem (s.x .tp) = k) (hka : Aligned k)
    (hout : ∀ o ∈ frameOffsets, s.x .tp ≠ k + o) :
    ∃ t : State M, takeTrap l cause tval s = some t ∧
      t.mem = storeAll k
        (frameStores (s.toHart.trap l.exceptionHandlerEntry cause tval)) s.mem ∧
      (∀ r, r ∉ [Reg.ra, .sp, .t0, .t1, .a0, .a1, .a2] → t.x r = s.x r) ∧
      t.x .ra = l.returnAddress ∧ t.x .sp = k - SWITCH_TO_SIZE ∧ t.x .a0 = k ∧ t.x .a1 = tval ∧
      t.x .a2 = cause ∧ t.pc = l.interruptHelper ∧ t.supervisor = true := by
  obtain ⟨t, ht, hmem, hx, hsp, hstval, hscause, hmode⟩ := execAll_SAVE_CONTEXT (s :=
    { s with toHart := s.toHart.trap l.exceptionHandlerEntry cause tval }) hpcb hk hka
  have htp : t.x .tp = s.x .tp := hx .tp (by simp) (by simp) (by simp) (by simp)
  have hzero : s.x .tp + PCB_KERNEL_SP = s.x .tp := BitVec.add_zero _
  have hload : load t.mem (s.x .tp) = k := by
    rw [hmem, load_storeAll_of_notMem hka (frameStores_aligned _) hpcb]
    · exact hk
    · intro e he
      exact hout _ (frameStores_offsets _ ▸ List.mem_map_of_mem he)
  have htrap : execAll (exceptionHandlerEntry l.retFromException)
      { s with toHart := s.toHart.trap l.exceptionHandlerEntry cause tval } =
      some (((((t.setReg .ra l.retFromException).setReg .a0 (s.x .tp)).setReg .a0 k).setReg .a1
        tval).setReg .a2 cause) := by
    rw [exceptionHandlerEntry, execAll_append, ht, Option.bind_some, execAll_cons_some exec_li,
      execAll_cons_some exec_mv,
      execAll_cons_some (exec_ld (by simpa [htp, hzero] using hpcb)),
      execAll_cons_some exec_csrr, execAll_cons_some exec_csrr, execAll_nil]
    simp [htp, hzero, hload, hstval, hscause, Hart.trap]
  refine ⟨_, by rw [takeTrap, htrap]; rfl, ?_, fun r hr => ?_, ?_, ?_, ?_, ?_, ?_, rfl, ?_⟩
  · exact hmem
  · simp only [List.mem_cons, List.not_mem_nil, or_false, not_or] at hr
    obtain ⟨hra, hsp', ht0, ht1, ha0, ha1, ha2⟩ := hr
    simp [hra, ha0, ha1, ha2]
    exact hx r ha0 hsp' ht0 ht1
  · simp
  · simp [hsp]
  · simp
  · simp
  · simp
  · exact hmode

lemma mem_contextRegs {r : Reg} (hgp : r ≠ .gp) (ha0 : r ≠ .a0) : r ∈ contextRegs := by
  revert hgp ha0
  cases r <;> decide

/-- The mask looks at the bits above `SPP`. -/
lemma and_statusMask_congr {v w : Word} (h : ∀ i, 9 ≤ i → i < 64 → v.getLsbD i = w.getLsbD i) :
    v &&& statusMask = w &&& statusMask := by
  refine BitVec.eq_of_getLsbD_eq fun i hi => ?_
  rw [BitVec.getLsbD_and, BitVec.getLsbD_and]
  by_cases h9 : i < 9
  · have hmask : statusMask.getLsbD i = false := by
      revert h9
      revert i
      decide
    rw [hmask, Bool.and_false, Bool.and_false]
  · rw [h i (by omega) hi]

lemma setBit_statusMask {w : Word} {i : ℕ} {v : Bool} (hi : i < 9) :
    setBit w i v &&& statusMask = w &&& statusMask := by
  refine and_statusMask_congr fun j hj _ => ?_
  rw [getLsbD_setBit (by omega), if_neg (by omega)]

/-- A trap changes no bit of `sstatus` above `SPP`, and `SPP` tells the mode. -/
lemma trap_sstatus (h : Hart) (handler cause tval : Word) :
    ((h.trap handler cause tval).csr .sstatus).getLsbD SPP = h.supervisor ∧
      (h.trap handler cause tval).csr .sstatus &&& statusMask = h.csr .sstatus &&& statusMask := by
  have hcsr : (h.trap handler cause tval).csr .sstatus =
      setBit (setBit (setBit (h.csr .sstatus) SPP h.supervisor) SPIE
        ((setBit (h.csr .sstatus) SPP h.supervisor).getLsbD SIE)) SIE false := by
    simp [Hart.trap]
  rw [hcsr]
  constructor
  · rw [getLsbD_setBit (by decide), if_neg (by decide), getLsbD_setBit (by decide),
      if_neg (by decide), getLsbD_setBit (by decide), if_pos rfl]
  · rw [setBit_statusMask (by decide), setBit_statusMask (by decide), setBit_statusMask (by decide)]

/-- A trapframe holds what the task saw of its processor before the trap. -/
theorem frameCtx_frameStores {h : Hart} {handler cause tval k : Word} {m : M} (hka : Aligned k) :
    frameCtx (storeAll k (frameStores (h.trap handler cause tval)) m) k = h.ctx := by
  have hload : ∀ o v, (o, v) ∈ frameStores (h.trap handler cause tval) →
      load (storeAll k (frameStores (h.trap handler cause tval)) m) (k + o) = v := fun o v hmem =>
    load_storeAll_of_mem hka (frameStores_aligned _)
      (frameStores_offsets (h.trap handler cause tval) ▸ frameOffsets_nodup) hmem
  obtain ⟨hspp, hmask⟩ := trap_sstatus h handler cause tval
  have hsstatus := hload OFFSET_REG_SSTATUS ((h.trap handler cause tval).csr .sstatus)
    (by simp [frameStores])
  refine Ctx.ext ?_ ?_ ?_ ?_
  · funext r
    by_cases hgp : r = .gp
    · simp [frameCtx, Hart.ctx, hgp]
    · simp only [frameCtx, Hart.ctx, hgp, if_false]
      refine hload _ _ ?_
      by_cases ha0 : r = .a0
      · exact List.mem_append_right _ (ha0 ▸ List.mem_cons_self)
      · exact List.mem_append_left _ (List.mem_map.2 ⟨r, mem_contextRegs hgp ha0, rfl⟩)
  · have hsepc : (h.trap handler cause tval).csr .sepc = h.pc := by simp [Hart.trap]
    exact (hload OFFSET_REG_SEPC _ (by simp [frameStores])).trans hsepc
  · exact (congrArg (fun w => BitVec.getLsbD w SPP) hsstatus).trans hspp
  · exact (congrArg (fun w => w &&& statusMask) hsstatus).trans hmask

/-! ## The return -/

/-- `RESTORE_CONTEXT` loads the trapframe. -/
lemma execAll_RESTORE_CONTEXT {s : State M} {k : Word} (hpcb : Aligned (s.x .tp))
    (hk : load s.mem (s.x .tp) = k) (hka : Aligned k) :
    ∃ t : State M, execAll RESTORE_CONTEXT s = some t ∧ t.mem = s.mem ∧
      (∀ r, r ≠ .gp → t.x r = load s.mem (k + offsetReg r)) ∧ t.x .gp = s.x .gp ∧
      t.csr .sepc = load s.mem (k + OFFSET_REG_SEPC) ∧
      t.csr .sstatus = (load s.mem (k + OFFSET_REG_SSTATUS) &&& (-256)) ||| SR_SPIE := by
  have h₁ : Aligned (k + offsetReg .a0) := aligned_frame hka (by decide)
  have h₂ : Aligned (k + OFFSET_REG_SSTATUS) := aligned_frame hka (by decide)
  have h₃ : Aligned (k + OFFSET_REG_SEPC) := aligned_frame hka (by decide)
  have hzero : s.x .tp + PCB_KERNEL_SP = s.x .tp := BitVec.add_zero _
  have hnodup : (contextOffsets.map Prod.fst).Nodup := by decide
  rw [RESTORE_CONTEXT, execAll_append, execAll_append, execAll_cons_some exec_mv,
    execAll_cons_some (exec_ld (by simpa [hzero] using hpcb)),
    execAll_cons_some (exec_ld (by simpa [hzero, hk] using h₁)), execAll_cons_some exec_csrw,
    execAll_cons_some (exec_ld (by simpa [hzero, hk] using h₃)), execAll_cons_some exec_csrw,
    execAll_cons_some (exec_ld (by simpa [hzero, hk] using h₂)), execAll_cons_some exec_andi,
    execAll_cons_some exec_ori, execAll_cons_some exec_csrw, execAll_nil, Option.bind_some,
    execAll_loadRegs (by simpa [hzero, hk] using hka) contextOffsets_aligned (by decide),
    Option.bind_some, execAll_cons_some exec_csrrw, execAll_nil]
  refine ⟨_, rfl, ?_, fun r hgp => ?_, ?_, ?_, ?_⟩
  · simp
  · by_cases ha0 : r = .a0
    · simp [ha0, hzero, hk]
    · have hmem : (r, offsetReg r) ∈ contextOffsets :=
        List.mem_map.2 ⟨r, mem_contextRegs hgp ha0, rfl⟩
      simp [ha0, hzero, hk, loadAll_of_mem hnodup hmem]
  · have hnot : Reg.gp ∉ contextOffsets.map Prod.fst := by decide
    simp [loadAll_of_notMem hnot]
  · simp [hzero, hk]
  · simp [hzero, hk]

/-- What `RESTORE_CONTEXT` makes of a saved `sstatus`: interrupts will be on, and the bits from
`SPP` up are those of the frame. -/
lemma restored_sstatus (w : Word) :
    ((w &&& (-256)) ||| SR_SPIE).getLsbD SPIE = true ∧
      ∀ i, 8 ≤ i → i < 64 → ((w &&& (-256)) ||| SR_SPIE).getLsbD i = w.getLsbD i := by
  constructor
  · simp [SR_SPIE, SPIE]
  · intro i h8 h64
    have hmask : ∀ j : Fin 64, 8 ≤ j.val →
        (-256 : Word).getLsbD j = true ∧ SR_SPIE.getLsbD j = false := by decide
    obtain ⟨h₁, h₂⟩ := hmask ⟨i, h64⟩ h8
    rw [BitVec.getLsbD_or, BitVec.getLsbD_and, h₁, h₂, Bool.and_true, Bool.or_false]

/-- `ret_from_exception` gives the task the processor in its trapframe, with interrupts on. -/
theorem retFromException_spec {s : State M} {k : Word} (hpcb : Aligned (s.x .tp))
    (hk : load s.mem (s.x .tp) = k) (hka : Aligned k) :
    ∃ t : State M, retFromException s = some t ∧ t.mem = s.mem ∧
      t.toHart.ctx = frameCtx s.mem k ∧ t.x .gp = s.x .gp ∧
      (t.csr .sstatus).getLsbD SIE = true := by
  obtain ⟨t, ht, hmem, hx, hgp, hsepc, hsstatus⟩ := execAll_RESTORE_CONTEXT hpcb hk hka
  obtain ⟨hspie, hhigh⟩ := restored_sstatus (load s.mem (k + OFFSET_REG_SSTATUS))
  rw [← hsstatus] at hspie hhigh
  have hret : t.toHart.sret.csr .sstatus = setBit (setBit (setBit (t.csr .sstatus) SIE
      ((t.csr .sstatus).getLsbD SPIE)) SPIE true) SPP false := by
    simp [Hart.sret]
  refine ⟨{ t with toHart := t.toHart.sret }, by rw [retFromException, ht]; rfl, hmem,
    Ctx.ext ?_ ?_ ?_ ?_, hgp, ?_⟩
  · funext r
    by_cases hr : r = .gp
    · simp [Hart.ctx, frameCtx, hr]
    · simp only [Hart.ctx, frameCtx, hr, if_false]
      exact hx r hr
  · exact hsepc
  · exact hhigh SPP (by decide) (by decide)
  · simp only [Hart.ctx, frameCtx]
    rw [hret, setBit_statusMask (by decide), setBit_statusMask (by decide),
      setBit_statusMask (by decide)]
    exact and_statusMask_congr fun i h9 => hhigh i (by omega)
  · change (t.toHart.sret.csr .sstatus).getLsbD SIE = true
    rw [hret, getLsbD_setBit (by decide), if_neg (by decide), getLsbD_setBit (by decide),
      if_neg (by decide), getLsbD_setBit (by decide), if_pos rfl]
    exact hspie

/-! ## `switch_to` -/

/-- What compiled code finds unchanged behind a call: `ra` and the callee-saved registers. -/
def calleeSaved (x : Reg → Word) : Reg → Word := fun r =>
  if r ∈ switchToOffsets.map Prod.fst then x r else 0

/-- The same registers in the `switchto_context_t` below a trapframe. -/
def switchtoContext (m : M) (k : Word) : Reg → Word :=
  loadAll m (k - SWITCH_TO_SIZE) switchToOffsets fun _ => 0

/-- What `switch_to` stores. -/
def switchStores (x : Reg → Word) : List (Word × Word) :=
  switchToOffsets.map fun e => (e.2, x e.1)

/-- The offsets of `switchStores`. -/
def switchOffsets : List Word := switchToOffsets.map Prod.snd

lemma switchStores_offsets (x : Reg → Word) : (switchStores x).map Prod.fst = switchOffsets := rfl

lemma switchRegs_nodup : (switchToOffsets.map Prod.fst).Nodup := by decide

lemma switchOffsets_nodup : switchOffsets.Nodup := by decide

lemma switchStores_aligned (x : Reg → Word) : ∀ e ∈ switchStores x, Aligned e.1 := by
  intro e he
  obtain ⟨d, hd, rfl⟩ := List.mem_map.1 he
  exact switchToOffsets_aligned d hd

lemma aligned_sub {k : Word} (hk : Aligned k) : Aligned (k - SWITCH_TO_SIZE) := by
  rw [BitVec.sub_eq_add_neg]
  exact hk.add (by decide)

/-- The registers in an area are those that `loadAll` sets. -/
lemma switchtoContext_eq (m : M) (k : Word) (x : Reg → Word) :
    switchtoContext m k = calleeSaved (loadAll m (k - SWITCH_TO_SIZE) switchToOffsets x) := by
  funext r
  unfold switchtoContext calleeSaved
  by_cases hr : r ∈ switchToOffsets.map Prod.fst
  · obtain ⟨e, he, rfl⟩ := List.mem_map.1 hr
    rw [if_pos hr, loadAll_of_mem switchRegs_nodup he, loadAll_of_mem switchRegs_nodup he]
  · rw [if_neg hr, loadAll_of_notMem hr]

/-- A saved area holds the registers of the save. -/
lemma switchtoContext_switchStores {m : M} {k : Word} {x : Reg → Word} (hka : Aligned k) :
    switchtoContext (storeAll (k - SWITCH_TO_SIZE) (switchStores x) m) k = calleeSaved x := by
  funext r
  unfold switchtoContext calleeSaved
  by_cases hr : r ∈ switchToOffsets.map Prod.fst
  · obtain ⟨e, he, rfl⟩ := List.mem_map.1 hr
    rw [if_pos hr, loadAll_of_mem switchRegs_nodup he]
    exact load_storeAll_of_mem (aligned_sub hka) (switchStores_aligned x)
      (switchStores_offsets x ▸ switchOffsets_nodup)
      (List.mem_map.2 ⟨e, he, rfl⟩)
  · rw [if_neg hr, loadAll_of_notMem hr]

/-- `switch_to` saves the callee-saved registers of the caller and goes on as the next task. -/
theorem switchTo_spec {s : State M} {prev next kp kn : Word} (hprev : Aligned prev)
    (hnext : Aligned next) (hkp : load s.mem prev = kp) (hkn : load s.mem next = kn)
    (hkpa : Aligned kp) (hkna : Aligned kn)
    (hout : ∀ o ∈ switchOffsets, next ≠ kp - SWITCH_TO_SIZE + o) :
    ∃ t : State M, switchTo prev next s = some t ∧
      t.mem = storeAll (kp - SWITCH_TO_SIZE) (switchStores s.x) s.mem ∧
      calleeSaved t.x = switchtoContext t.mem kn ∧ t.pc = t.x .ra ∧ t.x .gp = s.x .gp ∧
      t.x .tp = s.x .tp ∧ t.csr = s.csr ∧ t.supervisor = s.supervisor := by
  have hzp : prev + PCB_KERNEL_SP = prev := BitVec.add_zero _
  have hzn : next + PCB_KERNEL_SP = next := BitVec.add_zero _
  have hneg : kp + -SWITCH_TO_SIZE = kp - SWITCH_TO_SIZE := (BitVec.sub_eq_add_neg _ _).symm
  have hneg' : kn + -SWITCH_TO_SIZE = kn - SWITCH_TO_SIZE := (BitVec.sub_eq_add_neg _ _).symm
  -- the first half
  obtain ⟨u, hu, humem, hux, hucsr, humode⟩ : ∃ u : State M,
      execAll ([.ld .a0 PCB_KERNEL_SP .a0, .addi .a0 .a0 (-SWITCH_TO_SIZE)] ++
        saveRegs .a0 switchToOffsets) ((s.setReg .a0 prev).setReg .a1 next) = some u ∧
      u.mem = storeAll (kp - SWITCH_TO_SIZE) (switchStores s.x) s.mem ∧
      (∀ r, r ≠ .a0 → u.x r = if r = .a1 then next else s.x r) ∧ u.csr = s.csr ∧
      u.supervisor = s.supervisor := by
    rw [execAll_append, execAll_cons_some (exec_ld (by simpa [hzp] using hprev)),
      execAll_cons_some exec_addi, execAll_nil, Option.bind_some,
      execAll_saveRegs (by simpa [hzp, hkp, hneg] using aligned_sub hkpa) switchToOffsets_aligned]
    refine ⟨_, rfl, ?_, fun r hr => ?_, rfl, rfl⟩
    · simp [hzp, hkp, hneg, switchStores, switchToOffsets]
    · simp [hr]
  have hunext : load u.mem next = kn := by
    rw [humem, load_storeAll_of_notMem (aligned_sub hkpa) (switchStores_aligned _) hnext]
    · exact hkn
    · intro e he
      exact hout _ (switchStores_offsets s.x ▸ List.mem_map_of_mem he)
  have hua1 : u.x .a1 = next := by rw [hux .a1 (by decide), if_pos rfl]
  -- the second half
  obtain ⟨x, hx, hbody⟩ : ∃ x : Reg → Word, (∀ r, r ≠ .a0 → r ≠ .a1 → x r = s.x r) ∧
      execAll switchToBody ((s.setReg .a0 prev).setReg .a1 next) =
        some { u with x := loadAll u.mem (kn - SWITCH_TO_SIZE) switchToOffsets x } := by
    refine ⟨((u.setReg .a1 kn).setReg .a1 (kn - SWITCH_TO_SIZE)).x,
      fun r ha0 ha1 => by simp [ha1, hux r ha0], ?_⟩
    rw [switchToBody, execAll_append, execAll_append, hu, Option.bind_some, execAll_cons_some
      (exec_ld (by simpa [hua1, hzn] using hnext)), execAll_cons_some exec_addi, execAll_nil,
      Option.bind_some, hua1, hzn, hunext]
    simp only [setReg_x, if_true, hneg']
    rw [execAll_loadRegs (by simpa using aligned_sub hkna) switchToOffsets_aligned (by decide)]
    simp [State.setReg]
  refine ⟨{ u with
      x := loadAll u.mem (kn - SWITCH_TO_SIZE) switchToOffsets x
      pc := loadAll u.mem (kn - SWITCH_TO_SIZE) switchToOffsets x .ra },
    by rw [switchTo, hbody]; rfl, humem, (switchtoContext_eq _ _ _).symm, rfl, ?_, ?_, hucsr,
    humode⟩
  · have hnot : Reg.gp ∉ switchToOffsets.map Prod.fst := by decide
    exact (loadAll_of_notMem (m := u.mem) (x := x) (a := kn - SWITCH_TO_SIZE) hnot).trans
      (hx .gp (by decide) (by decide))
  · have hnot : Reg.tp ∉ switchToOffsets.map Prod.fst := by decide
    exact (loadAll_of_notMem (m := u.mem) (x := x) (a := kn - SWITCH_TO_SIZE) hnot).trans
      (hx .tp (by decide) (by decide))

end Specs
end Arch
end UcasKernel
