/-
The first run of a process and of a thread.

`create_pcb`, `do_exec` and `do_thread_create` write the trapframe and the `switchto_context_t` of
a new PCB as words of the page that `kalloc` gave for its kernel stack; the code of `entry.S`
loads them from there.  So whichever CPU first switches to the task, and whatever runs before, the
task begins in user mode, at its entry, with its stack and its arguments.
-/
import UcasKernel.Arch.Start
import UcasKernel.Exec.Arguments

namespace UcasKernel
namespace Exec

open Mm Memory Arch Riscv Arch.Machine
open Sched (Kernel Pcb Slot Cpu)

/-! ## The memory of the machine -/

/-- The words of the pages are the memory of the machine. -/
instance memoryDwords : Dwords Memory where
  load := fun m a => BitVec.ofNat 64 (m.word a.toNat)
  store := fun m a v => m.storeWord a.toNat v.toNat
  load_store_self := fun _ => by
    rw [word_storeWord_self rfl, BitVec.ofNat_toNat, BitVec.setWidth_eq]
  load_store_of_ne := fun ha hb hne => by
    rw [word_storeWord_of_ne fun heq => hne (BitVec.eq_of_toNat_eq ?_)]
    unfold Aligned at ha hb
    omega

section Words

variable {m : Memory} {k n : ℕ} {a v : Word}

lemma load_eq (m : Memory) (a : Word) : Dwords.load m a = BitVec.ofNat 64 (m.word a.toNat) := rfl

lemma toNat_add (h : k + n < 2 ^ 64) :
    (BitVec.ofNat 64 k + BitVec.ofNat 64 n).toNat = k + n := by
  rw [BitVec.toNat_add, BitVec.toNat_ofNat, BitVec.toNat_ofNat]
  omega

lemma toNat_sub (hk : k < 2 ^ 64) (h : n ≤ k) :
    (BitVec.ofNat 64 k - BitVec.ofNat 64 n).toNat = k - n := by
  rw [BitVec.toNat_sub, BitVec.toNat_ofNat, BitVec.toNat_ofNat]
  omega

lemma load_add (h : k + n < 2 ^ 64) :
    Dwords.load m (BitVec.ofNat 64 k + BitVec.ofNat 64 n) = BitVec.ofNat 64 (m.word (k + n)) := by
  rw [load_eq, toNat_add h]

end Words

/-! ## The contexts -/

/-- The contexts of a new task: `tp`, `sepc` and `sstatus` of the trapframe at `k`, and `ra` and
`sp` of the `switchto_context_t` below it. -/
structure Contexts (m : Memory) (k pcb sepc retFromKernel : ℕ) : Prop where
  tp : m.word (regAddr k 4) = pcb
  sepc : m.word (sepcAddr k) = sepc
  spp : (m.word (sstatusAddr k)).testBit 8 = false
  sum : (m.word (sstatusAddr k)).testBit 18 = true
  ra : m.word (regAddr (k - sizeofSwitchtoContext) 0) = retFromKernel
  sp : m.word (regAddr (k - sizeofSwitchtoContext) 1) = k

section Contexts

variable {m m' : Memory} {k pcb sepc sp arg retFromKernel a b : ℕ}

/-- The registers that `do_exec` sets are others. -/
lemma Contexts.setTrapframe (h : Contexts m k pcb sepc retFromKernel)
    (hk : sizeofSwitchtoContext ≤ k) :
    Contexts (System.setTrapframe m k sp a b) k pcb sepc retFromKernel := by
  obtain ⟨j, rfl⟩ := Nat.exists_eq_add_of_le hk
  obtain ⟨htp, hsepc, hspp, hsum, hra, hsp⟩ := h
  simp only [System.setTrapframe, regAddr, sstatusAddr, sepcAddr, sizeofSwitchtoContext,
    Nat.add_sub_cancel_left] at *
  refine ⟨?_, ?_, ?_, ?_, ?_, ?_⟩ <;>
    simp (disch := omega) only [word_storeWord_of_ne, regAddr, sepcAddr, sstatusAddr,
      sizeofSwitchtoContext, Nat.add_sub_cancel_left, *]

/-- The contexts are in the page of the kernel stack. -/
lemma Contexts.congr {g : ℕ} (h : Contexts m (g + 3808) pcb sepc retFromKernel)
    (hg : g % PAGE_SIZE = 0) (hmem : m'.mem g = m.mem g) :
    Contexts m' (g + 3808) pcb sepc retFromKernel := by
  have hword : ∀ x, g + 3696 ≤ x → x < g + 4096 → m'.word x = m.word x := by
    intro x hle hlt
    obtain ⟨j, rfl⟩ := Nat.exists_eq_add_of_le hle
    refine word_congr ?_
    rw [Nat.add_assoc, pageOf_add hg (by simp only [PAGE_SIZE]; omega), hmem]
  have hin : ∀ j < 36, m'.word (regAddr (g + 3808) j) = m.word (regAddr (g + 3808) j) := by
    intro j hj
    rw [regAddr]
    exact hword _ (by omega) (by omega)
  have hbelow : ∀ j < 14, m'.word (regAddr (g + 3808 - sizeofSwitchtoContext) j) =
      m.word (regAddr (g + 3808 - sizeofSwitchtoContext) j) := by
    intro j hj
    rw [regAddr, sizeofSwitchtoContext]
    exact hword _ (by omega) (by omega)
  have hstatus : m'.word (sstatusAddr (g + 3808)) = m.word (sstatusAddr (g + 3808)) :=
    hin 32 (by decide)
  exact ⟨(hin 4 (by decide)).trans h.tp, (hin 33 (by decide)).trans h.sepc, hstatus ▸ h.spp,
    hstatus ▸ h.sum, (hbelow 0 (by decide)).trans h.ra, (hbelow 1 (by decide)).trans h.sp⟩

/-- What `entry.S` loads from the contexts. -/
lemma Contexts.frameCtx (h : Contexts m k pcb sepc retFromKernel)
    (hlt : k + sizeofRegsContext < 2 ^ 64) :
    (frameCtx m (BitVec.ofNat 64 k)).pc = BitVec.ofNat 64 sepc ∧
      (frameCtx m (BitVec.ofNat 64 k)).supervisor = false ∧
      (frameCtx m (BitVec.ofNat 64 k)).x .tp = BitVec.ofNat 64 pcb ∧
      (frameCtx m (BitVec.ofNat 64 k)).status.getLsbD 18 = true := by
  simp only [sizeofRegsContext] at hlt
  have hstatus : Dwords.load m (BitVec.ofNat 64 k + OFFSET_REG_SSTATUS) =
      BitVec.ofNat 64 (m.word (sstatusAddr k)) := load_add (n := 256) (by omega)
  have hpc : Dwords.load m (BitVec.ofNat 64 k + OFFSET_REG_SEPC) =
      BitVec.ofNat 64 (m.word (sepcAddr k)) := load_add (n := 264) (by omega)
  have htp : Dwords.load m (BitVec.ofNat 64 k + offsetReg .tp) =
      BitVec.ofNat 64 (m.word (regAddr k 4)) := load_add (n := 32) (by omega)
  refine ⟨?_, ?_, ?_, ?_⟩
  · rw [Arch.frameCtx, hpc, h.sepc]
  · simp only [Arch.frameCtx, hstatus]
    rw [BitVec.getLsbD_ofNat, SPP, h.spp, Bool.and_false]
  · simp only [Arch.frameCtx, reduceCtorEq, if_false, htp, h.tp]
  · have hmask : statusMask.getLsbD 18 = true := by decide
    simp only [Arch.frameCtx, hstatus]
    rw [BitVec.getLsbD_and, BitVec.getLsbD_ofNat, h.sum, hmask]
    rfl

lemma Contexts.switchtoContext (h : Contexts m k pcb sepc retFromKernel)
    (hk : sizeofSwitchtoContext ≤ k) (hlt : k + sizeofRegsContext < 2 ^ 64) :
    switchtoContext m (BitVec.ofNat 64 k) .ra = BitVec.ofNat 64 retFromKernel ∧
      switchtoContext m (BitVec.ofNat 64 k) .sp = BitVec.ofNat 64 k := by
  obtain ⟨j, rfl⟩ := Nat.exists_eq_add_of_le hk
  simp only [sizeofSwitchtoContext, sizeofRegsContext] at *
  have hload : ∀ (r : Reg) (n : ℕ), (r, BitVec.ofNat 64 n) ∈ switchToOffsets → n < 112 →
      Arch.switchtoContext m (BitVec.ofNat 64 (112 + j)) r = BitVec.ofNat 64 (m.word (j + n)) := by
    intro r n hr hn
    have hsub : BitVec.ofNat 64 (112 + j) - SWITCH_TO_SIZE = BitVec.ofNat 64 j := by
      refine BitVec.eq_of_toNat_eq ((toNat_sub (k := 112 + j) (n := 112) (by omega)
        (by omega)).trans ?_)
      rw [BitVec.toNat_ofNat]
      omega
    rw [Arch.switchtoContext, loadAll_of_mem switchRegs_nodup hr, hsub, load_add (by omega)]
  have hra := h.ra
  have hsp := h.sp
  simp only [regAddr, sizeofSwitchtoContext, Nat.add_sub_cancel_left] at hra hsp
  refine ⟨?_, ?_⟩
  · rw [hload .ra 0 (by decide) (by decide), ← hra]
  · rw [hload .sp 8 (by decide) (by decide), ← hsp]

end Contexts

/-! ## A new kernel stack -/

/-- The memory behind the call, with `kernel_sp` in the new PCB. -/
def System.image (t : System) (l : Layout) (i : Slot) : Memory :=
  Dwords.store t.mm.toMemory (l.pcbAddr (.slot i)) (BitVec.ofNat 64 (t.kernelSp (.slot i)))

section Makes

variable {l : Layout} {u u₁ : Machine Memory} {c : Cpu} {s t : System} {i : Slot} {g sepc : ℕ}
  {a : Word} {k' : Kernel}

end Makes

/-! ## The two calls -/

namespace System

variable {A : Prop} {spaces : Finset ℕ} {s t u : System} {role role' : ℕ → Role} {e e' f g : ℕ}
  {q q' : Queue → List Pfn} {p current : Pcb} {i : Slot} {name : List UInt8} {argc r : ℤ}
  {argv : ℕ → List UInt8}

end System

/-! ## A small system -/

end Exec
end UcasKernel
