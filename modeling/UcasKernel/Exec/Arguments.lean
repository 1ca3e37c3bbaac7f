/-
The arguments of a new process.

`do_exec` moves a pointer of the kernel and one of the process down through the page of the
stack: the array of the pointers is at its end, and the strings are below the array, the
first one highest.  When all of it fits the page, the process finds the array at `a1` and
every string where the array says, and the stack begins below.
-/
import UcasKernel.Exec.Process

namespace UcasKernel
namespace Exec

open Mm Memory
open Sched (Kernel Pcb Slot)

/-- The bytes of the first `n` strings. -/
def strBytes (argv : ℕ → List UInt8) (n : ℕ) : ℕ :=
  ((List.range n).map fun i => (argv i).length + 1).sum

/-- The array and the strings fit a page. -/
def Fits (argc : ℤ) (argv : ℕ → List UInt8) : Prop :=
  0 ≤ argc ∧ 8 * (argc + 1) + strBytes argv argc.toNat ≤ PAGE_SIZE

/-! ## Pointers and strings -/

section Pointers

variable {m : Memory} {a dest f g n p x : ℕ} {str : List UInt8} {argv : ℕ → List UInt8}

lemma strBytes_zero : strBytes argv 0 = 0 := rfl

lemma strBytes_succ (argv : ℕ → List UInt8) (n : ℕ) :
    strBytes argv (n + 1) = strBytes argv n + ((argv n).length + 1) := by
  simp [strBytes, List.range_succ]

lemma strBytes_mono {k : ℕ} (h : k ≤ n) : strBytes argv k ≤ strBytes argv n := by
  induction n, h using Nat.le_induction with
  | base => exact le_rfl
  | succ n _ ih => exact ih.trans (by rw [strBytes_succ]; exact Nat.le_add_right _ _)

lemma subPtr_natCast (hn : n ≤ p) (hp : p < 2 ^ 64) : subPtr p n = p - n := by
  rw [subPtr]
  omega

lemma subPtr_neg_eight (hp : p + 8 < 2 ^ 64) : subPtr p (-8) = p + 8 := by
  rw [subPtr]
  omega

lemma addInt_natCast_one (hn : n + 1 < 2 ^ 31) : addInt (n : ℤ) 1 = some ((n + 1 : ℕ) : ℤ) := by
  rw [addInt, if_pos (by omega), Nat.cast_add, Nat.cast_one]

lemma charAt_lt {j : ℕ} : charAt str j < 256 := UInt8.toNat_lt _

lemma byte_copyString : (copyString m dest str n).byte a =
    if dest ≤ a ∧ a < dest + n then charAt str (a - dest) else m.byte a := by
  induction n with
  | zero => rw [if_neg (by omega)]; rfl
  | succ n ih =>
    rw [copyString, byte_storeByte, ih]
    by_cases ha : a = dest + n
    · subst ha
      rw [if_pos rfl, if_pos (by omega), Nat.add_sub_cancel_left, Nat.mod_eq_of_lt charAt_lt]
    · rw [if_neg ha]
      by_cases hin : dest ≤ a ∧ a < dest + n
      · rw [if_pos hin, if_pos (by omega)]
      · rw [if_neg hin, if_neg (by omega)]

/-- The copy leaves the words behind it. -/
lemma word_copyString (ha : a % 8 = 0) (hle : dest + n ≤ a) :
    (copyString m dest str n).word a = m.word a := by
  induction n with
  | zero => rfl
  | succ n ih => rw [copyString, word_storeByte_of_ne (by omega), ih (by omega)]

lemma copyString_mem (hf : f % PAGE_SIZE = 0) (hle : x + n ≤ PAGE_SIZE) (hg : g ≠ f) :
    (copyString m (f + x) str n).mem g = m.mem g := by
  induction n with
  | zero => rfl
  | succ n ih =>
    rw [copyString, storeByte_mem, ih (by omega)]
    rwa [Nat.add_assoc, pageOf_add hf (by omega)]

lemma copyString_freememList : (copyString m dest str n).freememList = m.freememList := by
  induction n with
  | zero => rfl
  | succ n ih => exact ih

end Pointers

/-! ## The page -/

/-- In the page `f` the first `n` pointers of the array at `b`, and their strings. -/
structure Block (argv : ℕ → List UInt8) (f b n : ℕ) (m₀ m : Memory) : Prop where
  list : m.freememList = m₀.freememList
  other : ∀ g, g ≠ f → m.mem g = m₀.mem g
  pointers : ∀ i < n, m.word (f + (b + 8 * i)) = USER_VA_SP_BASE + (b - strBytes argv (i + 1))
  strings : ∀ i < n, ∀ j ≤ (argv i).length,
    m.byte (f + (b - strBytes argv (i + 1)) + j) = charAt (argv i) j

/-- The cursors after `n` rounds. -/
structure Pushed (argv : ℕ → List UInt8) (f b n : ℕ) (m₀ : Memory) (c : ArgCursor) : Prop where
  block : Block argv f b n m₀ c.mem
  userSpKva : c.userSpKva = f + (b - strBytes argv n)
  userSpUva : c.userSpUva = USER_VA_SP_BASE + (b - strBytes argv n)
  kernelArgvPtr : c.kernelArgvPtr = f + (b + 8 * n)

section Page

variable {argv : ℕ → List UInt8} {f b n : ℕ} {m₀ m : Memory} {c : ArgCursor}

/-- A word is stored behind the pointers. -/
lemma Block.storeWord (h : Block argv f b n m₀ m) (hf : f % PAGE_SIZE = 0) (hb : b % 8 = 0)
    (hle : strBytes argv n ≤ b) (hpage : b + 8 * n < PAGE_SIZE) (v : ℕ) :
    Block argv f b n m₀ (m.storeWord (f + (b + 8 * n)) v) where
  list := h.list
  other := fun g hg => (storeWord_mem hf hpage hg).trans (h.other g hg)
  pointers := fun i hi => by
    rw [word_storeWord_of_ne (by simp only [PAGE_SIZE] at hf; omega), h.pointers i hi]
  strings := fun i hi j hj => by
    have hlen := strBytes_succ argv i
    have hsum : strBytes argv (i + 1) ≤ strBytes argv n := strBytes_mono hi
    have hlt : f + (b - strBytes argv (i + 1)) + j < f + (b + 8 * n) := by omega
    rw [byte_storeWord_of_ne (by simp only [PAGE_SIZE] at hf; omega), h.strings i hi j hj]

/-- The pointer and the string of one round. -/
lemma Block.push (h : Block argv f b n m₀ m) (hf : f % PAGE_SIZE = 0) (hb : b % 8 = 0)
    (hle : strBytes argv (n + 1) ≤ b) (hpage : b + 8 * n < PAGE_SIZE) :
    Block argv f b (n + 1) m₀
      (copyString (m.storeWord (f + (b + 8 * n)) (USER_VA_SP_BASE + (b - strBytes argv (n + 1))))
        (f + (b - strBytes argv (n + 1))) (argv n) ((argv n).length + 1)) := by
  have hlen := strBytes_succ argv n
  have hs := h.storeWord hf hb (by omega) hpage (USER_VA_SP_BASE + (b - strBytes argv (n + 1)))
  have hwords : ∀ i, b % 8 = 0 → (f + (b + 8 * i)) % 8 = 0 := by
    intro i _
    simp only [PAGE_SIZE] at hf
    omega
  refine ⟨copyString_freememList.trans hs.list, fun g hg => ?_, fun i hi => ?_, fun i hi j hj => ?_⟩
  · exact (copyString_mem hf (by omega) hg).trans (hs.other g hg)
  · rw [word_copyString (hwords i hb) (by omega)]
    rcases Nat.lt_succ_iff_lt_or_eq.1 hi with hlt | rfl
    · exact hs.pointers i hlt
    · exact word_storeWord_self rfl
  · rw [byte_copyString]
    rcases Nat.lt_succ_iff_lt_or_eq.1 hi with hlt | rfl
    · have hlen' := strBytes_succ argv i
      have hsum : strBytes argv (i + 1) ≤ strBytes argv n := strBytes_mono hlt
      rw [if_neg (by omega)]
      exact hs.strings i hlt j hj
    · rw [if_pos (by omega), Nat.add_sub_cancel_left]

lemma pushArg_eq {i : ℕ} {l len : ℤ} (hl : strlen (argv i) = some l) (hlen : addInt l 1 = some len) :
    pushArg argv c i = some ⟨copyString (c.mem.storeWord c.kernelArgvPtr (subPtr c.userSpUva len))
      (subPtr c.userSpKva len) (argv i) len.toNat, subPtr c.userSpKva len, subPtr c.userSpUva len,
      subPtr c.kernelArgvPtr (-8)⟩ := by
  simp only [pushArg, hl, hlen, Option.bind_eq_bind, Option.bind_some]

/-- The length of a string that fits a page. -/
lemma strlen_of_le {i : ℕ} (h : (argv i).length + 1 ≤ PAGE_SIZE) :
    strlen (argv i) = some ((argv i).length : ℤ) ∧
      addInt ((argv i).length : ℤ) 1 = some (((argv i).length + 1 : ℕ) : ℤ) := by
  simp only [PAGE_SIZE] at h
  refine ⟨?_, addInt_natCast_one (by omega)⟩
  rw [strlen, if_pos (by omega)]

/-- Where the next string goes. -/
lemma Pushed.subPtr_kva (h : Pushed argv f b n m₀ c) (hf' : f + PAGE_SIZE < 2 ^ 64)
    (hle : strBytes argv (n + 1) ≤ b) (hpage : b ≤ PAGE_SIZE) :
    subPtr c.userSpKva ((argv n).length + 1 : ℕ) = f + (b - strBytes argv (n + 1)) := by
  have hlen := strBytes_succ argv n
  rw [h.userSpKva, subPtr_natCast (by omega) (by omega)]
  omega

/-- One round of the loop. -/
lemma Pushed.step (h : Pushed argv f b n m₀ c) (hf : f % PAGE_SIZE = 0)
    (hf' : f + PAGE_SIZE < 2 ^ 64) (hb : b % 8 = 0) (hle : strBytes argv (n + 1) ≤ b)
    (hpage : b + 8 * n + 8 ≤ PAGE_SIZE) :
    ∃ c', pushArg argv c n = some c' ∧ Pushed argv f b (n + 1) m₀ c' := by
  have hlen := strBytes_succ argv n
  obtain ⟨hstr, hadd⟩ := strlen_of_le (i := n) (show (argv n).length + 1 ≤ PAGE_SIZE by omega)
  have hkva := h.subPtr_kva hf' hle (by omega)
  have huva : subPtr c.userSpUva ((argv n).length + 1 : ℕ) =
      USER_VA_SP_BASE + (b - strBytes argv (n + 1)) := by
    simp only [PAGE_SIZE] at hpage
    rw [h.userSpUva, subPtr_natCast (by omega) (by simp only [USER_VA_SP_BASE]; omega)]
    omega
  have hptr : subPtr (f + (b + 8 * n)) (-8) = f + (b + 8 * (n + 1)) := by
    rw [subPtr_neg_eight (by omega)]
    omega
  refine ⟨⟨copyString
    (c.mem.storeWord (f + (b + 8 * n)) (USER_VA_SP_BASE + (b - strBytes argv (n + 1))))
    (f + (b - strBytes argv (n + 1))) (argv n) ((argv n).length + 1),
    f + (b - strBytes argv (n + 1)), USER_VA_SP_BASE + (b - strBytes argv (n + 1)),
    f + (b + 8 * (n + 1))⟩, ?_, ⟨h.block.push hf hb hle (by omega), rfl, rfl, rfl⟩⟩
  rw [pushArg_eq hstr hadd, hkva, huva, h.kernelArgvPtr, hptr, Int.toNat_natCast]

/-- The loop. -/
lemma foldlM_pushArg (hf : f % PAGE_SIZE = 0) (hf' : f + PAGE_SIZE < 2 ^ 64) (hb : b % 8 = 0)
    (hle : strBytes argv n ≤ b) (hpage : b + 8 * n ≤ PAGE_SIZE)
    (h : Pushed argv f b 0 m₀ c) :
    ∃ c', (List.range n).foldlM (pushArg argv) c = some c' ∧ Pushed argv f b n m₀ c' := by
  induction n with
  | zero => exact ⟨c, rfl, h⟩
  | succ n ih =>
    have hlen := strBytes_succ argv n
    obtain ⟨c₁, hc₁, h₁⟩ := ih (by omega) (by omega)
    obtain ⟨c₂, hc₂, h₂⟩ := h₁.step hf hf' hb hle (by omega)
    refine ⟨c₂, ?_, h₂⟩
    simp only [List.range_succ, List.foldlM_append, List.foldlM_cons, List.foldlM_nil, hc₁, hc₂,
      Option.bind_eq_bind, Option.bind_some, Option.pure_def]

/-- The cursors before the loop, for an array that begins at `b` in the page. -/
lemma firstCursor_eq (hf' : f + PAGE_SIZE < 2 ^ 64) (hb : b + 8 * (n + 1) = PAGE_SIZE) :
    firstCursor m (f + PAGE_SIZE) ((n + 1 : ℕ) : ℤ) =
      ⟨m, f + b, USER_VA_SP_BASE + b, f + b⟩ := by
  have hcast : ((n + 1 : ℕ) : ℤ) * 8 = ((n + 1) * 8 : ℕ) := by push_cast; rfl
  have hbase : subPtr (f + PAGE_SIZE) (((n + 1 : ℕ) : ℤ) * 8) = f + b := by
    rw [hcast, subPtr_natCast (by omega) (by omega)]
    omega
  have hubase : subPtr USER_VA_SP (((n + 1 : ℕ) : ℤ) * 8) = USER_VA_SP_BASE + b := by
    simp only [PAGE_SIZE] at hb
    rw [hcast, subPtr_natCast (by simp only [USER_VA_SP]; omega) (by decide)]
    simp only [USER_VA_SP, USER_VA_SP_BASE]
    omega
  rw [firstCursor, hbase, hubase]

lemma pushed_zero : Pushed argv f b 0 m ⟨m, f + b, USER_VA_SP_BASE + b, f + b⟩ := by
  refine ⟨⟨rfl, fun _ _ => rfl, fun i hi => ?_, fun i hi => ?_⟩, ?_, ?_, ?_⟩
  · exact absurd hi (Nat.not_lt_zero i)
  · exact absurd hi (Nat.not_lt_zero i)
  · rw [strBytes_zero, Nat.sub_zero]
  · rw [strBytes_zero, Nat.sub_zero]
  · rw [Nat.mul_zero, Nat.add_zero]

/-- The block is built in the page when it fits. -/
lemma setUserStack_spec {argc : ℤ} (hf : f % PAGE_SIZE = 0) (hf' : f + PAGE_SIZE < 2 ^ 64)
    (hfits : Fits argc argv) :
    ∃ (b : ℕ) (m' : Memory), b + 8 * (argc.toNat + 1) = PAGE_SIZE ∧ b % 8 = 0 ∧
      strBytes argv argc.toNat ≤ b ∧
      setUserStack m (f + PAGE_SIZE) argc argv = some (m',
        roundDown (USER_VA_SP_BASE + (b - strBytes argv argc.toNat)) 128, USER_VA_SP_BASE + b) ∧
      Block argv f b argc.toNat m m' ∧ m'.word (f + (b + 8 * argc.toNat)) = 0 := by
  obtain ⟨hnonneg, hsum⟩ := hfits
  obtain ⟨n, rfl⟩ := Int.eq_ofNat_of_zero_le hnonneg
  simp only [Int.toNat_natCast] at hsum ⊢
  obtain ⟨b, hb⟩ : ∃ b, b + 8 * (n + 1) = PAGE_SIZE := ⟨PAGE_SIZE - 8 * (n + 1), by omega⟩
  have hb8 : b % 8 = 0 := by
    simp only [PAGE_SIZE] at hb
    omega
  have hle : strBytes argv n ≤ b := by omega
  have hadd : addInt (n : ℤ) 1 = some ((n + 1 : ℕ) : ℤ) := by
    simp only [PAGE_SIZE] at hb
    exact addInt_natCast_one (by omega)
  obtain ⟨c, hc, h⟩ := foldlM_pushArg hf hf' hb8 hle (by omega) (pushed_zero (m := m))
  refine ⟨b, c.mem.storeWord c.kernelArgvPtr 0, hb, hb8, hle, ?_, ?_, ?_⟩
  · simp only [setUserStack, hadd, Int.toNat_natCast, Option.bind_eq_bind, Option.bind_some,
      firstCursor_eq hf' hb, hc, h.userSpUva]
  · rw [h.kernelArgvPtr]
    exact h.block.storeWord hf hb8 hle (by omega) 0
  · rw [h.kernelArgvPtr, word_storeWord_self rfl]

end Page

/-! ## What the process finds -/

namespace System

/-- A register of the process in its trapframe. -/
def trapReg (t : System) (p : Pcb) (i : ℕ) : ℕ := t.mm.word (regAddr (t.kernelSp p) i)

/-- The array at `a1` with the pointers `ptr`, the strings they point to, and the stack. -/
structure ArgBlock (t : System) (p : Pcb) (argc : ℤ) (argv : ℕ → List UInt8) (ptr : ℕ → ℕ) :
    Prop where
  a0 : (t.trapReg p 10 : ℤ) = argc
  aligned : t.trapReg p 11 % 8 = 0
  pointer : ∀ i : ℕ, i < argc →
    t.mm.userWord (t.trapReg p 11 + 8 * i) (t.kernel.pgdir p) = some (ptr i)
  null : t.mm.userWord (t.trapReg p 11 + 8 * argc.toNat) (t.kernel.pgdir p) = some 0
  string : ∀ i : ℕ, i < argc → ∀ j ≤ (argv i).length,
    t.mm.userByte (ptr i + j) (t.kernel.pgdir p) = some (charAt (argv i) j)
  /-- The array ends in the page, and the strings are below it, one below the other. -/
  arrayEnd : t.trapReg p 11 + 8 * (argc + 1) ≤ USER_VA_SP
  below : ∀ i : ℕ, i < argc → ptr i + (argv i).length + 1 ≤ t.trapReg p 11
  disjoint : ∀ i k : ℕ, i < k → k < argc → ptr k + (argv k).length + 1 ≤ ptr i
  /-- The stack begins below all of them, in the page. -/
  sp : t.trapReg p 2 % 128 = 0 ∧ USER_VA_SP_BASE ≤ t.trapReg p 2
  spArray : t.trapReg p 2 ≤ t.trapReg p 11
  spStrings : ∀ i : ℕ, i < argc → t.trapReg p 2 ≤ ptr i

variable {A : Prop} {spaces : Finset ℕ} {s t u : System} {current p : Pcb} {i : Slot}
  {name : List UInt8} {argc r : ℤ} {argv : ℕ → List UInt8} {role : ℕ → Role} {e f k : ℕ}
  {q : Queue → List Pfn}

/-- The stores of `do_exec` to the trapframe. -/
def setTrapframe (m : Memory) (trapframe sp argc argvBase : ℕ) : Memory :=
  ((m.storeWord (regAddr trapframe 2) sp).storeWord (regAddr trapframe 10) argc).storeWord
    (regAddr trapframe 11) argvBase

lemma doExec_cases (h : s.doExec current name argc argv = some (r, t)) :
    s.createPcb name = some (none, t) ∧ r = 0 ∨
      ∃ i u m sp base, s.createPcb name = some (some i, u) ∧
        setUserStack u.mm.toMemory (u.userSp (.slot i)) argc argv = some (m, sp, base) ∧
        r = u.kernel.pid (.slot i) ∧ t.kernel = u.kernel ∧ t.kernelSp = u.kernelSp ∧
        t.mm.toMemory = setTrapframe m (u.kernelSp (.slot i)) sp (argc % 2 ^ 64).toNat base := by
  simp only [doExec, Option.bind_eq_bind, Option.bind_eq_some_iff] at h
  obtain ⟨⟨p, u⟩, hu, h⟩ := h
  cases p with
  | none =>
    rw [Option.some.injEq, Prod.mk.injEq] at h
    obtain ⟨rfl, rfl⟩ := h
    exact Or.inl ⟨hu, rfl⟩
  | some i =>
    obtain ⟨⟨m, sp, base⟩, hm, h⟩ := Option.bind_eq_some_iff.1 h
    rw [Option.some.injEq, Prod.mk.injEq] at h
    obtain ⟨rfl, rfl⟩ := h
    exact Or.inr ⟨i, u, m, sp, base, hu, hm, rfl, rfl, rfl, rfl⟩

section Trapframe

variable {m : Memory} {s a b x : ℕ}

lemma setTrapframe_mem (hk : k % PAGE_SIZE = 0) (hf : f ≠ k) :
    (setTrapframe m (k + 3808) s a b).mem f = m.mem f := by
  simp only [setTrapframe, regAddr, Nat.add_assoc]
  rw [storeWord_mem hk (by decide) hf, storeWord_mem hk (by decide) hf,
    storeWord_mem hk (by decide) hf]

lemma word_setTrapframe :
    (setTrapframe m x s a b).word (regAddr x 2) = s ∧
      (setTrapframe m x s a b).word (regAddr x 10) = a ∧
      (setTrapframe m x s a b).word (regAddr x 11) = b := by
  simp only [setTrapframe, regAddr]
  refine ⟨?_, ?_, word_storeWord_self rfl⟩
  · rw [word_storeWord_of_ne (by omega), word_storeWord_of_ne (by omega), word_storeWord_self rfl]
  · rw [word_storeWord_of_ne (by omega), word_storeWord_self rfl]

end Trapframe

/-- An address in the page of the stack. -/
lemma vpns_stack {x : ℕ} (hx : x < PAGE_SIZE) :
    vpns (USER_VA_SP_BASE + x) = vpns USER_VA_SP_BASE ∧ (USER_VA_SP_BASE + x) % PAGE_SIZE = x := by
  simp only [PAGE_SIZE] at hx
  refine ⟨(vpns_eq_iff (by decide) ?_).2 ?_, ?_⟩ <;> simp only [USER_VA_SP_BASE, PAGE_SIZE] <;> omega

/-- What the process reads in the page of its stack. -/
lemma user_stack {m : Memory} {pgdir x : ℕ}
    (hleaf : m.leaf pgdir (vpns USER_VA_SP_BASE) = entry f STACK_ATTRIBUTES) (hf : IsFrame f)
    (hne : f ≠ KERNEL_VM_OFFSET) (hx : x < PAGE_SIZE) :
    m.userByte (USER_VA_SP_BASE + x) pgdir = some (m.byte (f + x)) ∧
      m.userWord (USER_VA_SP_BASE + x) pgdir = some (m.word (f + x)) := by
  obtain ⟨hvpns, hoffset⟩ := vpns_stack hx
  rw [← hvpns] at hleaf
  rw [userByte_of_leaf hleaf hf hne (by decide) (by decide) (by decide) (by decide),
    userWord_of_leaf hleaf hf hne (by decide) (by decide) (by decide) (by decide), hoffset]
  exact ⟨rfl, rfl⟩

/-- The pointer to string `i`, for an array that begins at `b` in the page. -/
def argPtr (argv : ℕ → List UInt8) (b i : ℕ) : ℕ := USER_VA_SP_BASE + (b - strBytes argv (i + 1))

/-- Writing to the two stacks leaves what the process reads in its own. -/
lemma reads_stack (h : HasStacks A spaces u p role e q f k) {m m' : Memory}
    (hlist : m.freememList = u.mm.freememList) (hmem : ∀ g, g ≠ f → m.mem g = u.mm.mem g)
    (hlist' : m'.freememList = m.freememList) (hmem' : ∀ g, g ≠ k → m'.mem g = m.mem g)
    {x : ℕ} (hx : x < PAGE_SIZE) :
    m'.userByte (USER_VA_SP_BASE + x) (u.kernel.pgdir p) = some (m.byte (f + x)) ∧
      m'.userWord (USER_VA_SP_BASE + x) (u.kernel.pgdir p) = some (m.word (f + x)) := by
  obtain ⟨hframe, hne⟩ := h.managed.spaces.isFrame (Or.inl h.page)
  have ho : Own (vpn2 USER_VA_SP_BASE) := own_vpn2 (by decide)
  have hkernel : k ≠ PGDIR_VA := by
    rintro rfl
    exact absurd h.isPage.2 (by decide)
  obtain ⟨h₁, hleaf₁⟩ := h.managed.write (Or.inl h.page) hlist hmem
  obtain ⟨-, hleaf₂⟩ := h₁.write (Or.inr ⟨h.kernel, hkernel⟩) hlist' hmem'
  have hleaf : m'.leaf (u.kernel.pgdir p) (vpns USER_VA_SP_BASE) = entry f STACK_ATTRIBUTES := by
    rw [hleaf₂ _ h.pgdir _ ho]
    exact (hleaf₁ _ h.pgdir _ ho).trans h.leaf
  have hpage : m'.mem (pageOf (f + x)) = m.mem (pageOf (f + x)) := by
    rw [pageOf_add hframe.1 hx, hmem' f h.ne]
  obtain ⟨hbyte, hword⟩ := user_stack hleaf hframe hne hx
  rw [hbyte, hword, byte_congr hpage, word_congr hpage]
  exact ⟨rfl, rfl⟩

/-- Setting the user stack up and then the trapframe. -/
lemma argBlock (h : HasStacks A spaces u p role e q f k) (hfits : Fits argc argv)
    {m : Memory} {sp base : ℕ}
    (hm : setUserStack u.mm.toMemory (u.userSp p) argc argv = some (m, sp, base))
    (ht : t.mm.toMemory = setTrapframe m (u.kernelSp p) sp (argc % 2 ^ 64).toNat base)
    (hsp : t.kernelSp = u.kernelSp) (hkernel : t.kernel = u.kernel) :
    ∃ ptr, t.ArgBlock p argc argv ptr := by
  rw [h.userSp] at hm
  obtain ⟨b, m', hb, hb8, hle, hset, hblock, hnull⟩ :=
    setUserStack_spec (m := u.mm.toMemory) h.frame.1 h.frame_lt hfits
  rw [hset, Option.some.injEq, Prod.mk.injEq, Prod.mk.injEq] at hm
  obtain ⟨rfl, rfl, rfl⟩ := hm
  have hreads : ∀ x < PAGE_SIZE,
      t.mm.userByte (USER_VA_SP_BASE + x) (t.kernel.pgdir p) = some (m'.byte (f + x)) ∧
      t.mm.userWord (USER_VA_SP_BASE + x) (t.kernel.pgdir p) = some (m'.word (f + x)) := by
    intro x hx
    rw [hkernel, ht, h.kernelSp]
    refine reads_stack h hblock.list hblock.other ?_ (fun g hg => ?_) hx
    · rfl
    · exact setTrapframe_mem h.isPage.1 hg
  obtain ⟨hr₂, hr₁₀, hr₁₁⟩ := word_setTrapframe (m := m') (x := u.kernelSp p)
    (s := roundDown (USER_VA_SP_BASE + (b - strBytes argv argc.toNat)) 128)
    (a := (argc % 2 ^ 64).toNat) (b := USER_VA_SP_BASE + b)
  have hnonneg := hfits.1
  have hargc : ((argc % 2 ^ 64).toNat : ℤ) = argc := by
    simp only [PAGE_SIZE] at hb
    omega
  have h₂ : t.trapReg p 2 =
      (USER_VA_SP_BASE + (b - strBytes argv argc.toNat)) / 128 * 128 := by
    rw [trapReg, hsp, ht, hr₂]
    refine and_highMask (k := 7) ?_ (by decide)
    simp only [PAGE_SIZE] at hb
    simp only [USER_VA_SP_BASE]
    omega
  have h₁₀ : (t.trapReg p 10 : ℤ) = argc := by
    rw [trapReg, hsp, ht, hr₁₀, hargc]
  have h₁₁ : t.trapReg p 11 = USER_VA_SP_BASE + b := by
    rw [trapReg, hsp, ht, hr₁₁]
  have hlen : ∀ i, strBytes argv (i + 1) = strBytes argv i + ((argv i).length + 1) :=
    strBytes_succ argv
  have hmono : ∀ {i : ℕ}, (i : ℤ) < argc → strBytes argv (i + 1) ≤ strBytes argv argc.toNat :=
    fun hi => strBytes_mono (by omega)
  refine ⟨argPtr argv b, h₁₀, ?_, fun i hi => ?_, ?_, fun i hi j hj => ?_, ?_, fun i hi => ?_,
    fun i k hik hk => ?_, ⟨?_, ?_⟩, ?_, fun i hi => ?_⟩
  · rw [h₁₁]
    simp only [USER_VA_SP_BASE]
    omega
  · rw [h₁₁, Nat.add_assoc, (hreads _ (by omega)).2, hblock.pointers i (by omega), argPtr]
  · rw [h₁₁, Nat.add_assoc, (hreads _ (by omega)).2, hnull]
  · have := hlen i
    have := hmono hi
    rw [argPtr, Nat.add_assoc, (hreads _ (by omega)).1, ← Nat.add_assoc,
      hblock.strings i (by omega) j hj]
  · rw [h₁₁]
    simp only [USER_VA_SP, USER_VA_SP_BASE, PAGE_SIZE] at hb ⊢
    omega
  · have := hlen i
    have := hmono hi
    rw [h₁₁, argPtr]
    omega
  · have := hlen k
    have := hmono hk
    have : strBytes argv (i + 1) ≤ strBytes argv k := strBytes_mono hik
    simp only [argPtr]
    omega
  · rw [h₂]
    exact Nat.mul_mod_left _ _
  · rw [h₂]
    simp only [USER_VA_SP_BASE]
    omega
  · rw [h₂, h₁₁]
    omega
  · have := hmono hi
    rw [h₂, argPtr]
    omega

end System

/-- In every run in which no process passes or touches an address of the kernel or of a
device, a new process finds its arguments, whenever they fit the page of its stack. -/
theorem System.doExec_arguments (m : Memory) (kernel io : ℕ) (sd : ℕ → Fin 64 → ℕ) (startid : ℤ)
    (es : List ShareEvent) (hes : ∀ ev ∈ es, ev.UserAddress) :
    Trace.Always Sharing.step (fun x => ∀ s : System, s.mm = x.state →
      (∀ k, -2 ^ 31 ≤ (s.info.tasks k).filesz) → ∀ current name argc argv, Fits argc argv →
      ∀ r t, s.doExec current name argc argv = some (r, t) → r ≠ 0 →
      ∃ i ptr, s.kernel.findUnusedPcb = some i ∧ t.kernel.pid (.slot i) = r ∧
        t.ArgBlock (.slot i) argc argv ptr)
      (Sharing.boot m kernel io sd startid) es := by
  refine (Sharing.always_inv True m kernel io sd startid fun ev hev =>
    ⟨hes ev hev, Or.inl trivial⟩).mono ?_
  rintro x ⟨role, e, q, h⟩ s hmm hfile current name argc argv hfits r t hexec hr
  have hmanaged : Managed True x.spaces s.mm role e q := hmm ▸ ⟨h.spaces, h.book, h.swapped⟩
  rcases doExec_cases hexec with
    ⟨-, rfl⟩ | ⟨i, u, m, sp, base, hcreate, hset, rfl, hkernel, hsp, hmem⟩
  · exact absurd rfl hr
  · obtain ⟨hi, -, role', e', q', f, k, hstacks, -⟩ := createPcb_hasStacks hmanaged hfile hcreate
    obtain ⟨ptr, hblock⟩ := argBlock hstacks hfits hset hmem hsp hkernel
    exact ⟨i, ptr, hi, by rw [hkernel], hblock⟩

/-- The system after boot, with a task whose file is one page. -/
def System.bootPage : System := { bootOne with
  info := ⟨1, 1, 10, fun k => if k = 0 then ⟨[115, 104], 8, 4096, 4096⟩ else ⟨[], 0, 0, 0⟩⟩ }

lemma System.bootPage_filesz (k : ℕ) : -2 ^ 31 ≤ (bootPage.info.tasks k).filesz := by
  by_cases hk : k = 0
  · subst hk
    decide
  · simp only [bootPage, if_neg hk]
    decide

/-- The exec of that task with two arguments. -/
theorem System.doExec_arguments_two : ∃ t i ptr,
    bootPage.doExec (.slot 0) [115, 104] 2 (fun i => if i = 0 then [108, 115] else [47]) =
      some (2, t) ∧
    t.ArgBlock (.slot i) 2 (fun i => if i = 0 then [108, 115] else [47]) ptr := by
  have hret : ((bootPage.doExec (.slot 0) [115, 104] 2 fun i =>
      if i = 0 then [108, 115] else [47]).map Prod.fst) = some 2 := by
    decide +kernel
  obtain ⟨⟨r, t⟩, ht, hr⟩ := Option.map_eq_some_iff.1 hret
  change r = 2 at hr
  subst hr
  have hfits : Fits 2 fun i => if i = 0 then [108, 115] else [47] := ⟨by decide, by decide⟩
  have hrun : Trace.run Sharing.step (Sharing.boot ⟨fun _ _ => 0, 0⟩ 1 1 (fun _ _ => 0) 100) [] =
      some (Sharing.boot ⟨fun _ _ => 0, 0⟩ 1 1 (fun _ _ => 0) 100) := rfl
  have hlaw := (doExec_arguments ⟨fun _ _ => 0, 0⟩ 1 1 (fun _ _ => 0) 100 []
    fun ev hev => by cases hev).last hrun
  obtain ⟨i, ptr, -, -, hblock⟩ := hlaw bootPage rfl bootPage_filesz _ _ _ _ hfits 2 t ht (by decide)
  exact ⟨t, i, ptr, ht, hblock⟩

end Exec
end UcasKernel
