/-
What `do_exec` writes while it puts the arguments on the stack.

The functions of `Arguments` once more, with a log of the stores.  No length is checked: the
array and the strings go down from the end of the page for as long as there are arguments,
and for a negative `argc` the array begins behind the page.
-/
import UcasKernel.Exec.Arguments
import UcasKernel.Lib.Logged

namespace UcasKernel
namespace Exec

open Mm Memory
open Sched (Kernel Pcb Slot)

/-- A store of `size` bytes. -/
structure Write where
  addr : ℕ
  size : ℕ

/-- A computation with its stores. -/
abbrev WriteLog (α : Type) : Type := Logged Write α

def storeWordW (m : Memory) (addr v : ℕ) : WriteLog Memory :=
  .tell ⟨addr, 8⟩ (some (m.storeWord addr v))

def storeByteW (m : Memory) (addr b : ℕ) : WriteLog Memory :=
  .tell ⟨addr, 1⟩ (some (m.storeByte addr b))

/-- `copyString`. -/
def copyStringW (m : Memory) (dest : ℕ) (str : List UInt8) : ℕ → WriteLog Memory
  | 0 => pure m
  | j + 1 => do
    let m ← copyStringW m dest str j
    storeByteW m (dest + j) (charAt str j)

/-- `pushArg`. -/
def pushArgW (argv : ℕ → List UInt8) (c : ArgCursor) (i : ℕ) : WriteLog ArgCursor := do
  let len ← .of (strlen (argv i))
  let len ← .of (addInt len 1)
  let userSpKva := subPtr c.userSpKva len
  let userSpUva := subPtr c.userSpUva len
  let m ← storeWordW c.mem c.kernelArgvPtr userSpUva
  let m ← copyStringW m userSpKva (argv i) len.toNat
  pure ⟨m, userSpKva, userSpUva, subPtr c.kernelArgvPtr (-8)⟩

/-- `setUserStack`. -/
def setUserStackW (m : Memory) (userSp : ℕ) (argc : ℤ) (argv : ℕ → List UInt8) :
    WriteLog (Memory × ℕ × ℕ) := do
  let args ← .of (addInt argc 1)
  let c := firstCursor m userSp args
  let userArgvBase := c.userSpUva
  let c ← (List.range argc.toNat).foldlM (pushArgW argv) c
  let m ← storeWordW c.mem c.kernelArgvPtr 0
  pure (m, roundDown c.userSpUva 128, userArgvBase)

/-- A store within the page `f`. -/
def InFrame (f : ℕ) (w : Write) : Prop := f ≤ w.addr ∧ w.addr + w.size ≤ f + PAGE_SIZE

/-- The frame of the stack of a process. -/
def System.stackFrame (t : System) (p : Pcb) : ℕ :=
  t.mm.getKvaOfUva USER_VA_SP_BASE (t.kernel.pgdir p)

/-- A new process gets its arguments by stores to the frame of its stack; when there is no
new process, nothing changes. -/
structure System.ArgLaw (s : System) (current : Pcb) (name : List UInt8) (argc : ℤ)
    (argv : ℕ → List UInt8) : Prop where
  inFrame : ∀ i t, s.createPcb name = some (some i, t) → ∃ r,
    Logged.Returns (InFrame (t.stackFrame (.slot i)))
      (setUserStackW t.mm.toMemory (t.userSp (.slot i)) argc argv) r
  fails : ∀ t, s.createPcb name = some (none, t) → s.doExec current name argc argv = some (0, s)

/-! ## Without the log -/

section Result

open Logged

variable {m : Memory} {dest f userSp : ℕ} {str : List UInt8} {argv : ℕ → List UInt8}
  {c : ArgCursor} {argc : ℤ} {P : Write → Prop}

lemma result_copyStringW (n : ℕ) :
    (copyStringW m dest str n).result = some (copyString m dest str n) := by
  induction n with
  | zero => rfl
  | succ n ih => rw [copyStringW, result_bind, ih]; rfl

lemma result_pushArgW (c : ArgCursor) (i : ℕ) : (pushArgW argv c i).result = pushArg argv c i :=
  result_bind_congr rfl fun _ => result_bind_congr rfl fun _ => by
    rw [result_bind, storeWordW, result_tell, Option.bind_some, result_bind, result_copyStringW]
    rfl

lemma result_setUserStackW :
    (setUserStackW m userSp argc argv).result = setUserStack m userSp argc argv :=
  result_bind_congr rfl fun _ => result_bind_congr (result_foldlM result_pushArgW _ _) fun _ => rfl

/-- The stores of a copy. -/
lemma all_copyStringW {n : ℕ} :
    (copyStringW m dest str n).All P ↔ ∀ j < n, P ⟨dest + j, 1⟩ := by
  induction n with
  | zero => exact ⟨fun _ j hj => absurd hj (Nat.not_lt_zero j), fun _ => all_pure m⟩
  | succ n ih =>
    rw [copyStringW, all_bind, ih, result_copyStringW]
    simp only [storeByteW, all_tell, Option.some.injEq, forall_eq']
    constructor
    · rintro ⟨hlt, hn⟩ j hj
      rcases Nat.lt_succ_iff_lt_or_eq.1 hj with hj | rfl
      · exact hlt j hj
      · exact hn
    · intro h
      exact ⟨fun j hj => h j (by omega), h n (by omega)⟩

/-- The stores of one round. -/
lemma all_pushArgW {i : ℕ} {l len : ℤ} (hl : strlen (argv i) = some l) (hlen : addInt l 1 = some len) :
    (pushArgW argv c i).All P ↔
      P ⟨c.kernelArgvPtr, 8⟩ ∧ ∀ j < len.toNat, P ⟨subPtr c.userSpKva len + j, 1⟩ := by
  simp only [pushArgW, hl]
  rw [Logged.All, log_of_bind, hlen, log_of_bind]
  refine (all_bind (P := P)).trans ?_
  simp only [storeWordW, all_tell, result_tell, Option.some.injEq, forall_eq']
  refine and_congr_right fun _ => all_bind.trans ?_
  rw [all_copyStringW]
  exact and_iff_left fun _ _ => all_pure _

/-- What a round that returns has stored. -/
lemma stores_of_returns {i : ℕ} {c' : ArgCursor} (h : Returns P (pushArgW argv c i) c') :
    ∃ l len, strlen (argv i) = some l ∧ addInt l 1 = some len ∧ P ⟨c.kernelArgvPtr, 8⟩ ∧
      ∀ j < len.toNat, P ⟨subPtr c.userSpKva len + j, 1⟩ := by
  obtain ⟨l, hl, h'⟩ := h.of_bind
  obtain ⟨len, hlen, -⟩ := h'.of_bind
  exact ⟨l, len, hl.result, hlen.result, (all_pushArgW hl.result hlen.result).1 h.all⟩

end Result

/-! ## Blocks that fit, and blocks that do not -/

section Stores

open Logged

variable {m m₀ : Memory} {b f n : ℕ} {argv : ℕ → List UInt8} {c : ArgCursor} {argc : ℤ}

/-- The stores of one round are in the page. -/
lemma Pushed.returns (h : Pushed argv f b n m₀ c) (hf : f % PAGE_SIZE = 0)
    (hf' : f + PAGE_SIZE < 2 ^ 64) (hb : b % 8 = 0) (hle : strBytes argv (n + 1) ≤ b)
    (hpage : b + 8 * n + 8 ≤ PAGE_SIZE) :
    ∃ c', Returns (InFrame f) (pushArgW argv c n) c' ∧ Pushed argv f b (n + 1) m₀ c' := by
  have hlen := strBytes_succ argv n
  obtain ⟨hstr, hadd⟩ := strlen_of_le (i := n) (show (argv n).length + 1 ≤ PAGE_SIZE by omega)
  obtain ⟨c', hc', h'⟩ := h.step hf hf' hb hle hpage
  refine ⟨c', ⟨(result_pushArgW c n).trans hc', ?_⟩, h'⟩
  rw [all_pushArgW hstr hadd, h.kernelArgvPtr, h.subPtr_kva hf' hle (by omega), Int.toNat_natCast]
  refine ⟨⟨?_, ?_⟩, fun j hj => ⟨?_, ?_⟩⟩ <;> simp only <;> omega

/-- The loop; before round `k` the rounds from `k` on are left. -/
lemma returns_loop (hf : f % PAGE_SIZE = 0) (hf' : f + PAGE_SIZE < 2 ^ 64) (hb : b % 8 = 0)
    (hle : strBytes argv n ≤ b) (hpage : b + 8 * n ≤ PAGE_SIZE) (h : Pushed argv f b 0 m c) :
    ∃ c', Returns (InFrame f) ((List.range n).foldlM (pushArgW argv) c) c' ∧
      Pushed argv f b n m c' := by
  obtain ⟨c', hloop, k, hk, hk', h'⟩ := Returns.foldlM (P := InFrame f) (g := pushArgW argv)
    (I := fun l c => ∃ k, l = List.range' k (n - k) ∧ k ≤ n ∧ Pushed argv f b k m c)
    (fun i l c ⟨k, hl, hk, h⟩ => by
      obtain ⟨j, hj⟩ : ∃ j, n - k = j + 1 := by
        cases hnk : n - k with
        | zero => rw [hnk] at hl; cases hl
        | succ j => exact ⟨j, rfl⟩
      rw [hj, List.range'_succ, List.cons.injEq] at hl
      obtain ⟨rfl, rfl⟩ := hl
      have hsum : strBytes argv (i + 1) ≤ strBytes argv n := strBytes_mono (by omega)
      obtain ⟨c', hc', h'⟩ := h.returns hf hf' hb (by omega) (by omega)
      exact ⟨c', hc', i + 1, by rw [show n - (i + 1) = j by omega], by omega, h'⟩)
    (List.range n) c ⟨0, List.range_eq_range', Nat.zero_le n, h⟩
  have hlength := congrArg List.length hk
  rw [List.length_nil, List.length_range'] at hlength
  obtain rfl : k = n := by omega
  exact ⟨c', hloop, h'⟩

/-- A block that fits is stored in the page. -/
lemma returns_of_fits (hf : f % PAGE_SIZE = 0) (hf' : f + PAGE_SIZE < 2 ^ 64)
    (hfits : Fits argc argv) :
    ∃ r, Returns (InFrame f) (setUserStackW m (f + PAGE_SIZE) argc argv) r := by
  obtain ⟨hnonneg, hsum⟩ := hfits
  obtain ⟨n, rfl⟩ := Int.eq_ofNat_of_zero_le hnonneg
  rw [Int.toNat_natCast] at hsum
  obtain ⟨b, hb⟩ : ∃ b, b + 8 * (n + 1) = PAGE_SIZE := ⟨PAGE_SIZE - 8 * (n + 1), by omega⟩
  have hb8 : b % 8 = 0 := by
    simp only [PAGE_SIZE] at hb
    omega
  have hadd : addInt (n : ℤ) 1 = some ((n + 1 : ℕ) : ℤ) := by
    simp only [PAGE_SIZE] at hb
    exact addInt_natCast_one (by omega)
  obtain ⟨c, hloop, h⟩ := returns_loop hf hf' hb8 (show strBytes argv n ≤ b by omega) (by omega)
    (pushed_zero (m := m))
  have hstore : Returns (InFrame f) (storeWordW c.mem c.kernelArgvPtr 0)
      (c.mem.storeWord c.kernelArgvPtr 0) := by
    refine returns_tell rfl ?_
    rw [h.kernelArgvPtr]
    constructor <;> simp only <;> omega
  refine ⟨(c.mem.storeWord c.kernelArgvPtr 0, roundDown c.userSpUva 128, USER_VA_SP_BASE + b),
    (returns_of hadd).bind ?_⟩
  rw [firstCursor_eq hf' hb, Int.toNat_natCast]
  exact hloop.bind (hstore.bind (returns_pure _))

/-- What round `k` of a loop that returns has stored. -/
lemma stores_of_loop {P : Write → Prop} {c' ck : ArgCursor} {k : ℕ} (hk : k < n)
    (h : Returns P ((List.range n).foldlM (pushArgW argv) c) c')
    (hck : (List.range k).foldlM (pushArg argv) c = some ck) :
    ∃ l len, strlen (argv k) = some l ∧ addInt l 1 = some len ∧ P ⟨ck.kernelArgvPtr, 8⟩ ∧
      ∀ j < len.toNat, P ⟨subPtr ck.userSpKva len + j, 1⟩ := by
  have hsplit : List.range n = List.range k ++ k :: List.range' (k + 1) (n - k - 1) := by
    have happend := List.range'_append_1 (s := 0) (m := k) (n := n - k - 1 + 1)
    rw [Nat.zero_add, show k + (n - k - 1 + 1) = n by omega] at happend
    rw [List.range_eq_range', List.range_eq_range', ← happend, List.range'_succ]
  rw [hsplit] at h
  obtain ⟨c'', hc''⟩ := h.foldlM_round ((result_foldlM result_pushArgW _ _).trans hck)
  exact stores_of_returns hc''

/-- A block that is stored in the page fits. -/
lemma fits_of_returns (hf : f % PAGE_SIZE = 0) (hlow : FREEMEM_KERNEL ≤ f)
    (hhigh : f < FREEMEM_KERNEL_STOP) {r : Memory × ℕ × ℕ}
    (h : Returns (InFrame f) (setUserStackW m (f + PAGE_SIZE) argc argv) r) : Fits argc argv := by
  obtain ⟨args, hargs, h⟩ := h.of_bind
  obtain ⟨c, hloop, h⟩ := h.of_bind
  obtain ⟨m', hstore, -⟩ := h.of_bind
  have hint : -2 ^ 31 ≤ args ∧ args < 2 ^ 31 ∧ args = argc + 1 := by
    have := hargs.result
    simp only [result_of, addInt, Option.ite_none_right_eq_some, Option.some.injEq] at this
    omega
  obtain ⟨hmin, hmax, rfl⟩ := hint
  simp only [FREEMEM_KERNEL] at hlow
  simp only [FREEMEM_KERNEL_STOP] at hhigh
  rcases lt_or_ge argc 0 with hneg | hnonneg
  · -- the end of the array is stored behind the page
    have hzero : argc.toNat = 0 := by omega
    rw [hzero] at hloop
    obtain rfl : firstCursor m (f + PAGE_SIZE) (argc + 1) = c := Option.some.inj hloop.result
    obtain ⟨-, hend⟩ := all_tell.1 hstore.all
    simp only [firstCursor, subPtr, PAGE_SIZE] at hend
    omega
  obtain ⟨n, rfl⟩ := Int.eq_ofNat_of_zero_le hnonneg
  rw [Int.toNat_natCast] at hloop
  have hroom : 8 * (n + 1) ≤ PAGE_SIZE := by
    by_contra hlarge
    simp only [PAGE_SIZE] at hlarge
    obtain ⟨-, -, -, -, ⟨hbegin, -⟩, -⟩ := stores_of_loop (k := 0) (by omega) hloop rfl
    simp only [firstCursor, subPtr, PAGE_SIZE] at hbegin
    omega
  obtain ⟨b, hb⟩ : ∃ b, b + 8 * (n + 1) = PAGE_SIZE := ⟨PAGE_SIZE - 8 * (n + 1), by omega⟩
  have hb8 : b % 8 = 0 := by
    simp only [PAGE_SIZE] at hb
    omega
  have hf' : f + PAGE_SIZE < 2 ^ 64 := by
    simp only [PAGE_SIZE]
    omega
  have hfirst : firstCursor m (f + PAGE_SIZE) ((n : ℤ) + 1) =
      ⟨m, f + b, USER_VA_SP_BASE + b, f + b⟩ := by
    have := firstCursor_eq (m := m) hf' hb
    rwa [Nat.cast_add, Nat.cast_one] at this
  simp only [hfirst] at hloop
  -- no string begins below the page
  have hsum : ∀ k ≤ n, strBytes argv k ≤ b := by
    intro k hk
    induction k with
    | zero => exact Nat.zero_le b
    | succ k ih =>
      have hle := ih (by omega)
      obtain ⟨ck, hck, hpushed⟩ := foldlM_pushArg hf hf' hb8 hle (by omega) (pushed_zero (m := m))
      obtain ⟨l, len, hl, hlen, -, hstr⟩ := stores_of_loop (by omega) hloop hck
      have hlength := strBytes_succ argv k
      rw [strlen, Option.ite_none_right_eq_some, Option.some.injEq] at hl
      obtain ⟨hshort, rfl⟩ := hl
      obtain rfl := State.addInt_eq_some hlen
      obtain ⟨hbegin, -⟩ := hstr 0 (by omega)
      simp only [hpushed.userSpKva, subPtr] at hbegin
      simp only [PAGE_SIZE] at hb
      omega
  refine ⟨hnonneg, ?_⟩
  have := hsum n le_rfl
  rw [Int.toNat_natCast]
  omega

end Stores

namespace System

variable {A : Prop} {spaces : Finset ℕ} {s t : System} {current p : Pcb} {name : List UInt8}
  {argc : ℤ} {argv : ℕ → List UInt8} {role : ℕ → Role} {e f k : ℕ} {q : Queue → List Pfn}

lemma stackFrame_eq (h : HasStacks A spaces t p role e q f k) : t.stackFrame p = f := by
  obtain ⟨hframe, hne⟩ := h.managed.spaces.isFrame (Or.inl h.page)
  exact getKvaOfUva_of_leaf h.leaf hframe hne (by decide)

lemma argLaw_iff (h : Managed A spaces s.mm role e q)
    (hfile : ∀ k, -2 ^ 31 ≤ (s.info.tasks k).filesz) :
    s.ArgLaw current name argc argv ↔ s.createPcb name = none ∨ ¬ s.FreePcb ∨
      (∀ i < NUM_MAX_TASK, (s.info.tasks i).name ≠ name) ∨ Fits argc argv := by
  have hfails : ∀ t, s.createPcb name = some (none, t) →
      s.doExec current name argc argv = some (0, s) := by
    intro t ht
    obtain ⟨rfl, -⟩ := createPcb_eq_null ht
    simp only [doExec, ht, Option.bind_eq_bind, Option.bind_some]
  rw [← findUnusedPcb_eq_none, ← findName_eq_none]
  constructor
  · intro hlaw
    cases hcreate : s.createPcb name with
    | none => exact Or.inl rfl
    | some r =>
      obtain ⟨i, t⟩ := r
      right
      cases i with
      | none => exact (createPcb_eq_null hcreate).2.imp_right Or.inl
      | some i =>
        obtain ⟨-, -, role', e', q', f, k, hstacks, -⟩ := createPcb_hasStacks h hfile hcreate
        obtain ⟨r, hr⟩ := hlaw.inFrame i t hcreate
        rw [stackFrame_eq hstacks, hstacks.userSp] at hr
        exact Or.inr (Or.inr (fits_of_returns hstacks.frame.1 hstacks.le hstacks.lt_stop hr))
  · intro hcond
    refine ⟨fun i t hcreate => ?_, hfails⟩
    obtain ⟨hi, -, role', e', q', f, k, hstacks, -⟩ := createPcb_hasStacks h hfile hcreate
    rcases hcond with hnone | hfree | hname | hfits
    · rw [hnone] at hcreate
      cases hcreate
    · rw [hfree] at hi
      cases hi
    · simp only [createPcb, hi, hname] at hcreate
      cases hcreate
    · rw [stackFrame_eq hstacks, hstacks.userSp]
      exact returns_of_fits hstacks.frame.1 hstacks.frame_lt hfits

end System

/-- In every run in which no process passes or touches an address of the kernel or of a
device, the arguments stay inside the page of the stack exactly when there is no new
process, or the array and the strings fit the page. -/
theorem System.doExec_inFrame_iff (m : Memory) (kernel io : ℕ) (sd : ℕ → Fin 64 → ℕ) (startid : ℤ)
    (es : List ShareEvent) (hes : ∀ ev ∈ es, ev.UserAddress) :
    Trace.Always Sharing.step (fun x => ∀ s : System, s.mm = x.state →
      (∀ k, -2 ^ 31 ≤ (s.info.tasks k).filesz) → ∀ current name argc argv,
      (s.ArgLaw current name argc argv ↔ s.createPcb name = none ∨ ¬ s.FreePcb ∨
        (∀ i < NUM_MAX_TASK, (s.info.tasks i).name ≠ name) ∨ Fits argc argv))
      (Sharing.boot m kernel io sd startid) es := by
  refine (Sharing.always_inv True m kernel io sd startid fun ev hev =>
    ⟨hes ev hev, Or.inl trivial⟩).mono ?_
  rintro x ⟨role, e, q, h⟩ s hmm hfile current name argc argv
  have hmanaged : Managed True x.spaces s.mm role e q := hmm ▸ ⟨h.spaces, h.book, h.swapped⟩
  exact argLaw_iff hmanaged hfile

/-- Two arguments. -/
theorem System.doExec_inFrame_iff_two :
    bootPage.ArgLaw (.slot 0) [115, 104] 2 fun i => if i = 0 then [108, 115] else [47] := by
  have hrun : Trace.run Sharing.step (Sharing.boot ⟨fun _ _ => 0, 0⟩ 1 1 (fun _ _ => 0) 100) [] =
      some (Sharing.boot ⟨fun _ _ => 0, 0⟩ 1 1 (fun _ _ => 0) 100) := rfl
  have hlaw := (doExec_inFrame_iff ⟨fun _ _ => 0, 0⟩ 1 1 (fun _ _ => 0) 100 []
    fun ev hev => by cases hev).last hrun
  exact (hlaw bootPage rfl bootPage_filesz (.slot 0) _ _ _).2
    (Or.inr (Or.inr (Or.inr ⟨by decide, by decide⟩)))

/-- One argument of 4096 characters. -/
theorem System.long_argument_leaves_frame :
    ¬ bootPage.ArgLaw (.slot 0) [115, 104] 1 fun _ => List.replicate 4096 97 := by
  obtain ⟨role, q, h⟩ := Sharing.inv_boot True ⟨fun _ _ => 0, 0⟩ 1 1 (fun _ _ => 0) 100
  have hmanaged : Managed True ∅ bootPage.mm role FREEMEM_KERNEL q := ⟨h.spaces, h.book, h.swapped⟩
  have hcreate : (bootPage.createPcb [115, 104]).isSome := by decide +kernel
  rw [argLaw_iff hmanaged bootPage_filesz]
  rintro (hnone | hfree | hname | ⟨-, hfits⟩)
  · rw [hnone] at hcreate
    cases hcreate
  · exact hfree ⟨1, by decide⟩
  · exact hname 0 (by decide) rfl
  · rw [Int.toNat_one, strBytes_succ, List.length_replicate] at hfits
    simp only [PAGE_SIZE] at hfits
    omega

end Exec
end UcasKernel
