/-
Byte memory with little-endian integers.

A buffer is a function from offsets to bytes; which offsets belong to a C object
is checked by the code that uses it.  Integers of `n` bytes are read by `getLE`
and written by `setLE`, and `blit` is the effect of `memcpy`.  All three are
given pointwise, so that a read after a write is decided by comparing the two
ranges.
-/
import Mathlib.Data.List.Range
import Mathlib.Data.Nat.Bits
import Mathlib.Tactic.Ring
import Mathlib.Tactic.Linarith

namespace UcasKernel

/-- The bytes of a memory region, by offset. -/
abbrev Bytes : Type := ℕ → UInt8

namespace Bytes

/-- The region `memset` to zero. -/
def zero : Bytes := fun _ => 0

/-- `memcpy` of `n` bytes from offset `s` of `src` to offset `d` of `dst`. -/
def blit (dst : Bytes) (d : ℕ) (src : Bytes) (s n : ℕ) : Bytes :=
  fun x => if d ≤ x ∧ x < d + n then src (s + (x - d)) else dst x

/-- The unsigned integer stored in `n` bytes at offset `a`. -/
def getLE (b : Bytes) : ℕ → ℕ → ℕ
  | 0, _ => 0
  | n + 1, a => (b a).toNat + 256 * getLE b n (a + 1)

/-- Store the low `n` bytes of `v` at offset `a`. -/
def setLE (b : Bytes) (n a v : ℕ) : Bytes :=
  fun x => if a ≤ x ∧ x < a + n then UInt8.ofNat (v / 256 ^ (x - a)) else b x

@[simp] lemma zero_apply (x : ℕ) : zero x = 0 := rfl

lemma blit_apply_of_mem {dst src : Bytes} {d s n x : ℕ} (h : d ≤ x ∧ x < d + n) :
    blit dst d src s n x = src (s + (x - d)) := if_pos h

lemma blit_apply_of_notMem {dst src : Bytes} {d s n x : ℕ} (h : x < d ∨ d + n ≤ x) :
    blit dst d src s n x = dst x := if_neg (by omega)

lemma setLE_apply_of_notMem {b : Bytes} {n a v x : ℕ} (h : x < a ∨ a + n ≤ x) :
    setLE b n a v x = b x := if_neg (by omega)

lemma getLE_congr {b c : Bytes} {n a a' : ℕ} (h : ∀ i < n, b (a + i) = c (a' + i)) :
    getLE b n a = getLE c n a' := by
  induction n generalizing a a' with
  | zero => rfl
  | succ n ih =>
    have h0 : b a = c a' := h 0 (by omega)
    have hrest : getLE b n (a + 1) = getLE c n (a' + 1) := by
      refine ih fun i hi => ?_
      have := h (i + 1) (by omega)
      rwa [show a + (i + 1) = a + 1 + i by omega, show a' + (i + 1) = a' + 1 + i by omega] at this
    rw [getLE, getLE, h0, hrest]

lemma getLE_lt (b : Bytes) (n a : ℕ) : getLE b n a < 256 ^ n := by
  induction n generalizing a with
  | zero => simp [getLE]
  | succ n ih =>
    have h1 : (b a).toNat < 256 := (b a).toNat_lt
    have h2 := ih (a + 1)
    rw [getLE, pow_succ]
    omega

lemma getLE_zero (n a : ℕ) : getLE zero n a = 0 := by
  induction n generalizing a with
  | zero => rfl
  | succ n ih => rw [getLE, ih]; rfl

private lemma getLE_digits {b : Bytes} {n a v : ℕ}
    (h : ∀ i < n, b (a + i) = UInt8.ofNat (v / 256 ^ i)) : getLE b n a = v % 256 ^ n := by
  induction n generalizing a v with
  | zero => simp [getLE, Nat.mod_one]
  | succ n ih =>
    have h0 : (b a).toNat = v % 256 := by
      rw [show b a = UInt8.ofNat (v / 256 ^ 0) from h 0 (by omega)]
      simp
    have hrest : getLE b n (a + 1) = v / 256 % 256 ^ n := by
      refine ih fun i hi => ?_
      rw [show a + 1 + i = a + (i + 1) by omega, h (i + 1) (by omega), Nat.div_div_eq_div_mul,
        ← Nat.pow_succ']
    rw [getLE, h0, hrest, Nat.pow_succ', Nat.mod_mul]

/-- A read of what was written returns the low bytes of the value. -/
lemma getLE_setLE (b : Bytes) (n a v : ℕ) : getLE (setLE b n a v) n a = v % 256 ^ n := by
  refine getLE_digits fun i hi => ?_
  rw [setLE, if_pos (by omega), Nat.add_sub_cancel_left]

/-- A read of a range disjoint from the one written is unchanged. -/
lemma getLE_setLE_of_disjoint {b : Bytes} {n a v m c : ℕ} (h : c + m ≤ a ∨ a + n ≤ c) :
    getLE (setLE b n a v) m c = getLE b m c :=
  getLE_congr fun i hi => setLE_apply_of_notMem (by omega)

/-- A stored integer that is stored again. -/
lemma setLE_getLE (b : Bytes) (n a : ℕ) : setLE b n a (getLE b n a) = b := by
  have hdigit : ∀ i < n, UInt8.ofNat (getLE b n a / 256 ^ i) = b (a + i) := by
    induction n generalizing a with
    | zero => intro i hi; omega
    | succ n ih =>
      intro i hi
      have hlt : (b a).toNat < 256 := (b a).toNat_lt
      obtain ⟨v, hv⟩ : ∃ v, getLE b n (a + 1) = v := ⟨_, rfl⟩
      rw [getLE, hv]
      cases i with
      | zero =>
        rw [pow_zero, Nat.div_one, Nat.add_zero]
        refine UInt8.toNat_inj.1 ?_
        rw [UInt8.toNat_ofNat', Nat.add_mul_mod_self_left, Nat.mod_eq_of_lt hlt]
      | succ i =>
        have hdiv : ((b a).toNat + 256 * v) / 256 = v := by omega
        rw [Nat.pow_succ', ← Nat.div_div_eq_div_mul, hdiv, ← hv, ih (a + 1) i (by omega)]
        congr 1
        omega
  funext x
  by_cases hx : a ≤ x ∧ x < a + n
  · rw [setLE, if_pos hx, hdigit _ (by omega)]
    congr 1
    omega
  · exact setLE_apply_of_notMem (by omega)

lemma getLE_blit {dst src : Bytes} {d s n m c : ℕ} (h : d ≤ c ∧ c + m ≤ d + n) :
    getLE (blit dst d src s n) m c = getLE src m (s + (c - d)) := by
  refine getLE_congr fun i hi => ?_
  rw [blit_apply_of_mem (by omega)]
  congr 1
  omega

lemma getLE_blit_of_disjoint {dst src : Bytes} {d s n m c : ℕ} (h : c + m ≤ d ∨ d + n ≤ c) :
    getLE (blit dst d src s n) m c = getLE dst m c :=
  getLE_congr fun i hi => blit_apply_of_notMem (by omega)

/-! ## The integer types of C -/

/-- `uint16_t`, `uint32_t` and `uint64_t` at an offset. -/
abbrev get16 (b : Bytes) (a : ℕ) : ℕ := getLE b 2 a
abbrev get32 (b : Bytes) (a : ℕ) : ℕ := getLE b 4 a
abbrev get64 (b : Bytes) (a : ℕ) : ℕ := getLE b 8 a
abbrev set16 (b : Bytes) (a v : ℕ) : Bytes := setLE b 2 a v
abbrev set32 (b : Bytes) (a v : ℕ) : Bytes := setLE b 4 a v
abbrev set64 (b : Bytes) (a v : ℕ) : Bytes := setLE b 8 a v

/-- Fill `n` consecutive 32-bit words with `start, start + 1, …`. -/
def fill32 (b : Bytes) (start : ℕ) : ℕ → Bytes
  | 0 => b
  | n + 1 => set32 (fill32 b start n) (4 * n) (start + n)

lemma get32_fill32 (b : Bytes) (start : ℕ) {n k : ℕ} (hk : k < n) (hv : start + n ≤ 2 ^ 32) :
    get32 (fill32 b start n) (4 * k) = start + k := by
  induction n with
  | zero => omega
  | succ n ih =>
    rcases Nat.lt_succ_iff_lt_or_eq.1 hk with h | rfl
    · rw [fill32, get32, getLE_setLE_of_disjoint (by omega)]
      exact ih h (by omega)
    · rw [fill32, get32, getLE_setLE]
      exact Nat.mod_eq_of_lt (by norm_num at hv ⊢; omega)

/-- The numbers behind those that were filled. -/
lemma get32_fill32_of_le (b : Bytes) (start : ℕ) {n k : ℕ} (hk : n ≤ k) :
    get32 (fill32 b start n) (4 * k) = get32 b (4 * k) := by
  induction n with
  | zero => rfl
  | succ n ih =>
    rw [fill32, get32, getLE_setLE_of_disjoint (by omega)]
    exact ih (by omega)

/-! ## Byte strings in memory -/

/-- The `n` bytes from offset `a`. -/
def slice (b : Bytes) (a n : ℕ) : List UInt8 := (List.range n).map fun i => b (a + i)

/-- A region that begins with the given bytes. -/
def ofList (l : List UInt8) : Bytes := fun i => l.getD i 0

@[simp] lemma length_slice (b : Bytes) (a n : ℕ) : (b.slice a n).length = n := by
  simp [slice]

@[simp] lemma slice_zero (b : Bytes) (a : ℕ) : b.slice a 0 = [] := rfl

lemma slice_congr {b c : Bytes} {a a' n : ℕ} (h : ∀ i < n, b (a + i) = c (a' + i)) :
    b.slice a n = c.slice a' n := by
  refine List.map_congr_left fun i hi => h i ?_
  exact List.mem_range.1 hi

lemma slice_add (b : Bytes) (a m n : ℕ) :
    b.slice a (m + n) = b.slice a m ++ b.slice (a + m) n := by
  simp only [slice, List.range_add, List.map_append, List.map_map]
  congr 1
  refine List.map_congr_left fun i _ => ?_
  rw [Function.comp_apply, Nat.add_assoc]

lemma slice_ofList (l : List UInt8) : (ofList l).slice 0 l.length = l := by
  refine List.ext_getElem (length_slice ..) fun i h1 h2 => ?_
  simp [slice, ofList, h2]

/-- `memcpy` puts the source bytes at the target. -/
lemma slice_blit (dst src : Bytes) (d s n : ℕ) : (blit dst d src s n).slice d n = src.slice s n := by
  refine slice_congr fun i hi => ?_
  rw [blit_apply_of_mem (by omega), Nat.add_sub_cancel_left]

lemma slice_blit_of_disjoint {dst src : Bytes} {d s n a m : ℕ} (h : a + m ≤ d ∨ d + n ≤ a) :
    (blit dst d src s n).slice a m = dst.slice a m :=
  slice_congr fun i hi => blit_apply_of_notMem (by omega)

end Bytes

/-- A C `int` from an arbitrary integer: the representative modulo `2 ^ 32` in
`-2 ^ 31 .. 2 ^ 31 - 1`. -/
def toInt32 (x : ℤ) : ℤ := Int.bmod x (2 ^ 32)

lemma toInt32_range (x : ℤ) : -2 ^ 31 ≤ toInt32 x ∧ toInt32 x < 2 ^ 31 := by
  have h1 := Int.le_bmod (x := x) (m := 2 ^ 32) (by decide)
  have h2 := Int.bmod_lt (x := x) (m := 2 ^ 32) (by decide)
  rw [toInt32]
  omega

lemma toInt32_of_range {x : ℤ} (h : -2 ^ 31 ≤ x ∧ x < 2 ^ 31) : toInt32 x = x :=
  Int.bmod_eq_of_le (by omega) (by omega)

lemma toInt32_add (x y : ℤ) : toInt32 (toInt32 x + y) = toInt32 (x + y) := Int.bmod_add_bmod

/-- `1 << k` for a C `int`, converted to `uint64_t`: the RISC-V word shift takes
the low five bits of `k`, and the 32-bit result is sign-extended. -/
def shl1 (k : ℤ) : ℕ :=
  let v := 2 ^ (k % 32).toNat
  if v = 2 ^ 31 then 2 ^ 64 - 2 ^ 31 else v

end UcasKernel
