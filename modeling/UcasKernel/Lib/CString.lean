/-
Strings in memory that end in a zero byte.

`StringAt b a s` says that the bytes of `s`, none of which is zero, stand in the region
`b` from offset `a` on, and that a zero byte stands behind them.  It follows the list, so
that a loop over the string is followed by an induction on it.
-/
import UcasKernel.Lib.Bytes

namespace UcasKernel
namespace Bytes

/-- The string `s` stands at offset `a`. -/
def StringAt (b : Bytes) : ℕ → List UInt8 → Prop
  | a, [] => b a = 0
  | a, c :: s => b a = c ∧ c ≠ 0 ∧ b.StringAt (a + 1) s

variable {b b' : Bytes} {a : ℕ} {s s' : List UInt8} {c : UInt8}

namespace StringAt

lemma head (h : b.StringAt a s) : b a = s.headD 0 := by
  cases s with
  | nil => exact h
  | cons c s => exact h.1

lemma ne_zero (h : b.StringAt a s) (hc : c ∈ s) : c ≠ 0 := by
  induction s generalizing a with
  | nil => cases hc
  | cons d s ih =>
    rcases List.mem_cons.1 hc with rfl | hc
    · exact h.2.1
    · exact ih h.2.2 hc

/-- The second byte is in the memory of the string, unless the string is empty. -/
lemma second (h : b.StringAt a s) (hne : s ≠ []) : b (a + 1) = s.tail.headD 0 := by
  cases s with
  | nil => exact absurd rfl hne
  | cons c s => exact h.2.2.head

/-- The zero byte behind the string. -/
lemma terminator (h : b.StringAt a s) : b (a + s.length) = 0 := by
  induction s generalizing a with
  | nil => exact h
  | cons c s ih =>
    rw [List.length_cons, Nat.add_comm s.length 1, ← Nat.add_assoc]
    exact ih h.2.2

/-- A string depends on its bytes and the zero byte only. -/
lemma congr (h : b.StringAt a s) (heq : ∀ i ≤ s.length, b' (a + i) = b (a + i)) :
    b'.StringAt a s := by
  induction s generalizing a with
  | nil => exact (heq 0 (by simp)).trans h
  | cons c s ih =>
    refine ⟨(heq 0 (by simp)).trans h.1, h.2.1, ih h.2.2 fun i hi => ?_⟩
    rw [Nat.add_assoc, Nat.add_comm 1 i]
    exact heq (i + 1) (by simpa using hi)

/-- There is one string at an offset. -/
lemma unique (h : b.StringAt a s) (h' : b.StringAt a s') : s = s' := by
  induction s generalizing a s' with
  | nil =>
    cases s' with
    | nil => rfl
    | cons c s' => exact absurd (h'.1.symm.trans h) h'.2.1
  | cons c s ih =>
    cases s' with
    | nil => exact absurd (h.1.symm.trans h') h.2.1
    | cons d s' => rw [← h.1, ← h'.1, ih h.2.2 h'.2.2]

/-- The bytes up to the first zero byte. -/
lemma takeWhile_slice {n : ℕ} (h : b.StringAt a s) (hn : s.length < n) :
    (b.slice a n).takeWhile (· ≠ 0) = s := by
  induction s generalizing a n with
  | nil =>
    obtain ⟨n, rfl⟩ : ∃ m, n = 1 + m := ⟨n - 1, by rw [List.length_nil] at hn; omega⟩
    rw [slice_add, show b.slice a 1 = [b a] from rfl, show b a = 0 from h]
    rfl
  | cons c s ih =>
    obtain ⟨n, rfl⟩ : ∃ m, n = 1 + m := ⟨n - 1, by rw [List.length_cons] at hn; omega⟩
    rw [slice_add, show b.slice a 1 = [b a] from rfl, h.1, List.singleton_append,
      List.takeWhile_cons_of_pos (by simpa using h.2.1),
      ih h.2.2 (by rw [List.length_cons] at hn; omega)]

end StringAt

lemma ofList_drop (l : List UInt8) (a i : ℕ) : ofList (l.drop a) i = ofList l (a + i) := by
  simp [ofList, List.getD_eq_getElem?_getD]

/-- At every offset of a region there is the string up to the next zero byte. -/
lemma stringAt_ofList (l : List UInt8) (a : ℕ) :
    (ofList l).StringAt a ((l.drop a).takeWhile (· ≠ 0)) := by
  obtain ⟨r, hr⟩ : ∃ r, l.drop a = r := ⟨_, rfl⟩
  rw [hr]
  induction r generalizing a with
  | nil =>
    have hend := ofList_drop l a 0
    rw [hr] at hend
    exact hend.symm
  | cons c r ih =>
    have hhead := ofList_drop l a 0
    rw [hr] at hhead
    have hhead : ofList l a = c := hhead.symm
    have hrest : l.drop (a + 1) = r := by rw [← List.drop_drop, hr, List.drop_one, List.tail_cons]
    by_cases hc : c = 0
    · rw [List.takeWhile_cons_of_neg (by simp [hc])]
      exact hhead.trans hc
    · rw [List.takeWhile_cons_of_pos (by simp [hc])]
      exact ⟨hhead, hc, ih (a + 1) hrest⟩

end Bytes
end UcasKernel
