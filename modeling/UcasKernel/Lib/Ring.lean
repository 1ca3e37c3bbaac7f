/-
Circular buffers.

The slots of a ring of `n` are the values of a function at positions below `n`;
position `p` of an unbounded sequence is slot `p % n`.  A window is a run of
consecutive slots, read in order.  Windows grow at the end, shrink at the front,
and do not see the slots outside of them.
-/
import Mathlib.Data.List.Range
import Mathlib.Data.Nat.ModEq

namespace UcasKernel
namespace Ring

variable {α β : Type*}

/-- The `k` slots of a ring of `n` from position `p` on. -/
def window (f : ℕ → α) (n p : ℕ) : ℕ → List α
  | 0 => []
  | k + 1 => f (p % n) :: window f n (p + 1) k

/-- Two positions less than one turn apart are different slots. -/
lemma slot_ne {n p q : ℕ} (hpq : p < q) (hn : q < p + n) : p % n ≠ q % n := by
  intro heq
  have hdvd : n ∣ q - p := (Nat.modEq_iff_dvd' hpq.le).1 heq
  have hle : n ≤ q - p := Nat.le_of_dvd (by omega) hdvd
  omega

@[simp] lemma window_zero (f : ℕ → α) (n p : ℕ) : window f n p 0 = [] := rfl

lemma window_succ (f : ℕ → α) (n p k : ℕ) :
    window f n p (k + 1) = f (p % n) :: window f n (p + 1) k := rfl

@[simp] lemma length_window (f : ℕ → α) (n p k : ℕ) : (window f n p k).length = k := by
  induction k generalizing p with
  | zero => rfl
  | succ k ih => rw [window_succ, List.length_cons, ih]

/-- A window depends on its slots only. -/
lemma window_congr {f g : ℕ → α} {n p k : ℕ} (h : ∀ i < k, f ((p + i) % n) = g ((p + i) % n)) :
    window f n p k = window g n p k := by
  induction k generalizing p with
  | zero => rfl
  | succ k ih =>
    have hhead : f (p % n) = g (p % n) := h 0 (by omega)
    have htail : window f n (p + 1) k = window g n (p + 1) k := by
      refine ih fun i hi => ?_
      have hi' := h (i + 1) (by omega)
      rwa [show p + (i + 1) = p + 1 + i by omega] at hi'
    rw [window_succ, window_succ, hhead, htail]

/-- The position of a window counts modulo the size of the ring. -/
lemma window_mod (f : ℕ → α) (n p k : ℕ) : window f n (p % n) k = window f n p k := by
  induction k generalizing p with
  | zero => rfl
  | succ k ih =>
    have htail : window f n (p % n + 1) k = window f n (p + 1) k := by
      rw [← ih (p % n + 1), ← ih (p + 1), Nat.mod_add_mod]
    rw [window_succ, window_succ, Nat.mod_mod, htail]

/-- A window grows at its end. -/
lemma window_snoc (f : ℕ → α) (n p k : ℕ) :
    window f n p (k + 1) = window f n p k ++ [f ((p + k) % n)] := by
  induction k generalizing p with
  | zero => rfl
  | succ k ih =>
    rw [window_succ, ih, window_succ f n p k, List.cons_append]
    rw [show p + 1 + k = p + (k + 1) by omega]

/-- Writing the slot behind a window that is not a whole turn appends to it. -/
lemma window_update_snoc (f : ℕ → α) (v : α) {n p k : ℕ} (hk : k < n) :
    window (Function.update f ((p + k) % n) v) n p (k + 1) = window f n p k ++ [v] := by
  rw [window_snoc, Function.update_self]
  congr 1
  refine window_congr fun i hi => Function.update_of_ne ?_ ..
  exact slot_ne (by omega) (by omega)

end Ring
end UcasKernel
