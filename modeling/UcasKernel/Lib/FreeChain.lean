/-
Free lists threaded through the free cells.

Every free cell stores the address of the next one.  The last cell of the list,
its end, stores `null`; it is the first cell that was never handed out, so that
taking the last cell means moving the end on.  `FreeChain next null a l e` says
that following `next` from `a` passes the cells `l` and comes to the end `e`.
-/
import Mathlib.Data.List.Basic
import Mathlib.Logic.Function.Basic

namespace UcasKernel

variable {A : Type*}

/-- Following `next` from `a` passes the cells `l`, none of which stores `null`,
and comes to `e`, which does. -/
def FreeChain (next : A → A) (null : A) : A → List A → A → Prop
  | a, [], e => a = e ∧ next e = null
  | a, x :: l, e => a = x ∧ next x ≠ null ∧ FreeChain next null (next x) l e

namespace FreeChain

variable {next next' : A → A} {null a b e e' : A} {l l' : List A}

/-- A list whose first cell stores `null` is the end alone. -/
lemma eq_nil (h : FreeChain next null a l e) (ha : next a = null) : l = [] ∧ a = e := by
  cases l with
  | nil => exact ⟨rfl, h.1⟩
  | cons x l =>
    obtain ⟨rfl, hne, -⟩ := h
    exact absurd ha hne

/-- A list whose first cell does not store `null` can be taken apart. -/
lemma eq_cons (h : FreeChain next null a l e) (ha : next a ≠ null) :
    ∃ m, l = a :: m ∧ FreeChain next null (next a) m e := by
  cases l with
  | nil =>
    obtain ⟨rfl, hnull⟩ := h
    exact absurd hnull ha
  | cons x l =>
    obtain ⟨rfl, -, hl⟩ := h
    exact ⟨l, rfl, hl⟩

/-- The first cell is a cell of the list or its end. -/
lemma head_mem (h : FreeChain next null a l e) : a ∈ l ++ [e] := by
  cases l with
  | nil => rw [h.1]; simp
  | cons x l => rw [h.1]; simp

/-- A list is read off the cells it passes. -/
lemma congr (h : FreeChain next null a l e) (heq : ∀ x ∈ l ++ [e], next' x = next x) :
    FreeChain next' null a l e := by
  induction l generalizing a with
  | nil => exact ⟨h.1, by rw [heq e (by simp)]; exact h.2⟩
  | cons x l ih =>
    obtain ⟨rfl, hne, hl⟩ := h
    have hx : next' a = next a := heq a (by simp)
    refine ⟨rfl, by rw [hx]; exact hne, ?_⟩
    rw [hx]
    exact ih hl fun y hy => heq y (List.mem_cons_of_mem _ hy)

/-- A cell outside of the list is put before its first cell. -/
lemma push [DecidableEq A] (h : FreeChain next null a l e) (ha : a ≠ null) (hb : b ∉ l ++ [e]) :
    FreeChain (Function.update next b a) null b (b :: l) e := by
  refine ⟨rfl, by rwa [Function.update_self], ?_⟩
  rw [Function.update_self]
  refine h.congr fun x hx => Function.update_of_ne ?_ _ _
  rintro rfl
  exact hb hx

/-- The cells and the end are determined by the first cell. -/
theorem unique (h : FreeChain next null a l e) (h' : FreeChain next null a l' e') :
    l = l' ∧ e = e' := by
  induction l generalizing a l' with
  | nil =>
    obtain ⟨rfl, hnull⟩ := h
    obtain ⟨rfl, rfl⟩ := h'.eq_nil hnull
    exact ⟨rfl, rfl⟩
  | cons x l ih =>
    obtain ⟨rfl, hne, hl⟩ := h
    obtain ⟨m, rfl, hm⟩ := h'.eq_cons hne
    obtain ⟨rfl, rfl⟩ := ih hl hm
    exact ⟨rfl, rfl⟩

end FreeChain

end UcasKernel
