/-
A state seen as one cell for each owner.

`view s p` is what the owner `p` sees of the state `s`.  If every step changes the cells
that it lists in `writes` and no others, then behind a run an owner sees what was written
last to its cell, or what it saw before if nothing was.

An owner need not exist all the time.  What is seen by one that does not exist means
nothing, and a step that brings an owner into being writes its cell.
-/
import UcasKernel.Lib.Trace

namespace UcasKernel
namespace Cells

open Trace

variable {κ α : Type*} [DecidableEq κ]

/-- What the owner `p` sees behind some writes, if it saw `a` before. -/
def after (ws : List (κ × α)) (p : κ) (a : α) : α :=
  ws.foldl (fun a w => if w.1 = p then w.2 else a) a

section After

variable {ws ws' : List (κ × α)} {p : κ} {a b : α}

@[simp] lemma after_nil : after [] p a = a := rfl

@[simp] lemma after_cons {w : κ × α} :
    after (w :: ws) p a = after ws p (if w.1 = p then w.2 else a) := rfl

/-- Writes to other cells are not seen. -/
lemma after_of_notMem (hp : p ∉ ws.map Prod.fst) : after ws p a = a := by
  induction ws generalizing a with
  | nil => rfl
  | cons w ws ih =>
    rw [List.map_cons, List.mem_cons, not_or] at hp
    rw [after_cons, if_neg (Ne.symm hp.1)]
    exact ih hp.2

/-- One write to each of some cells. -/
lemma after_map {f : κ → α} {l : List κ} : after (l.map fun x => (x, f x)) p a =
    if p ∈ l then f p else a := by
  induction l generalizing a with
  | nil => rfl
  | cons x l ih =>
    rw [List.map_cons, after_cons, ih]
    by_cases hl : p ∈ l
    · rw [if_pos hl, if_pos (List.mem_cons_of_mem _ hl)]
    · rw [if_neg hl]
      by_cases hx : x = p
      · rw [if_pos hx, if_pos (hx ▸ List.mem_cons_self), hx]
      · rw [if_neg hx, if_neg]
        rw [List.mem_cons, not_or]
        exact ⟨Ne.symm hx, hl⟩

end After

variable {σ ε : Type*}

/-- The steps that meet `C` change the cells that they list and no others. -/
structure Lists (step : σ → ε → Option σ) (inv : σ → Prop) (C : σ → ε → Prop)
    (live : σ → κ → Prop) (view : σ → κ → α) (writes : σ → ε → List (κ × α)) : Prop where
  keeps : ∀ s e t, inv s → C s e → step s e = some t → inv t
  sees : ∀ s e t p, inv s → C s e → step s e = some t → live t p →
    view t p = after (writes s e) p (view s p)
  born : ∀ s e t p, inv s → C s e → step s e = some t → live t p → ¬ live s p →
    p ∈ (writes s e).map Prod.fst

section Runs

variable {step : σ → ε → Option σ} {inv : σ → Prop} {C : σ → ε → Prop} {live : σ → κ → Prop}
  {view : σ → κ → α} {writes : σ → ε → List (κ × α)} {s t : σ} {es : List ε} {p : κ}

end Runs

end Cells
end UcasKernel
