/-
What a partial function on states leaves alone.

`Keeps f s o` says that the result `o` of a step from `s`, if there is one, agrees
with `s` on `f`.  A function that is composed of others keeps what they keep; the
rules follow the way it is written.
-/
import Mathlib.Data.Option.Basic

namespace UcasKernel

variable {σ α β : Type*} {f : σ → α} {s t : σ} {o o' : Option σ}

/-- Every result of `o` agrees with `s` on `f`. -/
def Keeps (f : σ → α) (s : σ) (o : Option σ) : Prop := ∀ t, o = some t → f t = f s

namespace Keeps

lemma none : Keeps f s none := by
  intro t h
  cases h

lemma some (h : f t = f s) : Keeps f s (some t) := by
  rintro u ⟨⟩
  exact h

lemma of_eq (ho : Keeps f t o) (h : f t = f s) : Keeps f s o := fun u hu => (ho u hu).trans h

/-- A step, then another one. -/
lemma bind {g : σ → Option σ} (ho : Keeps f s o) (hg : ∀ t, Keeps f t (g t)) :
    Keeps f s (o.bind g) := by
  intro u hu
  obtain ⟨t, ht, hu⟩ := Option.bind_eq_some_iff.1 hu
  exact (hg t u hu).trans (ho t ht)

/-- A value that may be missing, then a step. -/
lemma bindValue {x : Option β} {g : β → Option σ} (hg : ∀ b, Keeps f s (g b)) :
    Keeps f s (x.bind g) := by
  intro u hu
  obtain ⟨b, -, hu⟩ := Option.bind_eq_some_iff.1 hu
  exact hg b u hu

lemma map {g : σ → σ} (ho : Keeps f s o) (hg : ∀ t, f (g t) = f t) : Keeps f s (o.map g) := by
  intro u hu
  obtain ⟨t, ht, rfl⟩ := Option.map_eq_some_iff.1 hu
  exact (hg t).trans (ho t ht)

lemma mapValue {x : Option β} {g : β → σ} (hg : ∀ b, f (g b) = f s) : Keeps f s (x.map g) := by
  intro u hu
  obtain ⟨b, -, rfl⟩ := Option.map_eq_some_iff.1 hu
  exact hg b

lemma ite {c : Prop} [Decidable c] (h : Keeps f s o) (h' : Keeps f s o') :
    Keeps f s (if c then o else o') := by
  split
  · exact h
  · exact h'

end Keeps
end UcasKernel
