/-
Runs of a partial step function.

A system is a step function `step : σ → ε → Option σ` on states `σ` and events
`ε`; an event that is not enabled in a state gives `none`.  A run is a list of
events.  This file collects the rules that every safety argument about such a
system uses: a run splits at any point, an invariant of one step is an
invariant of a run, and a condition on the steps of a run is inherited by its
prefixes.
-/
import Mathlib.Data.List.Basic
import Mathlib.Data.List.TakeDrop
import Mathlib.Data.Option.Basic

namespace UcasKernel
namespace Trace

variable {σ ε : Type*} (step : σ → ε → Option σ)

/-- The state after a list of events, if every event is enabled. -/
def run : σ → List ε → Option σ
  | s, [] => some s
  | s, e :: es => (step s e).bind fun t => run t es

/-- `t` is reached from `s` by some list of events. -/
def Reachable (s t : σ) : Prop := ∃ es, run step s es = some t

/-- Every step of the run of `es` from `s` meets the condition `C`. -/
def StepsMeet (C : σ → ε → Prop) (s : σ) (es : List ε) : Prop :=
  ∀ pre e post, es = pre ++ e :: post → ∀ t, run step s pre = some t → C t e

/-- Every state of the run of `es` from `s`, the first and the last included,
has the property `P`. -/
def Always (P : σ → Prop) (s : σ) (es : List ε) : Prop :=
  ∀ pre post, es = pre ++ post → ∀ t, run step s pre = some t → P t

variable {step}

@[simp] lemma run_nil (s : σ) : run step s [] = some s := rfl

@[simp] lemma run_cons (s : σ) (e : ε) (es : List ε) :
    run step s (e :: es) = (step s e).bind fun t => run step t es := rfl

lemma run_append (s : σ) (es fs : List ε) :
    run step s (es ++ fs) = (run step s es).bind fun t => run step t fs := by
  induction es generalizing s with
  | nil => rfl
  | cons e es ih =>
    simp only [List.cons_append, run_cons, Option.bind_assoc]
    exact congrArg _ (funext fun t => ih t)

lemma run_append_eq_some {s u : σ} {es fs : List ε} :
    run step s (es ++ fs) = some u ↔
      ∃ t, run step s es = some t ∧ run step t fs = some u := by
  rw [run_append, Option.bind_eq_some_iff]

lemma run_cons_eq_some {s u : σ} {e : ε} {es : List ε} :
    run step s (e :: es) = some u ↔ ∃ t, step s e = some t ∧ run step t es = some u := by
  rw [run_cons, Option.bind_eq_some_iff]

lemma run_singleton (s : σ) (e : ε) : run step s [e] = step s e := by
  cases h : step s e <;> simp [h]

lemma Reachable.refl (s : σ) : Reachable step s s := ⟨[], rfl⟩

lemma Reachable.tail {s t u : σ} {e : ε} (h : Reachable step s t) (he : step t e = some u) :
    Reachable step s u := by
  obtain ⟨es, hes⟩ := h
  exact ⟨es ++ [e], run_append_eq_some.2 ⟨t, hes, by rw [run_singleton, he]⟩⟩

/-! ## Conditions on the steps of a run -/

lemma stepsMeet_nil (C : σ → ε → Prop) (s : σ) : StepsMeet step C s [] := by
  intro pre e post h
  simp at h

lemma StepsMeet.head {C : σ → ε → Prop} {s : σ} {e : ε} {es : List ε}
    (h : StepsMeet step C s (e :: es)) : C s e :=
  h [] e es rfl s rfl

lemma StepsMeet.tail {C : σ → ε → Prop} {s t : σ} {e : ε} {es : List ε}
    (h : StepsMeet step C s (e :: es)) (he : step s e = some t) : StepsMeet step C t es := by
  intro pre e' post hes u hu
  refine h (e :: pre) e' post (by rw [hes]; rfl) u ?_
  rw [run_cons, he]
  exact hu

lemma stepsMeet_cons {C : σ → ε → Prop} {s : σ} {e : ε} {es : List ε}
    (hC : C s e) (h : ∀ t, step s e = some t → StepsMeet step C t es) :
    StepsMeet step C s (e :: es) := by
  intro pre e' post heq u hu
  cases pre with
  | nil =>
    simp only [List.nil_append, List.cons.injEq] at heq
    obtain ⟨rfl, -⟩ := heq
    rw [run_nil, Option.some.injEq] at hu
    exact hu ▸ hC
  | cons a pre =>
    simp only [List.cons_append, List.cons.injEq] at heq
    obtain ⟨rfl, hes⟩ := heq
    obtain ⟨t, ht, hu⟩ := run_cons_eq_some.1 hu
    exact h t ht pre e' post hes u hu

lemma StepsMeet.of_append {C : σ → ε → Prop} {s : σ} {es fs : List ε}
    (h : StepsMeet step C s (es ++ fs)) : StepsMeet step C s es := by
  intro pre e post hes t ht
  exact h pre e (post ++ fs) (by rw [hes, List.append_assoc, List.cons_append]) t ht

lemma StepsMeet.drop {C : σ → ε → Prop} {s t : σ} {es fs : List ε}
    (h : StepsMeet step C s (es ++ fs)) (ht : run step s es = some t) :
    StepsMeet step C t fs := by
  intro pre e post hfs u hu
  refine h (es ++ pre) e post (by rw [hfs, List.append_assoc]) u ?_
  exact run_append_eq_some.2 ⟨t, ht, hu⟩

lemma StepsMeet.append {C : σ → ε → Prop} {s : σ} {es fs : List ε} (h : StepsMeet step C s es)
    (h' : ∀ t, run step s es = some t → StepsMeet step C t fs) :
    StepsMeet step C s (es ++ fs) := by
  induction es generalizing s with
  | nil => exact h' s rfl
  | cons e es ih =>
    refine stepsMeet_cons h.head fun t ht => ih (h.tail ht) fun u hu => h' u ?_
    exact run_cons_eq_some.2 ⟨t, ht, hu⟩

lemma StepsMeet.mono {C D : σ → ε → Prop} {s : σ} {es : List ε}
    (h : StepsMeet step C s es) (hCD : ∀ t e, C t e → D t e) : StepsMeet step D s es :=
  fun pre e post hes t ht => hCD t e (h pre e post hes t ht)

/-- A run of the steps with the condition as a test, which stops at the first step that is
not enabled. -/
def checkSteps (step : σ → ε → Option σ) (C : σ → ε → Bool) : σ → List ε → Bool
  | _, [] => true
  | s, e :: es => C s e && (step s e).all fun t => checkSteps step C t es

lemma stepsMeet_of_checkSteps {C : σ → ε → Bool} {s : σ} {es : List ε}
    (h : checkSteps step C s es = true) : StepsMeet step (fun s e => C s e = true) s es := by
  induction es generalizing s with
  | nil => exact stepsMeet_nil _ s
  | cons e es ih =>
    rw [checkSteps, Bool.and_eq_true] at h
    refine stepsMeet_cons h.1 fun t ht => ih ?_
    rw [ht, Option.all_some] at h
    exact h.2

/-! ## Invariants -/

/-- An invariant of the steps that meet `C` is an invariant of the runs all of
whose steps meet `C`. -/
theorem run_invariant {C : σ → ε → Prop} {P : σ → Prop}
    (hstep : ∀ s e t, P s → C s e → step s e = some t → P t) {s t : σ} {es : List ε}
    (hs : P s) (hC : StepsMeet step C s es) (hrun : run step s es = some t) : P t := by
  induction es generalizing s with
  | nil =>
    rw [run_nil, Option.some.injEq] at hrun
    exact hrun ▸ hs
  | cons e es ih =>
    obtain ⟨u, hu, hrun⟩ := run_cons_eq_some.1 hrun
    exact ih (hstep s e u hs hC.head hu) (hC.tail hu) hrun

/-- A run all of whose steps meet `C` gets through, when the steps that meet `C` do
and keep the invariant. -/
theorem run_total {C : σ → ε → Prop} {P : σ → Prop}
    (hstep : ∀ s e, P s → C s e → ∃ t, step s e = some t ∧ P t) {s : σ} {es : List ε}
    (hs : P s) (hC : StepsMeet step C s es) : ∃ t, run step s es = some t ∧ P t := by
  induction es generalizing s with
  | nil => exact ⟨s, rfl, hs⟩
  | cons e es ih =>
    obtain ⟨u, hu, hP⟩ := hstep s e hs hC.head
    obtain ⟨t, ht, hPt⟩ := ih hP (hC.tail hu)
    exact ⟨t, run_cons_eq_some.2 ⟨u, hu, ht⟩, hPt⟩

/-- The same for all the states of a run. -/
theorem always_of_invariant {C : σ → ε → Prop} {P : σ → Prop}
    (hstep : ∀ s e t, P s → C s e → step s e = some t → P t) {s : σ} {es : List ε}
    (hs : P s) (hC : StepsMeet step C s es) : Always step P s es := by
  intro pre post hes t ht
  exact run_invariant hstep hs (StepsMeet.of_append (hes ▸ hC)) ht

/-- An invariant of all steps holds in every reachable state. -/
theorem reachable_invariant {P : σ → Prop}
    (hstep : ∀ s e t, P s → step s e = some t → P t) {s t : σ}
    (hs : P s) (h : Reachable step s t) : P t := by
  obtain ⟨es, hes⟩ := h
  exact run_invariant (C := fun _ _ => True) (fun s e t hs _ he => hstep s e t hs he) hs
    (fun _ _ _ _ _ _ => trivial) hes

/-- A loop over a list that may fail is the run of its body on the list. -/
lemma foldlM_eq_run (es : List ε) (s : σ) : es.foldlM step s = run step s es := by
  induction es generalizing s with
  | nil => rfl
  | cons e es ih =>
    rw [List.foldlM_cons, run_cons]
    exact congrArg _ (funext fun t => ih t)

/-- What the body of a loop keeps, the loop keeps. -/
lemma foldlM_invariant {P : σ → Prop} (hstep : ∀ s e t, P s → step s e = some t → P t)
    {s t : σ} {es : List ε} (hs : P s) (h : es.foldlM step s = some t) : P t := by
  rw [foldlM_eq_run] at h
  exact reachable_invariant hstep hs ⟨es, h⟩

/-- The same for an invariant that reads what is left of the list. -/
lemma foldlM_invariant_rest {P : List ε → σ → Prop}
    (hstep : ∀ e es s t, P (e :: es) s → step s e = some t → P es t)
    {s t : σ} {es : List ε} (hs : P es s) (h : es.foldlM step s = some t) : P [] t := by
  induction es generalizing s with
  | nil =>
    rw [List.foldlM_nil, Option.pure_def, Option.some.injEq] at h
    exact h ▸ hs
  | cons e es ih =>
    rw [List.foldlM_cons] at h
    obtain ⟨u, hu, h⟩ := Option.bind_eq_some_iff.1 h
    exact ih (hstep e es s u hs hu) h

/-- A loop gets through when its body does and keeps such an invariant. -/
lemma foldlM_total_rest {P : List ε → σ → Prop}
    (hstep : ∀ e es s, P (e :: es) s → ∃ t, step s e = some t ∧ P es t)
    {s : σ} {es : List ε} (hs : P es s) : ∃ t, es.foldlM step s = some t ∧ P [] t := by
  induction es generalizing s with
  | nil => exact ⟨s, rfl, hs⟩
  | cons e es ih =>
    obtain ⟨u, hu, hP⟩ := hstep e es s hs
    obtain ⟨t, ht, hPt⟩ := ih hP
    exact ⟨t, by rw [List.foldlM_cons, hu]; exact ht, hPt⟩

/-- Conditions that agree on the steps that are enabled, in the states with an invariant, agree on
the steps of a run. -/
lemma stepsMeet_congr {C D : σ → ε → Prop} {I : σ → Prop} {s u : σ} {es : List ε}
    (hstep : ∀ t e t', I t → step t e = some t' → I t')
    (hCD : ∀ t e t', I t → step t e = some t' → (C t e ↔ D t e)) (hs : I s)
    (hrun : run step s es = some u) : StepsMeet step C s es ↔ StepsMeet step D s es := by
  have henabled : ∀ pre e post, es = pre ++ e :: post → ∀ t, run step s pre = some t →
      (C t e ↔ D t e) := by
    rintro pre e post rfl t ht
    obtain ⟨t₀, ht₀, hrest⟩ := run_append_eq_some.1 hrun
    obtain rfl := Option.some.inj (ht.symm.trans ht₀)
    obtain ⟨t', ht', -⟩ := run_cons_eq_some.1 hrest
    exact hCD t e t' (reachable_invariant hstep hs ⟨pre, ht⟩) ht'
  constructor
  · exact fun h pre e post hes t ht => (henabled pre e post hes t ht).1 (h pre e post hes t ht)
  · exact fun h pre e post hes t ht => (henabled pre e post hes t ht).2 (h pre e post hes t ht)

lemma Always.mono {P P' : σ → Prop} {s : σ} {es : List ε}
    (h : Always step P s es) (hP : ∀ t, P t → P' t) : Always step P' s es :=
  fun pre post hes t ht => hP t (h pre post hes t ht)

lemma Always.last {P : σ → Prop} {s t : σ} {es : List ε}
    (h : Always step P s es) (ht : run step s es = some t) : P t :=
  h es [] (by simp) t ht

lemma Always.tail {P : σ → Prop} {s t : σ} {e : ε} {es : List ε}
    (h : Always step P s (e :: es)) (he : step s e = some t) : Always step P t es := by
  intro pre post hes u hu
  refine h (e :: pre) post (by rw [hes]; rfl) u ?_
  rw [run_cons, he]
  exact hu

lemma Always.first {P : σ → Prop} {s : σ} {es : List ε} (h : Always step P s es) : P s :=
  h [] es rfl s rfl

/-- Among the runs whose steps meet `M`, a property that follows from an invariant
of the steps that meet `C`, and that no other step allows, holds throughout exactly
when all steps meet `C`. -/
theorem always_iff_stepsMeet {M C : σ → ε → Prop} {I P : σ → Prop} (hP : ∀ s, I s → P s)
    (hstep : ∀ s e t, I s → M s e → C s e → step s e = some t → I t)
    (hbad : ∀ s e, I s → M s e → (∀ t, step s e = some t → P t) → C s e) {s : σ} {es : List ε}
    (hs : I s) (hM : StepsMeet step M s es) :
    Always step P s es ↔ StepsMeet step C s es := by
  constructor
  · intro h
    induction es generalizing s with
    | nil => exact stepsMeet_nil C s
    | cons e es ih =>
      have hC := hbad s e hs hM.head fun t ht => (h.tail ht).first
      exact stepsMeet_cons hC fun t ht =>
        ih (hstep s e t hs hM.head hC ht) (hM.tail ht) (h.tail ht)
  · intro hC
    refine (always_of_invariant (C := fun s e => M s e ∧ C s e) ?_ hs ?_).mono hP
    · exact fun s e t hs hMC ht => hstep s e t hs hMC.1 hMC.2 ht
    · exact fun pre e post hes t ht => ⟨hM pre e post hes t ht, hC pre e post hes t ht⟩

/-- Every step of every run meets a condition that is always met. -/
lemma stepsMeet_true (s : σ) (es : List ε) : StepsMeet step (fun _ _ => True) s es :=
  fun _ _ _ _ _ _ => trivial

end Trace
end UcasKernel
