/-
Queues whose head is served in turns.

Entries join a queue at its tail.  At a turn the head is served and leaves, unless the
queue is empty.  An entry can also give up its place, wherever it stands.  An entry that
stays in the queue waits for at most as many turns as there were entries ahead of it.

A system has such a queue if every step of it does this to some list that the state
determines; `waits` is the rule for the runs of the system.
-/
import Mathlib.Data.List.Basic
import Mathlib.Order.Nat
import UcasKernel.Lib.Trace

namespace UcasKernel
namespace Fifo

variable {α : Type*} [DecidableEq α]

/-- The queue once the entries of `gone` left it and those of `new` joined it. -/
def settle (w gone new : List α) : List α := w.filter (fun x => decide (x ∉ gone)) ++ new

/-- A step leads from the queue `w` to `w'`: entries leave and join, and the head of what this
gives is served if it is the queue's turn. -/
def Step (w gone : List α) (turn : Bool) (served : Option α) (w' : List α) : Prop :=
  ∃ new, served.toList ++ w' = settle w gone new ∧
    if turn then served = none → w' = [] else served = none

/-- The number of entries ahead of an entry. -/
def ahead (p : α) (w : List α) : ℕ := w.idxOf p

variable {p : α} {w w' gone new : List α} {turn : Bool} {served : Option α}

lemma mem_settle (hp : p ∈ w) (hgone : p ∉ gone) : p ∈ settle w gone new :=
  List.mem_append_left _ (List.mem_filter.2 ⟨hp, decide_eq_true hgone⟩)

/-- Nobody gets ahead of an entry that stays. -/
lemma ahead_settle (hp : p ∈ w) (hgone : p ∉ gone) : ahead p (settle w gone new) ≤ ahead p w := by
  have hmem : p ∈ w.filter fun x => decide (x ∉ gone) :=
    List.mem_filter.2 ⟨hp, decide_eq_true hgone⟩
  rw [ahead, settle, List.idxOf_append_of_mem hmem]
  clear hmem
  induction w with
  | nil => cases hp
  | cons x w ih =>
    by_cases hx : x = p
    · subst hx
      rw [List.filter_cons_of_pos (by simpa using hgone), List.idxOf_cons_self]
      exact Nat.zero_le _
    · have hpw : p ∈ w := (List.mem_cons.1 hp).resolve_left fun h => hx h.symm
      have htail := ih hpw
      rw [ahead, List.idxOf_cons_ne _ hx]
      by_cases hxg : x ∈ gone
      · rw [List.filter_cons_of_neg (by simpa using hxg)]
        exact le_trans htail (Nat.le_succ _)
      · rw [List.filter_cons_of_pos (by simpa using hxg), List.idxOf_cons_ne _ hx]
        exact Nat.succ_le_succ htail

/-- An entry that is not served and does not leave stays in the queue, and a turn brings it one
place nearer to the head. -/
theorem Step.stays (hs : Step w gone turn served w') (hp : p ∈ w) (hgone : p ∉ gone)
    (hserved : served ≠ some p) : p ∈ w' ∧ ahead p w' + turn.toNat ≤ ahead p w := by
  obtain ⟨new, heq, hturn⟩ := hs
  have hmem : p ∈ settle w gone new := mem_settle hp hgone
  have hle : ahead p (settle w gone new) ≤ ahead p w := ahead_settle hp hgone
  rw [← heq] at hmem hle
  cases served with
  | none =>
    cases turn with
    | true =>
      -- a turn without service finds the queue empty
      rw [if_pos rfl] at hturn
      rw [hturn rfl] at hmem
      cases hmem
    | false => exact ⟨hmem, hle⟩
  | some r =>
    have hr : r ≠ p := fun h => hserved (congrArg some h)
    rw [Option.toList_some, List.singleton_append] at hmem hle
    have hle' : ahead p w' + 1 ≤ ahead p w := by
      rwa [ahead, List.idxOf_cons_ne _ hr] at hle
    refine ⟨(List.mem_cons.1 hmem).resolve_left fun h => hr h.symm, ?_⟩
    cases turn with
    | true => exact hle'
    | false => exact le_trans (Nat.le_succ _) hle'

/-! ## Runs -/

section Runs

open Trace

variable {σ ε : Type*} {step : σ → ε → Option σ} (turn : σ → ε → σ → Bool)

/-- The number of turns in a run. -/
def turns (step : σ → ε → Option σ) : σ → List ε → ℕ
  | _, [] => 0
  | s, e :: es =>
    match step s e with
    | none => 0
    | some t => (turn s e t).toNat + turns step t es

/-- Every step takes the queue `view` a step on; who is served or leaves is `Done` with waiting. -/
structure Serves (step : σ → ε → Option σ) (inv : σ → Prop) (C : σ → ε → Prop)
    (view : σ → List α) (p : α) (Done : σ → Prop) : Prop where
  keeps : ∀ s e t, inv s → C s e → step s e = some t → inv t
  takes : ∀ s e t, inv s → C s e → step s e = some t → ∃ gone served,
    Step (view s) gone (turn s e t) served (view t) ∧ (p ∈ gone → Done t) ∧
      (served = some p → Done t)

variable {turn} {inv : σ → Prop} {C : σ → ε → Prop} {view : σ → List α} {Done : σ → Prop} {s t : σ}
  {es : List ε}

/-- As long as an entry is not done with waiting, each turn brings it one place nearer to the
head. -/
theorem Serves.waits (h : Serves turn step inv C view p Done) (hs : inv s)
    (hC : StepsMeet step C s es) (hrun : run step s es = some t) (hp : p ∈ view s)
    (hnot : Always step (fun u => ¬ Done u) s es) :
    p ∈ view t ∧ ahead p (view t) + turns turn step s es ≤ ahead p (view s) := by
  induction es generalizing s with
  | nil =>
    obtain rfl := Option.some.inj hrun
    exact ⟨hp, le_rfl⟩
  | cons e es ih =>
    obtain ⟨u, hu, hrun⟩ := run_cons_eq_some.1 hrun
    have hnotu : ¬ Done u := hnot [e] es rfl u (by rw [run_singleton, hu])
    obtain ⟨gone, served, hstep, hgone, hserved⟩ := h.takes s e u hs hC.head hu
    obtain ⟨hpu, hle⟩ := hstep.stays hp (fun hg => hnotu (hgone hg)) fun hr => hnotu (hserved hr)
    have hnot' : Always step (fun u => ¬ Done u) u es := by
      intro pre post heq v hv
      refine hnot (e :: pre) post (by rw [heq]; rfl) v ?_
      rw [run_cons, hu]
      exact hv
    obtain ⟨hpt, hle'⟩ := ih (h.keeps s e u hs hC.head hu) (hC.tail hu) hrun hpu hnot'
    refine ⟨hpt, ?_⟩
    simp only [turns, hu]
    omega

end Runs

/-! ## The order of service -/

section Order

open Trace

variable {σ ε : Type*} {step : σ → ε → Option σ}

/-- What the steps of a run give, in order. -/
def log {β : Type*} (step : σ → ε → Option σ) (f : σ → ε → σ → List β) : σ → List ε → List β
  | _, [] => []
  | s, e :: es =>
    match step s e with
    | none => []
    | some t => f s e t ++ log step f t es

/-- The entries that join the queue in a step, those that are served at once included. -/
def joined (view : σ → List α) (served : σ → ε → σ → List α) (s : σ) (e : ε) (t : σ) : List α :=
  (served s e t ++ view t).filter fun x => decide (x ∉ view s)

/-- Every step serves from the head, and lets entries that are not in the queue join at its tail. -/
structure InOrder (step : σ → ε → Option σ) (inv : σ → Prop) (view : σ → List α)
    (served : σ → ε → σ → List α) : Prop where
  keeps : ∀ s e t, inv s → step s e = some t → inv t
  takes : ∀ s e t, inv s → step s e = some t → ∃ gone new,
    served s e t ++ view t = settle (view s) gone new ∧ ∀ x ∈ new, x ∉ view s

variable {inv : σ → Prop} {view : σ → List α} {served : σ → ε → σ → List α} {s t : σ} {e : ε}
  {es : List ε}

/-- What a step does to the queue. -/
lemma InOrder.step_eq (h : InOrder step inv view served) (hs : inv s) (ht : step s e = some t) :
    ∃ gone : List α, served s e t ++ view t =
      (view s).filter (fun x => decide (x ∉ gone)) ++ joined view served s e t := by
  obtain ⟨gone, new, heq, hnew⟩ := h.takes s e t hs ht
  have hold : ((view s).filter fun x => decide (x ∉ gone)).filter
      (fun x => decide (x ∉ view s)) = [] :=
    List.filter_eq_nil_iff.2 fun x hx => by simpa using (List.mem_filter.1 hx).1
  have hkept : new.filter (fun x => decide (x ∉ view s)) = new :=
    List.filter_eq_self.2 fun x hx => decide_eq_true (hnew x hx)
  refine ⟨gone, ?_⟩
  rw [joined, heq, settle, List.filter_append, hold, hkept, List.nil_append]

/-- Entries are served in the order in which they joined the queue. -/
theorem InOrder.sublist (h : InOrder step inv view served) (hs : inv s)
    (hrun : run step s es = some t) :
    (log step served s es ++ view t).Sublist
      (view s ++ log step (joined view served) s es) := by
  induction es generalizing s with
  | nil =>
    obtain rfl := Option.some.inj hrun
    simp [log]
  | cons e es ih =>
    obtain ⟨u, hu, hrun⟩ := run_cons_eq_some.1 hrun
    obtain ⟨gone, hstep⟩ := h.step_eq hs hu
    have hrest := ih (h.keeps s e u hs hu) hrun
    simp only [log, hu, List.append_assoc]
    calc (served s e u ++ (log step served u es ++ view t)).Sublist
          (served s e u ++ (view u ++ log step (joined view served) u es)) :=
        hrest.append_left _
      _ = (view s).filter (fun x => decide (x ∉ gone)) ++
          (joined view served s e u ++ log step (joined view served) u es) := by
        rw [← List.append_assoc, hstep, List.append_assoc]
      List.Sublist _ (view s ++ (joined view served s e u ++
          log step (joined view served) u es)) :=
        List.filter_sublist.append_right _

/-- Nothing is lost as long as nobody leaves the queue out of turn. -/
theorem InOrder.conserves (h : InOrder step inv view served) (hs : inv s)
    (hrun : run step s es = some t)
    (hstay : StepsMeet step (fun s e => ∀ t, step s e = some t →
      ∀ x ∈ view s, x ∈ served s e t ++ view t) s es) :
    log step served s es ++ view t = view s ++ log step (joined view served) s es := by
  induction es generalizing s with
  | nil =>
    obtain rfl := Option.some.inj hrun
    simp [log]
  | cons e es ih =>
    obtain ⟨u, hu, hrun⟩ := run_cons_eq_some.1 hrun
    obtain ⟨gone, hstep⟩ := h.step_eq hs hu
    have hkept : (view s).filter (fun x => decide (x ∉ gone)) = view s := by
      refine List.filter_eq_self.2 fun x hx => decide_eq_true fun hgone => ?_
      have hmem := hstay.head u hu x hx
      rw [hstep, List.mem_append, List.mem_filter, decide_eq_true_eq] at hmem
      rcases hmem with hmem | hmem
      · exact hmem.2 hgone
      · exact absurd hx (of_decide_eq_true (List.mem_filter.1 hmem).2)
    simp only [log, hu, List.append_assoc]
    rw [ih (h.keeps s e u hs hu) hrun (hstay.tail hu), ← List.append_assoc, hstep, hkept,
      List.append_assoc]

end Order

end Fifo
end UcasKernel
