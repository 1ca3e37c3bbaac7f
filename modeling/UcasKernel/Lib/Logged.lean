/-
Computations that may fail and keep a log.

A computation logs values while it runs, also when it fails in the end.  `result` is a
morphism to the computations without a log, so that a function written with a log can be
compared with the one written without; `All` says that every value in the log has a
property, and its rules follow the way a function is written.
-/
import Mathlib.Data.Option.Basic

namespace UcasKernel

universe u v w

/-- The values logged, and the result if the computation did not fail. -/
def Logged (ε : Type u) (α : Type v) : Type (max u v) := List ε × Option α

namespace Logged

variable {ε : Type u} {α β : Type v} {P : ε → Prop}

def log (x : Logged ε α) : List ε := x.1

def result (x : Logged ε α) : Option α := x.2

/-- A computation and, if it did not fail, another one. -/
protected def bind (x : Logged ε α) (f : α → Logged ε β) : Logged ε β :=
  match x.result with
  | some a => (x.log ++ (f a).log, (f a).result)
  | none => (x.log, none)

instance : Monad (Logged ε) where
  pure a := ([], some a)
  bind := Logged.bind

/-- A computation that logs nothing. -/
def of (r : Option α) : Logged ε α := ([], r)

/-- A computation that logs one value. -/
def tell (e : ε) (r : Option α) : Logged ε α := ([e], r)

@[simp] lemma result_pure (a : α) : (pure a : Logged ε α).result = some a := rfl

@[simp] lemma result_of (r : Option α) : (of r : Logged ε α).result = r := rfl

@[simp] lemma result_tell (e : ε) (r : Option α) : (tell e r).result = r := rfl

@[simp] lemma result_bind (x : Logged ε α) (f : α → Logged ε β) :
    (x >>= f).result = x.result.bind fun a => (f a).result := by
  show (x.bind f).result = _
  rw [Logged.bind]
  cases x.result <;> rfl

/-- Two computations that agree step by step. -/
lemma result_bind_congr {x : Logged ε α} {r : Option α} {f : α → Logged ε β} {g : α → Option β}
    (hx : x.result = r) (hf : ∀ a, (f a).result = g a) : (x >>= f).result = r >>= g := by
  rw [result_bind, hx]
  exact congrArg _ (funext hf)

/-- A loop without its log. -/
lemma result_foldlM {ι : Type w} {g : α → ι → Logged ε α} {h : α → ι → Option α}
    (hg : ∀ a i, (g a i).result = h a i) (l : List ι) (a : α) :
    (l.foldlM g a).result = l.foldlM h a := by
  induction l generalizing a with
  | nil => rfl
  | cons i l ih =>
    rw [List.foldlM_cons, List.foldlM_cons]
    exact result_bind_congr (hg a i) ih

lemma log_of_bind (a : α) (f : α → Logged ε β) : (of (some a) >>= f).log = (f a).log := rfl

lemma log_tell_bind (e : ε) (a : α) (f : α → Logged ε β) :
    (tell e (some a) >>= f).log = e :: (f a).log := rfl

lemma log_bind {x : Logged ε α} {a : α} (h : x.result = some a) (f : α → Logged ε β) :
    (x >>= f).log = x.log ++ (f a).log := by
  show (x.bind f).log = _
  rw [Logged.bind, h]
  rfl

/-! ## Properties of the log -/

/-- Every value in the log has the property. -/
def All (P : ε → Prop) (x : Logged ε α) : Prop := ∀ e ∈ x.log, P e

lemma all_pure (a : α) : (pure a : Logged ε α).All P := by
  intro e he
  cases he

lemma all_of (r : Option α) : (of r : Logged ε α).All P := by
  intro e he
  cases he

@[simp] lemma all_tell {e : ε} {r : Option α} : (tell e r).All P ↔ P e :=
  ⟨fun h => h e (List.mem_singleton_self e), fun h _ he => List.mem_singleton.1 he ▸ h⟩

lemma all_bind {x : Logged ε α} {f : α → Logged ε β} :
    (x >>= f).All P ↔ x.All P ∧ ∀ a, x.result = some a → (f a).All P := by
  show (x.bind f).All P ↔ _
  rw [Logged.bind]
  cases hx : x.result with
  | none => exact ⟨fun h => ⟨h, fun a ha => by cases ha⟩, fun h => h.1⟩
  | some a =>
    refine List.forall_mem_append.trans (and_congr_right fun _ => ?_)
    refine ⟨fun h b hb => ?_, fun h => h a rfl⟩
    cases hb
    exact h

/-- A computation followed by another one. -/
lemma All.bind {x : Logged ε α} {f : α → Logged ε β} (hx : x.All P)
    (hf : ∀ a, x.result = some a → (f a).All P) : (x >>= f).All P := all_bind.2 ⟨hx, hf⟩

/-! ## Computations that do not fail -/

/-- The computation returns `a`, and every value in its log has the property. -/
structure Returns (P : ε → Prop) (x : Logged ε α) (a : α) : Prop where
  result : x.result = some a
  all : x.All P

lemma returns_pure (a : α) : Returns P (pure a : Logged ε α) a := ⟨rfl, all_pure a⟩

lemma returns_of {r : Option α} {a : α} (h : r = some a) : Returns P (of r : Logged ε α) a :=
  ⟨h, all_of r⟩

lemma returns_tell {e : ε} {r : Option α} {a : α} (h : r = some a) (he : P e) :
    Returns P (tell e r) a := ⟨h, all_tell.2 he⟩

lemma Returns.bind {x : Logged ε α} {f : α → Logged ε β} {a : α} {b : β} (hx : Returns P x a)
    (hf : Returns P (f a) b) : Returns P (x >>= f) b := by
  refine ⟨?_, hx.all.bind fun a' ha' => ?_⟩
  · rw [result_bind, hx.result]
    exact hf.result
  · obtain rfl := Option.some.inj (hx.result.symm.trans ha')
    exact hf.all

/-- The two parts of a computation that returns. -/
lemma Returns.of_bind {x : Logged ε α} {f : α → Logged ε β} {b : β} (h : Returns P (x >>= f) b) :
    ∃ a, Returns P x a ∧ Returns P (f a) b := by
  obtain ⟨hx, hf⟩ := all_bind.1 h.all
  have hresult := h.result
  rw [result_bind, Option.bind_eq_some_iff] at hresult
  obtain ⟨a, ha, hb⟩ := hresult
  exact ⟨a, ⟨ha, hx⟩, ⟨hb, hf a ha⟩⟩

/-- A loop whose rounds return, by an invariant on the rounds that are left. -/
lemma Returns.foldlM {ι : Type w} {g : α → ι → Logged ε α} {I : List ι → α → Prop}
    (hg : ∀ i l a, I (i :: l) a → ∃ a', Returns P (g a i) a' ∧ I l a') (l : List ι) (a : α)
    (h : I l a) : ∃ b, Returns P (l.foldlM g a) b ∧ I [] b := by
  induction l generalizing a with
  | nil => exact ⟨a, returns_pure a, h⟩
  | cons i l ih =>
    obtain ⟨a', hround, h'⟩ := hg i l a h
    obtain ⟨b, hloop, hb⟩ := ih a' h'
    exact ⟨b, hround.bind hloop, hb⟩

/-- A round of a loop that returns. -/
lemma Returns.foldlM_round {ι : Type w} {g : α → ι → Logged ε α} {i : ι} {l l' : List ι}
    {a a' b : α} (h : Returns P ((l ++ i :: l').foldlM g a) b)
    (ha : (l.foldlM g a).result = some a') : ∃ c, Returns P (g a' i) c := by
  induction l generalizing a with
  | nil =>
    obtain rfl : a = a' := Option.some.inj ha
    obtain ⟨c, hc, -⟩ := h.of_bind
    exact ⟨c, hc⟩
  | cons j l ih =>
    obtain ⟨a₁, h₁, hrest⟩ := Returns.of_bind (x := g a j) h
    refine ih hrest ?_
    rw [List.foldlM_cons, result_bind, h₁.result] at ha
    exact ha

lemma Returns.mono {x : Logged ε α} {a : α} {P' : ε → Prop} (h : Returns P x a)
    (hP : ∀ e, P e → P' e) : Returns P' x a := ⟨h.result, fun e he => hP e (h.all e he)⟩

end Logged
end UcasKernel
