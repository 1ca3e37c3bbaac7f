/-
The invariant of the mutexes.

`Locks` ties the mutexes to a record of what the tasks did: which task is inside of
which mutex, and in which step each task was last on a CPU, which for a blocked
task is the step in which it blocked.  The owner of a mutex is the task inside of
it, or the task it was handed to and that has not returned from
`do_mutex_lock_acquire` yet.  The queue of a mutex is sorted by the steps in which
its tasks blocked.

There is one lemma for each thing that can happen to the mutexes in a step: a
wake-up, a release, a switch, a return, taking a free mutex, entering one that was
handed over, the death and the birth of a PCB.
-/
import UcasKernel.Sched.Runs

namespace UcasKernel
namespace Sched
namespace Kernel

/-! ## Where a task is -/

/-- The task was switched away from and has not gone on. -/
def Suspended (k : Kernel) (p : Pcb) : Prop := ∀ c, k.runnings c = some p → k.inKernel = some c

/-- The task waits in `do_mutex_lock_acquire`. -/
def Waiting (k : Kernel) (m : Slot) (p : Pcb) : Prop :=
  k.pid p ≠ 0 ∧ k.status p = .blocked ∧ k.cont p = .mutexLockAcquire m

/-- The task is behind the `do_block` of `do_mutex_lock_acquire`, no longer blocked. -/
def HandedOver (k : Kernel) (m : Slot) (p : Pcb) : Prop :=
  k.pid p ≠ 0 ∧ k.status p ≠ .blocked ∧ k.cont p = .mutexLockAcquire m ∧ k.Suspended p

/-- The same, for a task on the ready queue. -/
def Handed (k : Kernel) (q : Head → List Pcb) (m : Slot) (p : Pcb) : Prop :=
  p ∈ q .readyQueue ∧ k.cont p = .mutexLockAcquire m ∧ k.Suspended p

/-- The blocking calls of processes that only use mutexes and condition variables. -/
def Plain : Cont → Prop
  | .ret | .waitpid _ | .mutexLockAcquire _ | .conditionWait _ => True
  | _ => False

lemma plain_update {f : Pcb → Cont} {p : Pcb} {cont : Cont} (hf : ∀ x, Plain (f x))
    (hcont : Plain cont) (x : Pcb) : Plain (Function.update f p cont x) := by
  by_cases hx : x = p
  · rwa [hx, Function.update_self]
  · rw [Function.update_of_ne hx]
    exact hf x

/-! ## The invariant -/

/-- The mutexes, their queues and the record.  The PCB `gone` is being released. -/
structure Locks (k : Kernel) (q : Head → List Pcb) (gone : Option Pcb) (inside : Slot → Pcb → Prop)
    (last : Pcb → ℕ) : Prop where
  single : ∀ p r, k.pid p ≠ 0 → k.pid p = k.pid r → p = r
  unlocked : ∀ m, (k.mlocks m).locked = false ↔ (k.mlocks m).pid = 0
  owner : ∀ m, (k.mlocks m).pid ≠ 0 → ∃ p, k.pid p = (k.mlocks m).pid ∧
    (inside m p ∨ k.Handed q m p ∨ gone = some p)
  queued : ∀ m, q (.blockQueue m) ≠ [] → (k.mlocks m).locked = true
  waits : ∀ h p, p ∈ q h → h ≠ .readyQueue →
    k.status p = .blocked ∧ ∀ m, k.cont p = .mutexLockAcquire m ↔ h = .blockQueue m
  asleep : ∀ h p, p ∈ q h → h ≠ .readyQueue → ∀ c, k.runnings c ≠ some p
  awake : ∀ p ∈ q .readyQueue, k.status p ≠ .blocked
  granted : ∀ m p, k.Handed q m p → (k.mlocks m).pid = k.pid p
  holds : ∀ m p, inside m p → k.pid p ≠ 0 ∧ (k.mlocks m).pid = k.pid p
  order : ∀ m, (q (.blockQueue m)).Pairwise fun p r => last p < last r
  plain : ∀ p, Plain (k.cont p)

/-- Who leaves the queue of a mutex alive was there first. -/
def Fair (k' : Kernel) (q q' : Head → List Pcb) (last : Pcb → ℕ) : Prop :=
  ∀ m x y, x ∈ q (.blockQueue m) → y ∈ q (.blockQueue m) → k'.pid x ≠ 0 → k'.pid y ≠ 0 →
    x ∉ q' (.blockQueue m) → x ≠ y → last x < last y

/-- At most the first element of a sorted list is dropped. -/
lemma lt_of_dropped {last : Pcb → ℕ} {l₀ l₁ : List Pcb} {x y : Pcb}
    (hsorted : l₀.Pairwise fun p r => last p < last r)
    (hsplit : ∃ l, l₀ = l ++ l₁ ∧ l.length ≤ 1) (hx : x ∈ l₀) (hy : y ∈ l₀) (hx' : x ∉ l₁)
    (hne : x ≠ y) : last x < last y := by
  obtain ⟨l, rfl, hlen⟩ := hsplit
  have hxl : x ∈ l := (List.mem_append.1 hx).resolve_right hx'
  have hl : l = [x] := by
    match l, hlen, hxl with
    | [z], _, hz => rw [List.mem_singleton.1 hz]
  rw [hl] at hsorted hy
  have hyl : y ∈ l₁ := (List.mem_cons.1 hy).resolve_left hne.symm
  exact (List.pairwise_cons.1 hsorted).1 y hyl

section Primitives

variable {k : Kernel} {q : Head → List Pcb} {out : Option Cpu} {gone gone' : Option Pcb}
  {inside inside' : Slot → Pcb → Prop} {last : Pcb → ℕ} {c : Cpu} {p : Pcb} {m : Slot}

/-- The record of who is inside may forget tasks that own nothing. -/
lemma Locks.forget (hl : k.Locks q gone inside last) (hsub : ∀ m p, inside' m p → inside m p)
    (hkeep : ∀ m p, inside m p → (k.mlocks m).pid = k.pid p → inside' m p ∨ gone' = some p)
    (hgone : ∀ p, gone = some p → gone' = some p) : k.Locks q gone' inside' last := by
  refine ⟨hl.single, hl.unlocked, fun m hm => ?_, hl.queued, hl.waits,
    hl.asleep, hl.awake, hl.granted, fun m p hp => hl.holds m p (hsub m p hp), hl.order, hl.plain⟩
  obtain ⟨p, hp, hin | hhand | hg⟩ := hl.owner m hm
  · exact ⟨p, hp, (hkeep m p hin hp.symm).imp_right .inr⟩
  · exact ⟨p, hp, .inr (.inl hhand)⟩
  · exact ⟨p, hp, .inr (.inr (hgone p hg))⟩

/-- The mutexes after a wake-up from a queue that is no queue of a mutex. -/
lemma Locks.wake {h : Head} {L : Links Head Pcb} (hm : k.Mid q out gone)
    (hl : k.Locks q gone' inside last) (hp : p ∈ q h) (hne : h ≠ .readyQueue)
    (hh : ∀ m, h ≠ .blockQueue m) :
    Locks { k.setStatus p .ready with links := L } (move q p h .readyQueue) gone' inside last := by
  have hr := hm.lists.repr
  have hpready : p ∉ q .readyQueue := fun hmem => hne (hr.disjoint h _ p hp hmem)
  have hqueue : ∀ m, move q p h .readyQueue (.blockQueue m) = q (.blockQueue m) := fun m =>
    move_of_ne (hh m).symm (by simp)
  have hcont : ∀ m, k.cont p ≠ .mutexLockAcquire m := fun m heq =>
    hh m (((hl.waits h p hp hne).2 m).1 heq)
  have hhanded : ∀ m x, Handed { k.setStatus p .ready with links := L } (move q p h .readyQueue) m x ↔
      k.Handed q m x := by
    intro m x
    unfold Handed
    rw [mem_move hr hp]
    by_cases hx : x = p
    · subst hx
      exact ⟨fun hx => absurd hx.2.1 (hcont m), fun hx => absurd hx.1 hpready⟩
    · rw [if_neg hx]
      rfl
  refine ⟨hl.single, hl.unlocked, fun m hm' => ?_, fun m hm' => ?_, fun g x hx hg => ?_,
    fun g x hx hg => ?_, fun x hx => ?_, fun m x hx => hl.granted m x ((hhanded m x).1 hx),
    hl.holds, fun m => ?_, hl.plain⟩
  · obtain ⟨x, hx, hown⟩ := hl.owner m hm'
    exact ⟨x, hx, hown.imp_right (Or.imp_left (hhanded m x).2)⟩
  · rw [hqueue] at hm'
    exact hl.queued m hm'
  · rw [mem_move hr hp] at hx
    by_cases hxp : x = p
    · rw [if_pos hxp] at hx
      exact absurd hx hg
    · rw [if_neg hxp] at hx
      simpa only [setStatus, Function.update_of_ne hxp] using hl.waits g x hx hg
  · rw [mem_move hr hp] at hx
    by_cases hxp : x = p
    · rw [if_pos hxp] at hx
      exact absurd hx hg
    · rw [if_neg hxp] at hx
      exact hl.asleep g x hx hg
  · rw [mem_move hr hp] at hx
    by_cases hxp : x = p
    · simp [hxp, setStatus]
    · rw [if_neg hxp] at hx
      simpa only [setStatus, Function.update_of_ne hxp] using hl.awake x hx
  · rw [hqueue]
    exact hl.order m

/-- Wake-ups from queues that are no queues of mutexes. -/
lemma Wakes.locks {from' : Head → Prop} {k' : Kernel} {q' : Head → List Pcb}
    (hw : Wakes from' k q k' q') (hready : ¬ from' .readyQueue)
    (hfrom : ∀ m, ¬ from' (.blockQueue m)) (hm : k.Mid q out gone)
    (hl : k.Locks q gone' inside last) :
    k'.Locks q' gone' inside last ∧ ∀ m, q' (.blockQueue m) = q (.blockQueue m) := by
  induction hw with
  | refl => exact ⟨hl, fun _ => rfl⟩
  | tail hw hh hp hk ih =>
    have hne : ∀ h', from' h' → h' ≠ .readyQueue := fun h' hh' heq => hready (heq ▸ hh')
    have hnb : ∀ h' m, from' h' → h' ≠ .blockQueue m := fun h' m hh' heq => hfrom m (heq ▸ hh')
    have hm' := (hw.mid hready hm).1
    obtain ⟨L, hL, -⟩ := hm'.doUnblock hp (hne _ hh)
    obtain rfl := Option.some.inj (hk.symm.trans hL)
    refine ⟨ih.1.wake hm' hp (hne _ hh) fun m => hnb _ m hh, fun m => ?_⟩
    rw [move_of_ne (hnb _ m hh).symm (by simp)]
    exact ih.2 m

/-- A release by, or for, the owner of the mutex, which leaves it. -/
lemma Locks.release {k' : Kernel} {q' : Head → List Pcb} (hm : k.Mid q out gone)
    (hl : k.Locks q gone' inside last) (hsub : ∀ n x, inside' n x → inside n x)
    (hsame : ∀ n x, n ≠ m → inside n x → inside' n x) (hinside : ∀ x, ¬ inside' m x)
    (hhand : ∀ x, ¬ k.Handed q m x) (hlive : ∀ p ∈ q (.blockQueue m), k.pid p ≠ 0)
    (hk : k.Released q m k' q') :
    k'.Locks q' gone' inside' last ∧ k'.pid = k.pid ∧
      (∀ n, n ≠ m → k'.mlocks n = k.mlocks n ∧ q' (.blockQueue n) = q (.blockQueue n)) ∧
      ((k'.mlocks m).pid = 0 ∨ ∃ p ∈ q (.blockQueue m), (k'.mlocks m).pid = k.pid p) ∧
      ∃ l, q (.blockQueue m) = l ++ q' (.blockQueue m) ∧ l.length ≤ 1 := by
  rcases hk with ⟨hempty, rfl, rfl⟩ | ⟨p, l, L, hq, rfl, rfl⟩
  · have hmlock : ∀ n, n ≠ m → (k.setMlock m ⟨false, 0⟩).mlocks n = k.mlocks n := fun n hn =>
      Function.update_of_ne hn ..
    have hself : (k.setMlock m ⟨false, 0⟩).mlocks m = ⟨false, 0⟩ := Function.update_self ..
    refine ⟨⟨hl.single, fun n => ?_, fun n hn => ?_, fun n hn => ?_, hl.waits, hl.asleep,
      hl.awake, fun n x hx => ?_, fun n x hx => ?_, hl.order, hl.plain⟩, rfl,
      fun n hn => ⟨hmlock n hn, rfl⟩,
      .inl (by rw [hself]), ⟨[], rfl, Nat.zero_le _⟩⟩
    · by_cases hnm : n = m
      · subst hnm
        rw [hself]
        simp
      · rw [hmlock n hnm]
        exact hl.unlocked n
    · by_cases hnm : n = m
      · subst hnm
        rw [hself] at hn
        exact absurd rfl hn
      · rw [hmlock n hnm] at hn ⊢
        obtain ⟨x, hx, hown⟩ := hl.owner n hn
        exact ⟨x, hx, hown.imp_left (hsame n x hnm)⟩
    · by_cases hnm : n = m
      · exact absurd (hnm ▸ hempty) hn
      · rw [hmlock n hnm]
        exact hl.queued n hn
    · by_cases hnm : n = m
      · exact absurd (hnm ▸ hx) (hhand x)
      · rw [hmlock n hnm]
        exact hl.granted n x hx
    · by_cases hnm : n = m
      · exact absurd (hnm ▸ hx) (hinside x)
      · rw [hmlock n hnm]
        exact hl.holds n x (hsub n x hx)
  · have hr := hm.lists.repr
    have hp : p ∈ q (.blockQueue m) := by rw [hq]; exact List.mem_cons_self
    have hpid : k.pid p ≠ 0 := hlive p hp
    have hpready : p ∉ q .readyQueue := fun hmem => by
      have := hr.disjoint _ _ p hp hmem
      simp at this
    obtain ⟨-, hpcont⟩ := hl.waits _ p hp (by simp)
    have hlocked : (k.mlocks m).locked = true := hl.queued m (by rw [hq]; simp)
    obtain ⟨k₁, hk₁⟩ : ∃ k₁ : Kernel, k₁ =
        { (k.setMlock m ⟨(k.mlocks m).locked, k.pid p⟩).setStatus p .ready with links := L } :=
      ⟨_, rfl⟩
    rw [← hk₁]
    have hmlock : ∀ n, n ≠ m → k₁.mlocks n = k.mlocks n := fun n hn => by
      rw [hk₁]
      exact Function.update_of_ne hn ..
    have hself : k₁.mlocks m = ⟨true, k.pid p⟩ := by
      rw [hk₁, ← hlocked]
      exact Function.update_self ..
    have hpids : k₁.pid = k.pid := by rw [hk₁]; rfl
    have hqueue : ∀ n, n ≠ m → move q p (.blockQueue m) .readyQueue (.blockQueue n) =
        q (.blockQueue n) := fun n hn => move_of_ne (by simpa using hn) (by simp)
    have hpop : move q p (.blockQueue m) .readyQueue (.blockQueue m) = l := by
      rw [move_from (by simp), hq, List.erase_cons_head]
    -- the first waiter is handed the mutex, and nobody else changes
    have hhanded : ∀ n x, k₁.Handed (move q p (.blockQueue m) .readyQueue) n x ↔
        if x = p then n = m ∧ k.Suspended p else k.Handed q n x := by
      intro n x
      unfold Handed
      rw [mem_move hr hp]
      have hc : k₁.cont = k.cont := by rw [hk₁]; rfl
      have hs : ∀ y, k₁.Suspended y ↔ k.Suspended y := by
        intro y
        rw [hk₁]
        rfl
      rw [hc, hs]
      by_cases hx : x = p
      · subst hx
        rw [if_pos rfl, if_pos rfl, hpcont n]
        simp [eq_comm]
      · rw [if_neg hx, if_neg hx]
    have hsus : k.Suspended p := fun d hd => absurd hd (hl.asleep _ p hp (by simp) d)
    refine ⟨⟨?_, fun n => ?_, fun n hn => ?_, fun n hn => ?_, fun g x hx hg => ?_,
      fun g x hx hg => ?_, fun x hx => ?_, fun n x hx => ?_, fun n x hx => ?_, fun n => ?_,
      by rw [hk₁]; exact hl.plain⟩, hpids,
      fun n hn => ⟨hmlock n hn, hqueue n hn⟩, .inr ⟨p, hp, by rw [hself]⟩,
      ⟨[p], by rw [hpop, hq]; rfl, le_rfl⟩⟩
    · rw [hpids]
      exact hl.single
    · by_cases hnm : n = m
      · subst hnm
        rw [hself]
        simp [hpid]
      · rw [hmlock n hnm]
        exact hl.unlocked n
    · by_cases hnm : n = m
      · subst hnm
        exact ⟨p, by rw [hself, hpids], .inr (.inl ((hhanded n p).2 (by simp [hsus])))⟩
      · rw [hmlock n hnm] at hn ⊢
        obtain ⟨x, hx, hown⟩ := hl.owner n hn
        refine ⟨x, by rw [hpids, hx], hown.imp (hsame n x hnm)
          (Or.imp_left fun hh => (hhanded n x).2 ?_)⟩
        rw [if_neg]
        · exact hh
        · rintro rfl
          exact hpready hh.1
    · by_cases hnm : n = m
      · subst hnm
        rw [hself]
      · rw [hmlock n hnm]
        rw [hqueue n hnm] at hn
        exact hl.queued n hn
    · rw [mem_move hr hp] at hx
      by_cases hxp : x = p
      · rw [if_pos hxp] at hx
        exact absurd hx hg
      · rw [if_neg hxp] at hx
        rw [hk₁]
        simpa only [setStatus, setMlock, Function.update_of_ne hxp] using hl.waits g x hx hg
    · rw [mem_move hr hp] at hx
      by_cases hxp : x = p
      · rw [if_pos hxp] at hx
        exact absurd hx hg
      · rw [if_neg hxp] at hx
        rw [hk₁]
        exact hl.asleep g x hx hg
    · rw [mem_move hr hp] at hx
      rw [hk₁]
      by_cases hxp : x = p
      · simp [hxp, setStatus]
      · rw [if_neg hxp] at hx
        simpa only [setStatus, setMlock, Function.update_of_ne hxp] using hl.awake x hx
    · have hh := (hhanded n x).1 hx
      by_cases hxp : x = p
      · rw [if_pos hxp] at hh
        rw [hh.1, hself, hpids, hxp]
      · rw [if_neg hxp] at hh
        have hnm : n ≠ m := by
          rintro rfl
          exact hhand x hh
        rw [hmlock n hnm, hpids]
        exact hl.granted n x hh
    · have hnm : n ≠ m := by
        rintro rfl
        exact hinside x hx
      rw [hmlock n hnm, hpids]
      exact hl.holds n x (hsub n x hx)
    · by_cases hnm : n = m
      · subst hnm
        rw [hpop]
        have := hl.order n
        rw [hq] at this
        exact (List.pairwise_cons.1 this).2
      · rw [hqueue n hnm]
        exact hl.order n

/-- Who is handed what when the task `p` of CPU `c` was switched away from. -/
lemma handed_switched {q' : Head → List Pcb} {L : Links Head Pcb} {st : TaskStatus} {r x : Pcb}
    {cont : Cont} (hrun : k.runnings c = some p) (hin : k.inKernel = none ∨ k.inKernel = some c)
    (hx : x ≠ p) (hmem : x ∈ q' .readyQueue ↔ x ∈ q .readyQueue) :
    (k.switched c p L st r cont).Handed q' m x ↔ k.Handed q m x := by
  have hcont : (k.switched c p L st r cont).cont x = k.cont x := Function.update_of_ne hx ..
  have hsus : (k.switched c p L st r cont).Suspended x ↔ k.Suspended x := by
    constructor
    · intro hs d hd
      have hdc : d ≠ c := by
        rintro rfl
        exact hx (Option.some.inj (hd.symm.trans hrun))
      have : some c = some d := hs d (by
        simp only [switched, Function.update_of_ne hdc]
        exact hd)
      exact absurd (Option.some.inj this).symm hdc
    · intro hs d hd
      by_cases hdc : d = c
      · exact congrArg some hdc.symm
      · simp only [switched, Function.update_of_ne hdc] at hd
        rcases hin with h0 | hc
        · exact absurd ((hs d hd).symm.trans h0) (Option.some_ne_none d)
        · exact absurd (Option.some.inj ((hs d hd).symm.trans hc)) hdc
  unfold Handed
  rw [hmem, hcont, hsus]

/-- A task is switched away from and put on the queue `h`. -/
lemma Locks.switch {h : Head} {L : Links Head Pcb} {st : TaskStatus} {r : Pcb} {cont : Cont}
    (hm : k.Mid q none none) (hl : k.Locks q none inside last) (hrun : k.runnings c = some p)
    (hp : p ∈ q .readyQueue) (hin : k.inKernel = none ∨ k.inKernel = some c)
    (hcur : ∀ m, ¬ k.Handed q m p)
    (hst : h = .readyQueue ∧ st = .ready ∧ cont = .ret ∨ h ≠ .readyQueue ∧ st = .blocked ∧
      ∀ m, cont = .mutexLockAcquire m ↔ h = .blockQueue m)
    (hlocked : ∀ m, h = .blockQueue m → (k.mlocks m).locked = true)
    (hlast : ∀ x, x ≠ p → last x < last p) (hplain : Plain cont)
    (hpick : r = idlePcb c ∨ r ∈ move q p .readyQueue h .readyQueue) :
    (k.switched c p L st r cont).Locks (move q p .readyQueue h) none inside last ∧
      ∀ m, ∀ x ∈ q (.blockQueue m), x ∈ move q p .readyQueue h (.blockQueue m) := by
  have hr := hm.lists.repr
  have hready : ∀ x, x ≠ p → (x ∈ move q p .readyQueue h .readyQueue ↔ x ∈ q .readyQueue) := by
    intro x hx
    rw [mem_move hr hp, if_neg hx]
  -- who waits is not picked
  have hnotr : ∀ g x, x ∈ move q p .readyQueue h g → g ≠ .readyQueue → x ≠ r := by
    rintro g x hx hg rfl
    rcases hpick with rfl | hmem
    · rw [mem_move hr hp] at hx
      by_cases hxp : idlePcb c = p
      · exact hm.lists.idle_notMem c _ (hxp ▸ hp)
      · rw [if_neg hxp] at hx
        exact hm.lists.idle_notMem c _ hx
    · rw [mem_move hr hp] at hx hmem
      by_cases hxp : x = p
      · rw [if_pos hxp] at hx hmem
        exact hg (hx.trans hmem.symm)
      · rw [if_neg hxp] at hx hmem
        exact hg (hr.disjoint _ _ x hx hmem)
  have hcases : ∀ g x, x ∈ move q p .readyQueue h g →
      x = p ∧ g = h ∨ x ≠ p ∧ x ∈ q g := by
    intro g x hx
    rw [mem_move hr hp] at hx
    by_cases hxp : x = p
    · exact .inl ⟨hxp, by rwa [if_pos hxp] at hx⟩
    · exact .inr ⟨hxp, by rwa [if_neg hxp] at hx⟩
  have hbq : ∀ m, move q p .readyQueue h (.blockQueue m) = q (.blockQueue m) ∨
      h = .blockQueue m ∧ move q p .readyQueue h (.blockQueue m) = q (.blockQueue m) ++ [p] := by
    intro m
    by_cases hh : h = .blockQueue m
    · subst hh
      exact .inr ⟨rfl, move_to (by simp)⟩
    · exact .inl (move_of_ne (by simp) (Ne.symm hh))
  refine ⟨⟨hl.single, hl.unlocked, fun m hm' => ?_, fun m hm' => ?_, fun g x hx hg => ?_,
    fun g x hx hg d hd => ?_, fun x hx => ?_, fun m x hx => ?_, hl.holds, fun m => ?_,
    plain_update hl.plain hplain⟩, ?_⟩
  · obtain ⟨x, hx, hin' | hh | hg⟩ := hl.owner m hm'
    · exact ⟨x, hx, .inl hin'⟩
    · have hxp : x ≠ p := by
        rintro rfl
        exact hcur m hh
      exact ⟨x, hx, .inr (.inl ((handed_switched hrun hin hxp (hready x hxp)).2 hh))⟩
    · cases hg
  · rcases hbq m with heq | ⟨hh, -⟩
    · rw [heq] at hm'
      exact hl.queued m hm'
    · exact hlocked m hh
  · have hxr := hnotr g x hx hg
    simp only [switched, Function.update_of_ne hxr]
    rcases hcases g x hx with ⟨rfl, rfl⟩ | ⟨hxp, hx⟩
    · rcases hst with ⟨hgr, -, -⟩ | ⟨-, rfl, hcont⟩
      · exact absurd hgr hg
      · simpa only [Function.update_self, true_and] using hcont
    · simpa only [Function.update_of_ne hxp] using hl.waits g x hx hg
  · have hxr := hnotr g x hx hg
    simp only [switched] at hd
    by_cases hdc : d = c
    · subst hdc
      rw [Function.update_self, Option.some.injEq] at hd
      exact hxr hd.symm
    · rw [Function.update_of_ne hdc] at hd
      rcases hcases g x hx with ⟨rfl, rfl⟩ | ⟨hxp, hx⟩
      · exact hdc (hm.runs.distinct d c x (by simp) (by simp) hd hrun)
      · exact hl.asleep g x hx hg d hd
  · by_cases hxr : x = r
    · simp [switched, hxr]
    · simp only [switched, Function.update_of_ne hxr]
      rcases hcases _ x hx with ⟨rfl, hh⟩ | ⟨hxp, hx⟩
      · rcases hst with ⟨-, rfl, -⟩ | ⟨hne, -, -⟩
        · simp
        · exact absurd hh.symm hne
      · simpa only [Function.update_of_ne hxp] using hl.awake x hx
  · by_cases hxp : x = p
    · subst hxp
      rcases hcases _ x hx.1 with ⟨-, hh⟩ | ⟨hne, -⟩
      · rcases hst with ⟨-, -, rfl⟩ | ⟨hne, -, -⟩
        · have := hx.2.1
          simp [switched] at this
        · exact absurd hh.symm hne
      · exact absurd rfl hne
    · exact hl.granted m x ((handed_switched hrun hin hxp (hready x hxp)).1 hx)
  · rcases hbq m with heq | ⟨-, heq⟩
    · rw [heq]
      exact hl.order m
    · rw [heq, List.pairwise_append]
      refine ⟨hl.order m, List.pairwise_singleton _ _, fun x hx y hy => ?_⟩
      rw [List.mem_singleton] at hy
      subst hy
      refine hlast x ?_
      rintro rfl
      have := hr.disjoint _ _ x hx hp
      simp at this
  · intro m x hx
    rcases hbq m with heq | ⟨-, heq⟩
    · rwa [heq]
    · rw [heq]
      exact List.mem_append_left _ hx

/-- A task that is on no queue is switched away from: an idle task, or one that
exits. -/
lemma Locks.switchOff (L : Links Head Pcb) (r : Pcb) (st : TaskStatus) (hm : k.Mid q out gone)
    (hl : k.Locks q gone' inside last) (hrun : k.runnings c = some p)
    (hin : k.inKernel = none ∨ k.inKernel = some c) (hoff : ∀ g, p ∉ q g)
    (hpick : r = idlePcb c ∨ r ∈ q .readyQueue) :
    (k.switched c p L st r .ret).Locks q gone' inside last := by
  have hne : ∀ g x, x ∈ q g → x ≠ p := by
    rintro g x hx rfl
    exact hoff g hx
  have hnotr : ∀ g x, x ∈ q g → g ≠ .readyQueue → x ≠ r := by
    rintro g x hx hg rfl
    rcases hpick with rfl | hmem
    · exact hm.lists.idle_notMem c g hx
    · exact hg (hm.lists.repr.disjoint _ _ x hx hmem)
  refine ⟨hl.single, hl.unlocked, fun m hm' => ?_, hl.queued, fun g x hx hg => ?_,
    fun g x hx hg d hd => ?_, fun x hx => ?_, fun m x hx => ?_, hl.holds, hl.order,
    plain_update hl.plain trivial⟩
  · obtain ⟨x, hx, hin' | hh | hg⟩ := hl.owner m hm'
    · exact ⟨x, hx, .inl hin'⟩
    · exact ⟨x, hx, .inr (.inl ((handed_switched hrun hin (hne _ x hh.1) Iff.rfl).2 hh))⟩
    · exact ⟨x, hx, .inr (.inr hg)⟩
  · simpa only [switched, Function.update_of_ne (hnotr g x hx hg),
      Function.update_of_ne (hne g x hx)] using hl.waits g x hx hg
  · simp only [switched] at hd
    by_cases hdc : d = c
    · subst hdc
      rw [Function.update_self, Option.some.injEq] at hd
      exact hnotr g x hx hg hd.symm
    · rw [Function.update_of_ne hdc] at hd
      exact hl.asleep g x hx hg d hd
  · by_cases hxr : x = r
    · simp [switched, hxr]
    · simpa only [switched, Function.update_of_ne hxr, Function.update_of_ne (hne _ x hx)] using
        hl.awake x hx
  · exact hl.granted m x ((handed_switched hrun hin (hne _ x hx.1) Iff.rfl).1 hx)

/-- `ret_from_kernel` of a task: what it was handed, it is inside of. -/
lemma Locks.ret (hl : k.Locks q gone inside last) (hrun : k.runnings c = some p)
    (hin : k.inKernel = none ∨ k.inKernel = some c) (hcur : ∀ m, k.Handed q m p → inside m p) :
    (k.retFromKernel c).Locks q gone inside last := by
  have hfields : (k.retFromKernel c).pid = k.pid ∧ (k.retFromKernel c).mlocks = k.mlocks ∧
      (k.retFromKernel c).status = k.status ∧ (k.retFromKernel c).cont = k.cont ∧
      (k.retFromKernel c).runnings = k.runnings ∧ (k.retFromKernel c).inKernel = none := by
    unfold Kernel.retFromKernel switchPgdir
    rw [hrun]
    exact ⟨rfl, rfl, rfl, rfl, rfl, rfl⟩
  obtain ⟨hpid, hmlocks, hstatus, hcont, hruns, hker⟩ := hfields
  have hbefore : ∀ m x, (k.retFromKernel c).Handed q m x → k.Handed q m x := by
    unfold Handed Suspended
    rw [hcont, hruns, hker]
    rintro m x ⟨hx, hc, hs⟩
    exact ⟨hx, hc, fun d hd => absurd (hs d hd).symm (Option.some_ne_none d)⟩
  have hafter : ∀ m x, k.Handed q m x → inside m x ∨ (k.retFromKernel c).Handed q m x := by
    intro m x hx
    by_cases hxp : x = p
    · exact .inl (hxp ▸ hcur m (hxp ▸ hx))
    · refine .inr ⟨hx.1, by rw [hcont]; exact hx.2.1, fun d hd => ?_⟩
      rw [hruns] at hd
      rcases hin with h0 | h0
      · exact absurd ((hx.2.2 d hd).symm.trans h0) (Option.some_ne_none d)
      · obtain rfl := Option.some.inj ((hx.2.2 d hd).symm.trans h0)
        exact absurd (Option.some.inj (hd.symm.trans hrun)) hxp
  refine ⟨?_, ?_, ?_, ?_, ?_, ?_, ?_, ?_, ?_, hl.order, by rw [hcont]; exact hl.plain⟩
  · rw [hpid]; exact hl.single
  · rw [hmlocks]; exact hl.unlocked
  · intro m hm
    rw [hmlocks] at hm ⊢
    obtain ⟨x, hx, hin' | hh | hg⟩ := hl.owner m hm
    · exact ⟨x, by rw [hpid, hx], .inl hin'⟩
    · exact ⟨x, by rw [hpid, hx], (hafter m x hh).imp_right .inl⟩
    · exact ⟨x, by rw [hpid, hx], .inr (.inr hg)⟩
  · rw [hmlocks]; exact hl.queued
  · rw [hstatus, hcont]; exact hl.waits
  · rw [hruns]; exact hl.asleep
  · rw [hstatus]; exact hl.awake
  · intro m x hx
    rw [hmlocks, hpid]
    exact hl.granted m x (hbefore m x hx)
  · rw [hmlocks, hpid]; exact hl.holds

/-- A free mutex is taken. -/
lemma Locks.take (hm : k.Mid q none none) (hl : k.Locks q none inside last)
    (hfree : (k.mlocks m).locked = false) (hpid : k.pid p ≠ 0) :
    (k.setMlock m ⟨true, k.pid p⟩).Locks q none (fun n x => inside n x ∨ n = m ∧ x = p) last := by
  have hzero : (k.mlocks m).pid = 0 := (hl.unlocked m).1 hfree
  have hmlock : ∀ n, n ≠ m → (k.setMlock m ⟨true, k.pid p⟩).mlocks n = k.mlocks n := fun n hn =>
    Function.update_of_ne hn ..
  have hself : (k.setMlock m ⟨true, k.pid p⟩).mlocks m = ⟨true, k.pid p⟩ :=
    Function.update_self ..
  refine ⟨hl.single, fun n => ?_, fun n hn => ?_, fun n hn => ?_, hl.waits, hl.asleep, hl.awake,
    fun n x hx => ?_, fun n x hx => ?_, hl.order, hl.plain⟩
  · by_cases hnm : n = m
    · subst hnm
      rw [hself]
      simp [hpid]
    · rw [hmlock n hnm]
      exact hl.unlocked n
  · by_cases hnm : n = m
    · subst hnm
      exact ⟨p, by rw [hself]; rfl, .inl (.inr ⟨rfl, rfl⟩)⟩
    · rw [hmlock n hnm] at hn ⊢
      obtain ⟨x, hx, hown⟩ := hl.owner n hn
      exact ⟨x, hx, hown.imp_left .inl⟩
  · by_cases hnm : n = m
    · subst hnm
      rw [hself]
    · rw [hmlock n hnm]
      exact hl.queued n hn
  · by_cases hnm : n = m
    · subst hnm
      have hx0 := (hm.life.live x (by simp)).2 ⟨_, hx.1⟩
      exact absurd ((hl.granted n x hx).symm.trans hzero) hx0
    · rw [hmlock n hnm]
      exact hl.granted n x hx
  · rcases hx with hx | ⟨rfl, rfl⟩
    · have hnm : n ≠ m := by
        rintro rfl
        obtain ⟨hx0, hown⟩ := hl.holds n x hx
        exact hx0 (hown.symm.trans hzero)
      rw [hmlock n hnm]
      exact hl.holds n x hx
    · exact ⟨hpid, by rw [hself]; rfl⟩

/-- A task that was handed a mutex enters it. -/
lemma Locks.enter (hm : k.Mid q none none) (hl : k.Locks q none inside last)
    (hp : k.Handed q m p) : k.Locks q none (fun n x => inside n x ∨ n = m ∧ x = p) last := by
  refine ⟨hl.single, hl.unlocked, fun n hn => ?_, hl.queued, hl.waits, hl.asleep, hl.awake,
    hl.granted, fun n x hx => ?_, hl.order, hl.plain⟩
  · obtain ⟨x, hx, hown⟩ := hl.owner n hn
    exact ⟨x, hx, hown.imp_left .inl⟩
  · rcases hx with hx | ⟨rfl, rfl⟩
    · exact hl.holds n x hx
    · exact ⟨(hm.life.live x (by simp)).2 ⟨_, hp.1⟩, hl.granted n x hp⟩

/-- A step of a task that waits for no mutex is recorded. -/
lemma Locks.tick (hl : k.Locks q gone inside last) (hp : ∀ m, p ∉ q (.blockQueue m)) (time : ℕ) :
    k.Locks q gone inside (Function.update last p time) := by
  refine ⟨hl.single, hl.unlocked, hl.owner, hl.queued, hl.waits, hl.asleep, hl.awake, hl.granted,
    hl.holds, fun m => ?_, hl.plain⟩
  refine (hl.order m).imp_of_mem fun {x y} hx hy hlt => ?_
  have hxp : x ≠ p := fun heq => hp m (heq ▸ hx)
  have hyp : y ≠ p := fun heq => hp m (heq ▸ hy)
  rwa [Function.update_of_ne hxp, Function.update_of_ne hyp]

/-! ## Death and birth -/

/-- The first part of `release_pcb`. -/
lemma Locks.retire {i : Slot} {h : Head} {L : Links Head Pcb} (hm : k.Mid q none none)
    (hl : k.Locks q none inside last) (hp : .slot i ∈ q h) :
    (k.retire (.slot i) L).Locks (Function.update q h ((q h).erase (.slot i))) (some (.slot i))
      (fun m x => inside m x ∧ x ≠ .slot i) last := by
  have hmem : ∀ x g, x ∈ Function.update q h ((q h).erase (.slot i)) g ↔ x ≠ .slot i ∧ x ∈ q g :=
    fun x g => mem_erase_queue hm.lists.repr hp
  have hstatus : ∀ x, x ≠ .slot i → (k.retire (.slot i) L).status x = k.status x := fun x hx =>
    Function.update_of_ne hx ..
  refine ⟨hl.single, hl.unlocked, fun m hm' => ?_, fun m hm' => ?_, fun g x hx hg => ?_,
    fun g x hx hg => hl.asleep g x ((hmem x g).1 hx).2 hg, fun x hx => ?_, fun m x hx => ?_,
    fun m x hx => hl.holds m x hx.1, fun m => ?_, hl.plain⟩
  · obtain ⟨x, hx, hown⟩ := hl.owner m hm'
    by_cases hxi : x = .slot i
    · exact ⟨x, hx, .inr (.inr (by rw [hxi]))⟩
    · rcases hown with hin | hh | hg
      · exact ⟨x, hx, .inl ⟨hin, hxi⟩⟩
      · exact ⟨x, hx, .inr (.inl ⟨(hmem x _).2 ⟨hxi, hh.1⟩, hh.2.1, hh.2.2⟩)⟩
      · cases hg
  · refine hl.queued m fun hempty => hm' ?_
    refine List.eq_nil_iff_forall_not_mem.2 fun x hx => ?_
    have := ((hmem x _).1 hx).2
    rw [hempty] at this
    exact List.not_mem_nil this
  · obtain ⟨hxi, hx⟩ := (hmem x g).1 hx
    rw [hstatus x hxi]
    exact hl.waits g x hx hg
  · obtain ⟨hxi, hx⟩ := (hmem x _).1 hx
    rw [hstatus x hxi]
    exact hl.awake x hx
  · exact hl.granted m x ⟨((hmem x _).1 hx.1).2, hx.2.1, hx.2.2⟩
  · by_cases hh : Head.blockQueue m = h
    · subst hh
      rw [Function.update_self]
      exact (hl.order m).sublist List.erase_sublist
    · rw [Function.update_of_ne hh]
      exact hl.order m

/-- `release_pcb` releases all mutexes of the PCB, and passes each of them to its
first waiter at most. -/
lemma Locks.releasePcb {i : Slot} {out : Option Cpu} (hm : k.Mid q none none)
    (hl : k.Locks q none inside last) (hpid : k.pid (.slot i) ≠ 0)
    (hout : out = none ∧ (∀ c, k.runnings c ≠ some (.slot i)) ∨
      ∃ c, out = some c ∧ k.runnings c = some (.slot i)) :
    ∃ k' q', k.releasePcb (.slot i) = some k' ∧ k'.Mid q' out (some (.slot i)) ∧
      q' (.waitList (.slot i)) = [] ∧ k.pid = k'.pid ∧ k'.runnings = k.runnings ∧
      k'.inKernel = k.inKernel ∧
      k'.Locks q' (some (.slot i)) (fun m x => inside m x ∧ x ≠ .slot i) last ∧
      (∀ m, (k'.mlocks m).pid ≠ k.pid (.slot i)) ∧
      ∀ m, ∃ l, (q (.blockQueue m)).erase (.slot i) = l ++ q' (.blockQueue m) ∧ l.length ≤ 1 := by
  obtain ⟨h, hp⟩ := (hm.life.live (.slot i) (by simp)).1 hpid
  obtain ⟨L, hL, hm₁⟩ := hm.remove hp hout
  have hl₁ := hl.retire (L := L) hm hp
  have hbq : ∀ m, Function.update q h ((q h).erase (.slot i)) (.blockQueue m) =
      (q (.blockQueue m)).erase (.slot i) := by
    intro m
    by_cases hh : Head.blockQueue m = h
    · rw [hh, Function.update_self]
    · rw [Function.update_of_ne hh, List.erase_of_not_mem]
      exact fun hmem => hh (hm.lists.repr.disjoint _ _ _ hmem hp)
  -- the loop over the mutexes: those before `ms` are done
  obtain ⟨k₂, q₂, hk₂, hm₂, hquiet₂, hl₂, -, hdone₂, -, hfair₂⟩ := releaseMlocks_rule
    (k.pid (.slot i)) (List.finRange 16) (k := k.retire (.slot i) L)
    (q := Function.update q h ((q h).erase (.slot i)))
    (P := fun ms k' q' => k'.Mid q' out (some (.slot i)) ∧ (k.retire (.slot i) L).Quiet k' ∧
      k'.Locks q' (some (.slot i)) (fun m x => inside m x ∧ x ≠ .slot i) last ∧ ms.Nodup ∧
      (∀ m ∉ ms, (k'.mlocks m).pid ≠ k.pid (.slot i)) ∧
      (∀ m ∈ ms, q' (.blockQueue m) = (q (.blockQueue m)).erase (.slot i)) ∧
      ∀ m ∉ ms, ∃ l, (q (.blockQueue m)).erase (.slot i) = l ++ q' (.blockQueue m) ∧
        l.length ≤ 1)
    (fun m ms k' q' ⟨hm', hquiet', hl', hnodup, hdone, htodo, hfair⟩ hne => by
      refine ⟨hm', hquiet', hl', hnodup.of_cons, fun n hn => ?_,
        fun n hn => htodo n (List.mem_cons_of_mem _ hn), fun n hn => ?_⟩
      · by_cases hnm : n = m
        · exact hnm ▸ hne
        · exact hdone n (by simp [hnm, hn])
      · by_cases hnm : n = m
        · exact ⟨[], by rw [hnm, htodo m List.mem_cons_self]; rfl, Nat.zero_le _⟩
        · exact hfair n (by simp [hnm, hn]))
    (fun m ms k' q' ⟨hm', hquiet', hl', hnodup, hdone, htodo, hfair⟩ hown => by
      have hpid' : k'.pid = k.pid := hquiet'.pid
      have howner : ∀ x, k'.pid x = (k'.mlocks m).pid → x = .slot i := fun x hx =>
        hl'.single x _ (by rw [hx, hown]; exact hpid) (by rw [hx, hown, hpid'])
      obtain ⟨k'', q'', hk'', hm'', hquiet'', hrel⟩ := hm'.mutexLockRelease m
      have hlive : ∀ p ∈ q' (.blockQueue m), p ≠ .slot i ∧ k'.pid p ≠ 0 := by
        intro p hp
        have hne : p ≠ .slot i := fun heq => hm'.life.off _ rfl _ (heq ▸ hp)
        exact ⟨hne, (hm'.life.live p (by simpa using hne)).2 ⟨_, hp⟩⟩
      obtain ⟨hl'', -, hother, hnew, l, hsplit, hlen⟩ := hl'.release hm'
        (fun _ _ hx => hx) (fun _ _ _ hx => hx) (fun x hx => hx.2 (howner x (hl'.holds m x hx).2.symm))
        (fun x hx => by
          have hxi := howner x (hl'.granted m x hx).symm
          exact hm'.life.off _ rfl .readyQueue (hxi ▸ hx.1))
        (fun p hp => (hlive p hp).2) hrel
      refine ⟨k'', q'', hk'', hm'', hquiet'.trans hquiet'', hl'', hnodup.of_cons, fun n hn => ?_,
        fun n hn => ?_, fun n hn => ?_⟩
      · by_cases hnm : n = m
        · subst hnm
          rcases hnew with h0 | ⟨p, hp, hpp⟩
          · rw [h0]
            exact hpid.symm
          · rw [hpp]
            intro heq
            exact (hlive p hp).1 (howner p (heq.trans hown.symm))
        · rw [(hother n hnm).1]
          exact hdone n (by simp [hnm, hn])
      · have hnm : n ≠ m := by
          rintro rfl
          exact (List.nodup_cons.1 hnodup).1 hn
        rw [(hother n hnm).2]
        exact htodo n (List.mem_cons_of_mem _ hn)
      · by_cases hnm : n = m
        · subst hnm
          exact ⟨l, by rw [← htodo n List.mem_cons_self, hsplit], hlen⟩
        · rw [(hother n hnm).2]
          exact hfair n (by simp [hnm, hn]))
    ⟨hm₁, Quiet.refl _, hl₁, List.nodup_finRange 16, fun m hm' => absurd (List.mem_finRange m) hm',
      fun m _ => hbq m, fun m hm' => absurd (List.mem_finRange m) hm'⟩
  obtain ⟨k₃, q₃, hk₃, hw, hempty⟩ := hm₂.unblockAll (h := .waitList (.slot i)) (by simp)
    (fun r hr => by
      obtain rfl := Head.waitList.inj hr
      rw [hquiet₂.pid]
      exact hpid)
  obtain ⟨hm₃, hquiet₃⟩ := hw.mid (by simp) hm₂
  obtain ⟨hl₃, hbq₃⟩ := hw.locks (by simp) (by simp) hm₂ hl₂
  have hmlocks₃ : k₃.mlocks = k₂.mlocks := hw.mlocks (by simp) hm₂
  refine ⟨k₃, q₃, by rw [releasePcb_eq hL, hk₂, Option.bind_some, hk₃], hm₃, hempty,
    (hquiet₃.pid.trans hquiet₂.pid).symm, hquiet₃.runnings.trans hquiet₂.runnings,
    hquiet₃.inKernel.trans hquiet₂.inKernel, hl₃, fun m => ?_, fun m => ?_⟩
  · rw [hmlocks₃]
    exact hdone₂ m List.not_mem_nil
  · rw [hbq₃]
    exact hfair₂ m List.not_mem_nil

/-- The end of a release. -/
lemma Locks.clearPid {i : Slot} (hm : k.Mid q out (some (.slot i)))
    (hl : k.Locks q (some (.slot i)) (fun m x => inside m x ∧ x ≠ .slot i) last)
    (hdone : ∀ m, (k.mlocks m).pid ≠ k.pid (.slot i)) :
    ((k.freePgdir (.slot i)).clearPid (.slot i)).Locks q none
      (fun m x => inside m x ∧ x ≠ .slot i) last := by
  have hpid : ∀ x, x ≠ .slot i → ((k.freePgdir (.slot i)).clearPid (.slot i)).pid x = k.pid x :=
    fun x hx => Function.update_of_ne hx ..
  have hself : ((k.freePgdir (.slot i)).clearPid (.slot i)).pid (.slot i) = 0 :=
    Function.update_self ..
  have hq : ∀ g x, x ∈ q g → x ≠ .slot i := fun g x hx heq => hm.life.off _ rfl g (heq ▸ hx)
  refine ⟨fun x y hx hxy => ?_, hl.unlocked, fun m hm' => ?_, hl.queued, hl.waits, hl.asleep,
    hl.awake, fun m x hx => ?_, fun m x hx => ?_, hl.order, hl.plain⟩
  · have hxi : x ≠ .slot i := by
      rintro rfl
      exact hx hself
    have hyi : y ≠ .slot i := by
      rintro rfl
      exact hx (hxy.trans hself)
    rw [hpid x hxi] at hx hxy
    rw [hpid y hyi] at hxy
    exact hl.single x y hx hxy
  · obtain ⟨x, hx, hown⟩ := hl.owner m hm'
    have hxi : x ≠ .slot i := by
      rintro rfl
      exact hdone m hx.symm
    refine ⟨x, by rw [hpid x hxi]; exact hx, hown.imp_right (Or.imp_right fun hg => ?_)⟩
    exact absurd (Option.some.inj hg).symm hxi
  · rw [hpid x (hq _ x hx.1)]
    exact hl.granted m x hx
  · rw [hpid x hx.2]
    exact hl.holds m x hx

/-- A new PCB with a new pid. -/
lemma Locks.created {i : Slot} (L : Links Head Pcb) (hm : k.Mid q none none)
    (hl : k.Locks q none inside last) (hfree : k.pid (.slot i) = 0) :
    (Kernel.created { k with processId := k.processId + 1, nextPgdir := k.nextPgdir + 1 } i
      k.processId k.nextPgdir L).Locks
      (Function.update q .readyQueue (q .readyQueue ++ [.slot i])) none inside last := by
  obtain ⟨k', hk'⟩ : ∃ k' : Kernel, k' = Kernel.created
      { k with processId := k.processId + 1, nextPgdir := k.nextPgdir + 1 } i k.processId
      k.nextPgdir L := ⟨_, rfl⟩
  rw [← hk']
  have hnew : ∀ x, k.pid x ≠ k.processId := by
    intro x hx
    by_cases hx0 : k.pid x = 0
    · exact hm.life.processId.ne' (hx.symm.trans hx0)
    · exact absurd hx (hm.life.pidRange x hx0).2.ne
  have hpid : ∀ x, x ≠ .slot i → k'.pid x = k.pid x := fun x hx => by
    rw [hk']
    exact Function.update_of_ne hx ..
  have hself : k'.pid (.slot i) = k.processId := by
    rw [hk']
    exact Function.update_self ..
  have hoff : ∀ g, .slot i ∉ q g := fun g hmem =>
    (hm.life.live (.slot i) (by simp)).2 ⟨g, hmem⟩ hfree
  have hne : ∀ g x, x ∈ q g → x ≠ .slot i := fun g x hx heq => hoff g (heq ▸ hx)
  have hqueue : ∀ g, g ≠ .readyQueue →
      Function.update q .readyQueue (q .readyQueue ++ [.slot i]) g = q g := fun g hg =>
    Function.update_of_ne hg ..
  have hready : ∀ x, x ∈ Function.update q .readyQueue (q .readyQueue ++ [.slot i]) .readyQueue ↔
      x ∈ q .readyQueue ∨ x = .slot i := by
    intro x
    rw [Function.update_self, List.mem_append, List.mem_singleton]
  have hhanded : ∀ m x, k'.Handed (Function.update q .readyQueue (q .readyQueue ++ [.slot i])) m x ↔
      k.Handed q m x := by
    intro m x
    unfold Handed
    rw [hready]
    by_cases hx : x = .slot i
    · subst hx
      have hcont : k'.cont (.slot i) = .ret := by
        rw [hk']
        exact Function.update_self ..
      rw [hcont]
      simp [hoff]
    · have hcont : k'.cont x = k.cont x := by
        rw [hk']
        exact Function.update_of_ne hx ..
      have hsus : k'.Suspended x ↔ k.Suspended x := by
        rw [hk']
        rfl
      rw [hcont, hsus]
      simp [hx]
  refine ⟨fun x y hx hxy => ?_, ?_, fun m hm' => ?_, fun m hm' => ?_, fun g x hx hg => ?_,
    fun g x hx hg => ?_, fun x hx => ?_, fun m x hx => ?_, fun m x hx => ?_, fun m => ?_,
    by rw [hk']; exact plain_update hl.plain trivial⟩
  · by_cases hxi : x = .slot i <;> by_cases hyi : y = .slot i
    · rw [hxi, hyi]
    · rw [hxi, hself, hpid y hyi] at hxy
      exact absurd hxy.symm (hnew y)
    · rw [hyi, hself, hpid x hxi] at hxy
      exact absurd hxy (hnew x)
    · rw [hpid x hxi] at hx hxy
      rw [hpid y hyi] at hxy
      exact hl.single x y hx hxy
  · rw [hk']
    exact hl.unlocked
  · have hmlocks : k'.mlocks = k.mlocks := by rw [hk']; rfl
    rw [hmlocks] at hm' ⊢
    obtain ⟨x, hx, hown⟩ := hl.owner m hm'
    have hxi : x ≠ .slot i := by
      rintro rfl
      exact hm' (hx.symm.trans hfree)
    exact ⟨x, by rw [hpid x hxi, hx], hown.imp_right (Or.imp_left (hhanded m x).2)⟩
  · rw [hqueue _ (by simp)] at hm'
    rw [hk']
    exact hl.queued m hm'
  · rw [hqueue g hg] at hx
    have hxi := hne g x hx
    rw [hk']
    simpa only [Kernel.created, Function.update_of_ne hxi] using hl.waits g x hx hg
  · rw [hqueue g hg] at hx
    rw [hk']
    exact hl.asleep g x hx hg
  · rw [hk']
    rcases (hready x).1 hx with hx | rfl
    · simpa only [Kernel.created, Function.update_of_ne (hne _ x hx)] using hl.awake x hx
    · simp [Kernel.created]
  · have hh := (hhanded m x).1 hx
    rw [hpid x (hne _ x hh.1)]
    have hmlocks : k'.mlocks = k.mlocks := by rw [hk']; rfl
    rw [hmlocks]
    exact hl.granted m x hh
  · obtain ⟨hx0, hown⟩ := hl.holds m x hx
    have hxi : x ≠ .slot i := by
      rintro rfl
      exact hx0 hfree
    rw [hpid x hxi]
    have hmlocks : k'.mlocks = k.mlocks := by rw [hk']; rfl
    rw [hmlocks]
    exact ⟨hx0, hown⟩
  · rw [hqueue _ (by simp)]
    exact hl.order m

/-- The first switch of CPU 1. -/
lemma Locks.slaveJoin {second : Pcb} (hm : k.Mid q none none) (hl : k.Locks q none inside last)
    (hin : k.inKernel = none) (h1 : k.runnings 1 = none) (hsecond : second ∈ q .readyQueue) :
    (({ k with runnings := Function.update k.runnings 1 (some second) }.setStatus second
      .running).switchTo 1 .pid0Pcb2 .ret).Locks q none inside last := by
  obtain ⟨k', hk'⟩ : ∃ k' : Kernel, k' = ({ k with
      runnings := Function.update k.runnings 1 (some second) }.setStatus second
      .running).switchTo 1 .pid0Pcb2 .ret := ⟨_, rfl⟩
  rw [← hk']
  have hidle : ∀ g x, x ∈ q g → x ≠ .pid0Pcb2 := by
    rintro g x hx rfl
    exact hm.lists.idle_notMem 1 g hx
  have hnots : ∀ g x, x ∈ q g → g ≠ .readyQueue → x ≠ second := by
    rintro g x hx hg rfl
    exact hg (hm.lists.repr.disjoint _ _ x hx hsecond)
  have hruns : ∀ d, d ≠ 1 → k'.runnings d = k.runnings d := fun d hd => by
    rw [hk']
    exact Function.update_of_ne hd (some second) k.runnings
  have hruns1 : k'.runnings 1 = some second := by
    rw [hk']
    exact Function.update_self (1 : Cpu) (some second) k.runnings
  have hker : k'.inKernel = some 1 := by rw [hk']; rfl
  have hhanded : ∀ m x, k'.Handed q m x ↔ k.Handed q m x := by
    intro m x
    constructor
    · rintro ⟨hx, hc, hs⟩
      have hc' : k'.cont x = k.cont x := by
        rw [hk']
        exact Function.update_of_ne (hidle _ x hx) ..
      refine ⟨hx, hc'.symm.trans hc, fun d hd => ?_⟩
      have hd1 : d ≠ 1 := by
        rintro rfl
        exact Option.some_ne_none x (hd.symm.trans h1)
      have := (hs d (by rw [hruns d hd1, hd])).symm.trans hker
      exact absurd (Option.some.inj this) hd1
    · rintro ⟨hx, hc, hs⟩
      have hc' : k'.cont x = k.cont x := by
        rw [hk']
        exact Function.update_of_ne (hidle _ x hx) ..
      refine ⟨hx, hc'.trans hc, fun d hd => ?_⟩
      by_cases hd1 : d = 1
      · rw [hd1, hker]
      · rw [hruns d hd1] at hd
        exact absurd ((hs d hd).symm.trans hin) (Option.some_ne_none d)
  have hstatus : ∀ x, x ≠ second → k'.status x = k.status x := fun x hx => by
    rw [hk']
    exact Function.update_of_ne hx ..
  have hmlocks : k'.mlocks = k.mlocks := by rw [hk']; rfl
  have hpid : k'.pid = k.pid := by rw [hk']; rfl
  refine ⟨?_, ?_, fun m hm' => ?_, ?_, fun g x hx hg => ?_, fun g x hx hg d hd => ?_,
    fun x hx => ?_, fun m x hx => ?_, ?_, hl.order,
    by rw [hk']; exact plain_update hl.plain trivial⟩
  · rw [hpid]; exact hl.single
  · rw [hmlocks]; exact hl.unlocked
  · rw [hmlocks] at hm' ⊢
    obtain ⟨x, hx, hown⟩ := hl.owner m hm'
    exact ⟨x, by rw [hpid, hx], hown.imp_right (Or.imp_left (hhanded m x).2)⟩
  · rw [hmlocks]; exact hl.queued
  · rw [hstatus x (hnots g x hx hg)]
    have hc' : k'.cont x = k.cont x := by
      rw [hk']
      exact Function.update_of_ne (hidle _ x hx) ..
    rw [hc']
    exact hl.waits g x hx hg
  · by_cases hd1 : d = 1
    · rw [hd1, hruns1, Option.some.injEq] at hd
      exact hnots g x hx hg hd.symm
    · rw [hruns d hd1] at hd
      exact hl.asleep g x hx hg d hd
  · by_cases hxs : x = second
    · rw [hk', hxs]
      simp [switchTo, setStatus]
    · rw [hstatus x hxs]
      exact hl.awake x hx
  · rw [hmlocks, hpid]
    exact hl.granted m x ((hhanded m x).1 hx)
  · rw [hmlocks, hpid]; exact hl.holds

end Primitives

end Kernel
end Sched
end UcasKernel
