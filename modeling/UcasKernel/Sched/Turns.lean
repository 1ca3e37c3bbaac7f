/-
The ready queue gives turns in the order of arrival.

The PCBs of the ready queue that no CPU runs wait, in the order of the queue.  A step of
a CPU puts some PCBs at the tail of the queue: those it wakes, a new one, the task
itself if it yields.  If the step ends in a switch, the CPU goes on with the first PCB
that waits, and with its idle task only if there is none; a step that ends in a return
switches nothing.  A PCB leaves the queue out of turn when it is killed.

With two CPUs a PCB that runs stays on the ready queue, so the queue of those that wait
is not the ready queue itself; but only the task of the CPU that takes the step can give
up its place in it.
-/
import UcasKernel.Lib.DListLoop
import UcasKernel.Lib.Fifo
import UcasKernel.Sched.Exits

namespace UcasKernel
namespace Sched
namespace Kernel

open Fifo Trace

/-- Some CPU runs the PCB. -/
def runs (k : Kernel) (p : Pcb) : Bool := (List.finRange 2).any fun c => k.runnings c = some p

/-- The PCBs of the ready queue that wait for a CPU, in order. -/
def waiting (k : Kernel) : List Pcb :=
  (k.links.entries loopBound (k.links.next (.inl .readyQueue))).filter fun p => !k.runs p

/-- The same, for the queues as lists. -/
def waitingIn (k : Kernel) (q : Head → List Pcb) : List Pcb :=
  (q .readyQueue).filter fun p => !k.runs p

section Waiting

variable {k k' k₁ : Kernel} {q q' q₁ : Head → List Pcb} {c : Cpu} {p x : Pcb} {h : Head}

lemma runs_iff : k.runs x = true ↔ ∃ c, k.runnings c = some x := by
  simp [runs]

lemma runs_eq_false_iff : k.runs x = false ↔ ∀ c, k.runnings c ≠ some x := by
  simp [runs]

lemma runs_congr (h : k'.runnings = k.runnings) (x : Pcb) : k'.runs x = k.runs x := by
  simp only [runs, h]

lemma waitingIn_congr (h : k'.runnings = k.runnings) (hq : q' .readyQueue = q .readyQueue) :
    k'.waitingIn q' = k.waitingIn q := by
  simp only [waitingIn, hq, runs_congr h]

/-- Reading the heap gives the ready queue. -/
lemma waiting_eq (hr : k.links.Repr q) (hi : k.links.Init .readyQueue) :
    k.waiting = k.waitingIn q := by
  rw [waiting, hr.entries hi (length_lt_loopBound hr _)]
  rfl

/-! ## Arrivals -/

/-- PCBs joined the ready queue at its tail. -/
def Grows (q q' : Head → List Pcb) : Prop := ∃ l, q' .readyQueue = q .readyQueue ++ l

lemma Grows.refl (q : Head → List Pcb) : Grows q q := ⟨[], (List.append_nil _).symm⟩

lemma Grows.trans {q'' : Head → List Pcb} (h : Grows q q') (h' : Grows q' q'') : Grows q q'' := by
  obtain ⟨l, hl⟩ := h
  obtain ⟨l', hl'⟩ := h'
  exact ⟨l ++ l', by rw [hl', hl, List.append_assoc]⟩

lemma grows_move (hne : h ≠ .readyQueue) : Grows q (move q p h .readyQueue) :=
  ⟨[p], move_to hne.symm⟩

lemma Wakes.grows {from' : Head → Prop} (hw : Wakes from' k q k' q') (hfrom : ¬ from' .readyQueue) :
    Grows q q' := by
  induction hw with
  | refl => exact Grows.refl q
  | tail hw hh hp hk ih => exact ih.trans (grows_move fun heq => hfrom (heq ▸ hh))

lemma Released.grows {m : Slot} (h : k.Released q m k' q') : Grows q q' := by
  rcases h with ⟨-, -, rfl⟩ | ⟨p, l, L, -, -, rfl⟩
  · exact Grows.refl _
  · exact grows_move (by simp)

lemma Grows.waitingIn (h : Grows q q') (hrun : k'.runnings = k.runnings) :
    ∃ new, k'.waitingIn q' = k.waitingIn q ++ new := by
  obtain ⟨l, hl⟩ := h
  refine ⟨l.filter fun p => !k.runs p, ?_⟩
  simp only [Kernel.waitingIn, hl, List.filter_append, runs_congr hrun]

/-! ## The end of a step -/

/-- How a step of CPU `c` ends, from `w` waiting: it returns to the task, or it switches to the
first of the PCBs that wait then. -/
inductive Ends (c : Cpu) (gone : List Pcb) (k : Kernel) (w : List Pcb) (k' : Kernel)
    (w' : List Pcb) : Prop
  | ret (new : List Pcb) (hin : k'.inKernel = none) (hrun : k'.runnings = k.runnings)
      (hw : w' = settle w gone new)
  | switch (new : List Pcb) (r : Pcb) (hin : k'.inKernel = some c)
      (hrun : k'.runnings = Function.update k.runnings c (some r))
      (hw : settle w gone new = r :: w' ∨ settle w gone new = [] ∧ w' = [] ∧ r = idlePcb c)

/-- The step leads to a state with the invariant, and ends in one of these ways. -/
def Takes (c : Cpu) (gone : List Pcb) (k : Kernel) (q : Head → List Pcb) (k' : Kernel) : Prop :=
  ∃ q', k'.Inv q' ∧ Ends c gone k (k.waitingIn q) k' (k'.waitingIn q')

lemma settle_nil (w new : List Pcb) : settle w [] new = w ++ new := by
  simp [settle]

/-- What a step does before its last part only adds to those that wait. -/
lemma Takes.after (h : Takes c [] k₁ q₁ k') (hrun : k₁.runnings = k.runnings) (hq : Grows q q₁) :
    Takes c [] k q k' := by
  obtain ⟨q', hi, hends⟩ := h
  obtain ⟨new₁, hnew₁⟩ := hq.waitingIn hrun
  refine ⟨q', hi, ?_⟩
  cases hends with
  | ret new hin hrun' hw =>
    refine .ret (new₁ ++ new) hin (hrun'.trans hrun) ?_
    rw [hw, settle_nil, settle_nil, hnew₁, List.append_assoc]
  | switch new r hin hrun' hw =>
    refine .switch (new₁ ++ new) r hin (by rw [hrun', hrun]) ?_
    rw [settle_nil] at hw ⊢
    rwa [← List.append_assoc, ← hnew₁]

/-- A return. -/
lemma Mid.takesReturn (hm : k.Mid q none none) (hrun : k.runnings c = some p)
    (hp : p ≠ idlePcb c) : Takes c [] k q (k.retFromKernel c) := by
  refine ⟨q, hm.retFromKernel hrun hp, .ret [] rfl (retFromKernel_runnings k c) ?_⟩
  rw [settle_nil, List.append_nil]
  exact waitingIn_congr (retFromKernel_runnings k c) rfl

/-! ## Picking the next task -/

/-- The PCBs of the ready queue that no CPU but `c` runs. -/
def others (k : Kernel) (c : Cpu) (q : Head → List Pcb) : List Pcb :=
  (q .readyQueue).filter fun x => (List.finRange 2).all fun d => d = c ∨ k.runnings d ≠ some x

lemma mem_others : x ∈ k.others c q ↔
    x ∈ q .readyQueue ∧ ∀ d, d ≠ c → k.runnings d ≠ some x := by
  simp [others, List.mem_filter, or_iff_not_imp_left]

/-- Taking the first of some entries away. -/
lemma filter_ne_of_cons {l w : List Pcb} {r : Pcb} (hl : l.Nodup) (h : l = r :: w) :
    (l.filter fun x => decide (x ≠ r)) = w := by
  subst h
  rw [List.nodup_cons] at hl
  rw [List.filter_cons_of_neg (by simp), List.filter_eq_self]
  intro x hx
  refine decide_eq_true ?_
  rintro rfl
  exact hl.1 hx

/-- `find_idle_task` on the CPU that gave up its task picks the first PCB that waits. -/
lemma Mid.findIdleTask_first {gone : Option Pcb} (hm : k.Mid q (some c) gone)
    (hk : k.findIdleTask c = some k') :
    ∃ r, k'.runnings = Function.update k.runnings c (some r) ∧
      (k.others c q = r :: k'.waitingIn q ∨
        k.others c q = [] ∧ k'.waitingIn q = [] ∧ r = idlePcb c) := by
  have hr := hm.lists.repr
  have hready : (q .readyQueue).Nodup := hr.nodup _
  rw [findIdleTask, firstIdle_spec hr (hm.lists.init _ (by simp)), Option.bind_eq_bind,
    Option.bind_some, Option.some.injEq] at hk
  obtain ⟨r, hrdef⟩ : ∃ r, r = ((q .readyQueue).find? fun p => k.status p ≠ .running).getD
      (idlePcb c) := ⟨_, rfl⟩
  have hrun : k'.runnings = Function.update k.runnings c (some r) := by rw [← hk, hrdef]
  refine ⟨r, hrun, ?_⟩
  -- a PCB of the queue has another status exactly if no other CPU runs it
  have hothers : k.others c q = (q .readyQueue).filter fun p => decide (k.status p ≠ .running) := by
    refine List.filter_congr fun x hx => ?_
    have hiff : (∀ d, d ≠ c → k.runnings d ≠ some x) ↔ k.status x ≠ .running := by
      rw [ne_eq (k.status x), hm.runs.status x hx]
      simp only [ne_eq, Option.some.injEq, not_exists, not_and]
    have hall : ((List.finRange 2).all fun d => d = c ∨ k.runnings d ≠ some x) = true ↔
        ∀ d, d ≠ c → k.runnings d ≠ some x := by
      simp [or_iff_not_imp_left]
    rw [Bool.eq_iff_iff, hall, hiff, decide_eq_true_iff]
  have hfind : (k.others c q).head? = (q .readyQueue).find? fun p => k.status p ≠ .running := by
    rw [hothers, List.head?_filter]
  rw [← hfind] at hrdef
  have hwaiting : k'.waitingIn q = (k.others c q).filter fun x => decide (x ≠ r) := by
    rw [waitingIn, others, List.filter_filter]
    refine List.filter_congr fun x _ => ?_
    have hiff : (!k'.runs x) = true ↔ x ≠ r ∧ ∀ d, d ≠ c → k.runnings d ≠ some x := by
      rw [Bool.not_eq_true', runs_eq_false_iff, hrun]
      constructor
      · intro hno
        refine ⟨fun hx => hno c (by rw [Function.update_self, hx]), fun d hd => ?_⟩
        have hd' := hno d
        rwa [Function.update_of_ne hd] at hd'
      · rintro ⟨hx, hno⟩ d
        by_cases hd : d = c
        · subst hd
          rw [Function.update_self, ne_eq, Option.some.injEq]
          exact fun heq => hx heq.symm
        · rw [Function.update_of_ne hd]
          exact hno d hd
    rw [Bool.eq_iff_iff, hiff]
    simp [or_iff_not_imp_left]
  rw [hwaiting]
  cases hl : k.others c q with
  | nil => exact .inr ⟨rfl, rfl, by rw [hrdef, hl]; rfl⟩
  | cons y l =>
    left
    have hy : r = y := by rw [hrdef, hl]; rfl
    have hnodup : (y :: l).Nodup := hl ▸ hready.filter _
    rw [hy, filter_ne_of_cons hnodup rfl]

/-- For a PCB that CPU `c` does not run it is the same whether any CPU or another one runs it. -/
lemma others_test (hrun : k.runnings c = some p) (hx : x ≠ p) :
    ((List.finRange 2).all fun d => d = c ∨ k.runnings d ≠ some x) = !k.runs x := by
  rw [Bool.eq_iff_iff, Bool.not_eq_true', runs_eq_false_iff]
  simp only [List.all_eq_true, List.mem_finRange, decide_eq_true_eq, true_implies]
  constructor
  · intro h d hd
    rcases h d with rfl | hne
    · rw [hrun, Option.some.injEq] at hd
      exact hx hd.symm
    · exact hne hd
  · exact fun h d => .inr (h d)

/-- Those that wait once the task `p` of CPU `c` left the ready queue. -/
lemma others_erase (hrun : k.runnings c = some p) (l : List Pcb) :
    ((l.filter fun x => decide (x ≠ p)).filter fun x =>
      (List.finRange 2).all fun d => d = c ∨ k.runnings d ≠ some x) =
        l.filter fun x => !k.runs x := by
  rw [List.filter_filter]
  refine List.filter_congr fun x _ => ?_
  by_cases hx : x = p
  · have hp : k.runs p = true := runs_iff.2 ⟨c, hrun⟩
    simp [hp, hx]
  · rw [others_test hrun hx, decide_eq_true hx, Bool.and_true]

lemma others_leave {k₁ : Kernel} (hrun : k.runnings c = some p) (hk₁ : k₁.runnings = k.runnings)
    (hq : q' .readyQueue = (q .readyQueue).filter fun x => decide (x ≠ p)) :
    k₁.others c q' = k.waitingIn q := by
  simp only [others, hq, hk₁]
  exact others_erase hrun _

lemma others_yield {k₁ : Kernel} (hrun : k.runnings c = some p) (hk₁ : k₁.runnings = k.runnings)
    (honly : ∀ d, d ≠ c → k.runnings d ≠ some p)
    (hq : q' .readyQueue = ((q .readyQueue).filter fun x => decide (x ≠ p)) ++ [p]) :
    k₁.others c q' = k.waitingIn q ++ [p] := by
  have hp : ((List.finRange 2).all fun d => d = c ∨ k.runnings d ≠ some p) = true := by
    simpa [or_iff_not_imp_left] using honly
  have hself : ([p].filter fun x =>
      (List.finRange 2).all fun d => d = c ∨ k.runnings d ≠ some x) = [p] := by
    refine List.filter_eq_self.2 fun x hx => ?_
    rwa [List.mem_singleton.1 hx]
  simp only [others, hq, hk₁, List.filter_append]
  rw [others_erase hrun, hself]
  rfl

/-- `find_idle_task` behind the task that gave up its CPU. -/
lemma Mid.reschedule_first {cont : Cont} (hm : k.Mid q (some c) none)
    (hcont : ∀ d, p = idlePcb d → cont = .ret) (hk : k.reschedule c p cont = some k') :
    k'.Inv q ∧ k'.inKernel = some c ∧ ∃ r, k'.runnings = Function.update k.runnings c (some r) ∧
      (k.others c q = r :: k'.waitingIn q ∨
        k.others c q = [] ∧ k'.waitingIn q = [] ∧ r = idlePcb c) := by
  obtain ⟨r₀, hk₀, -, hinv⟩ := hm.reschedule p cont hcont
  obtain rfl := Option.some.inj (hk.symm.trans hk₀)
  rw [Kernel.reschedule, Option.bind_eq_bind, Option.bind_eq_some_iff] at hk
  obtain ⟨k₁, hpick, hk⟩ := hk
  obtain ⟨r, hrun, hfirst⟩ := hm.findIdleTask_first hpick
  have hrun' : ((k.picked c r₀).switchTo c p cont).runnings = k₁.runnings := by
    rw [← Option.some.inj hk]
    unfold switchPgdir
    cases k₁.runnings c <;> rfl
  refine ⟨hinv, rfl, r, hrun'.trans hrun, ?_⟩
  rwa [waitingIn_congr hrun' rfl]

/-! ## Blocking and scheduling -/

lemma erase_eq_filter (hr : k.links.Repr q) (h : Head) (p : Pcb) :
    (q h).erase p = (q h).filter fun x => decide (x ≠ p) := by
  rw [(hr.nodup h).erase_eq_filter]
  exact List.filter_congr fun x _ => by simp [bne, BEq.beq]

/-- `do_block`. -/
lemma Mid.takesBlock {cont : Cont} (hm : k.Mid q none none) (hrun : k.runnings c = some p)
    (hp : p ≠ idlePcb c) (hh : ∀ r, h = .waitList r → k.pid r ≠ 0) (hne : h ≠ .readyQueue)
    (hk : k.doBlock c p h cont = some k') : Takes c [] k q k' := by
  have hpr : p ∈ q .readyQueue := (hm.runs.run c p (by simp) hrun).resolve_left hp
  obtain ⟨L, hL, hm'⟩ := hm.leave .blocked hrun hp (hm.init hh) hh (by simp)
  have hres : ({ k with links := L }.setStatus p .blocked).reschedule c p cont = some k' := by
    obtain ⟨k₁, hk₁, hk₂⟩ := Option.bind_eq_some_iff.1 hL
    simp only [Kernel.doBlock, hk₁, hk₂, Option.bind_eq_bind, Option.bind_some] at hk
    exact hk
  obtain ⟨hinv, hin, r, hrun', hfirst⟩ := hm'.reschedule_first
    (fun d hd => absurd (hd ▸ hpr) (hm.lists.idle_notMem d _)) hres
  have hothers : ({ k with links := L }.setStatus p .blocked).others c
      (move q p .readyQueue h) = k.waitingIn q := by
    refine others_leave hrun rfl ?_
    rw [move_from hne.symm, erase_eq_filter hm.lists.repr]
  rw [hothers] at hfirst
  exact ⟨_, hinv, .switch [] r hin hrun' (by rwa [settle_nil, List.append_nil])⟩

/-- `do_scheduler`. -/
lemma Mid.takesScheduler {env : Env} (hm : k.Mid q none none) (hrun : k.runnings c = some p)
    (hk : k.doScheduler c p env = some k') : Takes c [] k q k' := by
  obtain ⟨k₁, k₂, k₃, q₃, hk₁, hk₂, hk₃, hw⟩ := hm.scans env
  obtain ⟨hm₃, hquiet₃⟩ := hw.mid (by simp [Scanned]) hm
  have hrun₃ : k₃.runnings c = some p := by rw [hquiet₃.runnings, hrun]
  refine Takes.after ?_ hquiet₃.runnings (hw.grows (by simp [Scanned]))
  simp only [Kernel.doScheduler, hk₁, hk₂, hk₃, Option.bind_eq_bind, Option.bind_some] at hk
  by_cases hp : p = idlePcb c
  · -- an idle task is on no queue
    subst hp
    have hidle : ¬ (idlePcb c ≠ .pid0Pcb ∧ idlePcb c ≠ .pid0Pcb2) := by
      rcases cpu_cases c with rfl | rfl <;> simp [idlePcb]
    rw [if_neg hidle] at hk
    obtain ⟨hinv, hin, r, hrun', hfirst⟩ :=
      (hm₃.leaveIdle hrun₃).reschedule_first (fun _ _ => rfl) hk
    have hothers : (k₃.setStatus (idlePcb c) .ready).others c q₃ = k₃.waitingIn q₃ := by
      refine others_leave hrun₃ rfl (List.filter_eq_self.2 fun x hx => decide_eq_true ?_).symm
      intro heq
      exact hm₃.lists.idle_notMem c _ (heq ▸ hx)
    rw [hothers] at hfirst
    exact ⟨_, hinv, .switch [] r hin hrun' (by rwa [settle_nil, List.append_nil])⟩
  · -- the task goes to the tail of the ready queue
    have hmem : p ∈ q₃ .readyQueue := (hm₃.runs.run c p (by simp) hrun₃).resolve_left hp
    have hslot : p ≠ .pid0Pcb ∧ p ≠ .pid0Pcb2 := by
      obtain ⟨i, rfl⟩ := hm₃.lists.slots _ _ hmem
      exact ⟨by simp, by simp⟩
    rw [if_pos hslot] at hk
    obtain ⟨L, hL, hm'⟩ := hm₃.leave .ready hrun₃ hp
      (hm₃.lists.init .readyQueue (by simp)) (by simp) (by simp)
    -- the status is set before the move in the code
    have hL' : (((k₃.setStatus p .ready).listDeleteEntry p).bind fun k =>
        k.listAddTail p .readyQueue) = some ({ k₃ with links := L }.setStatus p .ready) := by
      simp only [listDeleteEntry, listAddTail, Option.bind_eq_some_iff, Option.map_eq_some_iff]
        at hL ⊢
      obtain ⟨_, ⟨L₁, hL₁, rfl⟩, L₂, hL₂, heq⟩ := hL
      have hLeq : L₂ = L := congrArg Kernel.links heq
      exact ⟨_, ⟨L₁, hL₁, rfl⟩, L₂, hL₂, by rw [hLeq]; rfl⟩
    rw [← Option.bind_assoc, hL', Option.bind_some] at hk
    obtain ⟨hinv, hin, r, hrun', hfirst⟩ := hm'.reschedule_first (fun _ _ => rfl) hk
    have hothers : ({ k₃ with links := L }.setStatus p .ready).others c
        (move q₃ p .readyQueue .readyQueue) = k₃.waitingIn q₃ ++ [p] := by
      refine others_yield hrun₃ rfl
        (fun d hd hd' => hd (hm₃.runs.distinct d c p (by simp) (by simp) hd' hrun₃)) ?_
      rw [← erase_eq_filter hm₃.lists.repr]
      simp [move]
    rw [hothers] at hfirst
    exact ⟨_, hinv, .switch [p] r hin hrun' (by rwa [settle_nil])⟩

end Waiting

/-! ## The calls -/

section Calls

variable {k k' k₁ : Kernel} {q q₁ : Head → List Pcb} {c : Cpu} {p : Pcb} {h : Head} {env : Env}

/-- A call that only adds to those that wait, and returns. -/
lemma Mid.takesReturning {o : Option Kernel} (hrun : k.runnings c = some p) (hp : p ≠ idlePcb c)
    (ho : ∀ k₁, o = some k₁ → ∃ q₁, k₁.Mid q₁ none none ∧ k₁.runnings = k.runnings ∧ Grows q q₁)
    (hk : Kernel.returning o c = some k') : Takes c [] k q k' := by
  obtain ⟨k₁, hk₁, rfl⟩ := Option.map_eq_some_iff.1 hk
  obtain ⟨q₁, hm₁, hrun₁, hq₁⟩ := ho k₁ hk₁
  exact (hm₁.takesReturn (p := p) (by rw [hrun₁, hrun]) hp).after hrun₁ hq₁

lemma Mid.takesAcquire {m : Slot} {cont : Cont} {next : Kernel → Option Kernel}
    (hm : k.Mid q none none) (hrun : k.runnings c = some p) (hp : p ≠ idlePcb c)
    (hnext : ∀ k₁ k', k₁.Mid q none none → k₁.runnings = k.runnings → next k₁ = some k' →
      Takes c [] k₁ q k')
    (hk : k.mutexLockAcquire c p m cont next = some k') : Takes c [] k q k' := by
  unfold Kernel.mutexLockAcquire at hk
  split at hk
  · exact hm.takesBlock hrun hp (by simp) (by simp) hk
  · exact (hnext _ k' (hm.setMlock m _) rfl hk).after rfl (Grows.refl q)

lemma Mid.takesBarrierWait {b : Slot} (hm : k.Mid q none none) (hrun : k.runnings c = some p)
    (hp : p ≠ idlePcb c) (hk : k.barrierWait c p b = some k') : Takes c [] k q k' := by
  have hm₁ := hm.setBarrier b { k.barriers b with current := (k.barriers b).current + 1 }
  simp only [Kernel.barrierWait] at hk
  split at hk
  · exact (hm₁.takesBlock hrun hp (by simp) (by simp) hk).after rfl (Grows.refl q)
  · obtain ⟨k₂, q₂, hk₂, hw, -⟩ := hm₁.unblockAll (h := .blockList b) (by simp) (by simp)
    obtain ⟨hm₂, hquiet₂⟩ := hw.mid (by simp) hm₁
    rw [hk₂, Option.bind_eq_bind, Option.bind_some, Option.some.injEq] at hk
    subst hk
    exact ((hm₂.setBarrier b _).takesReturn (p := p) ((congrFun hquiet₂.runnings c).trans hrun)
      hp).after hquiet₂.runnings (hw.grows (by simp))

lemma Mid.takesConditionWait {i m : Slot} (hm : k.Mid q none none) (hrun : k.runnings c = some p)
    (hp : p ≠ idlePcb c) (hk : k.conditionWait c p i m = some k') : Takes c [] k q k' := by
  obtain ⟨k₁, q₁, hk₁, hm₁, hquiet₁, hrel⟩ := hm.mutexLockRelease m
  rw [Kernel.conditionWait, hk₁, Option.bind_eq_bind, Option.bind_some] at hk
  exact (hm₁.takesBlock ((congrFun hquiet₁.runnings c).trans hrun) hp (by simp) (by simp)
    hk).after hquiet₁.runnings hrel.grows

lemma Mid.grows_mboxClose {i : Slot} (hm : k.Mid q none none) (hk : k.mboxClose i = some k') :
    ∃ q', k'.Mid q' none none ∧ k'.runnings = k.runnings ∧ Grows q q' := by
  have hm₁ := hm.setMailbox i { k.mailboxes i with ref := (k.mailboxes i).ref - 1 }
  simp only [Kernel.mboxClose] at hk
  split at hk
  · obtain ⟨m, -, hk⟩ := Option.bind_eq_some_iff.1 hk
    obtain ⟨k₂, q₂, hk₂, hm₂, hquiet₂, hrel⟩ := hm₁.mutexLockRelease m
    rw [hk₂, Option.bind_eq_bind, Option.bind_some, Option.some.injEq] at hk
    subst hk
    exact ⟨q₂, hm₂.setMailbox i _, hquiet₂.runnings, hrel.grows⟩
  · obtain rfl := Option.some.inj hk
    exact ⟨q, hm₁, rfl, Grows.refl q⟩

/-- The end of a transfer: wake the other side, release the mutex and return. -/
lemma Mid.takesTransfer {m : Slot} (hm : k.Mid q none none) (hrun : k.runnings c = some p)
    (hp : p ≠ idlePcb c) (hne : h ≠ .readyQueue) (hh : ∀ r, h ≠ .waitList r)
    (hk : (Kernel.unblockAll h loopBound k).bind (fun k => (k.mutexLockRelease m).bind
      fun k => some (k.retFromKernel c)) = some k') : Takes c [] k q k' := by
  obtain ⟨k₁, q₁, hk₁, hw, -⟩ := hm.unblockAll hne fun r hr => absurd hr (hh r)
  obtain ⟨hm₁, hquiet₁⟩ := hw.mid hne.symm hm
  obtain ⟨k₂, q₂, hk₂, hm₂, hquiet₂, hrel⟩ := hm₁.mutexLockRelease m
  rw [hk₁, Option.bind_some, hk₂, Option.bind_some, Option.some.injEq] at hk
  subst hk
  have hrun₂ : k₂.runnings = k.runnings := hquiet₂.runnings.trans hquiet₁.runnings
  exact (hm₂.takesReturn (p := p) ((congrFun hrun₂ c).trans hrun) hp).after hrun₂
    ((hw.grows hne.symm).trans hrel.grows)

/-- The other branch: release the mutex and block. -/
lemma Mid.takesReleaseBlock {m : Slot} {cont : Cont} (hm : k.Mid q none none)
    (hrun : k.runnings c = some p) (hp : p ≠ idlePcb c) (hh : ∀ r, h ≠ .waitList r)
    (hne : h ≠ .readyQueue)
    (hk : (k.mutexLockRelease m).bind (fun k => k.doBlock c p h cont) = some k') :
    Takes c [] k q k' := by
  obtain ⟨k₁, q₁, hk₁, hm₁, hquiet₁, hrel⟩ := hm.mutexLockRelease m
  rw [hk₁, Option.bind_some] at hk
  exact (hm₁.takesBlock ((congrFun hquiet₁.runnings c).trans hrun) hp
    (fun r hr => absurd hr (hh r)) hne hk).after hquiet₁.runnings hrel.grows

lemma Mid.takesMboxSendLocked {i m : Slot} {msg : List UInt8} (hm : k.Mid q none none)
    (hrun : k.runnings c = some p) (hp : p ≠ idlePcb c)
    (hk : k.mboxSendLocked c p i m msg = some k') : Takes c [] k q k' := by
  unfold Kernel.mboxSendLocked at hk
  split at hk
  · exact ((hm.setMailbox i _).takesTransfer (h := .recvList i) hrun hp (by simp) (by simp)
      hk).after rfl (Grows.refl q)
  · exact hm.takesReleaseBlock hrun hp (by simp) (by simp) hk

lemma Mid.takesMboxSend {i m : Slot} {msg : List UInt8} (hm : k.Mid q none none)
    (hrun : k.runnings c = some p) (hp : p ≠ idlePcb c)
    (hk : k.mboxSend c p i m msg = some k') : Takes c [] k q k' :=
  hm.takesAcquire hrun hp
    (fun _ _ hm₁ hrun₁ hk₁ => hm₁.takesMboxSendLocked (by rw [hrun₁, hrun]) hp hk₁) hk

lemma Mid.takesMboxRecvLocked {i m : Slot} {msgLength : ℕ} (hm : k.Mid q none none)
    (hrun : k.runnings c = some p) (hp : p ≠ idlePcb c)
    (hk : k.mboxRecvLocked c p i m msgLength = some k') : Takes c [] k q k' := by
  unfold Kernel.mboxRecvLocked at hk
  split at hk
  · exact ((hm.setMailbox i _).takesTransfer (h := .sendList i) hrun hp (by simp) (by simp)
      hk).after rfl (Grows.refl q)
  · exact hm.takesReleaseBlock hrun hp (by simp) (by simp) hk

lemma Mid.takesMboxRecv {i m : Slot} {msgLength : ℕ} (hm : k.Mid q none none)
    (hrun : k.runnings c = some p) (hp : p ≠ idlePcb c)
    (hk : k.mboxRecv c p i m msgLength = some k') : Takes c [] k q k' :=
  hm.takesAcquire hrun hp
    (fun _ _ hm₁ hrun₁ hk₁ => hm₁.takesMboxRecvLocked (by rw [hrun₁, hrun]) hp hk₁) hk

lemma Mid.takesNetSend (hm : k.Mid q none none) (hrun : k.runnings c = some p)
    (hp : p ≠ idlePcb c) (hk : k.netSend c p env = some k') : Takes c [] k q k' := by
  unfold Kernel.netSend at hk
  split at hk
  · obtain rfl := Option.some.inj hk
    exact hm.takesReturn hrun hp
  · exact hm.takesBlock hrun hp (by simp) (by simp) hk

lemma Mid.takesNetRecv {left i : ℕ} (hm : k.Mid q none none) (hrun : k.runnings c = some p)
    (hp : p ≠ idlePcb c) (hk : Kernel.netRecv c p env left i k = some k') : Takes c [] k q k' := by
  induction left generalizing i with
  | zero =>
    obtain rfl := Option.some.inj hk
    exact hm.takesReturn hrun hp
  | succ left ih =>
    rw [Kernel.netRecv] at hk
    split at hk
    · exact ih hk
    · exact hm.takesBlock hrun hp (by simp) (by simp) hk

lemma Mid.takesWaitpid {pid : ℤ} (hm : k.Mid q none none) (hrun : k.runnings c = some p)
    (hp : p ≠ idlePcb c) (hpid : pid ≠ 0) (hk : k.doWaitpid c p pid = some k') :
    Takes c [] k q k' := by
  unfold Kernel.doWaitpid at hk
  split at hk
  · obtain rfl := Option.some.inj hk
    exact hm.takesReturn hrun hp
  · rename_i i hi
    refine hm.takesBlock hrun hp (fun r hr => ?_) (by simp) hk
    obtain rfl := Head.waitList.inj hr
    rwa [findPid_spec hi]

lemma Mid.takesThreadJoin {thread : ℤ} {n : ℕ} {node : Option Node} (hm : k.Mid q none none)
    (hrun : k.runnings c = some p) (hp : p ≠ idlePcb c)
    (hk : Kernel.threadJoinLoop c p thread n node k = some k') : Takes c [] k q k' := by
  induction n generalizing node with
  | zero => cases hk
  | succ n ih =>
    rcases node with _ | h | r
    · cases hk
    · rw [Kernel.threadJoinLoop] at hk
      split at hk
      · obtain rfl := Option.some.inj hk
        exact hm.takesReturn hrun hp
      · cases hk
    · simp only [Kernel.threadJoinLoop] at hk
      split at hk
      · rename_i hfound
        refine hm.takesBlock hrun hp (fun r' hr' => ?_) (by simp) hk
        obtain rfl := Head.waitList.inj hr'
        rw [hfound.1]
        exact (hm.running_live hrun hp).2
      · exact ih hk

end Calls

/-! ## Birth and death -/

section Lives

variable {k k' : Kernel} {q : Head → List Pcb} {c : Cpu} {p : Pcb} {i : Slot} {env : Env}

lemma grows_created (q : Head → List Pcb) (p : Pcb) :
    Grows q (Function.update q .readyQueue (q .readyQueue ++ [p])) := ⟨[p], Function.update_self ..⟩

lemma Mid.grows_createPcb {name : List UInt8} (hm : k.Mid q none none)
    (hk : k.createPcb name = some k') :
    ∃ q', k'.Mid q' none none ∧ k'.runnings = k.runnings ∧ Grows q q' := by
  rcases hm.createPcb hk with rfl | ⟨i, L, -, rfl, hm'⟩
  · exact ⟨q, hm, rfl, Grows.refl q⟩
  · exact ⟨_, hm', rfl, grows_created q _⟩

lemma Mid.grows_doThreadCreate (hm : k.Mid q none none) (hp : k.pid p ≠ 0)
    (hk : k.doThreadCreate p = some k') :
    ∃ q', k'.Mid q' none none ∧ k'.runnings = k.runnings ∧ Grows q q' := by
  unfold Kernel.doThreadCreate at hk
  split at hk
  · obtain rfl := Option.some.inj hk
    exact ⟨q, hm, rfl, Grows.refl q⟩
  · rename_i i hi
    have hl := hm.life
    obtain ⟨L, hL, hm'⟩ := hm.initPcb i (k.pid p) (k.pgdir p) (findUnusedPcb_spec hi)
      (hl.pidRange p hp) ⟨hl.pgdirPos p hp, hl.pgdirLt p⟩ (hl.pgdirLive p (by simp) hp)
      (fun r hr heq => hl.pgdirPid r p hr hp heq)
    obtain rfl := Option.some.inj (hk.symm.trans hL)
    exact ⟨_, hm', rfl, grows_created q _⟩

/-- The releases of `release_pcb` add to the ready queue. -/
lemma Mid.grows_releaseMlocks {out : Option Cpu} {gone : Option Pcb} (hm : k.Mid q out gone)
    (pid : ℤ) (ms : List Slot) :
    ∃ k' q', Kernel.releaseMlocks pid ms k = some k' ∧ k'.Mid q' out gone ∧ k.Quiet k' ∧
      Grows q q' := by
  obtain ⟨k', q', hk', hm', hquiet', hq'⟩ := releaseMlocks_rule pid ms
    (P := fun _ k' q' => k'.Mid q' out gone ∧ k.Quiet k' ∧ Grows q q')
    (fun _ _ _ _ hP _ => hP) (fun m _ k' q' hP _ => by
      obtain ⟨hm', hquiet', hq'⟩ := hP
      obtain ⟨k₁, q₁, hk₁, hm₁, hquiet₁, hrel⟩ := hm'.mutexLockRelease m
      exact ⟨k₁, q₁, hk₁, hm₁, hquiet'.trans hquiet₁, hq'.trans hrel.grows⟩)
    ⟨hm, Quiet.refl k, Grows.refl q⟩
  exact ⟨k', q', hk', hm', hquiet', hq'⟩

/-- `release_pcb` takes the PCB off the ready queue and adds those it wakes. -/
lemma Mid.grows_releasePcb {out : Option Cpu} (hm : k.Mid q none none)
    (hpid : k.pid (.slot i) ≠ 0)
    (hout : out = none ∧ (∀ c, k.runnings c ≠ some (.slot i)) ∨
      ∃ c, out = some c ∧ k.runnings c = some (.slot i)) :
    ∃ k' q', k.releasePcb (.slot i) = some k' ∧ k'.Mid q' out (some (.slot i)) ∧
      q' (.waitList (.slot i)) = [] ∧ k'.pid = k.pid ∧ k'.runnings = k.runnings ∧
      ∃ l, q' .readyQueue = ((q .readyQueue).filter fun x => decide (x ≠ .slot i)) ++ l := by
  obtain ⟨h, hp⟩ := (hm.life.live (.slot i) (by simp)).1 hpid
  obtain ⟨L, hL, hm₁⟩ := hm.remove hp hout
  obtain ⟨k₂, q₂, hk₂, hm₂, hquiet₂, hq₂⟩ :=
    hm₁.grows_releaseMlocks (k.pid (.slot i)) (List.finRange 16)
  obtain ⟨k₃, q₃, hk₃, hw, hempty⟩ := hm₂.unblockAll (h := .waitList (.slot i)) (by simp)
    (fun r hr => by
      obtain rfl := Head.waitList.inj hr
      rw [hquiet₂.pid]
      exact hpid)
  obtain ⟨hm₃, hquiet₃⟩ := hw.mid (by simp) hm₂
  obtain ⟨l, hl⟩ := hq₂.trans (hw.grows (by simp))
  refine ⟨k₃, q₃, ?_, hm₃, hempty, hquiet₃.pid.trans hquiet₂.pid,
    hquiet₃.runnings.trans hquiet₂.runnings, l, ?_⟩
  · rw [releasePcb_eq hL, hk₂, Option.bind_some, hk₃]
  · rw [hl]
    congr 1
    by_cases hh : h = .readyQueue
    · rw [hh, Function.update_self, erase_eq_filter hm.lists.repr]
    · rw [Function.update_of_ne (Ne.symm hh)]
      refine (List.filter_eq_self.2 fun x hx => decide_eq_true ?_).symm
      rintro rfl
      exact hh (hm.lists.repr.disjoint h _ _ hp hx)

/-- `do_exit` of a task without other threads. -/
lemma Mid.takesExit (hm : k.Mid q none none) (hpid : k.pid (.slot i) ≠ 0)
    (hrun : k.runnings c = some (.slot i)) (halone : k.Alone (.slot i))
    (hk : k.doExit c (.slot i) = some k') : Takes c [] k q k' := by
  obtain ⟨k₁, q₁, hk₁, hm₁, hempty, hpid₁, hrun₁, l, hl⟩ :=
    hm.grows_releasePcb hpid (.inr ⟨c, rfl, hrun⟩)
  have hlast := hm₁.threads_eq_zero (by rwa [hpid₁]) (by
    intro j hj
    rw [hpid₁] at hj
    exact halone j hj)
  obtain ⟨r₀, -, hk₀, hinv⟩ := hm₁.exitRest hk₁ (by rwa [hpid₁]) hempty hlast
  obtain rfl := Option.some.inj (hk.symm.trans hk₀)
  rw [Kernel.doExit, hk₁, Option.bind_eq_bind, Option.bind_some, if_pos hlast,
    Option.bind_eq_some_iff] at hk
  obtain ⟨k₂, hpick, hk⟩ := hk
  obtain ⟨r, hrun₂, hfirst⟩ := hm₁.findIdleTask_first hpick
  have hrun' : ((((k₁.picked c r₀).freePgdir (.slot i)).clearPid (.slot i)).switchTo c (.slot i)
      .ret).runnings = k₂.runnings := by
    rw [← Option.some.inj hk]
    unfold switchPgdir
    cases k₂.runnings c <;> rfl
  have hothers : k₁.others c q₁ = k.waitingIn q ++ l.filter fun x =>
      (List.finRange 2).all fun d => d = c ∨ k.runnings d ≠ some x := by
    simp only [others, hl, hrun₁, List.filter_append]
    rw [others_erase hrun]
    rfl
  have hsame := waitingIn_congr hrun' (rfl : q₁ .readyQueue = q₁ .readyQueue)
  rw [hothers, ← settle_nil, ← hsame] at hfirst
  exact ⟨q₁, hinv, .switch _ r rfl (by rw [hrun', hrun₂, hrun₁]) hfirst⟩

/-- `do_kill` of a PCB that does not run. -/
lemma Mid.takesKill {pid : ℤ} (hm : k.Mid q none none) (hpid : pid ≠ 0)
    (hfind : k.findPid pid = some i) (hnorun : ∀ c, k.runnings c ≠ some (.slot i))
    (hrun : k.runnings c = some p) (hp : p ≠ idlePcb c)
    (hk : Kernel.returning ((k.doKill pid).map (·.2)) c = some k') :
    Takes c [.slot i] k q k' := by
  have hpid' : k.pid (.slot i) ≠ 0 := by rwa [findPid_spec hfind]
  obtain ⟨k₁, q₁, hk₁, hm₁, hempty, hpid₁, hrun₁, l, hl⟩ :=
    hm.grows_releasePcb hpid' (.inl ⟨rfl, hnorun⟩)
  obtain ⟨k₂, hk₂, hm₂, hrun₂⟩ : ∃ k₂, k.doKill pid = some (1, k₂) ∧ k₂.Mid q₁ none none ∧
      k₂.runnings = k.runnings := by
    by_cases hlast : k₁.threads (k₁.pid (.slot i)) = 0
    · refine ⟨_, ?_, hm₁.clearPid (by rwa [hpid₁]) hempty hlast, hrun₁⟩
      simp only [Kernel.doKill, hfind, hk₁, Option.bind_eq_bind, Option.bind_some, hlast, if_true]
    · refine ⟨_, ?_, hm₁.dropPid hempty, hrun₁⟩
      simp only [Kernel.doKill, hfind, hk₁, Option.bind_eq_bind, Option.bind_some, hlast, if_false]
  rw [hk₂, Option.map_some] at hk
  obtain rfl := Option.some.inj hk
  have hret : (k₂.retFromKernel c).runnings = k.runnings := by
    rw [retFromKernel_runnings, hrun₂]
  refine ⟨q₁, hm₂.retFromKernel (hrun₂ ▸ hrun) hp, .ret (l.filter fun x => !k.runs x) rfl hret ?_⟩
  simp only [waitingIn, hl, List.filter_append, runs_congr hret, settle]
  congr 1
  rw [List.filter_filter, List.filter_filter]
  refine List.filter_congr fun x _ => ?_
  simp [Bool.and_comm]

end Lives

/-! ## The step -/

end Kernel

/-- The CPU that takes a step. -/
def Event.cpu : Event → Cpu
  | .trap cpuid _ _ => cpuid
  | .resume cpuid _ => cpuid
  | .slaveJoin => 1

namespace Kernel

open Fifo Trace

/-- The PCB that a step kills. -/
def victim (k : Kernel) : Event → List Pcb
  | .trap _ (.kill pid) _ => (k.findPid pid).toList.map Pcb.slot
  | _ => []

section Step

variable {k k' : Kernel} {q : Head → List Pcb} {c : Cpu} {p : Pcb} {env : Env}

/-- A trap of a task that is not idle. -/
lemma Mid.takesHandle {call : Call} (hm : k.Mid q none none) (hrun : k.runnings c = some p)
    (hp : p ≠ idlePcb c) (hcall : k.OrderlyCall p call) (hk : k.handle c p env call = some k') :
    Takes c (k.victim (.trap c call env)) k q k' := by
  obtain ⟨hready, hpid⟩ := hm.running_live hrun hp
  cases call with
  | irqTimer => exact hm.takesScheduler hrun hk
  | yield => exact hm.takesScheduler hrun hk
  | sleep sleepTime =>
    have hk' : Kernel.doBlock { k with
        wakeupTime := Function.update k.wakeupTime p (env.clock 0 + sleepTime) } c p .sleepQueue
        .ret = some k' := hk
    exact ((hm.setWakeup (Function.update k.wakeupTime p _)).takesBlock hrun hp (by simp)
      (by simp) hk').after rfl (Grows.refl q)
  | exec name =>
    exact Mid.takesReturning hrun hp (fun k₁ hk₁ => hm.grows_createPcb hk₁) hk
  | exit =>
    obtain ⟨i, rfl⟩ := hm.lists.slots _ _ hready
    exact hm.takesExit hpid hrun hcall hk
  | kill pid =>
    cases hfind : k.findPid pid with
    | none =>
      have hvictim : k.victim (.trap c (.kill pid) env) = [] := by simp [victim, hfind]
      rw [hvictim]
      refine Mid.takesReturning hrun hp (fun k₁ hk₁ => ?_) hk
      obtain ⟨⟨n, k₂⟩, hk₂, rfl⟩ := Option.map_eq_some_iff.1 hk₁
      rw [Kernel.doKill, hfind, Option.some.injEq, Prod.mk.injEq] at hk₂
      obtain ⟨-, rfl⟩ := hk₂
      exact ⟨q, hm, rfl, Grows.refl q⟩
    | some i =>
      have hvictim : k.victim (.trap c (.kill pid) env) = [.slot i] := by simp [victim, hfind]
      rw [hvictim]
      exact hm.takesKill hcall.1 hfind (hcall.2 i hfind) hrun hp hk
  | waitpid pid => exact hm.takesWaitpid hrun hp hcall hk
  | threadCreate =>
    exact Mid.takesReturning hrun hp (fun k₁ hk₁ => hm.grows_doThreadCreate hpid hk₁) hk
  | threadJoin thread => exact hm.takesThreadJoin hrun hp hk
  | mutexLockAcquire idx =>
    obtain ⟨m, -, hk⟩ := Option.bind_eq_some_iff.1 hk
    refine hm.takesAcquire hrun hp (fun k₁ k₂ hm₁ hrun₁ hk₁ => ?_) hk
    obtain rfl := Option.some.inj hk₁
    exact hm₁.takesReturn (p := p) (by rw [hrun₁, hrun]) hp
  | mutexLockRelease idx =>
    obtain ⟨m, -, hk⟩ := Option.bind_eq_some_iff.1 hk
    refine Mid.takesReturning hrun hp (fun k₁ hk₁ => ?_) hk
    obtain ⟨k₂, q₂, hk₂, hm₂, hquiet₂, hrel⟩ := hm.mutexLockRelease m
    obtain rfl := Option.some.inj (hk₁.symm.trans hk₂)
    exact ⟨q₂, hm₂, hquiet₂.runnings, hrel.grows⟩
  | barrierInit key goal =>
    refine Mid.takesReturning hrun hp (fun k₁ hk₁ => ?_) hk
    obtain ⟨b, -, hk₁⟩ := Option.bind_eq_some_iff.1 hk₁
    obtain rfl := Option.some.inj hk₁
    exact ⟨q, hm.setBarrier b _, rfl, Grows.refl q⟩
  | barrierWait idx =>
    obtain ⟨b, -, hk⟩ := Option.bind_eq_some_iff.1 hk
    exact hm.takesBarrierWait hrun hp hk
  | barrierDestroy idx =>
    obtain ⟨b, hb, hk⟩ := Option.bind_eq_some_iff.1 hk
    refine Mid.takesReturning hrun hp (fun k₁ hk₁ => ?_) hk
    obtain ⟨hm₁, hrun₁, -⟩ := hm.barrierDestroy (hcall b hb) hk₁
    exact ⟨q, hm₁, hrun₁, Grows.refl q⟩
  | conditionWait condIdx mutexIdx =>
    obtain ⟨i, -, hk⟩ := Option.bind_eq_some_iff.1 hk
    obtain ⟨m, -, hk⟩ := Option.bind_eq_some_iff.1 hk
    exact hm.takesConditionWait hrun hp hk
  | conditionSignal idx =>
    obtain ⟨i, -, hk⟩ := Option.bind_eq_some_iff.1 hk
    refine Mid.takesReturning hrun hp (fun k₁ hk₁ => ?_) hk
    obtain ⟨k₂, q₂, hk₂, hw⟩ := hm.conditionSignal i
    obtain ⟨hm₂, hquiet₂⟩ := hw.mid (by simp) hm
    obtain rfl := Option.some.inj (hk₁.symm.trans hk₂)
    exact ⟨q₂, hm₂, hquiet₂.runnings, hw.grows (by simp)⟩
  | conditionBroadcast idx | conditionDestroy idx =>
    obtain ⟨i, -, hk⟩ := Option.bind_eq_some_iff.1 hk
    refine Mid.takesReturning hrun hp (fun k₁ hk₁ => ?_) hk
    obtain ⟨k₂, q₂, hk₂, hw⟩ := hm.conditionBroadcast i
    obtain ⟨hm₂, hquiet₂⟩ := hw.mid (by simp) hm
    obtain rfl := Option.some.inj (hk₁.symm.trans hk₂)
    exact ⟨q₂, hm₂, hquiet₂.runnings, hw.grows (by simp)⟩
  | mboxOpen name =>
    refine Mid.takesReturning hrun hp (fun k₁ hk₁ => ?_) hk
    obtain ⟨hm₁, hrun₁, -⟩ := hm.mboxOpen hk₁
    exact ⟨q, hm₁, hrun₁, Grows.refl q⟩
  | mboxClose idx =>
    obtain ⟨i, -, hk⟩ := Option.bind_eq_some_iff.1 hk
    exact Mid.takesReturning hrun hp (fun k₁ hk₁ => hm.grows_mboxClose hk₁) hk
  | mboxSend idx msg =>
    obtain ⟨i, -, hk⟩ := Option.bind_eq_some_iff.1 hk
    obtain ⟨m, -, hk⟩ := Option.bind_eq_some_iff.1 hk
    exact hm.takesMboxSend hrun hp hk
  | mboxRecv idx msgLength =>
    obtain ⟨i, -, hk⟩ := Option.bind_eq_some_iff.1 hk
    obtain ⟨m, -, hk⟩ := Option.bind_eq_some_iff.1 hk
    exact hm.takesMboxRecv hrun hp hk
  | netSend => exact hm.takesNetSend hrun hp hk
  | netRecv pktNum => exact hm.takesNetRecv hrun hp hk

/-- A return on any CPU. -/
lemma Inv.takesReturn (hi : k.Inv q) (hrun : k.runnings c = some p) :
    Takes c [] k q (k.retFromKernel c) := by
  refine ⟨q, hi.retFromKernel hrun, .ret [] rfl (retFromKernel_runnings k c) ?_⟩
  rw [settle_nil, List.append_nil]
  exact waitingIn_congr (retFromKernel_runnings k c) rfl

/-- The task switched to goes on. -/
lemma Inv.takesGoOn (hi : k.Inv q) (hrun : k.runnings c = some p)
    (hk : k.goOn c p env (k.cont p) = some k') : Takes c [] k q k' := by
  have hm := hi.toMid
  by_cases hp : p = idlePcb c
  · have hcont : k.cont p = .ret := by
      rw [hp]
      exact hi.life.idleCont c
    rw [hcont] at hk
    obtain rfl := Option.some.inj hk
    exact hi.takesReturn hrun
  · cases hcont : k.cont p with
    | ret | waitpid | mutexLockAcquire =>
      rw [hcont] at hk
      obtain rfl := Option.some.inj hk
      exact hi.takesReturn hrun
    | conditionWait m =>
      rw [hcont] at hk
      have hk' : k.mutexLockAcquire c p m (.mutexLockAcquire m)
        (fun k => some (k.retFromKernel c)) = some k' := hk
      refine hm.takesAcquire hrun hp (fun k₁ k₂ hm₁ hrun₁ hk₁ => ?_) hk'
      obtain rfl := Option.some.inj hk₁
      exact hm₁.takesReturn (p := p) (by rw [hrun₁, hrun]) hp
    | mboxSendLocked i m msg => exact hm.takesMboxSendLocked hrun hp (by rwa [hcont] at hk)
    | mboxSendWoken i m msg => exact hm.takesMboxSend hrun hp (by rwa [hcont] at hk)
    | mboxRecvLocked i m msgLength => exact hm.takesMboxRecvLocked hrun hp (by rwa [hcont] at hk)
    | mboxRecvWoken i m msgLength => exact hm.takesMboxRecv hrun hp (by rwa [hcont] at hk)
    | netSend => exact hm.takesNetSend hrun hp (by rwa [hcont] at hk)
    | netRecv left => exact hm.takesNetRecv hrun hp (by rwa [hcont] at hk)
    | threadJoin thread next => exact hm.takesThreadJoin hrun hp (by rwa [hcont] at hk)

/-- When CPU 1 has not joined yet, the ready queue starts with the task of CPU 0, so that its second
entry is the first one that waits. -/
lemma Inv.slaveJoin_second (hi : k.Inv q) (h1 : k.runnings 1 = none)
    (hk : k.slaveJoin = some k') : ∃ first second l, k.runnings 0 = some first ∧
      q .readyQueue = first :: second :: l ∧ k'.inKernel = some 1 ∧
        k'.runnings = Function.update k.runnings 1 (some second) := by
  have hr := hi.lists.repr
  have hnext := hr.next_head (hi.lists.init .readyQueue (by simp))
  obtain ⟨first, hfirst⟩ := Option.ne_none_iff_exists'.1 hi.runs.master
  rcases hi.runs.head h1 (by simp) first hfirst with hidle | ⟨l, hl⟩
  · -- an idle CPU 0 finds the queue empty, and so does CPU 1
    rw [hi.idle h1 (by rw [hfirst, hidle])] at hnext
    simp [Kernel.slaveJoin, hnext] at hk
  · have hsecond : k.links.next (.inr first) = some ((l.map Sum.inr).headD (.inl .readyQueue)) :=
      hr.next_entry (l := []) hl
    rw [hl, List.map_cons, List.headD_cons] at hnext
    cases l with
    | nil => simp [Kernel.slaveJoin, hnext, hsecond] at hk
    | cons second l =>
      simp only [Kernel.slaveJoin, hnext, hsecond, List.map_cons, List.headD_cons,
        Option.some.injEq] at hk
      subst hk
      exact ⟨first, second, l, hfirst, hl, rfl, rfl⟩

/-- The first switch of CPU 1 takes the first PCB that waits. -/
lemma Inv.takesSlaveJoin (hi : k.Inv q) (h1 : k.runnings 1 = none)
    (hk : k.slaveJoin = some k') : Takes 1 [] k q k' := by
  obtain ⟨first, second, l, hfirst, hq, hin, hrun⟩ := hi.slaveJoin_second h1 hk
  have hinv : k'.Inv q := (hi.slaveJoin h1 hk).1
  refine ⟨q, hinv, .switch [] second hin hrun (.inl ?_)⟩
  rw [settle_nil, List.append_nil]
  have hnodup : (first :: second :: l).Nodup := hq ▸ hi.lists.repr.nodup .readyQueue
  rw [List.nodup_cons, List.nodup_cons, List.mem_cons, not_or] at hnodup
  obtain ⟨⟨hne, hfl⟩, hsl, -⟩ := hnodup
  -- before the switch only `first` runs, behind it `first` and `second` do
  have hbefore : ∀ x, k.runs x = decide (x = first) := by
    intro x
    rw [Bool.eq_iff_iff, runs_iff, decide_eq_true_iff]
    constructor
    · rintro ⟨d, hd⟩
      rcases cpu_cases d with rfl | rfl
      · exact Option.some.inj (hd.symm.trans hfirst)
      · rw [h1] at hd
        cases hd
    · rintro rfl
      exact ⟨0, hfirst⟩
  have hafter : ∀ x, k'.runs x = decide (x = first ∨ x = second) := by
    intro x
    rw [Bool.eq_iff_iff, runs_iff, decide_eq_true_iff, hrun]
    constructor
    · rintro ⟨d, hd⟩
      rcases cpu_cases d with rfl | rfl
      · rw [Function.update_of_ne (by decide)] at hd
        exact .inl (Option.some.inj (hd.symm.trans hfirst))
      · rw [Function.update_self] at hd
        exact .inr (Option.some.inj hd).symm
    · rintro (rfl | rfl)
      · exact ⟨0, by rw [Function.update_of_ne (by decide), hfirst]⟩
      · exact ⟨1, Function.update_self ..⟩
  have hrest : ∀ r : Kernel, (∀ x ∈ l, r.runs x = false) → (l.filter fun x => !r.runs x) = l :=
    fun r hall => List.filter_eq_self.2 fun x hx => by rw [hall x hx]; rfl
  have hl : ∀ x ∈ l, x ≠ first ∧ x ≠ second := fun x hx =>
    ⟨fun h => hfl (h ▸ hx), fun h => hsl (h ▸ hx)⟩
  simp only [waitingIn, hq]
  rw [List.filter_cons_of_neg (by simp [hbefore]),
    List.filter_cons_of_pos (by simp [hbefore, Ne.symm hne]),
    hrest k fun x hx => by rw [hbefore, decide_eq_false (hl x hx).1],
    List.filter_cons_of_neg (by simp [hafter]), List.filter_cons_of_neg (by simp [hafter]),
    hrest k' fun x hx => by rw [hafter]; exact decide_eq_false (by simp [hl x hx])]

/-- Every step of the kernel ends in one of the two ways. -/
theorem Inv.takes {e : Event} (hi : k.Inv q) (he : k.Orderly e) (hk : k.step e = some k') :
    Takes e.cpu (k.victim e) k q k' := by
  cases e with
  | trap c call env =>
    simp only [Kernel.step] at hk
    split at hk
    · split at hk
      · cases hk
      · rename_i p hrun
        split at hk
        · rename_i hcall
          by_cases hp : p = idlePcb c
          · obtain rfl := hcall.resolve_right (not_not.2 hp)
            exact hi.toMid.takesScheduler hrun hk
          · exact hi.toMid.takesHandle hrun hp (he p hrun) hk
        · cases hk
    · cases hk
  | resume c env =>
    simp only [Kernel.step] at hk
    split at hk
    · split at hk
      · cases hk
      · rename_i p hrun
        exact hi.takesGoOn hrun hk
    · cases hk
  | slaveJoin =>
    simp only [Kernel.step] at hk
    split at hk
    · rename_i hcond
      exact hi.takesSlaveJoin hcond.2.2 hk
    · cases hk

end Step

end Kernel

/-- A timer interrupt or `do_scheduler` called by the task. -/
def Event.schedules : Event → Bool
  | .trap _ .irqTimer _ => true
  | .trap _ .yield _ => true
  | _ => false

namespace Kernel

open Fifo Trace

/-- The step ends in a switch. -/
def switches (_ : Kernel) (_ : Event) (k' : Kernel) : Bool := k'.inKernel.isSome

section Runs

variable {k k' k₀ : Kernel} {q : Head → List Pcb} {c : Cpu} {p : Pcb} {env : Env} {e : Event}
  {es es' : List Event} {tasks : List (List UInt8)}

lemma Inv.waiting_eq (hi : k.Inv q) : k.waiting = k.waitingIn q :=
  Kernel.waiting_eq hi.lists.repr (hi.lists.init .readyQueue (by simp))

/-- In a run in order every step of a CPU ends in a return, or in a switch to the first PCB that
waits; nobody waits twice. -/
theorem step_serves_first (hes : StepsMeet Kernel.step Orderly (boot tasks) es)
    (hpre : run Kernel.step (boot tasks) es = some k) (he : k.Orderly e)
    (hk : k.step e = some k') :
    Ends e.cpu (k.victim e) k k.waiting k' k'.waiting ∧ k'.waiting.Nodup := by
  obtain ⟨q, hi⟩ := inv_of_orderly hes hpre
  obtain ⟨q', hi', hends⟩ := hi.takes he hk
  rw [hi.waiting_eq, hi'.waiting_eq]
  exact ⟨hends, (hi'.lists.repr.nodup .readyQueue).filter _⟩

/-- Both CPUs run a task, and the timer interrupts CPU 1. -/
theorem step_serves_first_join : ∃ k k' : Kernel,
    Ends 1 [] k k.waiting k' k'.waiting ∧ k'.waiting.Nodup := by
  have hsome : ((run Kernel.step (boot [[104]]) (joinRun.take 5)).bind fun k =>
      k.step (.trap 1 .irqTimer quietEnv)).isSome = true := by decide
  obtain ⟨k', hk'⟩ := Option.isSome_iff_exists.1 hsome
  obtain ⟨k, hk, hk'⟩ := Option.bind_eq_some_iff.1 hk'
  have hes : StepsMeet Kernel.step Orderly (boot [[104]]) (joinRun.take 5) :=
    stepsMeet_cons (fun _ _ => trivial) fun _ _ => stepsMeet_cons trivial fun _ _ =>
      stepsMeet_cons trivial fun _ _ => stepsMeet_cons (fun _ _ => trivial) fun _ _ =>
        stepsMeet_cons trivial fun _ _ => stepsMeet_nil _ _
  have he : k.Orderly (.trap 1 .irqTimer quietEnv) := fun _ _ => trivial
  exact ⟨k, k', step_serves_first hes hk he hk'⟩

/-- The end of a step as a step of the queue. -/
lemma Ends.step {gone w w' : List Pcb} (h : Ends c gone k w k' w') :
    ∃ served, Fifo.Step w gone (switches k e k') served w' ∧
      ∀ x, served = some x → k'.runs x = true := by
  cases h with
  | ret new hin hrun hw =>
    refine ⟨none, ⟨new, hw, ?_⟩, fun x hx => by cases hx⟩
    simp [switches, hin]
  | switch new r hin hrun hw =>
    have hswitch : switches k e k' = true := by simp [switches, hin]
    rcases hw with hw | ⟨hw, hw', -⟩
    · refine ⟨some r, ⟨new, hw.symm, ?_⟩, fun x hx => ?_⟩
      · rw [if_pos hswitch]
        exact fun h => by cases h
      · obtain rfl := Option.some.inj hx
        exact runs_iff.2 ⟨c, by rw [hrun, Function.update_self]⟩
    · refine ⟨none, ⟨new, by rw [hw, hw']; rfl, ?_⟩, fun x hx => by cases hx⟩
      rw [if_pos hswitch]
      exact fun _ => hw'

lemma reschedule_inKernel {cont : Cont} (hk : k.reschedule c p cont = some k') :
    k'.inKernel = some c := by
  obtain ⟨k₁, -, hk⟩ := Option.bind_eq_some_iff.1 hk
  obtain rfl := Option.some.inj hk
  rfl

lemma doScheduler_inKernel (hk : k.doScheduler c p env = some k') : k'.inKernel = some c := by
  obtain ⟨k₁, -, hk⟩ := Option.bind_eq_some_iff.1 hk
  obtain ⟨k₂, -, hk⟩ := Option.bind_eq_some_iff.1 hk
  obtain ⟨k₃, -, hk⟩ := Option.bind_eq_some_iff.1 hk
  dsimp only at hk
  split at hk
  · obtain ⟨k₄, -, hk⟩ := Option.bind_eq_some_iff.1 hk
    obtain ⟨k₅, -, hk⟩ := Option.bind_eq_some_iff.1 hk
    exact reschedule_inKernel hk
  · exact reschedule_inKernel hk

lemma schedules_switches (he : e.schedules = true) (hk : k.step e = some k') :
    switches k e k' = true := by
  have hsched : ∀ c p env, k.doScheduler c p env = some k' → switches k e k' = true := by
    intro c p env h
    rw [switches, doScheduler_inKernel h, Option.isSome_some]
  cases e with
  | trap c call env =>
    simp only [Kernel.step] at hk
    split at hk
    · split at hk
      · cases hk
      · split at hk
        · cases call with
          | irqTimer => exact hsched _ _ _ hk
          | yield => exact hsched _ _ _ hk
          | _ => cases he
        · cases hk
    · cases hk
  | resume c env => cases he
  | slaveJoin => cases he

/-- Every timer interrupt is a switch. -/
theorem schedules_le_turns (hrun : run Kernel.step k es = some k') :
    es.countP Event.schedules ≤ turns switches Kernel.step k es := by
  induction es generalizing k with
  | nil => exact le_rfl
  | cons e es ih =>
    obtain ⟨u, hu, hrun⟩ := run_cons_eq_some.1 hrun
    have htail := ih hrun
    rw [List.countP_cons]
    simp only [turns, hu]
    by_cases he : e.schedules = true
    · rw [if_pos he, schedules_switches he hu]
      simp only [Bool.toNat_true]
      omega
    · rw [if_neg he]
      omega

end Runs

end Kernel
end Sched
end UcasKernel
