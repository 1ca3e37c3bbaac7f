/-
The invariant of the scheduler.

Between two steps every live PCB is on exactly one queue, a PCB that runs is on
the ready queue, and a PCB of the ready queue has status `TASK_RUNNING` exactly
when some CPU runs it.  While CPU 1 has not joined, the task of CPU 0 is the head
of the ready queue; this is what the first switch of CPU 1 relies on.

Inside of a step the invariant is weaker.  `Mid k q out gone` is the invariant
while CPU `out` has given up its task and PCB `gone` is being released.  Each
primitive of the scheduler gets one lemma: waking a PCB, giving up the CPU,
picking the next task.
-/
import UcasKernel.Sched.Queues

namespace UcasKernel
namespace Sched
namespace Kernel

/-- The heap represents the queues; all heads but the wait lists of unused PCBs
are initialised, and only PCBs of `pcb[]` are on queues. -/
structure Lists (k : Kernel) (q : Head → List Pcb) : Prop where
  repr : k.links.Repr q
  init : ∀ h, (∀ p, h ≠ .waitList p) → k.links.Init h
  slots : ∀ h p, p ∈ q h → ∃ i, p = .slot i

/-- The CPUs and the ready queue, not counting CPU `out`. -/
structure Runs (k : Kernel) (q : Head → List Pcb) (out : Option Cpu) : Prop where
  master : k.runnings 0 ≠ none
  joined : out = some 1 → k.runnings 1 ≠ none
  run : ∀ c p, some c ≠ out → k.runnings c = some p → p = idlePcb c ∨ p ∈ q .readyQueue
  distinct : ∀ c d p, some c ≠ out → some d ≠ out → k.runnings c = some p →
    k.runnings d = some p → c = d
  status : ∀ p ∈ q .readyQueue,
    k.status p = .running ↔ ∃ c, some c ≠ out ∧ k.runnings c = some p
  head : k.runnings 1 = none → some 0 ≠ out → ∀ p, k.runnings 0 = some p →
    p = idlePcb 0 ∨ ∃ l, q .readyQueue = p :: l
  satp : ∀ c, some c ≠ out → k.satp c = 0 ∨ ∃ p, k.runnings c = some p ∧ k.satp c = k.pgdir p

/-- The live PCBs with a pid, not counting the PCB `gone`. -/
def pidCount (k : Kernel) (gone : Option Pcb) (v : ℤ) : ℕ :=
  (Finset.univ.filter fun i : Slot => k.pid (.slot i) = v ∧ some (Pcb.slot i) ≠ gone).card

/-- Processes and their page directories, not counting the PCB `gone`. -/
structure Life (k : Kernel) (q : Head → List Pcb) (gone : Option Pcb) : Prop where
  pidRange : ∀ p, k.pid p ≠ 0 → 0 < k.pid p ∧ k.pid p < k.processId
  processId : 0 < k.processId
  idlePid : ∀ c, k.pid (idlePcb c) = 0
  live : ∀ p, some p ≠ gone → (k.pid p ≠ 0 ↔ ∃ h, p ∈ q h)
  off : ∀ p, gone = some p → ∀ h, p ∉ q h
  waitInit : ∀ p, k.pid p ≠ 0 → k.links.Init (.waitList p)
  waitEmpty : ∀ p, k.pid p = 0 → q (.waitList p) = []
  threads : ∀ v, v ≠ 0 → k.threads v = k.pidCount gone v
  pgdirLive : ∀ p, some p ≠ gone → k.pid p ≠ 0 → k.freed (k.pgdir p) = false
  pgdirPos : ∀ p, k.pid p ≠ 0 → 0 < k.pgdir p
  pgdirLt : ∀ p, k.pgdir p < k.nextPgdir
  pgdirPid : ∀ p r, k.pid p ≠ 0 → k.pid r ≠ 0 → k.pgdir p = k.pgdir r → k.pid p = k.pid r
  idlePgdir : ∀ c, k.pgdir (idlePcb c) = 0
  kernelPgdir : k.freed 0 = false
  unused : ∀ n, k.nextPgdir ≤ n → k.freed n = false
  idleCont : ∀ c, k.cont (idlePcb c) = .ret

/-- The invariant inside of a step. -/
structure Mid (k : Kernel) (q : Head → List Pcb) (out : Option Cpu) (gone : Option Pcb) :
    Prop where
  lists : k.Lists q
  runs : k.Runs q out
  life : k.Life q gone
  stuck : k.stuck = false

/-- The invariant between two steps: in addition, CPU 0 alone is idle only when
no task is ready. -/
structure Inv (k : Kernel) (q : Head → List Pcb) : Prop extends Mid k q none none where
  idle : k.runnings 1 = none → k.runnings 0 = some (idlePcb 0) → q .readyQueue = []

/-! ## Idle tasks -/

lemma idlePcb_ne_slot (c : Cpu) (i : Slot) : idlePcb c ≠ .slot i := by
  unfold idlePcb
  split <;> simp

lemma idlePcb_inj {c d : Cpu} (h : idlePcb c = idlePcb d) : c = d := by
  revert h
  revert c d
  decide

lemma cpu_cases (c : Cpu) : c = 0 ∨ c = 1 := by
  revert c
  decide

lemma Lists.idle_notMem {k : Kernel} {q : Head → List Pcb} (hl : k.Lists q) (c : Cpu) (h : Head) :
    idlePcb c ∉ q h := by
  intro hmem
  obtain ⟨i, hi⟩ := hl.slots h _ hmem
  exact idlePcb_ne_slot c i hi

/-! ## Frames -/

/-- The fields the invariant `Life` is about, apart from queues. -/
def lifeFields (k : Kernel) :
    (Pcb → ℤ) × (Pcb → ℕ) × (ℤ → ℤ) × ℤ × ℕ × (ℕ → Bool) × (Cpu → Cont) :=
  (k.pid, k.pgdir, k.threads, k.processId, k.nextPgdir, k.freed, fun c => k.cont (idlePcb c))

section Frames

variable {k k' : Kernel} {q q' : Head → List Pcb} {out : Option Cpu} {gone : Option Pcb}

/-- `Life` depends on which PCBs are on queues, not on the queues they are on. -/
lemma Life.congr (hl : k.Life q gone) (hf : k'.lifeFields = k.lifeFields)
    (hmem : ∀ p, (∃ h, p ∈ q' h) ↔ ∃ h, p ∈ q h)
    (hinit : ∀ p, k.links.Init (.waitList p) → k'.links.Init (.waitList p))
    (hwait : ∀ p, k.pid p = 0 → q (.waitList p) = [] → q' (.waitList p) = []) :
    k'.Life q' gone := by
  simp only [lifeFields, Prod.mk.injEq] at hf
  obtain ⟨hpid, hpgdir, hthreads, hprocess, hnext, hfreed, hcont⟩ := hf
  have hcount : ∀ v, k'.pidCount gone v = k.pidCount gone v := fun v => by
    simp only [pidCount, hpid]
  constructor
  case pidRange => simpa only [hpid, hprocess] using hl.pidRange
  case processId => simpa only [hprocess] using hl.processId
  case idlePid => simpa only [hpid] using hl.idlePid
  case live => simpa only [hpid, hmem] using hl.live
  case off =>
    intro p hp
    have hno := hl.off p hp
    have := (hmem p).not.2 (by simpa using hno)
    simpa using this
  case waitInit => exact fun p hp => hinit p (hl.waitInit p (by rwa [hpid] at hp))
  case waitEmpty =>
    intro p hp
    rw [hpid] at hp
    exact hwait p hp (hl.waitEmpty p hp)
  case threads =>
    intro v hv
    rw [hthreads, hcount]
    exact hl.threads v hv
  case pgdirLive => simpa only [hpid, hpgdir, hfreed] using hl.pgdirLive
  case pgdirPos => simpa only [hpid, hpgdir] using hl.pgdirPos
  case pgdirLt => simpa only [hpgdir, hnext] using hl.pgdirLt
  case pgdirPid => simpa only [hpid, hpgdir] using hl.pgdirPid
  case idlePgdir => simpa only [hpgdir] using hl.idlePgdir
  case kernelPgdir => simpa only [hfreed] using hl.kernelPgdir
  case unused => simpa only [hnext, hfreed] using hl.unused
  case idleCont =>
    intro c
    exact (congrFun hcont c).trans (hl.idleCont c)

/-- A move keeps `Life`. -/
lemma Life.move {p : Pcb} {h h' : Head} (hl : k.Life q gone) (hr : k.links.Repr q) (hp : p ∈ q h)
    (hh' : ∀ r, h' = .waitList r → k.pid r ≠ 0) (hf : k'.lifeFields = k.lifeFields)
    (hinit : ∀ g, k'.links.Init g ↔ k.links.Init g) : k'.Life (move q p h h') gone := by
  refine hl.congr hf (fun x => exists_mem_move hr hp) (fun r hi => (hinit _).2 hi) ?_
  intro r hr0 hempty
  have hfrom : Head.waitList r ≠ h := by
    rintro rfl
    rw [hempty] at hp
    exact List.not_mem_nil hp
  have hto : Head.waitList r ≠ h' := by
    rintro rfl
    exact hh' r rfl hr0
  rw [move_of_ne hfrom hto, hempty]

/-- `Lists` after the heap changed and a PCB moved. -/
lemma Lists.move {p : Pcb} {h h' : Head} (hl : k.Lists q) (hp : p ∈ q h)
    (hr : k'.links.Repr (move q p h h')) (hinit : ∀ g, k'.links.Init g ↔ k.links.Init g) :
    k'.Lists (move q p h h') := by
  refine ⟨hr, fun g hg => (hinit g).2 (hl.init g hg), fun g x hx => ?_⟩
  rw [mem_move hl.repr hp] at hx
  by_cases hxp : x = p
  · exact hxp ▸ hl.slots h p hp
  · rw [if_neg hxp] at hx
    exact hl.slots g x hx

end Frames

/-! ## The primitives -/

section Primitives

variable {k : Kernel} {q : Head → List Pcb} {out : Option Cpu} {gone : Option Pcb}

/-- `do_unblock` of a PCB that waits. -/
lemma Mid.doUnblock {p : Pcb} {h : Head} (hm : k.Mid q out gone) (hp : p ∈ q h)
    (hne : h ≠ .readyQueue) :
    ∃ L : Links Head Pcb, k.doUnblock p = some { k.setStatus p .ready with links := L } ∧
      Mid { k.setStatus p .ready with links := L } (move q p h .readyQueue) out gone := by
  have hr := hm.lists.repr
  obtain ⟨L, hL, hr', hinit⟩ := doUnblock_spec hr hp (hm.lists.init _ (by simp))
  have hready : ∀ x, x ∈ move q p h .readyQueue .readyQueue ↔ x = p ∨ x ∈ q .readyQueue := by
    intro x
    rw [mem_move hr hp]
    by_cases hx : x = p <;> simp [hx]
  have hpready : p ∉ q .readyQueue := fun hmem => hne (hr.disjoint h _ p hp hmem)
  -- a PCB that waits does not run
  have hnorun : ∀ c, some c ≠ out → k.runnings c ≠ some p := by
    intro c hc hrun
    rcases hm.runs.run c p hc hrun with hidle | hmem
    · exact hm.lists.idle_notMem c h (hidle ▸ hp)
    · exact hpready hmem
  refine ⟨L, hL, ⟨hm.lists.move hp hr' hinit, ?_, ?_, hm.stuck⟩⟩
  · refine ⟨hm.runs.master, hm.runs.joined, fun c x hc hx => ?_, hm.runs.distinct,
      fun x hx => ?_, ?_, hm.runs.satp⟩
    · exact (hm.runs.run c x hc hx).imp_right fun hmem => (hready x).2 (.inr hmem)
    · rcases (hready x).1 hx with rfl | hx
      · simp only [setStatus, Function.update_self, reduceCtorEq, false_iff, not_exists, not_and]
        exact hnorun
      · have hxp : x ≠ p := fun heq => hpready (heq ▸ hx)
        simp only [setStatus, Function.update_of_ne hxp]
        exact hm.runs.status x hx
    · intro h1 h0 x hx
      refine (hm.runs.head h1 h0 x hx).imp_right fun ⟨l, hl⟩ => ⟨l ++ [p], ?_⟩
      rw [move_to hne.symm, hl, List.cons_append]
  · exact hm.life.move hr hp (by simp) rfl hinit

/-- The task of CPU `c` gives up the CPU and goes to the tail of a queue. -/
lemma Mid.leave {c : Cpu} {p : Pcb} {h : Head} (st : TaskStatus) (hm : k.Mid q none none)
    (hrun : k.runnings c = some p) (hp : p ≠ idlePcb c) (hi : k.links.Init h)
    (hh : ∀ r, h = .waitList r → k.pid r ≠ 0) (hst : st ≠ .running) :
    ∃ L : Links Head Pcb, ((k.listDeleteEntry p).bind fun k => k.listAddTail p h) =
        some { k with links := L } ∧
      Mid ({ k with links := L }.setStatus p st) (move q p .readyQueue h) (some c) none := by
  have hr := hm.lists.repr
  have hmem : p ∈ q .readyQueue := (hm.runs.run c p (by simp) hrun).resolve_left hp
  obtain ⟨L, hL, hr', hinit⟩ := move_spec hr hmem hi
  -- nobody else runs `p`
  have honly : ∀ d, d ≠ c → k.runnings d ≠ some p := fun d hd hrun' =>
    hd (hm.runs.distinct d c p (by simp) (by simp) hrun' hrun)
  refine ⟨L, hL, ⟨hm.lists.move hmem hr' hinit, ?_, hm.life.move hr hmem hh rfl hinit, hm.stuck⟩⟩
  constructor
  case master => exact hm.runs.master
  case joined =>
    rintro hc
    obtain rfl := Option.some.inj hc
    exact fun h1 => Option.some_ne_none p (hrun.symm.trans h1)
  case run =>
    intro d x hd hx
    rw [ne_eq, Option.some.injEq] at hd
    refine (hm.runs.run d x (by simp) hx).imp_right fun hxmem => ?_
    have hxp : x ≠ p := by
      rintro rfl
      exact honly d hd hx
    rw [mem_move hr hmem, if_neg hxp]
    exact hxmem
  case distinct => exact fun d e x _ _ => hm.runs.distinct d e x (by simp) (by simp)
  case status =>
    intro x hx
    rw [mem_move hr hmem] at hx
    by_cases hxp : x = p
    · subst hxp
      simp only [setStatus, Function.update_self, hst, false_iff, not_exists, not_and, ne_eq,
        Option.some.injEq]
      exact fun d hd => honly d hd
    · rw [if_neg hxp] at hx
      simp only [setStatus, Function.update_of_ne hxp, hm.runs.status x hx, ne_eq,
        Option.some.injEq, reduceCtorEq, not_false_eq_true, true_and]
      constructor
      · rintro ⟨d, hd⟩
        refine ⟨d, ?_, hd⟩
        rintro rfl
        rw [hrun, Option.some.injEq] at hd
        exact hxp hd.symm
      · rintro ⟨d, -, hd⟩
        exact ⟨d, hd⟩
  case head =>
    intro h1 h0
    -- only CPU 0 can have given up its task while CPU 1 waits
    exfalso
    rcases cpu_cases c with rfl | rfl
    · exact h0 rfl
    · exact Option.some_ne_none p (hrun.symm.trans h1)
  case satp => exact fun d hd => hm.runs.satp d (by simp)

/-- The idle task of CPU `c` gives up the CPU. -/
lemma Mid.leaveIdle {c : Cpu} (hm : k.Mid q none none) (hrun : k.runnings c = some (idlePcb c)) :
    Mid (k.setStatus (idlePcb c) .ready) q (some c) none := by
  refine ⟨⟨hm.lists.repr, hm.lists.init, hm.lists.slots⟩, ?_,
    hm.life.congr rfl (fun _ => Iff.rfl) (fun _ h => h) (fun _ _ h => h), hm.stuck⟩
  constructor
  case master => exact hm.runs.master
  case joined =>
    rintro hc
    obtain rfl := Option.some.inj hc
    exact fun h1 => Option.some_ne_none _ (hrun.symm.trans h1)
  case run => exact fun d x _ => hm.runs.run d x (by simp)
  case distinct => exact fun d e x _ _ => hm.runs.distinct d e x (by simp) (by simp)
  case status =>
    intro x hx
    have hxi : x ≠ idlePcb c := by
      rintro rfl
      exact hm.lists.idle_notMem c _ hx
    simp only [setStatus, Function.update_of_ne hxi, hm.runs.status x hx, ne_eq,
      Option.some.injEq, reduceCtorEq, not_false_eq_true, true_and]
    constructor
    · rintro ⟨d, hd⟩
      refine ⟨d, ?_, hd⟩
      rintro rfl
      rw [hrun, Option.some.injEq] at hd
      exact hxi hd.symm
    · rintro ⟨d, -, hd⟩
      exact ⟨d, hd⟩
  case head =>
    intro h1 h0
    exfalso
    rcases cpu_cases c with rfl | rfl
    · exact h0 rfl
    · exact Option.some_ne_none _ (hrun.symm.trans h1)
  case satp => exact fun d hd => hm.runs.satp d (by simp)

/-- The kernel once `find_idle_task` picked `p` and `switch_pgdir` ran. -/
def picked (k : Kernel) (c : Cpu) (p : Pcb) : Kernel :=
  { k with
    status := Function.update k.status p .running
    runnings := Function.update k.runnings c (some p)
    satp := Function.update k.satp c (k.pgdir p) }

/-- A PCB on a queue, or an idle task, has a page directory that is not freed. -/
lemma Mid.freed_pgdir {p : Pcb} (hm : k.Mid q out gone)
    (hp : (∃ c, p = idlePcb c) ∨ ∃ h, p ∈ q h) : k.freed (k.pgdir p) = false := by
  rcases hp with ⟨c, rfl⟩ | ⟨h, hp⟩
  · rw [hm.life.idlePgdir c]
    exact hm.life.kernelPgdir
  · have hgone : some p ≠ gone := fun heq => hm.life.off p heq.symm h hp
    exact hm.life.pgdirLive p hgone ((hm.life.live p hgone).2 ⟨h, hp⟩)

/-- `find_idle_task` and `switch_pgdir` on the CPU that gave up its task. -/
lemma Mid.pick {c : Cpu} (hm : k.Mid q (some c) gone) :
    ∃ p k', k.findIdleTask c = some k' ∧ k'.switchPgdir c = k.picked c p ∧
      (p = idlePcb c ∨ p ∈ q .readyQueue) ∧ Mid (k.picked c p) q none gone ∧
      ((k.picked c p).runnings 1 = none → (k.picked c p).runnings 0 = some (idlePcb 0) →
        q .readyQueue = []) := by
  have hr := hm.lists.repr
  obtain ⟨found, hfound⟩ : ∃ found, found = (q .readyQueue).find? fun p => k.status p ≠ .running :=
    ⟨_, rfl⟩
  obtain ⟨p, hpdef⟩ : ∃ p, p = found.getD (idlePcb c) := ⟨_, rfl⟩
  have hpick : k.findIdleTask c = some { k.setStatus p .running with
      runnings := Function.update k.runnings c (some p) } := by
    rw [findIdleTask, firstIdle_spec hr (hm.lists.init _ (by simp)), ← hfound, hpdef]
    rfl
  have hp : p = idlePcb c ∧ found = none ∨ p ∈ q .readyQueue ∧ k.status p ≠ .running := by
    cases hf : found with
    | none => exact .inl ⟨by rw [hpdef, hf]; rfl, rfl⟩
    | some x =>
      right
      rw [hpdef, hf, Option.getD_some]
      rw [hf] at hfound
      exact ⟨List.mem_of_find?_eq_some hfound.symm, by simpa using List.find?_some hfound.symm⟩
  have hp' : p = idlePcb c ∨ p ∈ q .readyQueue := hp.imp And.left And.left
  -- no other CPU runs `p`
  have hnorun : ∀ d, d ≠ c → k.runnings d ≠ some p := by
    intro d hd hrun
    rcases hp with ⟨rfl, -⟩ | ⟨hmem, hstatus⟩
    · rcases hm.runs.run d _ (by simpa using hd) hrun with heq | hmem
      · exact hd (idlePcb_inj heq).symm
      · exact hm.lists.idle_notMem c _ hmem
    · exact hstatus ((hm.runs.status p hmem).2 ⟨d, by simpa using hd, hrun⟩)
  have hfreed : k.freed (k.pgdir p) = false :=
    hm.freed_pgdir (hp'.imp (fun h => ⟨c, h⟩) fun h => ⟨_, h⟩)
  have hswitch : ({ k.setStatus p .running with
      runnings := Function.update k.runnings c (some p) } : Kernel).switchPgdir c =
      k.picked c p := by
    simp only [switchPgdir, setStatus, Function.update_self, hfreed, Bool.or_false, picked]
  -- while CPU 1 waits, no PCB of the ready queue runs when CPU 0 picks
  have hfirst : k.runnings 1 = none → c = 0 ∧ found = (q .readyQueue).head? := by
    intro h1
    have hc : c = 0 := (cpu_cases c).resolve_right fun hc => hm.runs.joined (by rw [hc]) h1
    refine ⟨hc, ?_⟩
    cases hq : q .readyQueue with
    | nil => rw [hfound, hq]; rfl
    | cons x l =>
      have hx : k.status x ≠ .running := by
        rw [Ne, hm.runs.status x (by rw [hq]; exact List.mem_cons_self)]
        rintro ⟨d, hd, hrun⟩
        rcases cpu_cases d with rfl | rfl
        · exact hd (by rw [hc])
        · exact Option.some_ne_none x (hrun.symm.trans h1)
      rw [hfound, hq, List.find?_cons_of_pos (by simpa using hx)]
      rfl
  have hrun1 : (k.picked c p).runnings 1 = none → k.runnings 1 = none := by
    intro h1
    by_cases hc : (1 : Cpu) = c
    · simp [picked, ← hc] at h1
    · simpa [picked, hc] using h1
  refine ⟨p, _, hpick, hswitch, hp', ⟨⟨hr, hm.lists.init, hm.lists.slots⟩, ?_,
    hm.life.congr rfl (fun _ => Iff.rfl) (fun _ h => h) (fun _ _ h => h), hm.stuck⟩, ?_⟩
  · constructor
    case master =>
      rcases eq_or_ne 0 c with rfl | hc
      · simp [picked]
      · simpa only [picked, Function.update_of_ne hc] using hm.runs.master
    case joined => simp
    case run =>
      intro d x _ hx
      rcases eq_or_ne d c with rfl | hd
      · simp only [picked, Function.update_self, Option.some.injEq] at hx
        exact hx ▸ hp'
      · simp only [picked, Function.update_of_ne hd] at hx
        exact hm.runs.run d x (by simpa using hd) hx
    case distinct =>
      intro d e x _ _ hd he
      rcases eq_or_ne d c with rfl | hdc <;> rcases eq_or_ne e d with rfl | hed
      · rfl
      · simp only [picked, Function.update_self, Option.some.injEq, Function.update_of_ne hed]
          at hd he
        exact absurd (hd ▸ he) (hnorun e hed)
      · rfl
      · rcases eq_or_ne e c with rfl | hec
        · simp only [picked, Function.update_self, Option.some.injEq, Function.update_of_ne hdc]
            at hd he
          exact absurd (he ▸ hd) (hnorun d hdc)
        · simp only [picked, Function.update_of_ne hdc, Function.update_of_ne hec] at hd he
          exact hm.runs.distinct d e x (by simpa using hdc) (by simpa using hec) hd he
    case status =>
      intro x hx
      by_cases hxp : x = p
      · subst hxp
        simp only [picked, Function.update_self, true_iff]
        exact ⟨c, by simp, Function.update_self ..⟩
      · simp only [picked, Function.update_of_ne hxp]
        rw [hm.runs.status x hx]
        constructor
        · rintro ⟨d, hd, hrun⟩
          refine ⟨d, by simp, ?_⟩
          rwa [Function.update_of_ne (by simpa using hd)]
        · rintro ⟨d, -, hrun⟩
          rcases eq_or_ne d c with rfl | hd
          · rw [Function.update_self, Option.some.injEq] at hrun
            exact absurd hrun.symm hxp
          · rw [Function.update_of_ne hd] at hrun
            exact ⟨d, by simpa using hd, hrun⟩
    case head =>
      intro h1 _ x hx
      obtain ⟨rfl, hhead⟩ := hfirst (hrun1 h1)
      simp only [picked, Function.update_self, Option.some.injEq] at hx
      subst hx
      cases hq : q .readyQueue with
      | nil => exact .inl (by rw [hpdef, hhead, hq]; rfl)
      | cons y l => exact .inr ⟨l, by rw [hpdef, hhead, hq]; rfl⟩
    case satp =>
      intro d _
      rcases eq_or_ne d c with rfl | hd
      · exact .inr ⟨p, by simp [picked], by simp [picked]⟩
      · simp only [picked, Function.update_of_ne hd]
        exact hm.runs.satp d (by simpa using hd)
  · intro h1 h0
    obtain ⟨rfl, hhead⟩ := hfirst (hrun1 h1)
    simp only [picked, Function.update_self, Option.some.injEq] at h0
    cases hq : q .readyQueue with
    | nil => rfl
    | cons y l =>
      exfalso
      have hpy : p = y := by rw [hpdef, hhead, hq]; rfl
      refine hm.lists.idle_notMem 0 .readyQueue ?_
      rw [hq, ← h0, hpy]
      exact List.mem_cons_self

/-- Behind a `switch_to` the invariant holds again. -/
lemma Mid.reschedule {c : Cpu} (before : Pcb) (cont : Cont) (hm : k.Mid q (some c) none)
    (hcont : ∀ d, before = idlePcb d → cont = .ret) :
    ∃ p, k.reschedule c before cont = some ((k.picked c p).switchTo c before cont) ∧
      (p = idlePcb c ∨ p ∈ q .readyQueue) ∧ ((k.picked c p).switchTo c before cont).Inv q := by
  obtain ⟨p, k', hpick, hswitch, hp, hm', hidle⟩ := hm.pick
  refine ⟨p, ?_, hp, ⟨⟨⟨hm'.lists.repr, hm'.lists.init, hm'.lists.slots⟩, ?_, ?_, hm'.stuck⟩, hidle⟩⟩
  · simp only [Kernel.reschedule, hpick, Option.bind_eq_bind, Option.bind_some, hswitch]
  · exact ⟨hm'.runs.master, hm'.runs.joined, hm'.runs.run, hm'.runs.distinct, hm'.runs.status,
      hm'.runs.head, hm'.runs.satp⟩
  · refine hm'.life.congr ?_ (fun _ => Iff.rfl) (fun _ h => h) (fun _ _ h => h)
    have hc : (fun d => Function.update (k.picked c p).cont before cont (idlePcb d)) =
        fun d => (k.picked c p).cont (idlePcb d) := by
      funext d
      by_cases hd : idlePcb d = before
      · rw [← hd, Function.update_self, hcont d hd.symm]
        exact (hm'.life.idleCont d).symm
      · rw [Function.update_of_ne hd]
    simp only [lifeFields, switchTo, hc]

/-- A CPU that is not idle when it leaves the kernel: nothing is left to check. -/
lemma Mid.inv {c : Cpu} {p : Pcb} (hm : k.Mid q none none) (hrun : k.runnings c = some p)
    (hp : p ≠ idlePcb c) : k.Inv q := by
  refine ⟨hm, fun h1 h0 => ?_⟩
  rcases cpu_cases c with rfl | rfl
  · rw [hrun, Option.some.injEq] at h0
    exact absurd h0 hp
  · exact absurd (hrun.symm.trans h1) (Option.some_ne_none p)

/-- `ret_from_kernel`. -/
lemma Inv.retFromKernel {c : Cpu} {p : Pcb} (hi : k.Inv q) (hrun : k.runnings c = some p) :
    (k.retFromKernel c).Inv q := by
  have hp := hi.runs.run c p (by simp) hrun
  have hfreed : k.freed (k.pgdir p) = false :=
    hi.toMid.freed_pgdir (hp.imp (fun h => ⟨c, h⟩) fun h => ⟨_, h⟩)
  have heq : k.retFromKernel c =
      { k with satp := Function.update k.satp c (k.pgdir p), inKernel := none } := by
    simp only [Kernel.retFromKernel, switchPgdir, hrun, hfreed, Bool.or_false]
  rw [heq]
  refine ⟨⟨⟨hi.lists.repr, hi.lists.init, hi.lists.slots⟩, ?_,
    hi.life.congr rfl (fun _ => Iff.rfl) (fun _ h => h) (fun _ _ h => h), hi.stuck⟩, hi.idle⟩
  refine ⟨hi.runs.master, hi.runs.joined, hi.runs.run, hi.runs.distinct, hi.runs.status,
    hi.runs.head, fun d _ => ?_⟩
  rcases eq_or_ne d c with rfl | hd
  · exact .inr ⟨p, hrun, Function.update_self ..⟩
  · simp only [Function.update_of_ne hd]
    exact hi.runs.satp d (by simp)

end Primitives

end Kernel
end Sched
end UcasKernel
