/-
What the invariant says about runs of the scheduler.

Both results are about runs from the state in which CPU 0 runs the shell, all of
whose steps are careful: no PCB runs on two CPUs, and a process that was killed
stays dead.
-/
import UcasKernel.Sched.Steps

namespace UcasKernel
namespace Sched
namespace Kernel

open Trace

/-! ## The first state -/

/-- The queues of the first state. -/
def bootQueues : Head → List Pcb := fun h => if h = .readyQueue then [.slot 0] else []

/-- The heads that `main` sets up, before a PCB is linked. -/
def emptyLinks : Links Head Pcb :=
  ⟨fun n => match n with
    | .inl (.waitList _) => none
    | .inl h => some (.inl h)
    | .inr _ => none,
   fun n => match n with
    | .inl (.waitList _) => none
    | .inl h => some (.inl h)
    | .inr _ => none⟩

lemma repr_emptyLinks : emptyLinks.Repr fun _ => [] := by
  refine ⟨fun h hi => ?_, fun _ _ => rfl, fun _ => List.nodup_nil, fun _ _ _ hmem => ?_⟩
  · cases h with
    | waitList p => exact absurd rfl hi
    | _ => exact ⟨rfl, rfl⟩
  · cases hmem

lemma boot_lists (tasks : List (List UInt8)) : (boot tasks).Lists bootQueues := by
  obtain ⟨L, hL, hr, hinit⟩ := repr_emptyLinks.addTail (h := .readyQueue) (e := .slot 0) (by
    intro hnone
    cases hnone) (by simp)
  obtain ⟨hr', hinit'⟩ := hr.initHead (h := .waitList (.slot 0)) (by simp)
  have hlinks : (boot tasks).links = L.initHead (.waitList (.slot 0)) := by
    rw [← Option.some.inj hL]
    rfl
  have hq : Function.update (fun _ : Head => ([] : List Pcb)) .readyQueue ([] ++ [.slot 0]) =
      bootQueues := by
    funext h
    by_cases hh : h = .readyQueue <;> simp [bootQueues, hh]
  rw [hq] at hr'
  refine ⟨hlinks ▸ hr', fun h hh => ?_, fun h p hp => ?_⟩
  · rw [hlinks, hinit' h]
    refine .inr ((hinit h).2 ?_)
    cases h with
    | waitList p => exact absurd rfl (hh p)
    | _ =>
      intro hnone
      cases hnone
  · by_cases hh : h = .readyQueue
    · simp only [bootQueues, hh, if_true, List.mem_singleton] at hp
      exact ⟨0, hp⟩
    · simp [bootQueues, hh] at hp

lemma boot_runs (tasks : List (List UInt8)) : (boot tasks).Runs bootQueues none := by
  have hrun : ∀ c p, (boot tasks).runnings c = some p → c = 0 ∧ p = .slot 0 := by
    intro c p hp
    rcases cpu_cases c with rfl | rfl
    · exact ⟨rfl, (Option.some.inj hp).symm⟩
    · cases hp
  constructor
  case master => exact Option.some_ne_none _
  case joined => simp
  case run =>
    intro c p _ hp
    obtain ⟨-, rfl⟩ := hrun c p hp
    exact .inr (by simp [bootQueues])
  case distinct => exact fun c d p _ _ hc hd => (hrun c p hc).1.trans (hrun d p hd).1.symm
  case status =>
    intro p hp
    simp only [bootQueues, if_true, List.mem_singleton] at hp
    subst hp
    exact ⟨fun _ => ⟨0, by simp, rfl⟩, fun _ => by simp [boot]⟩
  case head =>
    intro _ _ p hp
    obtain ⟨-, rfl⟩ := hrun 0 p hp
    exact .inr ⟨[], by simp [bootQueues]⟩
  case satp =>
    intro c _
    rcases cpu_cases c with rfl | rfl
    · exact .inr ⟨.slot 0, rfl, by simp [boot]⟩
    · exact .inl rfl

lemma boot_life (tasks : List (List UInt8)) : (boot tasks).Life bootQueues none := by
  have hpid : ∀ p, (boot tasks).pid p = if p = .slot 0 then 1 else 0 := by
    intro p
    by_cases hp : p = .slot 0 <;> simp [boot, hp]
  have hpgdir : ∀ p, (boot tasks).pgdir p = if p = .slot 0 then 1 else 0 := by
    intro p
    by_cases hp : p = .slot 0 <;> simp [boot, hp]
  have hlive : ∀ p, (boot tasks).pid p ≠ 0 → p = .slot 0 := by
    intro p hp
    by_contra hne
    exact hp (by rw [hpid, if_neg hne])
  constructor
  case pidRange =>
    intro p hp
    rw [hpid, if_pos (hlive p hp)]
    exact ⟨one_pos, (by decide : (1 : ℤ) < 2)⟩
  case processId => exact (by decide : (0 : ℤ) < 2)
  case idlePid => exact fun c => by rw [hpid, if_neg (idlePcb_ne_slot c 0)]
  case live =>
    intro p _
    constructor
    · intro hp
      exact ⟨.readyQueue, by simp [bootQueues, hlive p hp]⟩
    · rintro ⟨h, hp⟩
      by_cases hh : h = .readyQueue
      · simp only [bootQueues, hh, if_true, List.mem_singleton] at hp
        simp [hpid, hp]
      · simp [bootQueues, hh] at hp
  case off => simp
  case waitInit =>
    intro p hp
    rw [hlive p hp]
    simp [boot, Links.Init, Links.initHead]
  case waitEmpty => simp [bootQueues]
  case threads =>
    intro v hv
    have hcount : (boot tasks).pidCount none v = if v = 1 then 1 else 0 := by
      unfold pidCount
      by_cases hv1 : v = 1
      · rw [if_pos hv1, Finset.card_eq_one]
        refine ⟨0, Finset.ext fun i => ?_⟩
        simp [hpid, hv1]
      · rw [if_neg hv1, Finset.card_eq_zero, Finset.filter_eq_empty_iff]
        intro i _
        simp only [hpid]
        split <;> simp [eq_comm, hv, hv1]
    rw [hcount]
    by_cases hv1 : v = 1 <;> simp [boot, hv1]
  case pgdirLive => exact fun _ _ _ => rfl
  case pgdirPos =>
    intro p hp
    rw [hpgdir, if_pos (hlive p hp)]
    exact Nat.one_pos
  case pgdirLt =>
    intro p
    rw [hpgdir]
    change (if p = .slot 0 then 1 else 0) < 2
    split <;> decide
  case pgdirPid => exact fun p r hp hr _ => by rw [hlive p hp, hlive r hr]
  case idlePgdir => exact fun c => by rw [hpgdir, if_neg (idlePcb_ne_slot c 0)]
  case kernelPgdir => rfl
  case unused => exact fun _ _ => rfl
  case idleCont => exact fun _ => rfl

lemma boot_inv (tasks : List (List UInt8)) : (boot tasks).Inv bootQueues where
  lists := boot_lists tasks
  runs := boot_runs tasks
  life := boot_life tasks
  stuck := rfl
  idle := by
    intro _ h0
    cases h0

/-- Careful runs keep the invariant. -/
lemma inv_of_run {tasks : List (List UInt8)} {es : List Event} {k : Kernel}
    (hes : StepsMeet Kernel.step Careful (boot tasks) es)
    (hrun : run Kernel.step (boot tasks) es = some k) : ∃ q, k.Inv q :=
  run_invariant (P := fun k => ∃ q, k.Inv q)
    (fun _ _ _ ⟨_, hi⟩ hC hk => (hi.step hC hk).inv) ⟨_, boot_inv tasks⟩ hes hrun

/-! ## A task never runs on two CPUs -/

section Exclusive

variable {k : Kernel} {q : Head → List Pcb}

/-- The two CPUs run different PCBs. -/
lemma Inv.runnings_ne (hi : k.Inv q) : k.runnings 0 ≠ k.runnings 1 := by
  intro heq
  obtain ⟨p, hp⟩ := Option.ne_none_iff_exists'.1 hi.runs.master
  have h01 := hi.runs.distinct 0 1 p (by simp) (by simp) hp (heq ▸ hp)
  exact absurd h01 (by decide)

/-- A PCB that the ready queue leads to has status `TASK_RUNNING` exactly when a
CPU runs it. -/
lemma Inv.status_iff {p : Pcb} (hi : k.Inv q) (hp : k.links.On .readyQueue p) :
    k.status p = .running ↔ ∃ c, k.runnings c = some p := by
  rw [hi.runs.status p (hi.lists.repr.on_iff.1 hp)]
  simp

end Exclusive

/-- In every careful run the CPUs run different PCBs, and on the ready queue the
status `TASK_RUNNING` tells what they run. -/
theorem cpus_run_different_tasks {tasks : List (List UInt8)} {es : List Event} {k : Kernel}
    (hes : StepsMeet Kernel.step Careful (boot tasks) es)
    (hrun : run Kernel.step (boot tasks) es = some k) :
    k.runnings 0 ≠ k.runnings 1 ∧
      ∀ p, k.links.On .readyQueue p → (k.status p = .running ↔ ∃ c, k.runnings c = some p) := by
  obtain ⟨q, hi⟩ := inv_of_run hes hrun
  exact ⟨hi.runnings_ne, fun p hp => hi.status_iff hp⟩

/-- No device answers. -/
def quietEnv : Env := ⟨fun _ => 0, false, false, false, fun _ => false⟩

/-- The shell starts a task, CPU 1 joins with it, and both are interrupted. -/
def joinRun : List Event :=
  [.trap 0 (.exec [104]) quietEnv, .slaveJoin, .resume 1 quietEnv, .trap 0 .irqTimer quietEnv,
    .resume 0 quietEnv, .trap 1 .irqTimer quietEnv]

lemma joinRun_isSome : (run Kernel.step (boot [[104]]) joinRun).isSome = true := by decide

/-- The steps of `joinRun` are careful. -/
lemma joinRun_careful : StepsMeet Kernel.step Careful (boot [[104]]) joinRun := by
  refine stepsMeet_cons (fun _ _ => trivial) fun _ _ => ?_
  refine stepsMeet_cons trivial fun _ _ => stepsMeet_cons trivial fun _ _ => ?_
  refine stepsMeet_cons (fun _ _ => trivial) fun _ _ => stepsMeet_cons trivial fun _ _ => ?_
  exact stepsMeet_cons (fun _ _ => trivial) fun _ _ => stepsMeet_nil _ _

theorem cpus_run_different_tasks_joinRun :
    let k := (run Kernel.step (boot [[104]]) joinRun).get joinRun_isSome
    k.runnings 0 ≠ k.runnings 1 ∧
      ∀ p, k.links.On .readyQueue p → (k.status p = .running ↔ ∃ c, k.runnings c = some p) :=
  cpus_run_different_tasks joinRun_careful (Option.some_get joinRun_isSome).symm

/-! ## A killed process stays dead -/

/-- What kill promises about the process `pid` of `k₀` in a later state `k`: no PCB
has the pid; its PCBs, as long as no other process took them, are on no queue and
on no CPU; and no CPU uses a page directory that was freed. -/
structure KillFinal (k₀ : Kernel) (pid : ℤ) (k : Kernel) : Prop where
  noPid : ∀ p, k.pid p ≠ pid
  off : ∀ p, k₀.pid p = pid → k.pid p = 0 → ∀ h, ¬ k.links.On h p
  idle : ∀ p, k₀.pid p = pid → k.pid p = 0 → ∀ c, k.runnings c ≠ some p
  satp : ∀ c, k.freed (k.satp c) = false

section Kill

variable {k k' : Kernel} {q : Head → List Pcb} {c : Cpu} {env : Env} {pid : ℤ}

/-- A kill with care returns 1 and leaves no PCB with the pid. -/
lemma Inv.kill (hi : k.Inv q) (he : k.Careful (.trap c (.kill pid) env))
    (hlive : ∃ p, k.pid p = pid) (hk : k.step (.trap c (.kill pid) env) = some k') :
    (∃ k₁, k.doKill pid = some (1, k₁)) ∧ ∀ x, k'.pid x ≠ pid := by
  have hm := hi.toMid
  simp only [Kernel.step] at hk
  split at hk
  · split at hk
    · cases hk
    · rename_i p hrun
      split at hk
      · obtain ⟨hpid0, hfound⟩ := he p hrun
        -- the live PCB with the pid is a slot, so the search finds one
        obtain ⟨x, hx⟩ := hlive
        obtain ⟨h, hmem⟩ := (hm.life.live x (by simp)).1 (by rw [hx]; exact hpid0)
        obtain ⟨j, rfl⟩ := hm.lists.slots h x hmem
        cases hfind : k.findPid pid with
        | none => exact absurd hx (findPid_none hfind j)
        | some i =>
          obtain ⟨halone, hnorun⟩ := hfound i hfind
          obtain ⟨k₁, q₁, hk₁, -, hpid₁, -, -⟩ := hm.doKill hpid0 hfind halone hnorun
          refine ⟨⟨k₁, hk₁⟩, fun y hy => ?_⟩
          simp only [handle, Kernel.returning, hk₁, Option.map_some, Option.some.injEq] at hk
          rw [← hk, retFromKernel_pid, hpid₁] at hy
          by_cases hyi : y = .slot i
          · rw [hyi, Function.update_self] at hy
            exact hpid0 hy.symm
          · rw [Function.update_of_ne hyi] at hy
            obtain ⟨h', hmem'⟩ := (hm.life.live y (by simp)).1 (by rw [hy]; exact hpid0)
            obtain ⟨j', rfl⟩ := hm.lists.slots h' y hmem'
            exact hyi (halone j' (by rw [hy, findPid_spec hfind]))
      · cases hk
  · cases hk

/-- While no PCB has an old pid, kill keeps its promise. -/
lemma Inv.killFinal {k₀ : Kernel} (hi : k.Inv q) (hpid : ∀ p, k.pid p ≠ pid)
    (hslots : ∀ p, k₀.pid p = pid → ∃ i, p = .slot i) : k₀.KillFinal pid k := by
  refine ⟨hpid, fun p _ h0 h hon => ?_, fun p hp h0 c hrun => ?_, fun c => ?_⟩
  · exact (hi.life.live p (by simp)).2 ⟨h, hi.lists.repr.on_iff.1 hon⟩ h0
  · obtain ⟨i, rfl⟩ := hslots p hp
    have hmem := (hi.runs.run c _ (by simp) hrun).resolve_left (idlePcb_ne_slot c i).symm
    exact (hi.life.live _ (by simp)).2 ⟨_, hmem⟩ h0
  · rcases hi.runs.satp c (by simp) with hsatp | ⟨p, hrun, hsatp⟩
    · rw [hsatp]
      exact hi.life.kernelPgdir
    · rw [hsatp]
      refine hi.toMid.freed_pgdir ?_
      exact (hi.runs.run c p (by simp) hrun).imp (fun h => ⟨c, h⟩) fun h => ⟨_, h⟩

end Kill

/-- In a careful run, a kill of a live process returns 1 and is final: its promise
holds in every state from then on. -/
theorem kill_is_final {tasks : List (List UInt8)} {es es' : List Event} {k₀ k : Kernel} {c : Cpu}
    {env : Env} {pid : ℤ}
    (hes : StepsMeet Kernel.step Careful (boot tasks) (es ++ .trap c (.kill pid) env :: es'))
    (hpre : run Kernel.step (boot tasks) es = some k₀) (hpid : 0 < pid)
    (hlive : ∃ p, k₀.pid p = pid)
    (hpost : run Kernel.step k₀ (.trap c (.kill pid) env :: es') = some k) :
    (∃ k₁, k₀.doKill pid = some (1, k₁)) ∧ k₀.KillFinal pid k := by
  obtain ⟨q₀, hi₀⟩ := inv_of_run (StepsMeet.of_append hes) hpre
  have hes₀ : StepsMeet Kernel.step Careful k₀ (.trap c (.kill pid) env :: es') :=
    StepsMeet.drop hes hpre
  obtain ⟨k₁, hk₁, hrun⟩ := run_cons_eq_some.1 hpost
  obtain ⟨hone, hpid₁⟩ := hi₀.kill hes₀.head hlive hk₁
  refine ⟨hone, ?_⟩
  have hlead := hi₀.step hes₀.head hk₁
  have hslots : ∀ p, k₀.pid p = pid → ∃ i, p = .slot i := by
    intro p hp
    obtain ⟨h, hmem⟩ := (hi₀.life.live p (by simp)).1 (by rw [hp]; exact hpid.ne')
    exact hi₀.lists.slots h p hmem
  -- pids are not reused: the invariant of the rest of the run
  obtain ⟨x, hx⟩ := hlive
  have hold : pid < k₁.processId := by
    rw [← hx]
    exact (hi₀.life.pidRange x (by rw [hx]; exact hpid.ne')).2.trans_le hlead.processId
  obtain ⟨⟨q, hi⟩, -, hpidk⟩ := run_invariant (C := Careful)
    (P := fun k => (∃ q, k.Inv q) ∧ pid < k.processId ∧ ∀ p, k.pid p ≠ pid)
    (fun k e k' ⟨⟨_, hi⟩, hlt, hno⟩ hC hk => by
      have hl := hi.step hC hk
      refine ⟨hl.inv, hlt.trans_le hl.processId, fun p hp => ?_⟩
      rcases hl.pid p with h0 | ⟨y, hy⟩ | hnew
      · exact hpid.ne' (hp.symm.trans h0)
      · exact hno y (hy.symm.trans hp)
      · rw [hp] at hnew
        exact absurd hlt (not_lt.2 hnew))
    ⟨hlead.inv, hold, hpid₁⟩ (hes₀.tail hk₁) hrun
  exact hi.killFinal hpidk hslots

/-- The shell starts a task and gives it the CPU. -/
def handOver : List Event :=
  [.trap 0 (.exec [104]) quietEnv, .trap 0 .yield quietEnv, .resume 0 quietEnv]

lemma handOver_isSome : (run Kernel.step (boot [[104]]) handOver).isSome = true := by decide

lemma handOver_careful : StepsMeet Kernel.step Careful (boot [[104]]) handOver := by
  refine stepsMeet_cons (fun _ _ => trivial) fun _ _ => stepsMeet_cons (fun _ _ => trivial) ?_
  exact fun _ _ => stepsMeet_cons trivial fun _ _ => stepsMeet_nil _ _

/-- The task kills the shell, which is ready, and yields. -/
theorem kill_is_final_shell :
    ∃ k₀ k k₁ : Kernel, k₀.doKill 1 = some (1, k₁) ∧ k₀.KillFinal 1 k := by
  have hkill : ((run Kernel.step (boot [[104]]) handOver).bind fun k =>
      run Kernel.step k [.trap 0 (.kill 1) quietEnv, .trap 0 .yield quietEnv]).isSome = true := by
    decide
  obtain ⟨k, hk⟩ := Option.isSome_iff_exists.1 hkill
  obtain ⟨k₀, hpre, hpost⟩ := Option.bind_eq_some_iff.1 hk
  have hk₀ : k₀ = (run Kernel.step (boot [[104]]) handOver).get handOver_isSome := by
    rw [Option.get_of_eq_some _ hpre]
  have hes : StepsMeet Kernel.step Careful (boot [[104]])
      (handOver ++ .trap 0 (.kill 1) quietEnv :: [.trap 0 .yield quietEnv]) := by
    refine handOver_careful.append fun t ht => stepsMeet_cons (fun p hp => ⟨by decide, ?_⟩)
      fun _ _ => stepsMeet_cons (fun _ _ => trivial) fun _ _ => stepsMeet_nil _ _
    obtain rfl := Option.some.inj (ht.symm.trans hpre)
    rw [hk₀]
    unfold Alone
    decide
  obtain ⟨⟨k₁, hk₁⟩, hfinal⟩ :=
    kill_is_final hes hpre (by decide) ⟨.slot 0, by rw [hk₀]; decide⟩ hpost
  exact ⟨k₀, k, k₁, hk₁, hfinal⟩

/-- The shell starts a task and a thread, and gives the task the CPU. -/
def threadRun : List Event :=
  [.trap 0 (.exec [104]) quietEnv, .trap 0 .threadCreate quietEnv, .trap 0 .yield quietEnv,
    .resume 0 quietEnv]

/-- A kill of the shell with its two threads returns 1 and leaves the second one. -/
theorem kill_leaves_thread :
    ∃ k₀ k : Kernel, run Kernel.step (boot [[104]]) threadRun = some k₀ ∧ k₀.pid (.slot 0) = 1 ∧
      (∃ k₁, k₀.doKill 1 = some (1, k₁)) ∧ k₀.step (.trap 0 (.kill 1) quietEnv) = some k ∧
      ¬ k₀.KillFinal 1 k := by
  have hsome : (run Kernel.step (boot [[104]]) threadRun).isSome = true := by decide
  have hkill : ((run Kernel.step (boot [[104]]) threadRun).bind fun k =>
      (k.doKill 1).map (·.1)) = some 1 := by decide
  have hstep : ((run Kernel.step (boot [[104]]) threadRun).bind fun k =>
      (k.step (.trap 0 (.kill 1) quietEnv)).map fun k => k.pid (.slot 2)) = some 1 := by decide
  have hpid : ((run Kernel.step (boot [[104]]) threadRun).map fun k => k.pid (.slot 0)) = some 1 := by
    decide
  obtain ⟨k₀, hk₀⟩ := Option.isSome_iff_exists.1 hsome
  rw [hk₀] at hkill hstep hpid
  obtain ⟨⟨n, k₁⟩, hk₁, rfl⟩ := Option.map_eq_some_iff.1 hkill
  obtain ⟨k, hk, hthread⟩ := Option.map_eq_some_iff.1 hstep
  exact ⟨k₀, k, hk₀, Option.some.inj hpid, ⟨k₁, hk₁⟩, hk, fun hfinal => hfinal.noPid _ hthread⟩

end Kernel
end Sched
end UcasKernel
