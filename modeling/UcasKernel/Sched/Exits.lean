/-
A task that has exited is gone.

`do_exit` of the last thread of a process picks another task and frees the PCB, which is on
no queue and on no CPU until its slot is used again.  With other threads left it does not
pick another task: `switch_to` goes from the PCB to itself, and the task returns to the
user in a PCB that `find_unused_pcb` gives to the next process.
-/
import UcasKernel.Sched.Runs

namespace UcasKernel
namespace Sched
namespace Kernel

open Trace

/-- What a call must not do: end one of several threads by `do_exit`, kill a PCB that runs, wait
for or kill pid 0, or destroy a barrier with waiters. -/
def OrderlyCall (k : Kernel) (p : Pcb) : Call → Prop
  | .exit => k.Alone p
  | .kill pid => pid ≠ 0 ∧ ∀ i, k.findPid pid = some i → ∀ c, k.runnings c ≠ some (.slot i)
  | .waitpid pid => pid ≠ 0
  | .barrierDestroy idx => ∀ b, slotOf idx = some b → k.isQueueEmpty (.blockList b) = true
  | _ => True

def Orderly (k : Kernel) : Event → Prop
  | .trap cpuid call _ => ∀ p, k.runnings cpuid = some p → k.OrderlyCall p call
  | _ => True

/-- The CPU has left the PCB `p`, which is free, for another one. -/
structure Exited (c : Cpu) (p : Pcb) (k : Kernel) : Prop where
  switched : k.inKernel = some c
  other : ∃ r, r ≠ p ∧ k.runnings c = some r
  pid : k.pid p = 0

/-- As long as the PCB is free it is on no queue and no CPU runs it, and the slot that is used
next is that of no PCB that runs. -/
structure ExitFinal (p : Pcb) (k : Kernel) : Prop where
  off : k.pid p = 0 → ∀ h, ¬ k.links.On h p
  idle : k.pid p = 0 → ∀ c, k.runnings c ≠ some p
  reuse : ∀ i, k.findUnusedPcb = some i → ∀ c, k.runnings c ≠ some (.slot i)

section Exits

variable {k k' : Kernel} {q : Head → List Pcb} {c : Cpu} {p : Pcb} {env : Env} {e : Event}
  {i : Slot} {pid : ℤ}

/-- `do_kill` of a PCB that does not run, the last one of its process or not. -/
lemma Mid.doKill_orderly (hm : k.Mid q none none) (hpid : pid ≠ 0) (hfind : k.findPid pid = some i)
    (hrun : ∀ c, k.runnings c ≠ some (.slot i)) :
    ∃ k' q', k.doKill pid = some (1, k') ∧ k'.Mid q' none none ∧ k'.runnings = k.runnings := by
  have hpid' : k.pid (.slot i) ≠ 0 := by rwa [findPid_spec hfind]
  obtain ⟨k₁, q₁, hk₁, hm₁, hempty, hpid₁, hrun₁, -⟩ := hm.releasePcb hpid' (.inl ⟨rfl, hrun⟩)
  have hpid₁' : k₁.pid (.slot i) ≠ 0 := by rwa [hpid₁]
  by_cases hlast : k₁.threads (k₁.pid (.slot i)) = 0
  · refine ⟨_, q₁, ?_, hm₁.clearPid hpid₁' hempty hlast, hrun₁⟩
    simp only [Kernel.doKill, hfind, hk₁, Option.bind_eq_bind, Option.bind_some, hlast, if_true]
  · refine ⟨_, q₁, ?_, hm₁.dropPid hempty, hrun₁⟩
    simp only [Kernel.doKill, hfind, hk₁, Option.bind_eq_bind, Option.bind_some, hlast, if_false]

lemma Inv.kill_orderly (hi : k.Inv q) (he : k.Orderly (.trap c (.kill pid) env))
    (hk : k.step (.trap c (.kill pid) env) = some k') : ∃ q', k'.Inv q' := by
  simp only [Kernel.step] at hk
  split at hk
  · split at hk
    · cases hk
    · rename_i p hrun
      split at hk
      · rename_i hp
        have hp : p ≠ idlePcb c := hp.resolve_left (by simp)
        obtain ⟨k₁, hret, rfl⟩ := Option.map_eq_some_iff.1 hk
        obtain ⟨⟨n, k₂⟩, hk₁, rfl⟩ := Option.map_eq_some_iff.1 hret
        cases hfind : k.findPid pid with
        | none =>
          rw [Kernel.doKill, hfind, Option.some.injEq, Prod.mk.injEq] at hk₁
          obtain ⟨-, rfl⟩ := hk₁
          exact ⟨q, hi.toMid.retFromKernel hrun hp⟩
        | some i =>
          obtain ⟨hpid, hnorun⟩ := he p hrun
          obtain ⟨k₃, q₃, hk₃, hm₃, hrun₃⟩ := hi.toMid.doKill_orderly hpid hfind (hnorun i hfind)
          obtain ⟨-, rfl⟩ := Prod.mk.inj (Option.some.inj (hk₁.symm.trans hk₃))
          exact ⟨q₃, hm₃.retFromKernel (hrun₃ ▸ hrun) hp⟩
      · cases hk
  · cases hk

/-- A call in order is careful, but for a kill. -/
lemma Orderly.careful {call : Call} (he : k.Orderly (.trap c call env))
    (hcall : ∀ pid, call ≠ .kill pid) : k.Careful (.trap c call env) := by
  intro p hp
  have hcalled := he p hp
  cases call with
  | kill pid => exact absurd rfl (hcall pid)
  | _ => exact hcalled

/-- A step in order keeps the invariant. -/
lemma Inv.step_orderly (hi : k.Inv q) (he : k.Orderly e) (hk : k.step e = some k') :
    ∃ q', k'.Inv q' := by
  cases e with
  | trap c call env =>
    cases call with
    | kill pid => exact hi.kill_orderly he hk
    | _ => exact (hi.step (Orderly.careful he (by simp)) hk).inv
  | resume c env =>
    have hcareful : k.Careful (.resume c env) := trivial
    exact (hi.step hcareful hk).inv
  | slaveJoin =>
    have hcareful : k.Careful .slaveJoin := trivial
    exact (hi.step hcareful hk).inv

/-- Every state of a run in order has the invariant. -/
lemma inv_of_orderly {tasks : List (List UInt8)} {es : List Event}
    (hes : StepsMeet Kernel.step Orderly (boot tasks) es)
    (hrun : run Kernel.step (boot tasks) es = some k) : ∃ q, k.Inv q :=
  run_invariant (P := fun k => ∃ q, k.Inv q) (fun _ _ _ ⟨_, hi⟩ hC hk => hi.step_orderly hC hk)
    ⟨_, boot_inv tasks⟩ hes hrun

/-- No CPU runs a PCB that is free. -/
lemma Inv.not_running (hi : k.Inv q) (hpid : k.pid (.slot i) = 0) :
    k.runnings c ≠ some (.slot i) := by
  intro hrun
  have hmem := (hi.runs.run c _ (by simp) hrun).resolve_left (idlePcb_ne_slot c i).symm
  exact (hi.life.live _ (by simp)).2 ⟨_, hmem⟩ hpid

/-- The last thread of a process leaves the CPU when it exits. -/
lemma Inv.exited (hi : k.Inv q) (he : k.Orderly (.trap c .exit env)) (hrun : k.runnings c = some p)
    (hk : k.step (.trap c .exit env) = some k') : Exited c p k' ∧ ∃ i, p = .slot i := by
  simp only [Kernel.step, hrun, reduceCtorEq, false_or] at hk
  split_ifs at hk with hfree hp
  obtain ⟨hready, hpid⟩ := hi.toMid.running_live hrun hp
  obtain ⟨i, rfl⟩ := hi.lists.slots _ _ hready
  obtain ⟨k₁, q₁, hk₁, hi₁, hpid₁, -, hin, r, hr⟩ := hi.toMid.doExit hpid hrun (he _ hrun)
  obtain rfl := Option.some.inj (hk₁.symm.trans hk)
  have hzero : k₁.pid (.slot i) = 0 := by rw [hpid₁, Function.update_self]
  refine ⟨⟨hin, ⟨r, ?_, hr⟩, hzero⟩, i, rfl⟩
  rintro rfl
  exact hi₁.not_running hzero hr

lemma Inv.exitFinal (hi : k.Inv q) (hp : ∃ i, p = .slot i) : ExitFinal p k := by
  obtain ⟨i, rfl⟩ := hp
  refine ⟨fun hpid h hon => ?_, fun hpid c => hi.not_running hpid, fun j hj c => ?_⟩
  · exact (hi.life.live _ (by simp)).2 ⟨h, hi.lists.repr.on_iff.1 hon⟩ hpid
  · exact hi.not_running (findUnusedPcb_spec hj)

end Exits

/-- In a run in order, `do_exit` leaves the PCB for another one, and in every later state the PCB
is gone until it is used again, which no PCB that runs ever is. -/
theorem exit_is_final {tasks : List (List UInt8)} {es es' : List Event} {k₀ k₁ k : Kernel} {c : Cpu}
    {env : Env} {p : Pcb}
    (hes : StepsMeet Kernel.step Orderly (boot tasks) (es ++ .trap c .exit env :: es'))
    (hpre : run Kernel.step (boot tasks) es = some k₀) (hp : k₀.runnings c = some p)
    (hexit : k₀.step (.trap c .exit env) = some k₁) (hpost : run Kernel.step k₁ es' = some k) :
    Exited c p k₁ ∧ ExitFinal p k := by
  obtain ⟨q₀, hi₀⟩ := inv_of_orderly (StepsMeet.of_append hes) hpre
  have hrun : run Kernel.step (boot tasks) (es ++ .trap c .exit env :: es') = some k :=
    run_append_eq_some.2 ⟨k₀, hpre, run_cons_eq_some.2 ⟨k₁, hexit, hpost⟩⟩
  obtain ⟨q, hi⟩ := inv_of_orderly hes hrun
  obtain ⟨hexited, hslot⟩ := hi₀.exited (StepsMeet.drop hes hpre).head hp hexit
  exact ⟨hexited, hi.exitFinal hslot⟩

/-- The task that was started by the shell gets the CPU, exits, and the shell starts another one in
its slot. -/
theorem exit_is_final_task : ∃ k₁ k : Kernel, Exited 0 (.slot 1) k₁ ∧ ExitFinal (.slot 1) k := by
  have hsome : ((run Kernel.step (boot [[104]]) handOver).bind fun k₀ =>
      (k₀.step (.trap 0 .exit quietEnv)).bind fun k₁ =>
        (run Kernel.step k₁ [.resume 0 quietEnv, .trap 0 (.exec [104]) quietEnv]).map fun k =>
          decide (k₀.runnings 0 = some (.slot 1) ∧
            ∀ j, k₀.pid (.slot j) = k₀.pid (.slot 1) → Pcb.slot j = .slot 1)) = some true := by
    decide
  obtain ⟨k₀, hpre, hsome⟩ := Option.bind_eq_some_iff.1 hsome
  obtain ⟨k₁, hexit, hsome⟩ := Option.bind_eq_some_iff.1 hsome
  obtain ⟨k, hpost, hval⟩ := Option.map_eq_some_iff.1 hsome
  obtain ⟨hp, halone⟩ := of_decide_eq_true hval
  have hes : StepsMeet Kernel.step Orderly (boot [[104]]) (handOver ++ .trap 0 .exit quietEnv ::
      [.resume 0 quietEnv, .trap 0 (.exec [104]) quietEnv]) := by
    refine StepsMeet.append (stepsMeet_cons (fun _ _ => trivial) fun _ _ =>
      stepsMeet_cons (fun _ _ => trivial) fun _ _ => stepsMeet_cons trivial fun _ _ =>
        stepsMeet_nil _ _) fun t ht => stepsMeet_cons (fun r hr => ?_) fun _ _ =>
          stepsMeet_cons trivial fun _ _ => stepsMeet_cons (fun _ _ => trivial) fun _ _ =>
            stepsMeet_nil _ _
    obtain rfl := Option.some.inj (ht.symm.trans hpre)
    obtain rfl := Option.some.inj (hr.symm.trans hp)
    exact halone
  exact ⟨k₁, k, exit_is_final hes hpre hp hexit hpost⟩

/-- One of the two threads of the shell exits: it goes on, in a PCB that is free, and the next
process gets this PCB. -/
theorem exited_thread_runs : ∃ k₀ k₁ : Kernel,
    run Kernel.step (boot [[104]]) [.trap 0 .threadCreate quietEnv] = some k₀ ∧
      k₀.runnings 0 = some (.slot 0) ∧ k₀.step (.trap 0 .exit quietEnv) = some k₁ ∧
      ¬ Exited 0 (.slot 0) k₁ ∧ ¬ ExitFinal (.slot 0) k₁ := by
  have hval : ((run Kernel.step (boot [[104]]) [.trap 0 .threadCreate quietEnv]).bind fun k₀ =>
      (k₀.step (.trap 0 .exit quietEnv)).map fun k₁ =>
        decide (k₀.runnings 0 = some (.slot 0) ∧ k₁.runnings 0 = some (.slot 0) ∧
          k₁.pid (.slot 0) = 0)) = some true := by
    decide
  obtain ⟨k₀, hpre, hval⟩ := Option.bind_eq_some_iff.1 hval
  obtain ⟨k₁, hexit, hval⟩ := Option.map_eq_some_iff.1 hval
  obtain ⟨hrun, hrun₁, hpid⟩ := of_decide_eq_true hval
  refine ⟨k₀, k₁, hpre, hrun, hexit, fun hexited => ?_, fun hfinal => hfinal.idle hpid 0 hrun₁⟩
  obtain ⟨r, hne, hr⟩ := hexited.other
  exact hne (Option.some.inj (hr.symm.trans hrun₁))

end Kernel
end Sched
end UcasKernel
