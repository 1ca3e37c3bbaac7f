/-
The first run of a task.

No trap has filled the trapframe of a new PCB, and no `switch_to` has saved its
`switchto_context_t`: the C code that made the PCB wrote both.  The first `switch_to` to the
task loads the second, which leads to `ret_from_kernel`, and the return to user mode loads the
first.  In between the other hart may do what it likes.
-/
import UcasKernel.Arch.Virtual

namespace UcasKernel
namespace Arch

open Riscv Sched Trace

/-- The hart that takes the step. -/
def Event.cpu {M : Type} : Event M → Cpu
  | .user c _ _ => c
  | .trap c _ _ => c
  | .serve c _ _ => c
  | .sched e _ _ => e.cpu

namespace Machine

variable {M : Type} [Dwords M] {l : Layout} {s t : Machine M} {c d : Cpu} {p : Pcb} {i : Slot}
  {e : Event M} {es : List (Event M)} {x : Ctx} {y : Reg → Word}

/-- What a CPU does for the slot is `ret_from_kernel` alone, which leaves the trapframe as it
is. -/
def JustReturns (i : Slot) (s : Machine M) (e : Event M) : Prop :=
  s.kernel.runnings e.cpu = some (.slot i) → ∃ env h, e = .sched (.resume e.cpu env) h s.mem

/-- A step of one hart leaves the other where it is. -/
lemma Steps.out_of_ne (h : Steps l s e t) (hd : d ≠ e.cpu) (ht : t.Out d p) :
    s.Out d p ∧ t.hart d = s.hart d := by
  cases h with
  | user hin hm => exact ⟨ht, put_hart_of_ne _ _ _ hd⟩
  | trap htrap =>
    rename_i c cause tval h m r
    change d ≠ c at hd
    obtain ⟨hin, hrun⟩ := ht
    rw [setInside_inside_of_ne _ _ hd] at hin
    exact ⟨⟨hin, hrun⟩, put_hart_of_ne s h m hd⟩
  | serve hw hleft =>
    rename_i c h m r
    change d ≠ c at hd
    have hout := hleft.out_iff.1 ht
    rw [if_neg hd] at hout
    obtain ⟨hin, hrun⟩ := hout
    rw [setKernel_kernel, Kernel.retFromKernel_runnings] at hrun
    exact ⟨⟨hin, hrun⟩, (hleft.harts d hd).trans (put_hart_of_ne s h m hd)⟩
  | leave hk hin hrun hw hleft =>
    rename_i e h m k r
    change d ≠ e.cpu at hd
    have hout := hleft.out_iff.1 ht
    rw [if_neg hd] at hout
    exact ⟨⟨hout.1, (hw.others d hd).symm.trans hout.2⟩,
      (hleft.harts d hd).trans (put_hart_of_ne s h m hd)⟩
  | switch hk hin hw hswitched =>
    rename_i e h m k next
    have hout := hswitched.out_iff.1 ht
    exact ⟨⟨hout.1, (hw.others d hd).symm.trans hout.2⟩,
      (hswitched.harts d hd).trans (put_hart_of_ne s h m hd)⟩

/-- A hart that goes outside has its interrupts on. -/
lemma Steps.out_self (h : Steps l s e t) (ht : t.Out e.cpu p) :
    (∃ c h m, e = .user c h m) ∨ ((t.hart e.cpu).csr .sstatus).getLsbD SIE = true := by
  cases h with
  | user hin hm => exact .inl ⟨_, _, _, rfl⟩
  | trap htrap =>
    rename_i c cause tval h m r
    have hin : ((s.put c h m).setInside c true).inside c = false := ht.1
    rw [setInside_inside_self] at hin
    cases hin
  | serve hw hleft => exact .inr hleft.interrupts
  | leave hk hin hrun hw hleft => exact .inr hleft.interrupts
  | switch hk hin hw hswitched =>
    have hout := hswitched.out_iff.1 ht
    exact absurd (hout.1.symm.trans hw.inside) (by simp)

/-! ## A task that has not run -/

/-- The processor of the task is still the one that it begins with. -/
structure Fresh (l : Layout) (s : Machine M) (i : Slot) (x : Ctx) : Prop where
  sound : Sound l s
  view : s.view l i = x
  interrupts : ∀ c, s.Out c (.slot i) → ((s.hart c).csr .sstatus).getLsbD SIE = true

/-- `ret_from_kernel` writes to the trapframe what is there. -/
lemma Sound.after_sched {e : Sched.Event} {h : Hart} {m : M} (hs : Sound l s)
    (hin : s.inside e.cpu = true) (hr : JustReturns i s (.sched e h m))
    (hi : s.kernel.pid (.slot i) ≠ 0) :
    Cells.after (s.writes l (.sched e h m)) i (s.view l i) = s.view l i := by
  simp only [writes, Cells.after_map, List.mem_filter, List.mem_finRange, true_and,
    decide_eq_true_eq, hi, or_false]
  by_cases hrun : s.kernel.runnings e.cpu = some (.slot i)
  · obtain ⟨env, h', heq⟩ := hr hrun
    injection heq with _ _ hm
    rw [if_pos hrun, view_of_notOut (hs.notOut hin hrun), hm, kernelSp]
  · rw [if_neg hrun]

lemma Sound.after_writes (hs : Sound l s) (h : Steps l s e t) (hr : JustReturns i s e)
    (hi : s.kernel.pid (.slot i) ≠ 0) :
    Cells.after (s.writes l e) i (s.view l i) = s.view l i := by
  cases h with
  | user hin hm =>
    rename_i c h m
    simp only [writes, Cells.after_map, mem_ownSlots]
    by_cases hrun : s.kernel.runnings c = some (.slot i)
    · obtain ⟨env, h', heq⟩ := hr hrun
      cases heq
    · rw [if_neg hrun]
  | trap htrap => rfl
  | serve hw hleft =>
    rename_i c h m r
    simp only [writes, Cells.after_map, mem_ownSlots]
    by_cases hrun : s.kernel.runnings c = some (.slot i)
    · obtain ⟨env, h', heq⟩ := hr hrun
      cases heq
    · rw [if_neg hrun]
  | leave hk hin hkeep hw hleft => exact hs.after_sched hw.inside hr hi
  | switch hk hin hw hswitched => exact hs.after_sched hw.inside hr hi

lemma Fresh.step (h : Fresh l s i x) (hm : Meets l s e) (hr : JustReturns i s e)
    (ht : step l s e = some t) (hi : s.kernel.pid (.slot i) ≠ 0) (hi' : t.kernel.pid (.slot i) ≠ 0) :
    Fresh l t i x := by
  have hsteps := h.sound.steps hm ht
  refine ⟨hsteps.sound h.sound, ?_, fun c hc => ?_⟩
  · rw [hsteps.view h.sound (live_slot.2 hi'), h.sound.after_writes hsteps hr hi, h.view]
  · by_cases hcpu : c = e.cpu
    · subst hcpu
      rcases hsteps.out_self hc with ⟨d, h', m, rfl⟩ | hsie
      · -- it is not the task that runs
        have hrun : s.kernel.runnings d = some (.slot i) := by
          cases hsteps with
          | user => exact hc.2
        obtain ⟨env, h'', heq⟩ := hr hrun
        cases heq
      · exact hsie
    · obtain ⟨hout, hhart⟩ := hsteps.out_of_ne hcpu hc
      rw [hhart]
      exact h.interrupts c hout

lemma Fresh.run (h : Fresh l s i x)
    (hes : StepsMeet (Machine.step l) (fun u e => Meets l u e ∧ JustReturns i u e) s es)
    (halive : Always (Machine.step l) (fun u => u.kernel.pid (.slot i) ≠ 0) s es)
    (hrun : run (Machine.step l) s es = some t) : Fresh l t i x := by
  induction es generalizing s with
  | nil =>
    obtain rfl := Option.some.inj hrun
    exact h
  | cons e es ih =>
    obtain ⟨u, hu, hrun⟩ := run_cons_eq_some.1 hrun
    obtain ⟨hm, hr⟩ := hes.head
    have halive' : Always (Machine.step l) (fun u => u.kernel.pid (.slot i) ≠ 0) u es :=
      halive.tail hu
    exact ih (h.step hm hr hu halive.first halive'.first) (hes.tail hu) halive' hrun

/-! ## A new task -/

end Machine
end Arch
end UcasKernel
