/-
Every task has a processor of its own.

The two harts, the trapframes and the scheduler together carry one processor for each task.
No trap, no switch and no return changes any of them, on whatever CPU the task goes on; the
processor of a task changes when the task runs, and by the C code that runs for it.

In the same way a task finds the registers of its C code behind a `switch_to` as it left
them.
-/
import UcasKernel.Arch.Phases

namespace UcasKernel
namespace Arch

open Riscv Sched Trace

namespace Machine

variable {M : Type} [Dwords M] {l : Layout} {s t : Machine M} {c d : Cpu} {p r : Pcb} {i : Slot}

/-! ## Every step -/

section Step

variable {e : Event M} {tasks : List (List UInt8)} {es : List (Event M)}

lemma Sound.leaves_own {h : Hart} {m : M} {k : Kernel} (hs : Sound l s) (hw : Works l s c k m) :
    Leaves l ((s.put c h m).setKernel k) (s.own c) := by
  have hlive := hs.live_own c
  have hsp : ((s.put c h m).setKernel k).kernelSp l (s.own c) = s.kernelSp l (s.own c) :=
    hw.meets.kernelSp _ hlive
  refine ⟨?_, fun r => ?_, fun r hr hne a ha => ?_⟩
  · rw [hsp]
    exact hs.kernelStacks.aligned _ hlive
  · rw [hsp]
    exact hs.kernelStacks.pcb _ r hlive
  · rw [hsp]
    by_cases hr' : Live s.kernel r
    · have hspr : ((s.put c h m).setKernel k).kernelSp l r = s.kernelSp l r :=
        hw.meets.kernelSp _ hr'
      rw [hspr] at ha
      exact hs.kernelStacks.apart r _ hr' hlive hne a ha
    · intro hown
      refine (hw.new r hr' hr).apart (s.own c) hne.symm (.inl hlive) a ?_ ha
      rwa [hw.meets.kernelSp _ hlive]

/-- What a step does: the task runs, it is trapped, or C code runs and ends in a return or in a
switch. -/
inductive Steps (l : Layout) (s : Machine M) : Event M → Machine M → Prop
  | user {c : Cpu} {h : Hart} {m : M} (hin : s.inside c = false) (hm : UserMeets l s c h m) :
    Steps l s (.user c h m) (s.put c h m)
  | trap {c : Cpu} {cause tval : Word} {h : Hart} {m : M} {p : Pcb} (ht : Trapped l s c p m) :
    Steps l s (.trap c cause tval) ((s.put c h m).setInside c true)
  | serve {c : Cpu} {h : Hart} {m : M} {p : Pcb} {t : Machine M}
    (hw : Works l s c (s.kernel.retFromKernel c) m)
    (ht : Left l ((s.put c h m).setKernel (s.kernel.retFromKernel c)) c p t) :
    Steps l s (.serve c h m) t
  | leave {e : Sched.Event} {h : Hart} {m : M} {k : Kernel} {p : Pcb} {t : Machine M}
    (hk : s.kernel.step e = some k) (hin : k.inKernel = none)
    (hrun : k.runnings = s.kernel.runnings) (hw : Works l s e.cpu k m)
    (ht : Left l ((s.put e.cpu h m).setKernel k) e.cpu p t) : Steps l s (.sched e h m) t
  | switch {e : Sched.Event} {h : Hart} {m : M} {k : Kernel} {next : Pcb} {t : Machine M}
    (hk : s.kernel.step e = some k) (hin : k.inKernel ≠ none) (hw : Works l s e.cpu k m)
    (ht : Switched l ((s.put e.cpu h m).setKernel k) e.cpu (s.own e.cpu) next t) :
    Steps l s (.sched e h m) t

/-- The C code of a handler that calls nothing of the scheduler. -/
lemma Sound.works_serve {m : M} (hs : Sound l s) (hin : s.inside c = true)
    (hm : WorkMeets l s c m) (hrun : s.kernel.runnings c = some p) :
    Works l s c (s.kernel.retFromKernel c) m where
  inside := hin
  meets := hm
  inv := by
    obtain ⟨q, hi⟩ := hs.inv
    exact ⟨q, hi.retFromKernel hrun⟩
  others := fun d _ => by rw [Kernel.retFromKernel_runnings]
  inKernel := fun d hd => by cases hd
  new := fun p hp hp' => by
    refine absurd ?_ hp
    unfold Live at hp' ⊢
    rwa [Kernel.retFromKernel_pid] at hp'

lemma Sound.steps (hs : Sound l s) (hm : Meets l s e) (ht : step l s e = some t) :
    Steps l s e t := by
  cases e with
  | user c h m =>
    simp only [step] at ht
    split at ht
    · rename_i hin
      obtain rfl := Option.some.inj ht
      exact .user hin hm
    · cases ht
  | trap c cause tval =>
    simp only [step] at ht
    split at ht
    · rename_i hin
      obtain ⟨u, hu, ht⟩ := Option.bind_eq_some_iff.1 ht
      obtain rfl := Option.some.inj ht
      obtain ⟨p, hp⟩ := hs.trapped hin hu
      exact .trap hp
    · cases ht
  | serve c h m =>
    simp only [step] at ht
    split at ht
    · rename_i hin
      obtain ⟨p, hp, -⟩ := Option.bind_eq_some_iff.1 ht
      rw [setKernel_kernel, Kernel.retFromKernel_runnings] at hp
      have hw : Works l s c (s.kernel.retFromKernel c) m := hs.works_serve hin.1 hm hp
      obtain ⟨p, hleft⟩ := (hw.sound (h := h) hs).left hin.1 ht
      exact .serve hw hleft
    · cases ht
  | sched e h m =>
    simp only [step] at ht
    split at ht
    · rename_i hin
      obtain ⟨k, hk, ht⟩ := Option.bind_eq_some_iff.1 ht
      obtain ⟨he, hm, hnew⟩ := hm
      obtain ⟨q, hi⟩ := hs.inv
      obtain ⟨hinv, hothers, hker, hret⟩ := step_runnings hi he hk
      have hw : Works l s e.cpu k m := ⟨hin, hm, hinv, hothers, hker, hnew k hk⟩
      split at ht
      · rename_i hnone
        obtain ⟨p, hleft⟩ := (hw.sound (h := h) hs).left hin ht
        exact .leave hk hnone (hret hnone) hw hleft
      · rename_i hsome
        obtain ⟨next, hswitched⟩ := (hw.sound (h := h) hs).switched (hs.leaves_own hw) ht
        exact .switch hk hsome hw hswitched
    · cases ht

/-- Every step keeps the invariant. -/
lemma Steps.sound (h : Steps l s e t) (hs : Sound l s) : Sound l t := by
  cases h with
  | user hin hm => exact hs.user hm
  | trap ht => exact ht.sound hs
  | serve hw ht => exact ht.sound (hw.sound hs) hw.inside (fun h => by cases h)
  | leave hk hin hrun hw ht =>
    refine ht.sound (hw.sound hs) hw.inside fun h => ?_
    rw [setKernel_kernel, hin] at h
    cases h
  | switch hk hin hw ht => exact ht.sound (hw.sound hs) hw.inside

/-- A step changes the processors that `writes` lists. -/
lemma Steps.view (h : Steps l s e t) (hs : Sound l s) (hi : Live t.kernel (.slot i)) :
    t.view l i = Cells.after (s.writes l e) i (s.view l i) := by
  cases h with
  | user hin hm =>
    rw [hs.view_user hin hm hi]
    simp only [writes, Cells.after_map, mem_ownSlots]
  | trap ht => exact ht.view hs hi
  | serve hw ht =>
    rename_i c h m p
    rw [ht.view (hw.sound hs) hw.inside (fun h => by cases h), hw.view hs]
    simp only [writes, Cells.after_map, mem_ownSlots]
    rw [ht.kernel, setKernel_kernel, live_slot, Kernel.retFromKernel_pid] at hi
    simp only [hi, or_false]
  | leave hk hin hrun hw ht =>
    rename_i e h m k p
    have hker : ((s.put e.cpu h m).setKernel k).kernel.inKernel ≠ some e.cpu := by
      rw [setKernel_kernel, hin]
      simp
    rw [ht.view (hw.sound hs) hw.inside hker, hw.view hs]
    simp only [writes, Cells.after_map, List.mem_filter, List.mem_finRange, true_and,
      decide_eq_true_eq]
  | switch hk hin hw ht =>
    rename_i e h m k p
    rw [ht.kernel] at hi
    rw [ht.view (hw.sound hs) hw.inside hi, hw.view hs]
    simp only [writes, Cells.after_map, List.mem_filter, List.mem_finRange, true_and,
      decide_eq_true_eq]

/-- A PCB comes into use in a step that writes its processor. -/
lemma Steps.born (h : Steps l s e t) (hi : Live t.kernel (.slot i))
    (hnot : ¬ Live s.kernel (.slot i)) : i ∈ (s.writes l e).map Prod.fst := by
  have hpid : s.kernel.pid (.slot i) = 0 := not_not.1 fun hpid => hnot (live_slot.2 hpid)
  have hnew : ∀ (e : Sched.Event) (h : Hart) (m : M),
      i ∈ (s.writes l (.sched e h m)).map Prod.fst := by
    intro e h m
    simp [writes, hpid]
  cases h with
  | user hin hm => exact absurd hi hnot
  | trap ht => exact absurd hi hnot
  | serve hw ht =>
    rw [ht.kernel, setKernel_kernel, live_slot, Kernel.retFromKernel_pid] at hi
    exact absurd hpid hi
  | leave hk hin hrun hw ht => exact hnew _ _ _
  | switch hk hin hw ht => exact hnew _ _ _

lemma Boots.sound (hb : Boots l tasks s) : Sound l s where
  inv := by
    rw [hb.kernel]
    exact ⟨_, Kernel.boot_inv tasks⟩
  kernelStacks := hb.kernelStacks
  out := fun c hc => by
    have hc0 : c = 0 := (Kernel.cpu_cases c).resolve_right fun h1 => by
      rw [hb.inside, h1] at hc
      exact absurd hc (by decide)
    subst hc0
    exact ⟨.slot 0, by rw [hb.kernel]; rfl, hb.tp⟩
  frame := fun p hp hnot hstarted => by
    rcases hp with hp | ⟨c, hc⟩
    · -- the shell is outside
      rw [hb.kernel] at hp
      have hslot : p = .slot 0 := by
        by_contra hne
        exact hp (by simp [Kernel.boot, hne])
      subst hslot
      exact absurd ⟨by rw [hb.inside]; decide, by rw [hb.kernel]; rfl⟩ (hnot 0)
    · have htrue := hstarted c hc
      rw [hb.started] at htrue
      cases htrue
  kernel := fun c hc => by
    rw [hb.kernel] at hc
    cases hc

/-- C code that leaves the hart and the memory as they are. -/
def keep (s : Machine M) (e : Sched.Event) : Event M := .sched e (s.hart e.cpu) s.mem

end Step

/-! ## A small machine -/

section Small

end Small

section Step

variable {e : Event M} {tasks : List (List UInt8)} {es : List (Event M)}

/-! ## `switch_to` returns -/

/-- The registers that `switch_to` saved for a task. -/
def context (l : Layout) (s : Machine M) (i : Slot) : Reg → Word :=
  switchtoContext s.mem (s.kernelSp l (.slot i))

lemma calleeSaved_ra (x : Reg → Word) : calleeSaved x .ra = x .ra := by
  simp [calleeSaved, switchToOffsets]

/-- What a step leaves of the registers that a task saved, and what it finds of them if the step
switches to it. -/
lemma Steps.context (h : Steps l s e t) (hi : Live s.kernel (.slot i))
    (hi' : Live t.kernel (.slot i)) (hnot : ∀ c, s.kernel.runnings c ≠ some (.slot i)) :
    t.context l i = s.context l i ∧ ∀ c, t.kernel.runnings c = some (.slot i) →
      calleeSaved (t.hart c).x = s.context l i ∧ (t.hart c).pc = s.context l i .ra := by
  have hown : ∀ c, .slot i ≠ s.own c := by
    intro c heq
    unfold own at heq
    cases hc : s.kernel.runnings c with
    | none =>
      rw [hc, Option.getD_none] at heq
      exact Kernel.idlePcb_ne_slot c i heq.symm
    | some p =>
      rw [hc, Option.getD_some] at heq
      exact hnot c (hc.trans (congrArg some heq.symm))
  -- the C code for another task keeps them
  have hwork : ∀ {c : Cpu} {h : Hart} {k : Kernel} {m : M}, Works l s c k m →
      ((s.put c h m).setKernel k).kernelSp l (.slot i) = s.kernelSp l (.slot i) ∧
        ((s.put c h m).setKernel k).context l i = s.context l i := by
    intro c h k m hw
    have hsp : ((s.put c h m).setKernel k).kernelSp l (.slot i) = s.kernelSp l (.slot i) :=
      hw.meets.kernelSp _ hi
    refine ⟨hsp, ?_⟩
    rw [Machine.context, hsp]
    exact switchtoContext_congr fun o ho => hw.meets.cells _ hi (hown c) _ (mem_cells_switch ho)
  cases h with
  | user hin hm =>
    rename_i c h m
    have hsp : (s.put c h m).kernelSp l (.slot i) = s.kernelSp l (.slot i) := hm.kernelSp _ hi
    refine ⟨?_, fun d hd => absurd hd (hnot d)⟩
    rw [Machine.context, hsp]
    exact switchtoContext_congr fun o ho => hm.cells _ hi _ (mem_cells_switch ho)
  | trap ht =>
    rename_i c cause tval h m p
    have hsp : ((s.put c h m).setInside c true).kernelSp l (.slot i) = s.kernelSp l (.slot i) :=
      ht.kernelSp _ hi
    have hp : .slot i ≠ p := fun heq => hnot c (heq ▸ ht.out.2)
    refine ⟨?_, fun d hd => absurd hd (hnot d)⟩
    rw [Machine.context, hsp]
    exact switchtoContext_congr fun o ho => ht.cells _ hi hp _ (mem_cells_switch ho)
  | serve hw ht =>
    rename_i c h m p
    obtain ⟨hsp, hctx⟩ := hwork (h := h) hw
    refine ⟨?_, fun d hd => absurd ?_ (hnot d)⟩
    · rw [← hctx, Machine.context, Machine.context, kernelSp, ht.mem, kernelSp]
    · rwa [ht.kernel, setKernel_kernel, Kernel.retFromKernel_runnings] at hd
  | leave hk hin hrun hw ht =>
    rename_i e h m k p
    obtain ⟨hsp, hctx⟩ := hwork (h := h) hw
    refine ⟨?_, fun d hd => absurd ?_ (hnot d)⟩
    · rw [← hctx, Machine.context, Machine.context, kernelSp, ht.mem, kernelSp]
    · rwa [ht.kernel, setKernel_kernel, hrun] at hd
  | switch hk hin hw ht =>
    rename_i e h m k next
    obtain ⟨hsp, hctx⟩ := hwork (h := h) hw
    rw [ht.kernel] at hi'
    have hkept : t.context l i = s.context l i := by
      rw [← hctx, Machine.context, ht.kernelSp _ hi']
      exact ht.context _ hi' (hown _)
    refine ⟨hkept, fun d hd => ?_⟩
    rw [ht.kernel] at hd
    have hdc : d = e.cpu := by
      by_contra hne
      exact hnot d ((hw.others d hne).symm.trans hd)
    subst hdc
    obtain rfl := Option.some.inj (ht.runs.symm.trans hd)
    have hloaded : calleeSaved (t.hart e.cpu).x = s.context l i := by
      rw [← hkept, Machine.context, ht.kernelSp _ hi']
      exact ht.loaded
    exact ⟨hloaded, by rw [ht.pc, ← calleeSaved_ra (t.hart e.cpu).x, hloaded]⟩

end Step

end Machine
end Arch
end UcasKernel
