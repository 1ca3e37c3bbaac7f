/-
What each part of a step does to the processors of the tasks.

`view` finds the processor of a task in the hart that runs it, or else in its trapframe.  The
invariant `Sound` says that the two never disagree about where it is: no two CPUs run one PCB,
and the kernel stacks are apart.  A trap moves one processor to a trapframe, a return moves
one back, a switch moves none; code changes its own.
-/
import UcasKernel.Arch.Machine

namespace UcasKernel
namespace Arch

open Riscv Sched Trace

/-! ## The cells of a kernel stack -/

section Stack

variable {M : Type} [Dwords M] {m m' : M} {a k o : Word} {h : Hart} {x : Reg → Word}

lemma mem_cells_frame (ho : o ∈ frameOffsets) : k + o ∈ cells k :=
  List.mem_append_left _ (List.mem_map_of_mem ho)

lemma mem_cells_switch (ho : o ∈ switchOffsets) : k - SWITCH_TO_SIZE + o ∈ cells k :=
  List.mem_append_right _ (List.mem_map_of_mem ho)

lemma switchOffsets_aligned (ho : o ∈ switchOffsets) : Aligned o := by
  obtain ⟨e, he, rfl⟩ := List.mem_map.1 ho
  exact switchToOffsets_aligned e he

lemma cells_aligned (hk : Aligned k) (ha : a ∈ cells k) : Aligned a := by
  rcases List.mem_append.1 ha with ha | ha
  · obtain ⟨o, ho, rfl⟩ := List.mem_map.1 ha
    exact aligned_frame hk ho
  · obtain ⟨o, ho, rfl⟩ := List.mem_map.1 ha
    exact (aligned_sub hk).add (switchOffsets_aligned ho)

/-- The trapframe and the `switchto_context_t` do not overlap. -/
lemma frame_ne_switch {o' : Word} (ho : o ∈ frameOffsets) (ho' : o' ∈ switchOffsets) :
    k + o ≠ k - SWITCH_TO_SIZE + o' := by
  have hall : (frameOffsets.all fun o => switchOffsets.all fun o' =>
      decide (o ≠ -SWITCH_TO_SIZE + o')) = true := by decide
  have hne : o ≠ -SWITCH_TO_SIZE + o' :=
    of_decide_eq_true (List.all_eq_true.1 (List.all_eq_true.1 hall o ho) o' ho')
  rw [BitVec.sub_eq_add_neg, BitVec.add_assoc]
  exact fun heq => hne ((BitVec.add_right_inj _).1 heq)

/-- A trap writes the trapframe only. -/
lemma load_storeFrame (hk : Aligned k) (ha : Aligned a) (hnot : ∀ o ∈ frameOffsets, a ≠ k + o) :
    load (storeAll k (frameStores h) m) a = load m a :=
  load_storeAll_of_notMem hk (frameStores_aligned h) ha fun _ he =>
    hnot _ (frameStores_offsets h ▸ List.mem_map_of_mem he)

/-- `switch_to` writes the `switchto_context_t` only. -/
lemma load_storeSwitch (hk : Aligned k) (ha : Aligned a)
    (hnot : ∀ o ∈ switchOffsets, a ≠ k - SWITCH_TO_SIZE + o) :
    load (storeAll (k - SWITCH_TO_SIZE) (switchStores x) m) a = load m a :=
  load_storeAll_of_notMem (aligned_sub hk) (switchStores_aligned x) ha fun _ he =>
    hnot _ (switchStores_offsets x ▸ List.mem_map_of_mem he)

lemma ne_frame_of_notMem (hnot : a ∉ cells k) : ∀ o ∈ frameOffsets, a ≠ k + o :=
  fun _ ho heq => hnot (heq ▸ mem_cells_frame ho)

lemma ne_switch_of_notMem (hnot : a ∉ cells k) :
    ∀ o ∈ switchOffsets, a ≠ k - SWITCH_TO_SIZE + o :=
  fun _ ho heq => hnot (heq ▸ mem_cells_switch ho)

lemma frameCtx_congr (h : ∀ o ∈ frameOffsets, load m' (k + o) = load m (k + o)) :
    frameCtx m' k = frameCtx m k := by
  refine Ctx.ext ?_ ?_ ?_ ?_
  · funext r
    by_cases hr : r = .gp
    · simp [frameCtx, hr]
    · simp only [frameCtx, hr, if_false]
      exact h _ (offsetReg_mem r hr)
  · exact h _ (by decide)
  · exact congrArg (fun w => BitVec.getLsbD w SPP) (h _ (by decide))
  · exact congrArg (fun w => w &&& statusMask) (h _ (by decide))

lemma switchtoContext_congr
    (h : ∀ o ∈ switchOffsets, load m' (k - SWITCH_TO_SIZE + o) = load m (k - SWITCH_TO_SIZE + o)) :
    switchtoContext m' k = switchtoContext m k := by
  funext r
  unfold switchtoContext
  by_cases hr : r ∈ switchToOffsets.map Prod.fst
  · obtain ⟨e, he, rfl⟩ := List.mem_map.1 hr
    rw [loadAll_of_mem switchRegs_nodup he, loadAll_of_mem switchRegs_nodup he]
    exact h _ (List.mem_map_of_mem he)
  · rw [loadAll_of_notMem hr, loadAll_of_notMem hr]

end Stack

/-! ## The PCBs that run -/

section Runs

variable {k k' : Kernel} {q : Head → List Pcb} {c d : Cpu} {p : Pcb} {e : Sched.Event}

lemma live_idle (k : Kernel) (c : Cpu) : Live k (idlePcb c) := .inr ⟨c, rfl⟩

lemma live_slot {i : Slot} : Live k (.slot i) ↔ k.pid (.slot i) ≠ 0 :=
  ⟨fun h => h.resolve_right fun ⟨c, hc⟩ => Kernel.idlePcb_ne_slot c i hc.symm, .inl⟩

lemma live_running (hi : k.Inv q) (hrun : k.runnings c = some p) : Live k p := by
  rcases hi.runs.run c p (by simp) hrun with hp | hp
  · exact .inr ⟨c, hp⟩
  · exact .inl ((hi.life.live p (by simp)).2 ⟨_, hp⟩)

lemma running_unique (hi : k.Inv q) (hc : k.runnings c = some p) (hd : k.runnings d = some p) :
    c = d :=
  hi.runs.distinct c d p (by simp) (by simp) hc hd

/-- A CPU runs no idle task but its own. -/
lemma running_idle (hi : k.Inv q) (hrun : k.runnings c = some (idlePcb d)) : d = c := by
  rcases hi.runs.run c _ (by simp) hrun with hp | hp
  · exact Kernel.idlePcb_inj hp
  · exact absurd hp (hi.lists.idle_notMem d _)

/-- A step of a CPU changes no entry of `runnings` but its own, and this one only if it ends in a
switch. -/
lemma step_runnings (hi : k.Inv q) (he : k.Orderly e) (hk : k.step e = some k') :
    (∃ q', k'.Inv q') ∧ (∀ d, d ≠ e.cpu → k'.runnings d = k.runnings d) ∧
      (∀ d, k'.inKernel = some d → d = e.cpu) ∧
        (k'.inKernel = none → k'.runnings = k.runnings) := by
  obtain ⟨q', hi', hends⟩ := hi.takes he hk
  refine ⟨⟨q', hi'⟩, ?_⟩
  cases hends with
  | ret new hin hrun hw =>
    refine ⟨fun d _ => by rw [hrun], fun d hd => ?_, fun _ => hrun⟩
    rw [hin] at hd
    cases hd
  | switch new r hin hrun hw =>
    refine ⟨fun d hd => by rw [hrun, Function.update_of_ne hd], fun d hd => ?_, fun hnone => ?_⟩
    · exact (Option.some.inj (hin.symm.trans hd)).symm
    · rw [hin] at hnone
      cases hnone

end Runs

namespace Machine

variable {M : Type} [Dwords M] {l : Layout} {s t : Machine M} {c d : Cpu} {p r : Pcb} {i : Slot}

/-- The invariant: the scheduler is in order, the stacks are apart, and `tp` of a task that is
outside or will go there points to its PCB. -/
structure Sound (l : Layout) (s : Machine M) : Prop where
  inv : ∃ q, s.kernel.Inv q
  kernelStacks : Stacks l s.kernel s.mem
  out : ∀ c, s.inside c = false → ∃ p, s.kernel.runnings c = some p ∧
    (s.hart c).x .tp = l.pcbAddr p
  frame : ∀ p, Live s.kernel p → (∀ c, ¬ s.Out c p) →
    (∀ c, p = idlePcb c → s.started c = true) →
      load s.mem (s.kernelSp l p + offsetReg .tp) = l.pcbAddr p
  kernel : ∀ c, s.kernel.inKernel = some c → s.inside c = true

lemma Stacks.congr {k : Kernel} {m m' : M} (hs : Stacks l k m)
    (h : ∀ p, Live k p → load m' (l.pcbAddr p) = load m (l.pcbAddr p)) : Stacks l k m' where
  aligned := fun p hp => by
    rw [h p hp]
    exact hs.aligned p hp
  pcb := fun p r hp => by
    rw [h p hp]
    exact hs.pcb p r hp
  apart := fun p r hp hr => by
    rw [h p hp, h r hr]
    exact hs.apart p r hp hr

/-! ## Where the processor of a task is -/

lemma Sound.out_unique (hs : Sound l s) (hc : s.Out c p) (hd : s.kernel.runnings d = some p) :
    c = d := by
  obtain ⟨q, hi⟩ := hs.inv
  exact running_unique hi hc.2 hd

lemma Sound.view_of_out (hs : Sound l s) (hc : s.Out c (.slot i)) :
    s.view l i = (s.hart c).ctx := by
  unfold view
  cases hfind : (List.finRange 2).find? fun c => decide (s.Out c (.slot i)) with
  | none =>
    have hnone := List.find?_eq_none.1 hfind c (List.mem_finRange c)
    exact absurd hc (by simpa using hnone)
  | some d =>
    have hd : s.Out d (.slot i) := by simpa using List.find?_some hfind
    rw [hs.out_unique hc hd.2]

lemma view_of_notOut (hnot : ∀ c, ¬ s.Out c (.slot i)) :
    s.view l i = frameCtx s.mem (s.kernelSp l (.slot i)) := by
  unfold view
  rw [List.find?_eq_none.2 fun c _ => by simpa using hnot c]

/-- A task keeps its processor if it stays where it is, and its processor is kept there. -/
lemma Sound.view_congr (hs : Sound l s) (ht : Sound l t)
    (hout : ∀ c, t.Out c (.slot i) ↔ s.Out c (.slot i))
    (hhart : ∀ c, s.Out c (.slot i) → (t.hart c).ctx = (s.hart c).ctx)
    (hsp : t.kernelSp l (.slot i) = s.kernelSp l (.slot i))
    (hmem : ∀ o ∈ frameOffsets, load t.mem (s.kernelSp l (.slot i) + o) =
      load s.mem (s.kernelSp l (.slot i) + o)) : t.view l i = s.view l i := by
  by_cases hex : ∃ c, s.Out c (.slot i)
  · obtain ⟨c, hc⟩ := hex
    rw [hs.view_of_out hc, ht.view_of_out ((hout c).2 hc), hhart c hc]
  · have hnot : ∀ c, ¬ s.Out c (.slot i) := fun c hc => hex ⟨c, hc⟩
    rw [view_of_notOut hnot, view_of_notOut fun c hc => hnot c ((hout c).1 hc), hsp]
    exact frameCtx_congr hmem

/-! ## The task runs -/

section User

variable {h : Hart} {m : M}

/-- The state behind the code of a task. -/
lemma Sound.user (hs : Sound l s) (hm : UserMeets l s c h m) : Sound l (s.put c h m) where
  inv := hs.inv
  kernelStacks := hs.kernelStacks.congr hm.kernelSp
  out := fun d hd => by
    obtain ⟨p, hp, htp⟩ := hs.out d hd
    refine ⟨p, hp, ?_⟩
    by_cases hdc : d = c
    · subst hdc
      rw [put_hart_self, hm.tp, htp]
    · rw [put_hart_of_ne _ _ _ hdc, htp]
  frame := fun p hp hnot hstarted => by
    have hsp : (s.put c h m).kernelSp l p = s.kernelSp l p := hm.kernelSp p hp
    rw [hsp, put_mem, hm.cells p hp _ (mem_cells_frame (by decide))]
    exact hs.frame p hp hnot hstarted
  kernel := hs.kernel

lemma Sound.view_user (hs : Sound l s) (hin : s.inside c = false) (hm : UserMeets l s c h m)
    (hp : Live s.kernel (.slot i)) :
    (s.put c h m).view l i =
      if s.kernel.runnings c = some (.slot i) then h.ctx else s.view l i := by
  have ht := hs.user hm
  by_cases hrun : s.kernel.runnings c = some (.slot i)
  · rw [if_pos hrun, ht.view_of_out (c := c) ⟨hin, hrun⟩, put_hart_self]
  · rw [if_neg hrun]
    refine hs.view_congr ht (fun _ => Iff.rfl) (fun d hd => ?_) (hm.kernelSp _ hp)
      fun o ho => hm.cells _ hp _ (mem_cells_frame ho)
    have hdc : d ≠ c := fun heq => hrun (heq ▸ hd.2)
    rw [put_hart_of_ne _ _ _ hdc]

end User

/-! ## A trap -/

section Trap

variable {cause tval : Word} {u : State M}

/-- What a trap of the task `p` leaves in the memory. -/
structure Trapped (l : Layout) (s : Machine M) (c : Cpu) (p : Pcb) (m : M) : Prop where
  out : s.Out c p
  kernelSp : ∀ r, Live s.kernel r → load m (l.pcbAddr r) = s.kernelSp l r
  cells : ∀ r, Live s.kernel r → r ≠ p → ∀ a ∈ cells (s.kernelSp l r), load m a = load s.mem a
  context : ∀ o ∈ switchOffsets, load m (s.kernelSp l p - SWITCH_TO_SIZE + o) =
    load s.mem (s.kernelSp l p - SWITCH_TO_SIZE + o)
  frame : frameCtx m (s.kernelSp l p) = (s.hart c).ctx
  tp : load m (s.kernelSp l p + offsetReg .tp) = l.pcbAddr p

lemma Sound.trapped (hs : Sound l s) (hin : s.inside c = false)
    (hu : takeTrap l.labels cause tval { toHart := s.hart c, mem := s.mem } = some u) :
    ∃ p, Trapped l s c p u.mem := by
  obtain ⟨p, hrun, htp⟩ := hs.out c hin
  obtain ⟨q, hi⟩ := hs.inv
  have hlive := live_running hi hrun
  have hka : Aligned (s.kernelSp l p) := hs.kernelStacks.aligned p hlive
  obtain ⟨u', hu', hmem, -⟩ := takeTrap_spec (s := { toHart := s.hart c, mem := s.mem })
    (k := s.kernelSp l p) (l := l.labels) cause tval
    (by rw [htp]; exact l.aligned p) (by rw [htp]; rfl) hka
    (by rw [htp]; exact ne_frame_of_notMem (hs.kernelStacks.pcb p p hlive))
  obtain rfl := Option.some.inj (hu'.symm.trans hu)
  have hframe : frameCtx u'.mem (s.kernelSp l p) = (s.hart c).ctx := by
    rw [hmem]
    exact frameCtx_frameStores hka
  refine ⟨p, ⟨hin, hrun⟩, fun r hr => ?_, fun r hr hne a ha => ?_, fun o ho => ?_, hframe, ?_⟩
  · rw [hmem]
    exact load_storeFrame hka (l.aligned r)
      (ne_frame_of_notMem (hs.kernelStacks.pcb p r hlive))
  · rw [hmem]
    exact load_storeFrame hka (cells_aligned (hs.kernelStacks.aligned r hr) ha)
      (ne_frame_of_notMem (hs.kernelStacks.apart r p hr hlive hne a ha))
  · rw [hmem]
    exact load_storeFrame hka ((aligned_sub hka).add (switchOffsets_aligned ho))
      fun o' ho' heq => frame_ne_switch ho' ho heq.symm
  · have hx := congrFun (congrArg Ctx.x hframe) .tp
    simp only [frameCtx, Hart.ctx, reduceCtorEq, if_false] at hx
    rw [hx, htp]

lemma Trapped.sound {m : M} {h : Hart} (hs : Sound l s) (ht : Trapped l s c p m) :
    Sound l ((s.put c h m).setInside c true) where
  inv := hs.inv
  kernelStacks := hs.kernelStacks.congr ht.kernelSp
  out := fun d hd => by
    have hdc : d ≠ c := by
      rintro rfl
      rw [setInside_inside_self] at hd
      cases hd
    rw [setInside_inside_of_ne _ _ hdc] at hd
    obtain ⟨r, hr, htp⟩ := hs.out d hd
    exact ⟨r, hr, by rw [setInside_hart, put_hart_of_ne _ _ _ hdc, htp]⟩
  frame := fun r hr hnot hstarted => by
    have hsp : ((s.put c h m).setInside c true).kernelSp l r = s.kernelSp l r := ht.kernelSp r hr
    rw [hsp, setInside_mem, put_mem]
    by_cases hrp : r = p
    · rw [hrp, ht.tp]
    · rw [ht.cells r hr hrp _ (mem_cells_frame (by decide))]
      refine hs.frame r hr (fun d hd => ?_) hstarted
      have hdc : d ≠ c := by
        rintro rfl
        exact hrp (Option.some.inj (hd.2.symm.trans ht.out.2))
      exact hnot d ⟨by rw [setInside_inside_of_ne _ _ hdc]; exact hd.1, hd.2⟩
  kernel := fun d hd => by
    by_cases hdc : d = c
    · rw [hdc, setInside_inside_self]
    · rw [setInside_inside_of_ne _ _ hdc]
      exact hs.kernel d hd

/-- A trap changes no processor. -/
lemma Trapped.view {m : M} {h : Hart} (hs : Sound l s) (ht : Trapped l s c p m)
    (hi : Live s.kernel (.slot i)) :
    ((s.put c h m).setInside c true).view l i = s.view l i := by
  have ht' := ht.sound (h := h) hs
  have hother : ∀ d, d ≠ c → (((s.put c h m).setInside c true).Out d (.slot i) ↔
      s.Out d (.slot i)) := by
    intro d hdc
    simp only [Out, setInside_inside_of_ne _ _ hdc]
    exact Iff.rfl
  have hself : ¬ ((s.put c h m).setInside c true).Out c (.slot i) := by
    rintro ⟨hin, -⟩
    rw [setInside_inside_self] at hin
    cases hin
  have hsp : ((s.put c h m).setInside c true).kernelSp l (.slot i) = s.kernelSp l (.slot i) :=
    ht.kernelSp _ hi
  by_cases hp : p = .slot i
  · -- its processor moves from the hart to the trapframe
    subst hp
    rw [hs.view_of_out ht.out, ← ht.frame, view_of_notOut, hsp]
    · rfl
    · intro d hd
      by_cases hdc : d = c
      · exact hself (hdc ▸ hd)
      · exact hdc (hs.out_unique ((hother d hdc).1 hd) ht.out.2)
  · refine hs.view_congr ht' (fun d => ?_) (fun d hd => ?_) hsp
      fun o ho => ht.cells _ hi (Ne.symm hp) _ (mem_cells_frame ho)
    · by_cases hdc : d = c
      · subst hdc
        exact ⟨fun hd => absurd hd hself,
          fun hd => absurd (Option.some.inj (ht.out.2.symm.trans hd.2)) hp⟩
      · exact hother d hdc
    · have hdc : d ≠ c := by
        rintro rfl
        exact hp (Option.some.inj (ht.out.2.symm.trans hd.2))
      rw [setInside_hart, put_hart_of_ne _ _ _ hdc]

end Trap

/-! ## The C code -/

section Work

variable {h : Hart} {m : M} {k : Kernel}

lemma Sound.live_own (hs : Sound l s) (c : Cpu) : Live s.kernel (s.own c) := by
  obtain ⟨q, hi⟩ := hs.inv
  unfold own
  cases hrun : s.kernel.runnings c with
  | none => exact live_idle _ c
  | some p => exact live_running hi hrun

/-- The C code of hart `c`, which leads to the kernel `k`. -/
structure Works (l : Layout) (s : Machine M) (c : Cpu) (k : Kernel) (m : M) : Prop where
  inside : s.inside c = true
  meets : WorkMeets l s c m
  inv : ∃ q, k.Inv q
  others : ∀ d, d ≠ c → k.runnings d = s.kernel.runnings d
  inKernel : ∀ d, k.inKernel = some d → d = c
  new : ∀ p, ¬ Live s.kernel p → Live k p → NewStack l s k m p

lemma Works.kernelStacks (hw : Works l s c k m) (hs : Sound l s) : Stacks l k m where
  aligned := fun p hp => by
    by_cases hlive : Live s.kernel p
    · rw [hw.meets.kernelSp p hlive]
      exact hs.kernelStacks.aligned p hlive
    · exact (hw.new p hlive hp).aligned
  pcb := fun p r hp => by
    by_cases hlive : Live s.kernel p
    · rw [hw.meets.kernelSp p hlive]
      exact hs.kernelStacks.pcb p r hlive
    · exact (hw.new p hlive hp).pcb r
  apart := fun p r hp hr hne a ha har => by
    by_cases hlive : Live s.kernel r
    · by_cases hlive' : Live s.kernel p
      · rw [hw.meets.kernelSp p hlive'] at ha
        rw [hw.meets.kernelSp r hlive] at har
        exact hs.kernelStacks.apart p r hlive' hlive hne a ha har
      · exact (hw.new p hlive' hp).apart r hne.symm (.inr hr) a har ha
    · exact (hw.new r hlive hr).apart p hne (.inr hp) a ha har

/-- Who is outside stays there. -/
lemma Works.out_iff (hw : Works l s c k m) :
    ((s.put c h m).setKernel k).Out d p ↔ s.Out d p := by
  by_cases hdc : d = c
  · subst hdc
    exact ⟨fun hd => absurd (hd.1.symm.trans hw.inside) (by simp),
      fun hd => absurd (hd.1.symm.trans hw.inside) (by simp)⟩
  · simp only [Out, setKernel_kernel, hw.others d hdc]
    exact Iff.rfl

lemma Works.ne_of_out (hw : Works l s c k m) (hd : s.Out d p) : d ≠ c := by
  rintro rfl
  exact absurd (hd.1.symm.trans hw.inside) (by simp)

lemma Works.sound (hw : Works l s c k m) (hs : Sound l s) :
    Sound l ((s.put c h m).setKernel k) where
  inv := hw.inv
  kernelStacks := hw.kernelStacks hs
  out := fun d hd => by
    obtain ⟨r, hr, htp⟩ := hs.out d hd
    have hdc : d ≠ c := hw.ne_of_out ⟨hd, hr⟩
    exact ⟨r, by rw [setKernel_kernel, hw.others d hdc, hr],
      by rw [setKernel_hart, put_hart_of_ne _ _ _ hdc, htp]⟩
  frame := fun p hp hnot hstarted => by
    by_cases hlive : Live s.kernel p
    · have hsp : ((s.put c h m).setKernel k).kernelSp l p = s.kernelSp l p :=
        hw.meets.kernelSp p hlive
      have hframe := hs.frame p hlive (fun d hd => hnot d (hw.out_iff.2 hd)) hstarted
      rw [hsp, setKernel_mem, put_mem, ← hframe]
      by_cases hown : p = s.own c
      · rw [hown, hw.meets.tp]
      · exact hw.meets.cells p hlive hown _ (mem_cells_frame (by decide))
    · exact (hw.new p hlive hp).tp
  kernel := fun d hd => by
    rw [hw.inKernel d hd]
    exact hw.inside

/-- The C code changes its own processor and that of a new PCB. -/
lemma Works.view (hw : Works l s c k m) (hs : Sound l s) :
    ((s.put c h m).setKernel k).view l i =
      if s.kernel.runnings c = some (.slot i) ∨ s.kernel.pid (.slot i) = 0 then
        frameCtx m (load m (l.pcbAddr (.slot i)))
      else s.view l i := by
  split
  · rename_i hcond
    refine view_of_notOut fun d hd => ?_
    have hout : s.Out d (.slot i) := hw.out_iff.1 hd
    rcases hcond with hrun | hnew
    · exact hw.ne_of_out hout (hs.out_unique hout hrun)
    · obtain ⟨q, hinv⟩ := hs.inv
      exact live_slot.1 (live_running hinv hout.2) hnew
  · rename_i hcond
    rw [not_or] at hcond
    obtain ⟨hrun, hpid⟩ := hcond
    have hlive : Live s.kernel (.slot i) := live_slot.2 hpid
    have hown : .slot i ≠ s.own c := by
      intro heq
      unfold own at heq
      cases hc : s.kernel.runnings c with
      | none =>
        rw [hc, Option.getD_none] at heq
        exact Kernel.idlePcb_ne_slot c i heq.symm
      | some p =>
        rw [hc, Option.getD_some] at heq
        exact hrun (hc.trans (congrArg some heq.symm))
    refine hs.view_congr (hw.sound hs) (fun d => hw.out_iff) (fun d hd => ?_)
      (hw.meets.kernelSp _ hlive) fun o ho => hw.meets.cells _ hlive hown _ (mem_cells_frame ho)
    rw [setKernel_hart, put_hart_of_ne _ _ _ (hw.ne_of_out hd)]

end Work

/-! ## The return -/

section Leave

/-- The hart `c` goes outside for the task `p`, with the processor in the trapframe; interrupts are
on. -/
structure Left (l : Layout) (s : Machine M) (c : Cpu) (p : Pcb) (t : Machine M) : Prop where
  runs : s.kernel.runnings c = some p
  kernel : t.kernel = s.kernel
  mem : t.mem = s.mem
  inside : t.inside = Function.update s.inside c false
  harts : ∀ d, d ≠ c → t.hart d = s.hart d
  tp : (t.hart c).x .tp = l.pcbAddr p
  ctx : ∀ i, p = .slot i → (t.hart c).ctx = frameCtx s.mem (s.kernelSp l p)
  started : ∀ d, t.started d = true → s.started d = true ∨ p = idlePcb d
  interrupts : ((t.hart c).csr .sstatus).getLsbD SIE = true

/-- A task that is inside is inside everywhere. -/
lemma Sound.notOut (hs : Sound l s) (hin : s.inside c = true)
    (hrun : s.kernel.runnings c = some p) (d : Cpu) : ¬ s.Out d p := by
  intro hd
  rw [hs.out_unique hd hrun] at hd
  exact absurd (hd.1.symm.trans hin) (by simp)

lemma Sound.left (hs : Sound l s) (hin : s.inside c = true) (ht : leave l c s = some t) :
    ∃ p, Left l s c p t := by
  obtain ⟨p, hp, ht⟩ := Option.bind_eq_some_iff.1 ht
  obtain ⟨q, hi⟩ := hs.inv
  refine ⟨p, ?_⟩
  dsimp only at ht
  split at ht
  · rename_i hidle
    obtain rfl := Option.some.inj ht
    refine ⟨hp, rfl, rfl, rfl, fun d hd => put_hart_of_ne s _ s.mem hd, ?_, fun i hpi => ?_,
      fun d hd => ?_, ?_⟩
    · simp
    · exact absurd (hidle.1.symm.trans hpi) (Kernel.idlePcb_ne_slot c i)
    · by_cases hdc : d = c
      · exact .inr (hdc ▸ hidle.1)
      · exact .inl (by rwa [setStarted_started_of_ne _ hdc] at hd)
    · simp only [setStarted_hart, setInside_hart, put_hart_self, Function.update_self]
      rw [getLsbD_setBit (by decide), if_pos rfl]
  · rename_i hidle
    obtain ⟨u, hu, ht⟩ := Option.bind_eq_some_iff.1 ht
    have hlive := live_running hi hp
    obtain ⟨u', hu', hmem, hctx, -, hsie⟩ := retFromException_spec (k := s.kernelSp l p) (s := {
        toHart := { s.hart c with x := Function.update (s.hart c).x .tp (l.pcbAddr p) },
        mem := s.mem })
      (by simpa using l.aligned p) (by simp [kernelSp]) (hs.kernelStacks.aligned p hlive)
    obtain rfl := Option.some.inj (hu'.symm.trans hu)
    obtain rfl := Option.some.inj ht
    refine ⟨hp, rfl, hmem, rfl, fun d hd => put_hart_of_ne s _ u'.mem hd, ?_, fun i _ => ?_,
      fun d hd => .inl hd, ?_⟩
    · have hframe := hs.frame p hlive (hs.notOut hin hp) (by
        rintro d rfl
        have hdc : d = c := running_idle hi hp
        subst hdc
        simpa using hidle)
      have hx := congrFun (congrArg Ctx.x hctx) .tp
      simp only [frameCtx, Hart.ctx, reduceCtorEq, if_false] at hx
      simpa [hframe] using hx
    · simpa using hctx
    · simpa using hsie

lemma Left.out_iff (h : Left l s c p t) {r : Pcb} :
    t.Out d r ↔ if d = c then r = p else s.Out d r := by
  simp only [Out, h.kernel, h.inside]
  by_cases hdc : d = c
  · subst hdc
    rw [Function.update_self, if_pos rfl, h.runs, Option.some.injEq]
    exact ⟨fun hr => hr.2.symm, fun hr => ⟨rfl, hr.symm⟩⟩
  · rw [Function.update_of_ne hdc, if_neg hdc]

lemma Left.sound (h : Left l s c p t) (hs : Sound l s) (hin : s.inside c = true)
    (hker : s.kernel.inKernel ≠ some c) : Sound l t where
  inv := by
    rw [h.kernel]
    exact hs.inv
  kernelStacks := by
    rw [h.kernel, h.mem]
    exact hs.kernelStacks
  out := fun d hd => by
    by_cases hdc : d = c
    · subst hdc
      exact ⟨p, by rw [h.kernel, h.runs], h.tp⟩
    · rw [h.inside, Function.update_of_ne hdc] at hd
      rw [h.kernel, h.harts d hdc]
      exact hs.out d hd
  frame := fun r hr hnot hstarted => by
    rw [h.kernel] at hr
    have hsp : t.kernelSp l r = s.kernelSp l r := by rw [kernelSp, h.mem, kernelSp]
    rw [hsp, h.mem]
    refine hs.frame r hr (fun d hd => ?_) fun d hd => ?_
    · have hdc : d ≠ c := by
        rintro rfl
        exact absurd (hd.1.symm.trans hin) (by simp)
      exact hnot d (h.out_iff.2 (by rwa [if_neg hdc]))
    · refine (h.started d (hstarted d hd)).resolve_right fun hp => ?_
      exact hnot c (h.out_iff.2 (by rw [if_pos rfl, hd, hp]))
  kernel := fun d hd => by
    rw [h.kernel] at hd
    have hdc : d ≠ c := fun heq => hker (heq ▸ hd)
    rw [h.inside, Function.update_of_ne hdc]
    exact hs.kernel d hd

/-- A return changes no processor. -/
lemma Left.view (h : Left l s c p t) (hs : Sound l s) (hin : s.inside c = true)
    (hker : s.kernel.inKernel ≠ some c) : t.view l i = s.view l i := by
  have hts := h.sound hs hin hker
  have hsp : t.kernelSp l (.slot i) = s.kernelSp l (.slot i) := by rw [kernelSp, h.mem, kernelSp]
  by_cases hp : p = .slot i
  · -- its processor moves from the trapframe to the hart
    have hout : t.Out c (.slot i) := h.out_iff.2 (by rw [if_pos rfl, hp])
    rw [hts.view_of_out hout, h.ctx i hp, hp, view_of_notOut (hs.notOut hin (hp ▸ h.runs))]
  · have hdc : ∀ d, s.Out d (.slot i) → d ≠ c := by
      rintro d hd rfl
      exact absurd (hd.1.symm.trans hin) (by simp)
    refine hs.view_congr hts (fun d => ?_) (fun d hd => by rw [h.harts d (hdc d hd)]) hsp
      fun o _ => by rw [h.mem]
    rw [h.out_iff]
    split
    · rename_i heq
      subst heq
      exact ⟨fun hr => absurd hr.symm hp, fun hd => absurd rfl (hdc d hd)⟩
    · exact Iff.rfl

end Leave

/-! ## A switch -/

section Switch

variable {before next : Pcb}

/-- The stack of the task that is switched away from, which may have exited. -/
structure Leaves (l : Layout) (s : Machine M) (before : Pcb) : Prop where
  aligned : Aligned (s.kernelSp l before)
  pcb : ∀ r, l.pcbAddr r ∉ cells (s.kernelSp l before)
  apart : ∀ r, Live s.kernel r → r ≠ before →
    ∀ a ∈ cells (s.kernelSp l r), a ∉ cells (s.kernelSp l before)

/-- The hart `c` goes from the C code for `before` to that for `next`. -/
structure Switched (l : Layout) (s : Machine M) (c : Cpu) (before next : Pcb) (t : Machine M) :
    Prop where
  runs : s.kernel.runnings c = some next
  kernel : t.kernel = s.kernel
  inside : t.inside = s.inside
  started : t.started = s.started
  harts : ∀ d, d ≠ c → t.hart d = s.hart d
  kernelSp : ∀ r, Live s.kernel r → t.kernelSp l r = s.kernelSp l r
  frame : ∀ r, Live s.kernel r → ∀ o ∈ frameOffsets,
    load t.mem (s.kernelSp l r + o) = load s.mem (s.kernelSp l r + o)
  context : ∀ r, Live s.kernel r → r ≠ before →
    switchtoContext t.mem (s.kernelSp l r) = switchtoContext s.mem (s.kernelSp l r)
  saved : switchtoContext t.mem (s.kernelSp l before) = calleeSaved (s.hart c).x
  loaded : calleeSaved (t.hart c).x = switchtoContext t.mem (s.kernelSp l next)
  pc : (t.hart c).pc = (t.hart c).x .ra

lemma Sound.switched (hs : Sound l s) (hb : Leaves l s before)
    (ht : switch l c before s = some t) : ∃ next, Switched l s c before next t := by
  obtain ⟨next, hnext, ht⟩ := Option.bind_eq_some_iff.1 ht
  obtain ⟨u, hu, ht⟩ := Option.bind_eq_some_iff.1 ht
  obtain rfl := Option.some.inj ht
  obtain ⟨q, hi⟩ := hs.inv
  have hlive := live_running hi hnext
  obtain ⟨u', hu', hmem, hloaded, hpc, -⟩ := switchTo_spec (s := {
      toHart := s.hart c, mem := s.mem }) (l.aligned before) (l.aligned next) rfl rfl hb.aligned (hs.kernelStacks.aligned next hlive)
    (ne_switch_of_notMem (hb.pcb next))
  obtain rfl := Option.some.inj (hu'.symm.trans hu)
  refine ⟨next, hnext, rfl, rfl, rfl, fun d hd => put_hart_of_ne _ _ _ hd, fun r _ => ?_,
    fun r hr o ho => ?_, fun r hr hne => ?_, ?_, ?_, ?_⟩
  · rw [kernelSp, put_mem, hmem]
    exact load_storeSwitch hb.aligned (l.aligned r) (ne_switch_of_notMem (hb.pcb r))
  · rw [put_mem, hmem]
    refine load_storeSwitch hb.aligned (aligned_frame (hs.kernelStacks.aligned r hr) ho) ?_
    by_cases hrb : r = before
    · subst hrb
      exact fun o' ho' => frame_ne_switch ho ho'
    · exact ne_switch_of_notMem (hb.apart r hr hrb _ (mem_cells_frame ho))
  · rw [put_mem, hmem]
    refine switchtoContext_congr fun o ho => ?_
    exact load_storeSwitch hb.aligned ((aligned_sub (hs.kernelStacks.aligned r hr)).add
      (switchOffsets_aligned ho)) (ne_switch_of_notMem (hb.apart r hr hne _ (mem_cells_switch ho)))
  · rw [put_mem, hmem]
    exact switchtoContext_switchStores hb.aligned
  · rw [put_hart_self, put_mem]
    exact hloaded
  · rw [put_hart_self]
    exact hpc

lemma Switched.out_iff (h : Switched l s c before next t) {r : Pcb} : t.Out d r ↔ s.Out d r := by
  simp only [Out, h.kernel, h.inside]

lemma Switched.sound (h : Switched l s c before next t) (hs : Sound l s)
    (hin : s.inside c = true) : Sound l t where
  inv := by
    rw [h.kernel]
    exact hs.inv
  kernelStacks := by
    rw [h.kernel]
    exact hs.kernelStacks.congr h.kernelSp
  out := fun d hd => by
    rw [h.inside] at hd
    have hdc : d ≠ c := by
      rintro rfl
      exact absurd (hd.symm.trans hin) (by simp)
    rw [h.kernel, h.harts d hdc]
    exact hs.out d hd
  frame := fun r hr hnot hstarted => by
    rw [h.kernel] at hr
    rw [h.started] at hstarted
    rw [h.kernelSp r hr, h.frame r hr _ (by decide)]
    exact hs.frame r hr (fun d hd => hnot d (h.out_iff.2 hd)) hstarted
  kernel := fun d hd => by
    rw [h.kernel] at hd
    rw [h.inside]
    exact hs.kernel d hd

/-- A switch changes no processor. -/
lemma Switched.view (h : Switched l s c before next t) (hs : Sound l s)
    (hin : s.inside c = true) (hi : Live s.kernel (.slot i)) : t.view l i = s.view l i := by
  refine hs.view_congr (h.sound hs hin) (fun d => h.out_iff) (fun d hd => ?_) (h.kernelSp _ hi)
    (h.frame _ hi)
  have hdc : d ≠ c := by
    rintro rfl
    exact absurd (hd.1.symm.trans hin) (by simp)
  rw [h.harts d hdc]

end Switch

end Machine
end Arch
end UcasKernel
