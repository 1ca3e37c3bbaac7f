/-
The end of the memory that `kalloc` serves.

`FREEMEM_KERNEL_STOP` is defined next to `FREEMEM_KERNEL`, and the kernel maps the memory
below it, but `kalloc` never compares anything with it: once all pages below the last one
are handed out, the next call stores the end of the free list in the page behind the
mapped memory.
-/
import UcasKernel.Lib.Logged
import UcasKernel.Mm.Alloc

namespace UcasKernel
namespace Mm

/-- The bytes from `a` on lie in the memory of the allocator. -/
def InFreemem (a size : ℕ) : Prop := FREEMEM_KERNEL ≤ a ∧ a + size ≤ FREEMEM_KERNEL_STOP

/-- `kalloc`, with the address of the word that it stores at a new end of the free list. -/
def Memory.kallocLogged (m : Memory) : Logged ℕ (ℕ × Memory) :=
  let page := m.freememList
  if m.next m.freememList = 0 then do
    let m := { m with freememList := m.freememList + PAGE_SIZE }
    let m ← Logged.tell m.freememList
      (if m.freememList < FREEMEM_KERNEL_STOP then some (m.store m.freememList 0 0) else none)
    pure (page, m.clear page)
  else
    let m := { m with freememList := m.next m.freememList }
    pure (page, m.clear page)

theorem Memory.result_kallocLogged (m : Memory) : m.kallocLogged.result = m.kalloc := by
  unfold Memory.kallocLogged Memory.kalloc
  split
  · rw [Logged.result_bind, Logged.result_tell]
    by_cases hlt : m.freememList + PAGE_SIZE < FREEMEM_KERNEL_STOP
    · simp only [if_pos hlt, Option.bind_some, Logged.result_pure]
    · simp only [if_neg hlt, Option.bind_none]
  · rfl

/-- The end of the list moves up when the list is its end alone. -/
lemma Memory.log_kallocLogged (m : Memory) : m.kallocLogged.log =
    if m.next m.freememList = 0 then [m.freememList + PAGE_SIZE] else [] := by
  unfold Memory.kallocLogged
  split
  · by_cases hlt : m.freememList + PAGE_SIZE < FREEMEM_KERNEL_STOP
    · simp only [if_pos hlt, Logged.log_tell_bind]
      rfl
    · simp only [if_neg hlt]
      rfl
  · rfl

lemma Memory.fst_kalloc {m m' : Memory} {p : ℕ} (h : m.kalloc = some (p, m')) :
    p = m.freememList := by
  simp only [Memory.kalloc] at h
  split at h
  · split at h
    · exact (congrArg Prod.fst (Option.some.inj h)).symm
    · cases h
  · exact (congrArg Prod.fst (Option.some.inj h)).symm

namespace AllocRun

/-- A step of a run in which memory below `FREEMEM_KERNEL` is given to `kfree` as well. -/
def stepLow (s : AllocRun) : AllocEvent → Option AllocRun
  | .kfree p => if p < FREEMEM_KERNEL then some { s with m := s.m.kfree p } else s.step (.kfree p)
  | e => s.step e

/-- `kalloc` stores the end of the list in its memory, and so is the page that it returns. -/
def InBounds (s : AllocRun) (e : AllocEvent) : Prop :=
  e = .kalloc → s.m.kallocLogged.All (InFreemem · 8) ∧
    ∀ p m, s.m.kallocLogged.result = some (p, m) → InFreemem p PAGE_SIZE

/-- When `kalloc` is called, a page other than the last one is not held. -/
def Spare (s : AllocRun) (e : AllocEvent) : Prop :=
  e = .kalloc → ∃ p, Memory.IsPage p ∧ p + PAGE_SIZE < FREEMEM_KERNEL_STOP ∧ p ∉ s.held

/-- The invariant of the allocator, with an end that is mapped. -/
def Mapped (s : AllocRun) : Prop := ∃ l e, s.Inv l e ∧ e < FREEMEM_KERNEL_STOP

section Bound

variable {s t : AllocRun} {l : List ℕ} {e p : ℕ} {ev : AllocEvent}

lemma mapped_init (m : Memory) : (init m).Mapped :=
  ⟨[], FREEMEM_KERNEL, inv_init m, by decide⟩

lemma Mapped.step (h : s.Mapped) (hstep : s.stepLow ev = some t) : t.Mapped := by
  obtain ⟨l, e, hinv, hlt⟩ := h
  cases ev with
  | kalloc =>
    obtain ⟨l', e', hinv', hstop⟩ := hinv.kalloc hstep
    exact ⟨l', e', hinv', hstop hlt⟩
  | kfree p =>
    rw [stepLow] at hstep
    split at hstep
    · rename_i hlow
      obtain rfl := Option.some.inj hstep
      rw [Memory.kfree, if_pos hlow]
      exact ⟨l, e, hinv, hlt⟩
    · exact ⟨_, e, hinv.kfree hstep, hlt⟩
  | write p i v => exact ⟨l, e, hinv.write hstep, hlt⟩

/-- A page in front of a page that is mapped is in the memory of the allocator. -/
lemma inFreemem_of_lt {q : ℕ} (hp : Memory.IsPage p) (hle : p ≤ q)
    (hlt : q < FREEMEM_KERNEL_STOP) : InFreemem p PAGE_SIZE := by
  have hstop : Memory.IsPage FREEMEM_KERNEL_STOP := ⟨by decide, by decide⟩
  exact ⟨hp.2, hp.add_le hstop (hle.trans_lt hlt)⟩

/-- The free list has a page other than its end, or the page behind the end is mapped, exactly when
a page other than the last one is not held. -/
lemma Inv.spare_iff (h : s.Inv l e) (hlt : e < FREEMEM_KERNEL_STOP) :
    (s.m.next s.m.freememList ≠ 0 ∨ s.m.freememList + PAGE_SIZE < FREEMEM_KERNEL_STOP) ↔
      ∃ p, Memory.IsPage p ∧ p + PAGE_SIZE < FREEMEM_KERNEL_STOP ∧ p ∉ s.held := by
  have hhead := h.freeList.chain.head_mem
  have hend : Memory.IsPage e := h.freeList.isPage e (by simp)
  have hfree : s.m.freememList ∉ s.held := fun hheld =>
    h.not_free hheld (Memory.free_of_mem hhead)
  constructor
  · rintro (hnext | hbelow)
    · refine ⟨s.m.freememList, h.freeList.isPage _ hhead, ?_, hfree⟩
      obtain ⟨l', rfl, -⟩ := h.freeList.chain.eq_cons hnext
      have hle := (h.freeList.isPage _ hhead).add_le hend
        (h.freeList.le_end _ List.mem_cons_self)
      exact hle.trans_lt hlt
    · exact ⟨s.m.freememList, h.freeList.isPage _ hhead, hbelow, hfree⟩
  · rintro ⟨p, hp, hbelow, hheld⟩
    by_contra hnot
    obtain ⟨hnext, hstop⟩ := not_or.1 hnot
    obtain ⟨rfl, hlast⟩ := h.freeList.chain.eq_nil (not_not.1 hnext)
    rw [h.held_iff p hp, not_not] at hheld
    rcases hheld with hmem | hle
    · cases hmem
    · rw [hlast] at hstop
      omega

/-- With a page to spare `kalloc` stays in its memory, and only then. -/
lemma Inv.inBounds_iff (h : s.Inv l e) (hlt : e < FREEMEM_KERNEL_STOP) :
    (s.m.kallocLogged.All (InFreemem · 8) ∧
        ∀ p m, s.m.kallocLogged.result = some (p, m) → InFreemem p PAGE_SIZE) ↔
      ∃ p, Memory.IsPage p ∧ p + PAGE_SIZE < FREEMEM_KERNEL_STOP ∧ p ∉ s.held := by
  have hhead := h.freeList.chain.head_mem
  have hpage := h.freeList.isPage _ hhead
  have hend : Memory.IsPage e := h.freeList.isPage e (by simp)
  rw [← h.spare_iff hlt, Memory.result_kallocLogged, Logged.All, Memory.log_kallocLogged]
  constructor
  · rintro ⟨hstored, -⟩
    by_cases hnext : s.m.next s.m.freememList = 0
    · rw [if_pos hnext] at hstored
      have hword := (hstored _ (List.mem_singleton_self _)).2
      exact .inr ((Nat.lt_add_of_pos_right (by decide)).trans_le hword)
    · exact .inl hnext
  · intro hspare
    refine ⟨fun a ha => ?_, fun p m ha => ?_⟩
    · split at ha
      · rename_i hnext
        obtain rfl := List.mem_singleton.1 ha
        have hnew := Memory.isPage_add hpage
        have hin := inFreemem_of_lt hnew le_rfl (hspare.resolve_left (not_not.2 hnext))
        exact ⟨hin.1, (Nat.add_le_add_left (by decide : 8 ≤ PAGE_SIZE) _).trans hin.2⟩
      · cases ha
    · have hp := Memory.fst_kalloc ha
      subst hp
      refine inFreemem_of_lt hpage ?_ hlt
      rcases List.mem_append.1 hhead with hmem | hmem
      · exact (h.freeList.le_end _ hmem).le
      · exact (List.mem_singleton.1 hmem).le

lemma Mapped.inBounds_iff (h : s.Mapped) : s.InBounds ev ↔ s.Spare ev := by
  obtain ⟨l, e, hinv, hlt⟩ := h
  exact imp_congr_right fun _ => hinv.inBounds_iff hlt

end Bound

/-- In every run `kalloc` stays in its memory exactly when, each time it is called, a page other
than the last one is not held. -/
theorem kalloc_inBounds_iff (m : Memory) (es : List AllocEvent) :
    Trace.StepsMeet stepLow InBounds (init m) es ↔ Trace.StepsMeet stepLow Spare (init m) es := by
  have hmapped : Trace.Always stepLow Mapped (init m) es :=
    Trace.always_of_invariant (C := fun _ _ => True) (fun s ev t hs _ hstep => hs.step hstep)
      (mapped_init m) (Trace.stepsMeet_true _ _)
  constructor
  · intro h pre ev post hes s hs
    exact (hmapped pre _ hes s hs).inBounds_iff.1 (h pre ev post hes s hs)
  · intro h pre ev post hes s hs
    exact (hmapped pre _ hes s hs).inBounds_iff.2 (h pre ev post hes s hs)

/-- As long as nothing is freed, each call moves the end of the list up by a page. -/
lemma run_kallocs (m : Memory) {n : ℕ} (hn : FREEMEM_KERNEL + n * PAGE_SIZE < FREEMEM_KERNEL_STOP) :
    ∃ s, Trace.run stepLow (init m) (List.replicate n .kalloc) = some s ∧
      s.m.freememList = FREEMEM_KERNEL + n * PAGE_SIZE ∧ s.m.next s.m.freememList = 0 := by
  induction n with
  | zero =>
    refine ⟨init m, rfl, rfl, ?_⟩
    exact (Memory.freeList_initKernelFreemem m).chain.2
  | succ n ih =>
    have hpos : 0 < PAGE_SIZE := by decide
    obtain ⟨s, hs, hlist, hnext⟩ := ih (by rw [Nat.succ_mul] at hn; omega)
    have hnew : s.m.freememList + PAGE_SIZE = FREEMEM_KERNEL + (n + 1) * PAGE_SIZE := by
      rw [hlist, Nat.succ_mul, Nat.add_assoc]
    have hne : s.m.freememList + PAGE_SIZE ≠ s.m.freememList := by omega
    let m' := Memory.clear (Memory.store { s.m with freememList := s.m.freememList + PAGE_SIZE }
      (s.m.freememList + PAGE_SIZE) 0 0) s.m.freememList
    have hkalloc : s.m.kalloc = some (s.m.freememList, m') := by
      simp only [Memory.kalloc, if_pos hnext]
      exact if_pos (hnew ▸ hn)
    refine ⟨⟨m', insert s.m.freememList s.held, insert s.m.freememList s.handed⟩, ?_, hnew, ?_⟩
    · rw [List.replicate_succ', Trace.run_append, hs, Option.bind_some, Trace.run_singleton]
      change s.m.kalloc.map _ = _
      rw [hkalloc, Option.map_some]
    · change (Memory.clear _ _).mem (s.m.freememList + PAGE_SIZE) 0 = 0
      rw [Memory.clear_of_ne hne, Memory.store_self, Function.update_self]

/-- Nothing is freed: the call that takes the last page but one leaves the list with the last page,
and the next one stores its end at `FREEMEM_KERNEL_STOP`. -/
theorem kalloc_leaves_freemem :
    ¬ Trace.StepsMeet stepLow InBounds (init ⟨fun _ _ => 0, 0⟩)
      (List.replicate 57343 .kalloc ++ [.kalloc]) := by
  intro h
  obtain ⟨s, hs, hlist, hnext⟩ := run_kallocs ⟨fun _ _ => 0, 0⟩ (n := 57343) (by decide)
  have hbounds := (h _ .kalloc [] rfl s hs rfl).1
  rw [Logged.All, Memory.log_kallocLogged, if_pos hnext, hlist] at hbounds
  have hword := (hbounds _ (List.mem_singleton_self _)).2
  exact absurd hword (by decide)

end AllocRun
end Mm
end UcasKernel
