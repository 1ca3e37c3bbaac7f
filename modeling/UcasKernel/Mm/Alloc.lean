/-
Runs of the page allocator.

A run starts after `init_kernel_freemem` and is made of `kalloc`, of `kfree` on a
page that is held, and of writes into pages that are held.  `held` is the set of
pages that were handed out and not freed since, `handed` the set of all pages ever
handed out.
-/
import Mathlib.Data.Finset.Basic
import UcasKernel.Lib.Trace
import UcasKernel.Mm.Memory

namespace UcasKernel
namespace Mm

/-- The allocator and the pages it has handed out. -/
structure AllocRun where
  m : Memory
  held : Finset ℕ
  handed : Finset ℕ

inductive AllocEvent
  | kalloc
  | kfree (baseAddr : ℕ)
  | write (page : ℕ) (i : Fin 512) (v : ℕ)

namespace AllocRun

/-- After `init_kernel_freemem`, whatever the memory held before. -/
def init (m : Memory) : AllocRun := ⟨m.initKernelFreemem, ∅, ∅⟩

def step (s : AllocRun) : AllocEvent → Option AllocRun
  | .kalloc => s.m.kalloc.map fun (p, m) => ⟨m, insert p s.held, insert p s.handed⟩
  | .kfree p => if p ∈ s.held then some { s with m := s.m.kfree p, held := s.held.erase p } else none
  | .write p i v => if p ∈ s.held then some { s with m := s.m.store p i v } else none

/-- What the allocator promises in a state. -/
structure Law (s : AllocRun) : Prop where
  /-- The next page is aligned, in the range, not held, and all zero. -/
  fresh : ∀ p m, s.m.kalloc = some (p, m) →
    p % PAGE_SIZE = 0 ∧ FREEMEM_KERNEL ≤ p ∧ p ∉ s.held ∧ ∀ i, m.mem p i = 0
  /-- The free list is finite, has no page twice and no page that is held, and its
  end was never handed out. -/
  list : ∃ l e, FreeChain s.m.next 0 s.m.freememList l e ∧ (l ++ [e]).Nodup ∧
    (∀ p ∈ l ++ [e], p ∉ s.held) ∧ e ∉ s.handed
  /-- There is no next page only when all pages but the last one are held. -/
  exhausted : s.m.kalloc = none →
    ∀ p, Memory.IsPage p → p + PAGE_SIZE < FREEMEM_KERNEL_STOP → p ∈ s.held

/-- The pages that are held are the pages that are not free. -/
structure Inv (s : AllocRun) (l : List ℕ) (e : ℕ) : Prop where
  freeList : s.m.FreeList l e
  isPage : ∀ p ∈ s.held, Memory.IsPage p
  held_iff : ∀ p, Memory.IsPage p → (p ∈ s.held ↔ ¬ Memory.Free l e p)
  handed_lt : ∀ p ∈ s.handed, p < e

variable {s t : AllocRun} {l : List ℕ} {e p : ℕ}

lemma inv_init (m : Memory) : (init m).Inv [] FREEMEM_KERNEL where
  freeList := Memory.freeList_initKernelFreemem m
  isPage := by simp [init]
  held_iff := by
    intro p hp
    simp [init, Memory.Free, hp.2]
  handed_lt := by simp [init]

lemma Inv.not_free (h : s.Inv l e) (hp : p ∈ s.held) : ¬ Memory.Free l e p :=
  (h.held_iff p (h.isPage p hp)).1 hp

/-- Taking a page makes it held. -/
lemma Inv.kalloc (h : s.Inv l e) (hstep : s.step .kalloc = some t) :
    ∃ l' e', t.Inv l' e' ∧ (e < FREEMEM_KERNEL_STOP → e' < FREEMEM_KERNEL_STOP) := by
  simp only [step, Option.map_eq_some_iff] at hstep
  obtain ⟨⟨p, m⟩, ha, rfl⟩ := hstep
  obtain ⟨l', e', hlist, hp, -, -, hfree, -, hle, hlt, -, hstop⟩ := h.freeList.kalloc ha
  refine ⟨l', e', ⟨hlist, ?_, ?_, ?_⟩, hstop⟩
  · intro q hq
    rcases Finset.mem_insert.1 hq with rfl | hq
    · exact hp
    · exact h.isPage q hq
  · intro q hq
    rw [Finset.mem_insert, h.held_iff q hq, hfree q hq]
    tauto
  · intro q hq
    rcases Finset.mem_insert.1 hq with rfl | hq
    · exact hlt
    · exact lt_of_lt_of_le (h.handed_lt q hq) hle

/-- Freeing a held page puts it on the list. -/
lemma Inv.kfree (h : s.Inv l e) (hstep : s.step (.kfree p) = some t) : t.Inv (p :: l) e := by
  simp only [step, Option.ite_none_right_eq_some, Option.some.injEq] at hstep
  obtain ⟨hheld, rfl⟩ := hstep
  obtain ⟨hlist, -, hfree⟩ := h.freeList.kfree (h.isPage p hheld) (h.not_free hheld)
  refine ⟨hlist, fun q hq => h.isPage q (Finset.mem_of_mem_erase hq), fun q hq => ?_, h.handed_lt⟩
  rw [Finset.mem_erase, h.held_iff q hq, hfree q]
  tauto

/-- A write into a held page does not touch the list. -/
lemma Inv.write {i : Fin 512} {v : ℕ} (h : s.Inv l e) (hstep : s.step (.write p i v) = some t) :
    t.Inv l e := by
  simp only [step, Option.ite_none_right_eq_some, Option.some.injEq] at hstep
  obtain ⟨hheld, rfl⟩ := hstep
  refine ⟨h.freeList.congr rfl fun q _ hq => ?_, h.isPage, h.held_iff, h.handed_lt⟩
  have hne : q ≠ p := fun heq => h.not_free hheld (heq ▸ hq)
  rw [Memory.store_of_ne hne]

lemma Inv.step {ev : AllocEvent} (h : ∃ l e, s.Inv l e) (hstep : s.step ev = some t) :
    ∃ l e, t.Inv l e := by
  obtain ⟨l, e, h⟩ := h
  cases ev with
  | kalloc =>
    obtain ⟨l', e', h', -⟩ := h.kalloc hstep
    exact ⟨l', e', h'⟩
  | kfree p => exact ⟨_, _, h.kfree hstep⟩
  | write p i v => exact ⟨_, _, h.write hstep⟩

lemma Inv.law (h : s.Inv l e) : s.Law where
  fresh := by
    intro p m ha
    obtain ⟨l', e', -, hp, hfree, hzero, -⟩ := h.freeList.kalloc ha
    exact ⟨hp.1, hp.2, fun hheld => h.not_free hheld hfree, fun i => by rw [hzero]⟩
  list := by
    refine ⟨l, e, h.freeList.chain, h.freeList.nodup, fun p hp hheld => ?_, fun he => ?_⟩
    · exact h.not_free hheld (Memory.free_of_mem hp)
    · exact absurd (h.handed_lt e he) (lt_irrefl e)
  exhausted := by
    intro hnone p hp hlt
    obtain ⟨rfl, hstop⟩ := h.freeList.kalloc_eq_none hnone
    rw [h.held_iff p hp]
    rintro (hmem | hle)
    · simp at hmem
    · omega

/-- In every state of every run, the next page of `kalloc` is fresh and zero, and the
free list is finite, without repetition, disjoint from the held pages, and ends in a
page that was never handed out. -/
theorem kalloc_fresh (m : Memory) (es : List AllocEvent) : Trace.Always step Law (init m) es := by
  have halways : Trace.Always step (fun s => ∃ l e, Inv s l e) (init m) es :=
    Trace.always_of_invariant (C := fun _ _ => True) (fun s ev t hs _ hstep => Inv.step hs hstep)
      ⟨_, _, inv_init m⟩ fun _ _ _ _ _ _ => trivial
  exact halways.mono fun t ⟨_, _, ht⟩ => ht.law

end AllocRun

end Mm
end UcasKernel
