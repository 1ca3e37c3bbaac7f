/-
Mutexes, barriers and condition variables as objects with one queue each, and the steps
of the kernel that leave an object alone: a wake-up from another queue, the release of
another mutex, a store to another slot of a table.
-/
import UcasKernel.Sched.Operations

namespace UcasKernel
namespace Sched

/-- The tables of objects that tasks wait on. -/
inductive Kind
  | mutex
  | barrier
  | condition
deriving DecidableEq, Repr

/-- The queue of the object in a slot. -/
def Kind.queue : Kind → Slot → Head
  | .mutex, i => .blockQueue i
  | .barrier, i => .blockList i
  | .condition, i => .condWaitList i

namespace Kernel

/-- The owner, the goal, the arrival count and the queue of the object in a slot are as they were. -/
structure SameObject (kind : Kind) (i : Slot) (k : Kernel) (q : Head → List Pcb) (k' : Kernel)
    (q' : Head → List Pcb) : Prop where
  mlocks : kind = .mutex → k'.mlocks i = k.mlocks i
  barriers : kind = .barrier → k'.barriers i = k.barriers i
  list : q' (kind.queue i) = q (kind.queue i)

section SameObject

variable {kind : Kind} {i m b : Slot} {k k₁ k' : Kernel} {q q₁ q' : Head → List Pcb}

lemma queue_ne_waitList (r : Pcb) : kind.queue i ≠ .waitList r := by
  cases kind <;> exact Head.noConfusion

lemma queue_ne_readyQueue : kind.queue i ≠ .readyQueue := by
  cases kind <;> exact Head.noConfusion

lemma queue_eq_blockQueue : kind.queue i = .blockQueue m ↔ kind = .mutex ∧ i = m := by
  cases kind <;> simp [Kind.queue]

lemma queue_injective {kind' : Kind} {j : Slot} (h : kind.queue i = kind'.queue j) : i = j := by
  cases kind <;> cases kind' <;> simp_all [Kind.queue]

lemma SameObject.refl : SameObject kind i k q k q := ⟨fun _ => rfl, fun _ => rfl, rfl⟩

lemma SameObject.trans (h : SameObject kind i k q k₁ q₁) (h' : SameObject kind i k₁ q₁ k' q') :
    SameObject kind i k q k' q' :=
  ⟨fun hk => (h'.mlocks hk).trans (h.mlocks hk), fun hk => (h'.barriers hk).trans (h.barriers hk),
    h'.list.trans h.list⟩

lemma SameObject.setMlock (mutex : MutexLock) (hne : kind.queue i ≠ .blockQueue m) :
    SameObject kind i k q (k.setMlock m mutex) q := by
  refine ⟨?_, fun _ => rfl, rfl⟩
  rintro rfl
  refine Function.update_of_ne ?_ ..
  rintro rfl
  exact hne rfl

lemma SameObject.setBarrier (bar : Barrier) (hne : kind.queue i ≠ .blockList b) :
    SameObject kind i k q (k.setBarrier b bar) q := by
  refine ⟨fun _ => rfl, ?_, rfl⟩
  rintro rfl
  refine Function.update_of_ne ?_ ..
  rintro rfl
  exact hne rfl

lemma Wakes.sameObject {from' : Head → Prop} {out : Option Cpu} {gone : Option Pcb}
    (hw : Wakes from' k q k' q') (hready : ¬ from' .readyQueue) (hne : ¬ from' (kind.queue i))
    (hm : k.Mid q out gone) : SameObject kind i k q k' q' := by
  induction hw with
  | refl => exact .refl
  | @tail k₁ k₂ q₁ p h hw hh hp hk ih =>
    obtain ⟨L, hL, -⟩ := (hw.mid hready hm).1.doUnblock hp (fun heq => hready (heq ▸ hh))
    obtain rfl := Option.some.inj (hk.symm.trans hL)
    exact ih.trans ⟨fun _ => rfl, fun _ => rfl,
      move_of_ne (fun heq => hne (heq ▸ hh)) queue_ne_readyQueue⟩

lemma Released.sameObject (h : k.Released q m k' q') (hne : kind.queue i ≠ .blockQueue m) :
    SameObject kind i k q k' q' := by
  rcases h with ⟨-, rfl, rfl⟩ | ⟨p, l, L, -, rfl, rfl⟩
  · exact .setMlock _ hne
  · have hset := SameObject.setMlock (k := k) (q := q) ⟨(k.mlocks m).locked, k.pid p⟩ hne
    exact ⟨hset.mlocks, hset.barriers, move_of_ne hne queue_ne_readyQueue⟩

lemma retFromKernel_eq (k : Kernel) (c : Cpu) : (k.retFromKernel c).links = k.links ∧
    (k.retFromKernel c).mlocks = k.mlocks ∧ (k.retFromKernel c).barriers = k.barriers := by
  unfold Kernel.retFromKernel switchPgdir
  cases k.runnings c <;> exact ⟨rfl, rfl, rfl⟩

end SameObject

end Kernel
end Sched
end UcasKernel
