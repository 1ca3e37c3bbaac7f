/-
What the list operations of `include/os/list.h` do to the lists they work on, and what
`do_block` and `do_unblock` do to the queues.

The lists are those of any heap of list nodes; the queues of the kernel are one of its
instances.  `find_idle_task`, which `do_block` calls behind the move, reads the ready
queue and changes no link, so all that is left of a call is the move of one PCB.
-/
import UcasKernel.Sched.Runs

namespace UcasKernel
namespace Sched
namespace Kernel

variable {k : Kernel} {q : Head → List Pcb} {p : Pcb} {h h' : Head} {c : Cpu} {cont : Cont}

/-- `find_idle_task`, `switch_pgdir` and `switch_to` change no link. -/
lemma reschedule_links (hr : k.links.Repr q) (hi : k.links.Init .readyQueue) :
    ∃ k', k.reschedule c p cont = some k' ∧ k'.links = k.links := by
  have hidle := firstIdle_spec hr hi
  simp only [reschedule, findIdleTask, hidle, Option.bind_eq_bind, Option.bind_some,
    Option.some.injEq, exists_eq_left']
  simp only [switchTo, switchPgdir, Function.update_self]
  rfl

/-- `do_block` of a PCB takes it from its queue to the tail of another one. -/
lemma doBlock_links (hr : k.links.Repr q) (hp : p ∈ q h) (hi : k.links.Init h')
    (hready : k.links.Init .readyQueue) :
    ∃ k', k.doBlock c p h' cont = some k' ∧ k'.links.Repr (move q p h h') ∧
      ∀ g, k'.links.Init g ↔ k.links.Init g := by
  obtain ⟨L, hL, hr', hinit⟩ := move_spec hr hp hi
  obtain ⟨k', hk', hlinks⟩ : ∃ k', (({ k with links := L } : Kernel).setStatus p .blocked).reschedule
      c p cont = some k' ∧ k'.links = L := reschedule_links hr' ((hinit _).2 hready)
  refine ⟨k', ?_, hlinks ▸ hr', fun g => hlinks ▸ hinit g⟩
  simp only [Option.bind_eq_some_iff] at hL
  obtain ⟨k₁, hk₁, hk₂⟩ := hL
  simp only [doBlock, hk₁, hk₂, Option.bind_eq_bind, Option.bind_some]
  exact hk'

/-- `do_unblock` of a PCB takes it from its queue to the tail of the ready queue. -/
lemma doUnblock_links (hr : k.links.Repr q) (hp : p ∈ q h) (hready : k.links.Init .readyQueue) :
    ∃ k', k.doUnblock p = some k' ∧ k'.links.Repr (move q p h .readyQueue) ∧
      ∀ g, k'.links.Init g ↔ k.links.Init g := by
  obtain ⟨L, hL, hr', hinit⟩ := doUnblock_spec hr hp hready
  exact ⟨_, hL, hr', hinit⟩

/-- On a heap whose initialised heads represent pairwise disjoint lists, `list_add_tail`
of a node on no list appends it to the list of the head, `list_delete_entry` of a node
takes it out of its list, and the other lists stay; so `do_unblock` and `do_block` move
their PCB to the tail of the ready queue, respectively of the given queue, and no other
PCB. -/
theorem list_operations_refine {H E : Type*} [DecidableEq H] [DecidableEq E] :
    (∀ (L : Links H E) (q : H → List E) (h : H) (e : E), L.Repr q → L.Init h →
      (∀ g, e ∉ q g) → ∃ L', L.addTail e h = some L' ∧
        L'.Repr (Function.update q h (q h ++ [e])) ∧ ∀ g, L'.Init g ↔ L.Init g) ∧
    (∀ (L : Links H E) (q : H → List E) (h : H) (e : E), L.Repr q → e ∈ q h →
      ∃ L', L.delete e = some L' ∧
        L'.Repr (Function.update q h ((q h).filter (· ≠ e))) ∧ ∀ g, L'.Init g ↔ L.Init g) ∧
    (∀ (k : Kernel) (q : Head → List Pcb) (h : Head) (p : Pcb), k.links.Repr q → p ∈ q h →
      k.links.Init .readyQueue →
      (∃ k', k.doUnblock p = some k' ∧ k'.links.Repr (move q p h .readyQueue) ∧
        ∀ g, k'.links.Init g ↔ k.links.Init g) ∧
      (∀ (c : Cpu) (h' : Head) (cont : Cont), k.links.Init h' →
        ∃ k', k.doBlock c p h' cont = some k' ∧ k'.links.Repr (move q p h h') ∧
          ∀ g, k'.links.Init g ↔ k.links.Init g) ∧
      ∀ h' g x, x ∈ move q p h h' g ↔ if x = p then g = h' else x ∈ q g) := by
  refine ⟨fun L q h e hr hi he => hr.addTail hi he, fun L q h e hr he => ?_,
    fun k q h p hr hp hready => ⟨doUnblock_links hr hp hready, ?_, ?_⟩⟩
  · rw [show (q h).filter (fun x => decide (x ≠ e)) = (q h).erase e from
      ((hr.nodup h).erase_eq_filter e).symm ▸ by simp [bne, Bool.beq_eq_decide_eq]]
    exact hr.delete he
  · exact fun c h' cont hi => doBlock_links hr hp hi hready
  · exact fun h' g x => mem_move hr hp

/-- The shell of the first state goes to sleep. -/
theorem list_operations_refine_boot :
    (∃ L' : Links Head Pcb, (boot []).links.addTail (.slot 1) .sleepQueue = some L' ∧
      L'.Repr (Function.update bootQueues .sleepQueue [.slot 1])) ∧
    (∃ L' : Links Head Pcb, (boot []).links.delete (.slot 0) = some L' ∧
      L'.Repr (Function.update bootQueues .readyQueue [])) ∧
    (∃ k', (boot []).doUnblock (.slot 0) = some k') ∧
    ∃ k', (boot []).doBlock 0 (.slot 0) .sleepQueue .ret = some k' ∧
      k'.links.Repr (move bootQueues (.slot 0) .readyQueue .sleepQueue) := by
  have hl := boot_lists []
  have hsleep : (boot []).links.Init .sleepQueue := hl.init _ (by simp)
  have hready : (boot []).links.Init .readyQueue := hl.init _ (by simp)
  have hshell : (Pcb.slot 0) ∈ bootQueues .readyQueue := by decide
  obtain ⟨hadd, hdelete, hmove⟩ := @list_operations_refine Head Pcb _ _
  obtain ⟨L₁, hL₁, hr₁, -⟩ := hadd _ bootQueues .sleepQueue (.slot 1) hl.repr hsleep (by
    intro g
    by_cases hg : g = .readyQueue <;> simp [bootQueues, hg])
  obtain ⟨L₂, hL₂, hr₂, -⟩ := hdelete _ bootQueues .readyQueue (.slot 0) hl.repr hshell
  obtain ⟨⟨k₁, hk₁, -⟩, hblock, -⟩ := hmove _ bootQueues _ _ hl.repr hshell hready
  obtain ⟨k₂, hk₂, hr, -⟩ := hblock 0 .sleepQueue .ret hsleep
  exact ⟨⟨L₁, hL₁, hr₁⟩, ⟨L₂, hL₂, hr₂⟩, ⟨k₁, hk₁⟩, k₂, hk₂, hr⟩

end Kernel
end Sched
end UcasKernel
