/-
The queues of the kernel as lists of PCBs, and the rules for the loops over them.

`move q p h h'` takes `p` from the list of `h` to the tail of the list of `h'`;
it is what `list_delete_entry` followed by `list_add_tail` does to the lists that
the heap represents.  The loops of the kernel take PCBs from one queue to the
ready queue: a property that one `do_unblock` keeps is kept by the loop.
-/
import UcasKernel.Sched.Process

namespace UcasKernel
namespace Sched

/-- Take `p` from the list of `h` to the tail of the list of `h'`. -/
def move (q : Head → List Pcb) (p : Pcb) (h h' : Head) : Head → List Pcb :=
  let q := Function.update q h ((q h).erase p)
  Function.update q h' (q h' ++ [p])

section Move

variable {q : Head → List Pcb} {p x : Pcb} {h h' g : Head}

lemma move_of_ne (hg : g ≠ h) (hg' : g ≠ h') : move q p h h' g = q g := by
  simp [move, hg, hg']

lemma move_from (hne : h ≠ h') : move q p h h' h = (q h).erase p := by
  simp [move, hne]

lemma move_to (hne : h' ≠ h) : move q p h h' h' = q h' ++ [p] := by
  simp [move, hne]

/-- After a move `p` is on its new queue only, and the others are where they
were. -/
lemma mem_move {L : Links Head Pcb} (hr : L.Repr q) (hp : p ∈ q h) :
    x ∈ move q p h h' g ↔ if x = p then g = h' else x ∈ q g := by
  have herase : ∀ g, x ∈ Function.update q h ((q h).erase p) g ↔ x ≠ p ∧ x ∈ q g := by
    intro g
    rcases eq_or_ne g h with rfl | hg
    · rw [Function.update_self, (hr.nodup g).mem_erase_iff]
    · rw [Function.update_of_ne hg]
      refine ⟨fun hx => ⟨?_, hx⟩, fun hx => hx.2⟩
      rintro rfl
      exact hg (hr.disjoint g h x hx hp)
  simp only [move]
  rcases eq_or_ne g h' with rfl | hg
  · rw [Function.update_self, List.mem_append, herase, List.mem_singleton]
    by_cases hx : x = p <;> simp [hx]
  · rw [Function.update_of_ne hg, herase]
    by_cases hx : x = p <;> simp [hx, hg]

/-- Moving a PCB keeps the set of PCBs that are on some queue. -/
lemma exists_mem_move {L : Links Head Pcb} (hr : L.Repr q) (hp : p ∈ q h) :
    (∃ g, x ∈ move q p h h' g) ↔ ∃ g, x ∈ q g := by
  simp only [mem_move hr hp]
  by_cases hx : x = p
  · subst hx
    simp only [if_true, exists_eq, true_iff]
    exact ⟨h, hp⟩
  · simp only [hx, if_false]

end Move

namespace Kernel

variable {k k' : Kernel} {q : Head → List Pcb} {p : Pcb} {h h' : Head}

/-! ## The list operations -/

/-- `list_delete_entry`, then `list_add_tail`. -/
lemma move_spec (hr : k.links.Repr q) (hp : p ∈ q h) (hi : k.links.Init h') :
    ∃ L : Links Head Pcb, ((k.listDeleteEntry p).bind fun k => k.listAddTail p h') =
      some { k with links := L } ∧ L.Repr (move q p h h') ∧ ∀ g, L.Init g ↔ k.links.Init g := by
  obtain ⟨L, hL, hr', hinit⟩ := hr.delete hp
  have hno : ∀ g, p ∉ Function.update q h ((q h).erase p) g := by
    intro g hmem
    rcases eq_or_ne g h with rfl | hne
    · rw [Function.update_self] at hmem
      exact (hr.nodup g).not_mem_erase hmem
    · rw [Function.update_of_ne hne] at hmem
      exact hne (hr.disjoint g h p hmem hp)
  obtain ⟨L', hL', hr'', hinit'⟩ := hr'.addTail ((hinit h').2 hi) hno
  refine ⟨L', ?_, hr'', fun g => (hinit' g).trans (hinit g)⟩
  simp only [listDeleteEntry, hL, Option.map_some, Option.bind_some, listAddTail, hL']

lemma doUnblock_spec (hr : k.links.Repr q) (hp : p ∈ q h) (hi : k.links.Init .readyQueue) :
    ∃ L : Links Head Pcb, k.doUnblock p = some { k.setStatus p .ready with links := L } ∧
      L.Repr (move q p h .readyQueue) ∧ ∀ g, L.Init g ↔ k.links.Init g := by
  obtain ⟨L, hL, hr', hinit⟩ := move_spec hr hp hi
  refine ⟨L, ?_, hr', hinit⟩
  simp only [listDeleteEntry, listAddTail, Option.bind_eq_some_iff, Option.map_eq_some_iff] at hL
  obtain ⟨k₁, ⟨L₁, hL₁, rfl⟩, L₂, hL₂, heq⟩ := hL
  have hL' : L₂ = L := congrArg Kernel.links heq
  simp only [doUnblock, listDeleteEntry, hL₁, Option.map_some, Option.bind_eq_bind,
    Option.bind_some, listAddTail]
  have : ({ k with links := L₁ } : Kernel).setStatus p .ready =
    { k.setStatus p .ready with links := L₁ } := rfl
  rw [this, ← hL']
  simp only [hL₂, Option.map_some]

lemma isQueueEmpty_iff (hr : k.links.Repr q) (hi : k.links.Init h) :
    k.isQueueEmpty h = true ↔ q h = [] := hr.isEmpty_iff hi

lemma firstEntry_spec {l : List Pcb} (hr : k.links.Repr q) (hq : q h = p :: l) :
    k.firstEntry h = some p := by
  have hnext := hr.next_head (hr.init_of_mem (e := p) (by rw [hq]; exact List.mem_cons_self))
  rw [hq] at hnext
  rw [firstEntry, hnext]
  rfl

/-- A list of different PCBs is shorter than the bound of the loops. -/
lemma length_lt_loopBound (hr : k.links.Repr q) (h : Head) : (q h).length < loopBound :=
  Nat.lt_succ_of_le ((hr.nodup h).length_le_card.trans (by decide))

/-! ## The loops -/

section Loops

variable {P : Kernel → (Head → List Pcb) → Prop}

/-- `while (!is_queue_empty(queue)) do_unblock(queue->next)`: what one
`do_unblock` from the queue keeps, the loop keeps, and the queue is empty
behind it. -/
theorem unblockAll_rule (hne : h ≠ .readyQueue)
    (hrepr : ∀ k q, P k q → k.links.Repr q ∧ k.links.Init h)
    (hwake : ∀ k q p, P k q → p ∈ q h → ∃ k', k.doUnblock p = some k' ∧
      P k' (move q p h .readyQueue)) (hP : P k q) :
    ∃ k' q', unblockAll h loopBound k = some k' ∧ P k' q' ∧ q' h = [] := by
  have hlen := length_lt_loopBound (hrepr k q hP).1 h
  generalize loopBound = n at hlen ⊢
  induction n generalizing k q with
  | zero => omega
  | succ n ih =>
    obtain ⟨hr, hi⟩ := hrepr k q hP
    rw [unblockAll]
    by_cases hempty : q h = []
    · rw [if_pos ((isQueueEmpty_iff hr hi).2 hempty)]
      exact ⟨k, q, rfl, hP, hempty⟩
    · rw [if_neg (fun hc => hempty ((isQueueEmpty_iff hr hi).1 hc))]
      obtain ⟨p, l, hq⟩ := List.exists_cons_of_ne_nil hempty
      obtain ⟨k', hk', hP'⟩ := hwake k q p hP (by rw [hq]; exact List.mem_cons_self)
      have hlen' : (move q p h .readyQueue h).length < n := by
        rw [move_from hne, hq, List.erase_cons_head]
        rw [hq, List.length_cons] at hlen
        omega
      obtain ⟨k'', q'', hk'', hP'', hq''⟩ := ih hP' hlen'
      refine ⟨k'', q'', ?_, hP'', hq''⟩
      simp only [firstEntry_spec hr hq, hk', hk'', Option.bind_eq_bind, Option.bind_some]

/-- `list_for_each_entry_safe`: in round `i` the PCBs `rest` are left, which are the end of the
queue. -/
theorem forEachEntrySafe_rounds {body : ℕ → Pcb → Kernel → Option Kernel}
    {P : ℕ → List Pcb → Kernel → (Head → List Pcb) → Prop}
    (hrepr : ∀ i rest k q, P i rest k q → k.links.Repr q ∧ ∃ kept, q h = kept ++ rest)
    (hbody : ∀ i p rest k q, P i (p :: rest) k q → ∃ k' q', body i p k = some k' ∧
      P (i + 1) rest k' q') (hP : P 0 (q h) k q) (hi : k.links.Init h) :
    ∃ k' q' i, forEachEntrySafe h body loopBound 0 (k.links.next (.inl h)) k = some k' ∧
      P i [] k' q' := by
  have hloop : ∀ (n i : ℕ) (rest : List Pcb) (k : Kernel) (q : Head → List Pcb),
      P i rest k q → rest.length < n →
      ∃ k' q' j, forEachEntrySafe h body n i (some ((rest.map Sum.inr).headD (.inl h))) k =
        some k' ∧ P j [] k' q' := by
    intro n
    induction n with
    | zero => intro i rest k q hP hlen; omega
    | succ n ih =>
      intro i rest k q hP hlen
      cases rest with
      | nil => exact ⟨k, q, i, by simp [forEachEntrySafe], hP⟩
      | cons p rest =>
        obtain ⟨hr, kept, hq⟩ := hrepr i _ k q hP
        obtain ⟨k', q', hk', hP'⟩ := hbody i p rest k q hP
        obtain ⟨k'', q'', j, hk'', hP''⟩ := ih (i + 1) rest k' q' hP' (by
          rw [List.length_cons] at hlen; omega)
        refine ⟨k'', q'', j, ?_, hP''⟩
        simp only [List.map_cons, List.headD_cons, forEachEntrySafe, hr.next_entry hq, hk',
          Option.bind_eq_bind, Option.bind_some, hk'']
  have hr := (hrepr 0 _ k q hP).1
  rw [hr.next_head hi]
  exact hloop loopBound 0 (q h) k q hP (length_lt_loopBound hr h)

/-- The first of the PCBs that are left is on none of the queue before. -/
lemma notMem_kept {kept rest : List Pcb} (hr : k.links.Repr q) (hq : q h = kept ++ p :: rest) :
    p ∉ kept := by
  have hnodup := hr.nodup h
  rw [hq] at hnodup
  exact fun hmem => List.disjoint_of_nodup_append hnodup hmem List.mem_cons_self

/-- The same with the first of the PCBs that are left taken off the queue. -/
lemma erase_kept {kept rest : List Pcb} (hr : k.links.Repr q) (hq : q h = kept ++ p :: rest) :
    (q h).erase p = kept ++ rest := by
  rw [hq, List.erase_append_right _ (notMem_kept hr hq), List.erase_cons_head]

/-- `list_for_each_entry_safe`: what a round keeps that leaves its PCB on the
queue or takes it off, the loop keeps. -/
theorem forEachEntrySafe_rule {body : ℕ → Pcb → Kernel → Option Kernel}
    (hrepr : ∀ k q, P k q → k.links.Repr q)
    (hbody : ∀ k q p i, P k q → p ∈ q h → ∃ k' q', body i p k = some k' ∧ P k' q' ∧
      (q' h = q h ∨ q' h = (q h).erase p)) (hP : P k q) (hi : k.links.Init h) :
    ∃ k' q', forEachEntrySafe h body loopBound 0 (k.links.next (.inl h)) k = some k' ∧
      P k' q' := by
  obtain ⟨k', q', -, hk', hP', -⟩ := forEachEntrySafe_rounds
    (P := fun _ rest k q => P k q ∧ ∃ kept, q h = kept ++ rest)
    (fun _ _ k q hP => ⟨hrepr k q hP.1, hP.2⟩)
    (fun i p rest k q ⟨hP, kept, hq⟩ => by
      obtain ⟨k', q', hk', hP', hq'⟩ := hbody k q p i hP (by rw [hq]; simp)
      refine ⟨k', q', hk', hP', ?_⟩
      rcases hq' with hq' | hq'
      · exact ⟨kept ++ [p], by rw [hq', hq]; simp⟩
      · exact ⟨kept, by rw [hq', erase_kept (hrepr k q hP) hq]⟩)
    ⟨hP, [], rfl⟩ hi
  exact ⟨k', q', hk', hP'⟩

end Loops

/-- The loop of `find_idle_task`: the first PCB of the ready queue that does not
run. -/
lemma firstIdle_spec (hr : k.links.Repr q) (hi : k.links.Init .readyQueue) :
    k.firstIdle loopBound (k.links.next (.inl .readyQueue)) =
      some ((q .readyQueue).find? fun p => k.status p ≠ .running) := by
  have hloop : ∀ (n : ℕ) (kept rest : List Pcb), q .readyQueue = kept ++ rest →
      rest.length < n →
      k.firstIdle n (some ((rest.map Sum.inr).headD (.inl .readyQueue))) =
        some (rest.find? fun p => k.status p ≠ .running) := by
    intro n
    induction n with
    | zero => intro kept rest hq hlen; omega
    | succ n ih =>
      intro kept rest hq hlen
      cases rest with
      | nil => simp [firstIdle]
      | cons p rest =>
        simp only [List.map_cons, List.headD_cons, firstIdle]
        by_cases hrun : k.status p = .running
        · rw [if_pos hrun, hr.next_entry hq,
            ih (kept ++ [p]) rest (by rw [hq]; simp) (by rw [List.length_cons] at hlen; omega),
            List.find?_cons_of_neg (by simpa using hrun)]
        · rw [if_neg hrun, List.find?_cons_of_pos (by simpa using hrun)]
  rw [hr.next_head hi]
  exact hloop loopBound [] (q .readyQueue) rfl (length_lt_loopBound hr _)

end Kernel
end Sched
end UcasKernel
