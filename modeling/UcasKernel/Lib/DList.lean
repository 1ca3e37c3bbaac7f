/-
Circular doubly linked lists with separate heads.

A heap of list nodes is a pair of partial functions, `next` and `prev`.  A node
is the head of a list or an entry; a cell of a node that was never initialised
is empty, and following it has no defined result.  `Repr L q` says that the
initialised heads represent pairwise disjoint lists, the list of `h` being `q h`.
Insertion at the tail, deletion and initialisation are the usual pointer
assignments, in the usual order, and each of them is an operation on `q`.
-/
import Mathlib.Data.List.Induction
import Mathlib.Data.List.Nodup
import Mathlib.Logic.Function.Basic

namespace UcasKernel

/-- The cells of the nodes: heads `H` and entries `E`. -/
structure Links (H E : Type*) where
  next : H ⊕ E → Option (H ⊕ E)
  prev : H ⊕ E → Option (H ⊕ E)

namespace Links

variable {H E : Type*}

/-- The head was initialised. -/
def Init (L : Links H E) (h : H) : Prop := L.next (.inl h) ≠ none

/-- Following `next` from the head comes to the entry before it comes to a head. -/
inductive On (L : Links H E) (h : H) : E → Prop
  | first {e : E} (he : L.next (.inl h) = some (.inr e)) : On L h e
  | next {e e' : E} (ho : On L h e) (he : L.next (.inr e) = some (.inr e')) : On L h e'

/-- Following `next` from `a` passes the nodes `l` and ends in `b`, and `prev` is
the way back. -/
def Path (L : Links H E) : H ⊕ E → List (H ⊕ E) → H ⊕ E → Prop
  | a, [], b => L.next a = some b ∧ L.prev b = some a
  | a, x :: l, b => L.next a = some x ∧ L.prev x = some a ∧ L.Path x l b

/-- The last node of a path before its end. -/
def lastOf {N : Type*} : N → List N → N
  | a, [] => a
  | _, x :: l => lastOf x l

/-- The initialised heads represent the lists `q`, which are pairwise disjoint. -/
structure Repr (L : Links H E) (q : H → List E) : Prop where
  path : ∀ h, L.Init h → L.Path (.inl h) ((q h).map .inr) (.inl h)
  empty : ∀ h, ¬ L.Init h → q h = []
  nodup : ∀ h, (q h).Nodup
  disjoint : ∀ h h' e, e ∈ q h → e ∈ q h' → h = h'

section Operations

variable [DecidableEq H] [DecidableEq E]

/-- Make a head the head of an empty list. -/
def initHead (L : Links H E) (h : H) : Links H E where
  prev := Function.update L.prev (.inl h) (some (.inl h))
  next := Function.update L.next (.inl h) (some (.inl h))

/-- Link `new` between two nodes. -/
def insert (L : Links H E) (new prev next : H ⊕ E) : Links H E where
  prev := Function.update (Function.update L.prev next (some new)) new (some prev)
  next := Function.update (Function.update L.next prev (some new)) new (some next)

/-- Link `new` before a head, which is at the tail of its list. -/
def addTail (L : Links H E) (new : E) (head : H) : Option (Links H E) :=
  (L.prev (.inl head)).map fun last => L.insert (.inr new) last (.inl head)

/-- Link the neighbours of an entry to each other. -/
def delete (L : Links H E) (entry : E) : Option (Links H E) := do
  let n ← L.next (.inr entry)
  let L := { L with prev := Function.update L.prev n (L.prev (.inr entry)) }
  let p ← L.prev (.inr entry)
  some { L with next := Function.update L.next p (L.next (.inr entry)) }

/-- The list of a head is empty. -/
def isEmpty (L : Links H E) (h : H) : Bool := L.next (.inl h) = some (.inl h)

end Operations

/-! ## Paths -/

section Path

variable {L L' : Links H E} {a b x : H ⊕ E} {l m : List (H ⊕ E)}

lemma lastOf_mem {N : Type*} (a : N) (l : List N) : lastOf a l ∈ a :: l := by
  induction l generalizing a with
  | nil => exact List.mem_cons_self
  | cons x l ih => exact List.mem_cons_of_mem _ (ih x)

lemma Path.prev_end (h : L.Path a l b) : L.prev b = some (lastOf a l) := by
  induction l generalizing a with
  | nil => exact h.2
  | cons x l ih => exact ih h.2.2

lemma path_append : L.Path a (l ++ x :: m) b ↔ L.Path a l x ∧ L.Path x m b := by
  induction l generalizing a with
  | nil => exact and_assoc.symm
  | cons y l ih =>
    simp only [List.cons_append, Path, ih]
    tauto

/-- A path depends on the cells along it only. -/
lemma Path.congr (h : L.Path a l b) (hnext : ∀ y ∈ a :: l, L'.next y = L.next y)
    (hprev : ∀ y ∈ l ++ [b], L'.prev y = L.prev y) : L'.Path a l b := by
  induction l generalizing a with
  | nil =>
    exact ⟨(hnext a List.mem_cons_self).trans h.1,
      (hprev b List.mem_cons_self).trans h.2⟩
  | cons x l ih =>
    refine ⟨(hnext a List.mem_cons_self).trans h.1,
      (hprev x List.mem_cons_self).trans h.2.1, ih h.2.2 ?_ ?_⟩
    · exact fun y hy => hnext y (List.mem_cons_of_mem _ hy)
    · exact fun y hy => hprev y (List.mem_cons_of_mem _ hy)

/-- Turn the end of a path to another node. -/
lemma Path.retarget {c : H ⊕ E} (h : L.Path a l b) (hnodup : (a :: l).Nodup)
    (hnext : ∀ y ∈ a :: l, y ≠ lastOf a l → L'.next y = L.next y)
    (hprev : ∀ y ∈ l, L'.prev y = L.prev y)
    (hlast : L'.next (lastOf a l) = some c) (hend : L'.prev c = some (lastOf a l)) :
    L'.Path a l c := by
  induction l generalizing a with
  | nil => exact ⟨hlast, hend⟩
  | cons x l ih =>
    have hne : a ≠ lastOf x l := by
      rintro heq
      exact (List.nodup_cons.1 hnodup).1 (heq ▸ lastOf_mem x l)
    refine ⟨(hnext a List.mem_cons_self hne).trans h.1,
      (hprev x List.mem_cons_self).trans h.2.1,
      ih h.2.2 (List.nodup_cons.1 hnodup).2 ?_ ?_ hlast hend⟩
    · exact fun y hy hy' => hnext y (List.mem_cons_of_mem _ hy) hy'
    · exact fun y hy => hprev y (List.mem_cons_of_mem _ hy)

end Path

/-! ## The lists of the heads -/

section Repr

variable {L L' : Links H E} {q : H → List E} {h : H} {e : E}

lemma Repr.init_of_mem (hr : L.Repr q) (he : e ∈ q h) : L.Init h := by
  by_contra hno
  rw [hr.empty h hno] at he
  exact List.not_mem_nil he

lemma Repr.next_head (hr : L.Repr q) (hi : L.Init h) :
    L.next (.inl h) = some (((q h).map Sum.inr).headD (.inl h)) := by
  have hp := hr.path h hi
  cases hq : q h with
  | nil =>
    rw [hq] at hp
    exact hp.1
  | cons x l =>
    rw [hq] at hp
    exact hp.1

/-- The link from an entry to the rest of its list. -/
lemma Repr.next_entry {l l' : List E} (hr : L.Repr q) (hq : q h = l ++ e :: l') :
    L.next (.inr e) = some ((l'.map Sum.inr).headD (.inl h)) := by
  have hi : L.Init h := hr.init_of_mem (e := e) (by rw [hq]; simp)
  have hp := hr.path h hi
  rw [hq, List.map_append, List.map_cons, path_append] at hp
  cases l' with
  | nil => exact hp.2.1
  | cons x l' => exact hp.2.1

/-- A change of cells outside of a list leaves the list. -/
lemma Repr.path_congr (hr : L.Repr q) (hi : L.Init h)
    (hnext : ∀ y, y = .inl h ∨ (∃ e ∈ q h, y = .inr e) → L'.next y = L.next y)
    (hprev : ∀ y, y = .inl h ∨ (∃ e ∈ q h, y = .inr e) → L'.prev y = L.prev y) :
    L'.Path (.inl h) ((q h).map .inr) (.inl h) := by
  refine (hr.path h hi).congr (fun y hy => hnext y ?_) fun y hy => hprev y ?_
  · simpa [eq_comm] using hy
  · simpa [eq_comm, or_comm] using hy

/-- The nodes of a list are different. -/
lemma Repr.nodup_nodes (hr : L.Repr q) (h : H) :
    ((Sum.inl h : H ⊕ E) :: (q h).map .inr).Nodup := by
  refine List.nodup_cons.2 ⟨by simp, ?_⟩
  exact (List.nodup_map_iff fun _ _ heq => Sum.inr.inj heq).2 (hr.nodup h)

/-- The last node of a list is not a node of another list. -/
lemma Repr.lastOf_ne {h' : H} {l l' : List E} (hr : L.Repr q) (hq : q h = l ++ l') (hne : h' ≠ h)
    {y : H ⊕ E} (hy : y = .inl h' ∨ ∃ e ∈ q h', y = .inr e) :
    y ≠ lastOf (.inl h) (l.map .inr) := by
  rintro rfl
  have hmem := lastOf_mem (Sum.inl h : H ⊕ E) (l.map .inr)
  rcases hy with hy | ⟨e, he, hy⟩
  · rw [hy] at hmem
    simp [hne] at hmem
  · rw [hy] at hmem
    simp only [List.mem_cons, reduceCtorEq, List.mem_map, Sum.inr.injEq, exists_eq_right,
      false_or] at hmem
    exact hne (hr.disjoint h' h e he (by rw [hq]; exact List.mem_append_left _ hmem))

variable [DecidableEq H] [DecidableEq E]

omit [DecidableEq H] [DecidableEq E] in
/-- The entries of a list are those that `next` leads to from its head. -/
theorem Repr.on_iff (hr : L.Repr q) : L.On h e ↔ e ∈ q h := by
  constructor
  · intro ho
    induction ho with
    | first he =>
      have hi : L.Init h := fun hnone => Option.some_ne_none _ (he.symm.trans hnone)
      rw [hr.next_head hi] at he
      cases hq : q h with
      | nil => simp [hq] at he
      | cons x l => simp_all
    | next ho he ih =>
      obtain ⟨l, l', hq⟩ := List.append_of_mem ih
      rw [hr.next_entry hq] at he
      cases l' with
      | nil => simp at he
      | cons x l' => simp_all
  · intro hmem
    obtain ⟨l, l', hq⟩ := List.append_of_mem hmem
    have hi := hr.init_of_mem hmem
    clear hmem
    -- from the head to the entry
    induction l using List.reverseRecOn generalizing e l' with
    | nil => exact .first (by rw [hr.next_head hi, hq]; rfl)
    | append_singleton l x ih =>
      rw [List.append_assoc, List.singleton_append] at hq
      exact .next (ih _ hq) (by rw [hr.next_entry hq]; rfl)

lemma Repr.isEmpty_iff (hr : L.Repr q) (hi : L.Init h) : L.isEmpty h = true ↔ q h = [] := by
  simp only [isEmpty, hr.next_head hi, decide_eq_true_eq, Option.some.injEq]
  cases q h <;> simp

/-- Initialising a head whose list is empty changes no list. -/
theorem Repr.initHead (hr : L.Repr q) (hq : q h = []) :
    (L.initHead h).Repr q ∧ ∀ h', (L.initHead h).Init h' ↔ (h' = h ∨ L.Init h') := by
  have hinit : ∀ h', (L.initHead h).Init h' ↔ (h' = h ∨ L.Init h') := by
    intro h'
    rcases eq_or_ne h' h with rfl | hne
    · simp [Init, Links.initHead]
    · simp [Init, Links.initHead, hne]
  refine ⟨⟨fun h' hi => ?_, fun h' hi => ?_, hr.nodup, hr.disjoint⟩, hinit⟩
  · rcases eq_or_ne h' h with rfl | hne
    · rw [hq]
      exact ⟨Function.update_self .., Function.update_self ..⟩
    · have hi' : L.Init h' := ((hinit h').1 hi).resolve_left hne
      refine hr.path_congr hi' (fun y hy => ?_) fun y hy => ?_
      · refine Function.update_of_ne ?_ ..
        rintro rfl
        simp [hne.symm] at hy
      · refine Function.update_of_ne ?_ ..
        rintro rfl
        simp [hne.symm] at hy
  · exact hr.empty h' fun hi' => hi ((hinit h').2 (.inr hi'))

/-- `addTail` of an entry that is on no list appends it to the list of the head. -/
theorem Repr.addTail (hr : L.Repr q) (hi : L.Init h) (he : ∀ h', e ∉ q h') :
    ∃ L', L.addTail e h = some L' ∧ L'.Repr (Function.update q h (q h ++ [e])) ∧
      ∀ h', L'.Init h' ↔ L.Init h' := by
  have hp := hr.path h hi
  have hpmem := lastOf_mem (Sum.inl h : H ⊕ E) ((q h).map .inr)
  obtain ⟨p, hpdef⟩ : ∃ p, p = lastOf (Sum.inl h : H ⊕ E) ((q h).map .inr) := ⟨_, rfl⟩
  rw [← hpdef] at hpmem
  have hpe : p ≠ .inr e := by
    rintro rfl
    simp [he h] at hpmem
  -- the cells that the four assignments leave alone
  have hnext : ∀ y, y ≠ .inr e → y ≠ p → (L.insert (.inr e) p (.inl h)).next y = L.next y :=
    fun y hy hy' => by simp [Links.insert, hy, hy']
  have hprev : ∀ y, y ≠ .inr e → y ≠ .inl h → (L.insert (.inr e) p (.inl h)).prev y = L.prev y :=
    fun y hy hy' => by simp [Links.insert, hy, hy']
  have hinit : ∀ h', (L.insert (.inr e) p (.inl h)).Init h' ↔ L.Init h' := by
    intro h'
    by_cases hh : (Sum.inl h' : H ⊕ E) = p
    · rcases List.mem_cons.1 hpmem with hph | hpmem
      · rw [← hh, Sum.inl.injEq] at hph
        subst hph
        simp [Init, Links.insert, hh, hpe, show L.next p ≠ none from hh ▸ hi]
      · rw [← hh] at hpmem
        simp at hpmem
    · rw [Init, Init, hnext _ (by simp) hh]
  have hmem : ∀ y ∈ (Sum.inl h : H ⊕ E) :: (q h).map .inr, y ≠ .inr e := by
    rintro y hy rfl
    simp [he h] at hy
  refine ⟨L.insert (.inr e) p (.inl h), ?_, ⟨fun h' hi' => ?_, fun h' hi' => ?_, fun h' => ?_, ?_⟩,
    hinit⟩
  · rw [Links.addTail, hp.prev_end, ← hpdef]
    rfl
  · rcases eq_or_ne h' h with rfl | hne
    · rw [Function.update_self, List.map_append, List.map_singleton, path_append]
      refine ⟨hp.retarget (hr.nodup_nodes h') (fun y hy hlast => ?_) (fun y hy => ?_) ?_ ?_, ?_, ?_⟩
      · exact hnext y (hmem y hy) (hpdef ▸ hlast)
      · refine hprev y (hmem y (List.mem_cons_of_mem _ hy)) ?_
        rintro rfl
        simp at hy
      · rw [← hpdef]
        simp [Links.insert, hpe]
      · rw [← hpdef]
        simp [Links.insert]
      · simp [Links.insert]
      · simp [Links.insert]
    · rw [Function.update_of_ne hne]
      refine hr.path_congr ((hinit h').1 hi') (fun y hy => hnext y ?_ ?_) fun y hy => hprev y ?_ ?_
      · rintro rfl
        simp [he h'] at hy
      · exact hpdef ▸ hr.lastOf_ne (List.append_nil _).symm hne hy
      · rintro rfl
        simp [he h'] at hy
      · rintro rfl
        simp [hne.symm] at hy
  · have hne : h' ≠ h := fun heq => hi' ((hinit h').2 (heq ▸ hi))
    rw [Function.update_of_ne hne]
    exact hr.empty h' fun hi'' => hi' ((hinit h').2 hi'')
  · rcases eq_or_ne h' h with rfl | hne
    · rw [Function.update_self]
      exact List.nodup_append.2 ⟨hr.nodup h', List.nodup_singleton e,
        fun x hx y hy => by rw [List.mem_singleton.1 hy]; rintro rfl; exact he h' hx⟩
    · rw [Function.update_of_ne hne]
      exact hr.nodup h'
  · have hmem' : ∀ g x, x ∈ Function.update q h (q h ++ [e]) g → x ∈ q g ∨ (g = h ∧ x = e) := by
      intro g x hx
      rcases eq_or_ne g h with rfl | hne
      · rw [Function.update_self, List.mem_append, List.mem_singleton] at hx
        exact hx.imp_right fun hx => ⟨rfl, hx⟩
      · rw [Function.update_of_ne hne] at hx
        exact .inl hx
    intro g g' x hx hx'
    rcases hmem' g x hx with hg | ⟨hg, hxe⟩ <;> rcases hmem' g' x hx' with hg' | ⟨hg', hxe'⟩
    · exact hr.disjoint g g' x hg hg'
    · exact absurd (hxe' ▸ hg) (he g)
    · exact absurd (hxe ▸ hg') (he g')
    · rw [hg, hg']

/-- `delete` of an entry of a list takes it out of the list. -/
theorem Repr.delete (hr : L.Repr q) (he : e ∈ q h) :
    ∃ L', L.delete e = some L' ∧ L'.Repr (Function.update q h ((q h).erase e)) ∧
      ∀ h', L'.Init h' ↔ L.Init h' := by
  obtain ⟨l, l', hq⟩ := List.append_of_mem he
  have hi : L.Init h := hr.init_of_mem he
  have hnodup := hr.nodup_nodes h
  have hnd := hr.nodup h
  rw [hq] at hnd
  have hel : e ∉ l := fun hmem => List.disjoint_of_nodup_append hnd hmem List.mem_cons_self
  have hp := hr.path h hi
  rw [hq, List.map_append, List.map_cons, path_append] at hp
  rw [hq, List.map_append, List.map_cons] at hnodup
  have herase : (q h).erase e = l ++ l' := by
    rw [hq, List.erase_append_right _ hel, List.erase_cons_head]
  -- the neighbours of the entry
  obtain ⟨p, hpdef⟩ : ∃ p, p = lastOf (Sum.inl h : H ⊕ E) (l.map .inr) := ⟨_, rfl⟩
  obtain ⟨n, hndef⟩ : ∃ n, n = (l'.map Sum.inr).headD (Sum.inl h : H ⊕ E) := ⟨_, rfl⟩
  have hpmem := lastOf_mem (Sum.inl h : H ⊕ E) (l.map .inr)
  rw [← hpdef] at hpmem
  have hprevE : L.prev (.inr e) = some p := by rw [hpdef]; exact hp.1.prev_end
  have hnextE : L.next (.inr e) = some n := by rw [hndef]; exact hr.next_entry hq
  have hn : n = .inl h ∨ ∃ x ∈ l', n = .inr x := by
    rw [hndef]
    cases l' with
    | nil => exact .inl rfl
    | cons x l' => exact .inr ⟨x, List.mem_cons_self, rfl⟩
  have hne : n ≠ .inr e := by
    rcases hn with hn | ⟨x, hx, hn⟩
    · simp [hn]
    · rw [hn]
      rintro heq
      have hnd' := (List.nodup_append.1 hnd).2.1
      exact (List.nodup_cons.1 hnd').1 (Sum.inr.inj heq ▸ hx)
  have hnl : ∀ x ∈ l, n ≠ .inr x := by
    intro x hx
    rcases hn with hn | ⟨y, hy, hn⟩
    · simp [hn]
    · rw [hn]
      rintro heq
      exact List.disjoint_of_nodup_append hnd hx (List.mem_cons_of_mem _ (Sum.inr.inj heq ▸ hy))
  obtain ⟨L', hL'⟩ : ∃ L' : Links H E, L' = ⟨Function.update L.next p (some n),
    Function.update L.prev n (some p)⟩ := ⟨_, rfl⟩
  have hdel : L.delete e = some L' := by
    simp only [Links.delete, hnextE, hprevE, Option.bind_eq_bind, Option.bind_some,
      Function.update_of_ne hne.symm, hL']
  have hnext : ∀ y, y ≠ p → L'.next y = L.next y := fun y hy => by simp [hL', hy]
  have hprev : ∀ y, y ≠ n → L'.prev y = L.prev y := fun y hy => by simp [hL', hy]
  have hnextp : L'.next p = some n := by simp [hL']
  have hprevn : L'.prev n = some p := by simp [hL']
  have hinit : ∀ h', L'.Init h' ↔ L.Init h' := by
    intro h'
    by_cases hh : (Sum.inl h' : H ⊕ E) = p
    · have hph : h' = h := by
        rw [← hh] at hpmem
        simpa using hpmem
      rw [Init, hh, hnextp]
      simpa [hph] using hi
    · rw [Init, Init, hnext _ hh]
  refine ⟨L', hdel, ⟨fun h' hi' => ?_, fun h' hi' => ?_, fun h' => ?_, ?_⟩, hinit⟩
  · rcases eq_or_ne h' h with rfl | hh
    · have hnodup' : ((Sum.inl h' : H ⊕ E) :: l.map .inr).Nodup :=
        hnodup.sublist (List.Sublist.cons_cons _ (List.sublist_append_left _ _))
      -- the part before the entry now ends in the entry's successor
      have hfirst : L'.Path (.inl h') (l.map .inr) n := by
        refine hp.1.retarget hnodup' (fun y hy hlast => hnext y (hpdef ▸ hlast)) (fun y hy => ?_)
          (hpdef ▸ hnextp) (hpdef ▸ hprevn)
        obtain ⟨x, hx, rfl⟩ := List.mem_map.1 hy
        exact hprev _ (hnl x hx).symm
      rw [Function.update_self, herase]
      cases l' with
      | nil =>
        rw [List.append_nil]
        exact (show n = .inl h' from hndef) ▸ hfirst
      | cons x l' =>
        have hnx : n = .inr x := hndef
        rw [List.map_append, List.map_cons, path_append, ← hnx]
        refine ⟨hfirst, ?_⟩
        have hrest : L.Path (.inr x) (l'.map .inr) (.inl h') := hp.2.2.2
        rw [hnx]
        have hsplit : (l ++ e :: x :: l').Nodup := hnd
        refine hrest.congr (fun y hy => hnext y ?_) fun y hy => hprev y ?_
        · rintro rfl
          -- the node before the entry is not behind it
          obtain ⟨z, hz, hzy⟩ : ∃ z ∈ x :: l', y = .inr z := by
            rcases List.mem_cons.1 hy with rfl | hy
            · exact ⟨x, List.mem_cons_self, rfl⟩
            · obtain ⟨z, hz, rfl⟩ := List.mem_map.1 hy
              exact ⟨z, List.mem_cons_of_mem _ hz, rfl⟩
          rw [hzy] at hpmem
          have hzl : z ∈ l := by simpa using hpmem
          exact List.disjoint_of_nodup_append hsplit hzl (List.mem_cons_of_mem _ hz)
        · rw [hnx]
          rintro rfl
          have hxl : x ∈ l' := by simpa using hy
          have hnd' := (List.nodup_append.1 hsplit).2.1
          exact (List.nodup_cons.1 (List.nodup_cons.1 hnd').2).1 hxl
    · rw [Function.update_of_ne hh]
      refine hr.path_congr ((hinit h').1 hi') (fun y hy => hnext y ?_) fun y hy => hprev y ?_
      · exact hpdef ▸ hr.lastOf_ne hq hh hy
      · rintro rfl
        rcases hn with hn | ⟨x, hx, hn⟩
        · rcases hy with hy | ⟨z, hz, hy⟩
          · exact hh (Sum.inl.inj (hy.symm.trans hn))
          · exact Sum.inl_ne_inr (hn.symm.trans hy)
        · rcases hy with hy | ⟨z, hz, hy⟩
          · exact Sum.inl_ne_inr (hy.symm.trans hn)
          · obtain rfl := Sum.inr.inj (hy.symm.trans hn)
            exact hh (hr.disjoint h' h z hz (by rw [hq]; simp [hx]))
  · have hh : h' ≠ h := fun heq => hi' ((hinit h').2 (heq ▸ hi))
    rw [Function.update_of_ne hh]
    exact hr.empty h' fun hi'' => hi' ((hinit h').2 hi'')
  · rcases eq_or_ne h' h with rfl | hh
    · rw [Function.update_self]
      exact (hr.nodup h').erase e
    · rw [Function.update_of_ne hh]
      exact hr.nodup h'
  · have hmem : ∀ g x, x ∈ Function.update q h ((q h).erase e) g → x ∈ q g := by
      intro g x hx
      rcases eq_or_ne g h with rfl | hh
      · rw [Function.update_self] at hx
        exact List.mem_of_mem_erase hx
      · rwa [Function.update_of_ne hh] at hx
    exact fun g g' x hx hx' => hr.disjoint g g' x (hmem g x hx) (hmem g' x hx')

end Repr

end Links
end UcasKernel
