/-
Moves between circular lists, and loops over them.

`moveTo q e h'` takes an entry off its list and puts it at the tail of the list of
`h'`; it is what `delete` followed by `addTail` does to the lists that are
represented.  A loop over a list keeps a cursor; `find` only reads the list, while
the body of `forEachSafe` may take the entry of its round off the list, since the
next entry was read before.
-/
import UcasKernel.Lib.DList
import Mathlib.Data.Fintype.Card

namespace UcasKernel

namespace Links

variable {H E : Type*} [DecidableEq H] [DecidableEq E]

/-- Take `e` from the list of `h`. -/
def removeFrom (q : H → List E) (e : E) (h : H) : H → List E := Function.update q h ((q h).erase e)

/-- Put `e` at the tail of the list of `h`. -/
def appendTo (q : H → List E) (e : E) (h : H) : H → List E := Function.update q h (q h ++ [e])

/-- The first entry from the cursor on that has the property; `none` in the result is
the end of the list. -/
def find (L : Links H E) (head : H) (p : E → Bool) : ℕ → Option (H ⊕ E) → Option (Option E)
  | 0, _ => none
  | _ + 1, none => none
  | _ + 1, some (.inl h) => if h = head then some none else none
  | n + 1, some (.inr e) => if p e then some (some e) else L.find head p n (L.next (.inr e))

/-- Run `body` on the entries from the cursor on; the next entry is read before. -/
def forEachSafe {σ : Type*} (links : σ → Links H E) (head : H) (body : E → σ → Option σ) :
    ℕ → Option (H ⊕ E) → σ → Option σ
  | 0, _, _ => none
  | _ + 1, none, _ => none
  | _ + 1, some (.inl h), s => if h = head then some s else none
  | n + 1, some (.inr e), s =>
    let next := (links s).next (.inr e)
    (body e s).bind fun s => forEachSafe links head body n next s

/-- The entries from the cursor on, at most as many as given. -/
def entries (L : Links H E) : ℕ → Option (H ⊕ E) → List E
  | 0, _ => []
  | _ + 1, none => []
  | _ + 1, some (.inl _) => []
  | n + 1, some (.inr e) => e :: L.entries n (L.next (.inr e))

variable {L : Links H E} {q : H → List E} {e x : E} {h h' g : H}

/-! ## The lists after a move -/

section Lists

omit [DecidableEq E] in
lemma appendTo_self : appendTo q e h h = q h ++ [e] := Function.update_self ..

omit [DecidableEq E] in
lemma appendTo_of_ne (hg : g ≠ h) : appendTo q e h g = q g := Function.update_of_ne hg ..

lemma removeFrom_self : removeFrom q e h h = (q h).erase e := Function.update_self ..

lemma removeFrom_of_ne (hg : g ≠ h) : removeFrom q e h g = q g := Function.update_of_ne hg ..

omit [DecidableEq E] in
lemma mem_appendTo : x ∈ appendTo q e h g ↔ x ∈ q g ∨ (x = e ∧ g = h) := by
  rcases eq_or_ne g h with rfl | hg
  · rw [appendTo_self, List.mem_append, List.mem_singleton]
    simp
  · rw [appendTo_of_ne hg]
    simp [hg]

/-- An entry that is taken off its list is on no list. -/
lemma mem_removeFrom (hr : L.Repr q) (he : e ∈ q h) :
    x ∈ removeFrom q e h g ↔ x ≠ e ∧ x ∈ q g := by
  rcases eq_or_ne g h with rfl | hg
  · rw [removeFrom_self, (hr.nodup g).mem_erase_iff]
  · rw [removeFrom_of_ne hg]
    refine ⟨fun hx => ⟨?_, hx⟩, fun hx => hx.2⟩
    rintro rfl
    exact hg (hr.disjoint g h x hx he)

lemma notMem_removeFrom (hr : L.Repr q) (he : e ∈ q h) (g : H) : e ∉ removeFrom q e h g := fun hmem =>
  ((mem_removeFrom hr he).1 hmem).1 rfl

/-- After a move the entry is on its new list only, and the others are where they
were. -/
lemma mem_move (hr : L.Repr q) (he : e ∈ q h) :
    x ∈ appendTo (removeFrom q e h) e h' g ↔ if x = e then g = h' else x ∈ q g := by
  rw [mem_appendTo, mem_removeFrom hr he]
  by_cases hx : x = e <;> simp [hx]

end Lists

/-- `delete`, then `addTail`. -/
theorem Repr.move (hr : L.Repr q) (he : e ∈ q h) (hi : L.Init h') :
    ∃ L₁ L₂ : Links H E, L.delete e = some L₁ ∧ L₁.addTail e h' = some L₂ ∧
      L₂.Repr (appendTo (removeFrom q e h) e h') ∧ ∀ g, L₂.Init g ↔ L.Init g := by
  obtain ⟨L₁, hL₁, hr₁, hinit₁⟩ := hr.delete he
  obtain ⟨L₂, hL₂, hr₂, hinit₂⟩ := hr₁.addTail ((hinit₁ h').2 hi) (notMem_removeFrom hr he)
  exact ⟨L₁, L₂, hL₁, hL₂, hr₂, fun g => (hinit₂ g).trans (hinit₁ g)⟩

/-! ## The loops -/

omit [DecidableEq E] in
/-- A loop that only reads finds the first entry that has the property. -/
theorem Repr.find (hr : L.Repr q) (hi : L.Init h) {p : E → Bool} {n : ℕ} (hn : (q h).length < n) :
    L.find h p n (L.next (.inl h)) = some ((q h).find? p) := by
  -- the cursor is at the first entry of `rest`
  have hloop : ∀ (n : ℕ) (kept rest : List E), q h = kept ++ rest → rest.length < n →
      L.find h p n (some ((rest.map Sum.inr).headD (.inl h))) = some (rest.find? p) := by
    intro n
    induction n with
    | zero => intro kept rest _ hlen; omega
    | succ n ih =>
      intro kept rest hq hlen
      cases rest with
      | nil => simp [Links.find]
      | cons e rest =>
        simp only [List.map_cons, List.headD_cons, Links.find]
        by_cases hp : p e = true
        · rw [if_pos hp, List.find?_cons_of_pos hp]
        · rw [if_neg hp, List.find?_cons_of_neg hp, hr.next_entry hq]
          exact ih (kept ++ [e]) rest (by rw [hq]; simp) (by rw [List.length_cons] at hlen; omega)
  rw [hr.next_head hi]
  exact hloop n [] (q h) rfl hn

omit [DecidableEq H] [DecidableEq E] in
/-- Reading a list from its head on gives its entries. -/
theorem Repr.entries (hr : L.Repr q) (hi : L.Init h) {n : ℕ} (hn : (q h).length < n) :
    L.entries n (L.next (.inl h)) = q h := by
  have hloop : ∀ (n : ℕ) (kept rest : List E), q h = kept ++ rest → rest.length < n →
      L.entries n (some ((rest.map Sum.inr).headD (.inl h))) = rest := by
    intro n
    induction n with
    | zero => intro kept rest _ hlen; omega
    | succ n ih =>
      intro kept rest hq hlen
      cases rest with
      | nil => rfl
      | cons e rest =>
        simp only [List.map_cons, List.headD_cons, Links.entries]
        rw [hr.next_entry hq, ih (kept ++ [e]) rest (by rw [hq]; simp)
          (by rw [List.length_cons] at hlen; omega)]
  rw [hr.next_head hi]
  exact hloop n [] (q h) rfl hn

omit [DecidableEq H] in
/-- The entries behind the cursor are the same after a round. -/
lemma split_after_round {kept rest l : List E} (hr : L.Repr q) (hq : q h = kept ++ e :: rest)
    (hl : l = q h ∨ l = (q h).erase e) : ∃ kept', l = kept' ++ rest := by
  have hkept : e ∉ kept := by
    have hnodup := hr.nodup h
    rw [hq] at hnodup
    exact fun hmem => List.disjoint_of_nodup_append hnodup hmem List.mem_cons_self
  rcases hl with hl | hl
  · exact ⟨kept ++ [e], by rw [hl, hq]; simp⟩
  · exact ⟨kept, by rw [hl, hq, List.erase_append_right _ hkept, List.erase_cons_head]⟩

/-- What a round keeps that leaves its entry on the list or takes it off, the loop
keeps. -/
theorem forEachSafe_rule {σ : Type*} {links : σ → Links H E} {body : E → σ → Option σ}
    {P : σ → (H → List E) → Prop} (hrepr : ∀ s q, P s q → (links s).Repr q)
    (hbody : ∀ s q e t, P s q → e ∈ q h → body e s = some t →
      ∃ q', P t q' ∧ (q' h = q h ∨ q' h = (q h).erase e))
    {s t : σ} {n : ℕ} (hP : P s q) (hi : (links s).Init h)
    (hrun : forEachSafe links h body n ((links s).next (.inl h)) s = some t) : ∃ q', P t q' := by
  -- the cursor is at the first entry of `rest`
  have hloop : ∀ (n : ℕ) (s : σ) (q : H → List E) (kept rest : List E), P s q →
      q h = kept ++ rest →
      forEachSafe links h body n (some ((rest.map Sum.inr).headD (.inl h))) s = some t →
      ∃ q', P t q' := by
    intro n
    induction n with
    | zero => intro s q kept rest _ _ hrun; simp [forEachSafe] at hrun
    | succ n ih =>
      intro s q kept rest hP hq hrun
      cases rest with
      | nil =>
        simp only [List.map_nil, List.headD_nil, forEachSafe, if_true, Option.some.injEq] at hrun
        exact ⟨q, hrun ▸ hP⟩
      | cons e rest =>
        have hr := hrepr s q hP
        have he : e ∈ q h := by rw [hq]; simp
        simp only [List.map_cons, List.headD_cons, forEachSafe, hr.next_entry hq,
          Option.bind_eq_some_iff] at hrun
        obtain ⟨s', hs', hrun⟩ := hrun
        obtain ⟨q', hP', hq'⟩ := hbody s q e s' hP he hs'
        obtain ⟨kept', hsplit⟩ := split_after_round hr hq hq'
        exact ih s' q' kept' rest hP' hsplit hrun
  rw [(hrepr s q hP).next_head hi] at hrun
  exact hloop n s q [] (q h) hP rfl hrun

/-- Under such a property, more rounds than there are entries make no difference. -/
theorem forEachSafe_rounds {σ : Type*} {links : σ → Links H E} {body : E → σ → Option σ}
    {P : σ → (H → List E) → Prop} (hrepr : ∀ s q, P s q → (links s).Repr q)
    (hbody : ∀ s q e t, P s q → e ∈ q h → body e s = some t →
      ∃ q', P t q' ∧ (q' h = q h ∨ q' h = (q h).erase e))
    {s : σ} {n m : ℕ} (hP : P s q) (hi : (links s).Init h) (hn : (q h).length < n) (hm : n ≤ m) :
    forEachSafe links h body m ((links s).next (.inl h)) s =
      forEachSafe links h body n ((links s).next (.inl h)) s := by
  have hloop : ∀ (n m : ℕ) (s : σ) (q : H → List E) (kept rest : List E), P s q →
      q h = kept ++ rest → rest.length < n → n ≤ m →
      forEachSafe links h body m (some ((rest.map Sum.inr).headD (.inl h))) s =
        forEachSafe links h body n (some ((rest.map Sum.inr).headD (.inl h))) s := by
    intro n
    induction n with
    | zero => intro m s q kept rest _ _ hlen; omega
    | succ n ih =>
      intro m s q kept rest hP hq hlen hm
      obtain ⟨m, rfl⟩ : ∃ k, m = k + 1 := ⟨m - 1, by omega⟩
      cases rest with
      | nil => simp [forEachSafe]
      | cons e rest =>
        have hr := hrepr s q hP
        have he : e ∈ q h := by rw [hq]; simp
        simp only [List.map_cons, List.headD_cons, forEachSafe, hr.next_entry hq]
        cases hs' : body e s with
        | none => rfl
        | some s' =>
          obtain ⟨q', hP', hq'⟩ := hbody s q e s' hP he hs'
          obtain ⟨kept', hsplit⟩ := split_after_round hr hq hq'
          rw [List.length_cons] at hlen
          exact ih m s' q' kept' rest hP' hsplit (by omega) (by omega)
  rw [(hrepr s q hP).next_head hi]
  exact hloop n m s q [] (q h) hP rfl hn hm

end Links
end UcasKernel
