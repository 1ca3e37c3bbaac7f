/-
The queues of the page records, the counter and the slots.

`Book s q` says that the two queues are the lists `q`, that the counter is the
length of the list of the present pages, and that the used slots are the records on
the lists.  There is one lemma for each routine: it says what the routine leaves in
the whole state, and that it keeps the books.
-/
import UcasKernel.Mm.Swap

namespace UcasKernel
namespace Mm

open Links (appendTo removeFrom)

namespace State

/-- The lists, the counter and the slots say the same. -/
structure Book (s : State) (q : Queue → List Pfn) : Prop where
  repr : s.links.Repr q
  init : ∀ h, s.links.Init h
  num : s.presentPagesNum = (q .presentPagesQueue).length
  used : ∀ r, (s.pages r).pageId ≠ 0 ↔ ∃ h, r ∈ q h
  pageId_nonneg : 0 ≤ s.pageId

/-- Records have been taken off the queues; the others and the card are as they were. -/
structure Drops (s t : State) (q q' : Queue → List Pfn) : Prop where
  book : t.Book q'
  sublist : ∀ g, (q' g).Sublist (q g)
  pages : ∀ g, ∀ r ∈ q' g, t.pages r = s.pages r
  sd : t.sd = s.sd
  diskSectorsStartid : t.diskSectorsStartid = s.diskSectorsStartid

variable {s t : State} {q : Queue → List Pfn} {r : Pfn} {h : Queue} {uva kva pgdir P : ℕ}

/-- What the books read. -/
lemma Book.congr (hb : s.Book q) (hpages : ∀ r, (t.pages r).pageId = (s.pages r).pageId)
    (hlinks : t.links = s.links) (hnum : t.presentPagesNum = s.presentPagesNum)
    (hid : t.pageId = s.pageId) : t.Book q where
  repr := hlinks ▸ hb.repr
  init := fun h => by rw [hlinks]; exact hb.init h
  num := hnum ▸ hb.num
  used := fun r => by rw [hpages]; exact hb.used r
  pageId_nonneg := hid ▸ hb.pageId_nonneg

/-- The books do not read the memory. -/
lemma Book.memory (hb : s.Book q) (m : Memory) : ({ s with toMemory := m } : State).Book q :=
  hb.congr (fun _ => rfl) rfl rfl rfl

lemma addInt_eq_some {x y z : ℤ} (h : addInt x y = some z) : z = x + y := by
  simp only [addInt, Option.ite_none_right_eq_some, Option.some.injEq] at h
  exact h.2.symm

lemma addInt_lt {a b c : ℤ} (h : addInt a b = some c) : c < 2 ^ 31 := by
  simp only [addInt, Option.ite_none_right_eq_some, Option.some.injEq] at h
  exact h.2 ▸ h.1.2

/-! ## The list operations -/

lemma length_lt_loopBound (hb : s.Book q) (h : Queue) : (q h).length < loopBound :=
  Nat.lt_succ_of_le ((hb.repr.nodup h).length_le_card.trans (Fintype.card_fin 512).le)

lemma firstEntry_eq_some (hb : s.Book q) (he : s.firstEntry h = some r) : ∃ l, q h = r :: l := by
  rw [firstEntry, hb.repr.next_head (hb.init h)] at he
  cases hq : q h with
  | nil => simp [hq] at he
  | cons x l =>
    simp only [hq, List.map_cons, List.headD_cons, Option.some.injEq] at he
    exact ⟨l, by rw [he]⟩

lemma Book.firstEntry_eq (hb : s.Book q) {l : List Pfn} (hq : q h = r :: l) :
    s.firstEntry h = some r := by
  rw [firstEntry, hb.repr.next_head (hb.init h), hq]
  rfl

/-- `list_delete_entry`, then `list_add_tail` to another queue. -/
lemma move_spec {h' : Queue} (hb : s.Book q) (hr : r ∈ q h) {s₁ : State}
    (h₁ : s.listDeleteEntry r = some s₁) (h₂ : s₁.listAddTail r h' = some t) :
    ∃ L : Links Queue Pfn, t = { s with links := L } ∧
      L.Repr (appendTo (removeFrom q r h) r h') ∧ ∀ g, L.Init g := by
  obtain ⟨L₁, L₂, hL₁, hL₂, hrepr, hinit⟩ := hb.repr.move hr (hb.init h')
  simp only [listDeleteEntry, hL₁, Option.map_some, Option.some.injEq] at h₁
  subst h₁
  simp only [listAddTail, hL₂, Option.map_some, Option.some.injEq] at h₂
  exact ⟨L₂, h₂.symm, hrepr, fun g => (hinit g).2 (hb.init g)⟩

/-- A record that is put on a queue, or moved, uses its slot. -/
lemma Book.exists_mem_move (hb : s.Book q) {h' : Queue} (hr : r ∈ q h) (x : Pfn) :
    (∃ g, x ∈ appendTo (removeFrom q r h) r h' g) ↔ ∃ g, x ∈ q g := by
  simp only [Links.mem_move hb.repr hr]
  by_cases hx : x = r
  · subst hx
    simp only [if_true, exists_eq, true_iff]
    exact ⟨h, hr⟩
  · simp only [hx, if_false]

lemma Book.find (hb : s.Book q) (p : Pfn → Bool) :
    s.links.find h p loopBound (s.links.next (.inl h)) = some ((q h).find? p) :=
  hb.repr.find (hb.init h) (length_lt_loopBound hb h)

/-! ## The routines -/

/-- `add_new_pre_page` takes an unused slot. -/
lemma Book.addNewPrePage (hb : s.Book q) (hs : s.addNewPrePage uva kva pgdir = some t) :
    ∃ (r : Pfn) (L : Links Queue Pfn), (s.pages r).pageId = 0 ∧ t = { s with
        pages := Function.update s.pages r
          { s.pages r with uva := uva, kva := kva, pageId := s.pageId + 1, pgdir := pgdir }
        links := L
        presentPagesNum := s.presentPagesNum + 1
        pageId := s.pageId + 1 } ∧ t.Book (appendTo q r .presentPagesQueue) := by
  simp only [State.addNewPrePage, Option.bind_eq_bind, Option.bind_eq_some_iff,
    Option.some.injEq] at hs
  obtain ⟨r, hr, id, hid, s₁, hs₁, rfl⟩ := hs
  obtain rfl := addInt_eq_some hid
  have hfree : (s.pages r).pageId = 0 := by simpa using List.find?_some hr
  have hno : ∀ h, r ∉ q h := fun h hmem => (hb.used r).2 ⟨h, hmem⟩ hfree
  obtain ⟨L, hL, hrepr, hinit⟩ := hb.repr.addTail (hb.init .presentPagesQueue) hno
  simp only [listAddTail, setPage, hL, Option.map_some, Option.some.injEq] at hs₁
  subst hs₁
  refine ⟨r, L, hfree, rfl, hrepr, fun g => (hinit g).2 (hb.init g), ?_, fun x => ?_, ?_⟩
  · show s.presentPagesNum + 1 = _
    rw [Links.appendTo_self, List.length_append, hb.num]
    rfl
  · simp only [Links.mem_appendTo]
    rcases eq_or_ne x r with rfl | hx
    · have := hb.pageId_nonneg
      simp only [Function.update_self, true_and]
      exact ⟨fun _ => ⟨_, Or.inr rfl⟩, fun _ => by omega⟩
    · simp only [Function.update_of_ne hx, hx, false_and, or_false]
      exact hb.used x
  · have := hb.pageId_nonneg
    show 0 ≤ s.pageId + 1
    omega

/-- `swap_out` takes the first present page. -/
lemma Book.swapOut (hb : s.Book q) (hs : s.swapOut = some t) :
    ∃ (r : Pfn) (l : List Pfn) (L : Links Queue Pfn) (m : Memory),
      q .presentPagesQueue = r :: l ∧
      s.modifyPte (s.pages r).uva (s.pages r).pgdir (fun pte => unsetAttribute pte PAGE_PRESENT) =
        some m ∧ t = { s with
        toMemory := m.kfree (s.pages r).kva
        pages := Function.update s.pages r { s.pages r with sectorId := s.diskSectorsStartid }
        links := L
        presentPagesNum := s.presentPagesNum - 1
        diskSectorsStartid := s.diskSectorsStartid + SECTORS_PER_PAGE
        sd := (s.sdwrite (pa2kva (kva2pa (s.pages r).kva)) s.diskSectorsStartid.toNat).sd } ∧
      t.Book (appendTo (removeFrom q r .presentPagesQueue) r .swappedPagesQueue) := by
  simp only [State.swapOut, Option.bind_eq_bind, Option.bind_eq_some_iff, Option.some.injEq] at hs
  obtain ⟨r, hr, s₁, hs₁, s₂, hs₂, id, hid, m, hm, rfl⟩ := hs
  obtain ⟨l, hq⟩ := firstEntry_eq_some hb hr
  have hmem : r ∈ q .presentPagesQueue := by rw [hq]; exact List.mem_cons_self
  obtain ⟨L, rfl, hrepr, hinit⟩ := move_spec hb hmem hs₁ hs₂
  obtain rfl := addInt_eq_some hid
  simp only [setPage, Function.update_self] at hm
  refine ⟨r, l, L, m, hq, hm, ?_, hrepr, hinit, ?_, fun x => ?_, hb.pageId_nonneg⟩
  · simp only [setPage, Function.update_self, sdwrite]
  · show s.presentPagesNum - 1 = _
    rw [Links.appendTo_of_ne (by decide), Links.removeFrom_self, hq, List.erase_cons_head, hb.num, hq,
      List.length_cons]
    omega
  · rw [hb.exists_mem_move hmem, ← hb.used x]
    rcases eq_or_ne x r with rfl | hx
    · simp [setPage, sdwrite]
    · simp [setPage, sdwrite, hx]

/-- `swap_in` of a record that is swapped out. -/
lemma Book.swapIn (hb : s.Book q) (hr : r ∈ q .swappedPagesQueue) (hs : s.swapIn r = some t) :
    ∃ (L : Links Queue Pfn) (kva : ℕ) (m m' : Memory), s.kalloc = some (kva, m) ∧
      m.mapUvaToKva (s.pages r).uva kva (s.pages r).pgdir = some m' ∧ t = { s with
        toMemory := ({ s with toMemory := m' }.sdread (pa2kva (kva2pa kva))
          (s.pages r).sectorId.toNat).toMemory
        pages := Function.update s.pages r { s.pages r with kva := kva, sectorId := 0 }
        links := L
        presentPagesNum := s.presentPagesNum + 1 } ∧
      t.Book (appendTo (removeFrom q r .swappedPagesQueue) r .presentPagesQueue) := by
  simp only [State.swapIn, Option.bind_eq_bind, Option.bind_eq_some_iff, Option.some.injEq] at hs
  obtain ⟨s₁, hs₁, s₂, hs₂, ⟨kva, m⟩, ha, m', hm, rfl⟩ := hs
  obtain ⟨L, rfl, hrepr, hinit⟩ := move_spec hb hr hs₁ hs₂
  simp only [setPage, Function.update_self] at hm
  refine ⟨L, kva, m, m', ha, hm, ?_, hrepr, hinit, ?_, fun x => ?_, hb.pageId_nonneg⟩
  · simp only [setPage, Function.update_self, sdread, Function.update_idem]
  · show s.presentPagesNum + 1 = _
    rw [Links.appendTo_self, Links.removeFrom_of_ne (by decide), List.length_append, hb.num]
    rfl
  · rw [hb.exists_mem_move hr, ← hb.used x]
    rcases eq_or_ne x r with rfl | hx
    · simp [setPage, sdread]
    · simp [setPage, sdread, hx]

/-- Dropping a record leaves its frame alone. -/
lemma Book.dropPage (hb : s.Book q) (hr : r ∈ q h) (hs : s.dropPage r = some t) :
    ∃ L : Links Queue Pfn, t = { s with
        pages := Function.update s.pages r
          { s.pages r with pageId := 0, sectorId := 0, uva := 0, kva := 0 }
        links := L } ∧ L.Repr (removeFrom q r h) ∧ (∀ g, L.Init g) ∧
      ∀ x, (t.pages x).pageId ≠ 0 ↔ ∃ g, x ∈ removeFrom q r h g := by
  simp only [State.dropPage, Option.bind_eq_bind, Option.bind_eq_some_iff, Option.some.injEq] at hs
  obtain ⟨s₁, hs₁, rfl⟩ := hs
  obtain ⟨L, hL, hrepr, hinit⟩ := hb.repr.delete hr
  simp only [listDeleteEntry, resetPageInfo, setPage, hL, Option.map_some, Option.some.injEq] at hs₁
  subst hs₁
  refine ⟨L, ?_, hrepr, fun g => (hinit g).2 (hb.init g), fun x => ?_⟩
  · -- `kfree` gets the address that was reset
    simp only [Function.update_self, Memory.kfree, if_pos (show 0 < FREEMEM_KERNEL by decide)]
  · simp only [Links.mem_removeFrom hb.repr hr]
    rcases eq_or_ne x r with rfl | hx
    · simp
    · simp only [Function.update_of_ne hx, ne_eq, hx, not_false_eq_true, true_and]
      exact hb.used x

/-- A record is freed from the queue it is found on, the queue of the present pages
being searched first. -/
lemma Book.freePageWith (hb : s.Book q) {p : Pfn → Bool} {findPage : Queue → Option (Option Pfn)}
    (hfind : ∀ h, findPage h = some ((q h).find? p)) (hs : s.freePageWith findPage = some t) :
    ∃ (h : Queue) (r : Pfn) (L : Links Queue Pfn), (q h).find? p = some r ∧
      (h = .swappedPagesQueue → (q .presentPagesQueue).find? p = none) ∧ t = { s with
        pages := Function.update s.pages r
          { s.pages r with pageId := 0, sectorId := 0, uva := 0, kva := 0 }
        links := L
        presentPagesNum := ((removeFrom q r h) .presentPagesQueue).length } ∧
      t.Book (removeFrom q r h) := by
  simp only [State.freePageWith, hfind, Option.bind_eq_bind, Option.bind_some] at hs
  cases hp : (q .presentPagesQueue).find? p with
  | some r =>
    have hr := List.mem_of_find?_eq_some hp
    simp only [hp, Option.bind_eq_some_iff, Option.some.injEq] at hs
    obtain ⟨s₁, hs₁, rfl⟩ := hs
    obtain ⟨L, rfl, hrepr, hinit, hused⟩ := hb.dropPage hr hs₁
    have hpos := List.length_pos_of_mem hr
    have hnum : s.presentPagesNum - 1 =
        ((removeFrom q r .presentPagesQueue) .presentPagesQueue).length := by
      rw [Links.removeFrom_self, List.length_erase_of_mem hr, hb.num]
      omega
    exact ⟨_, r, L, hp, by simp, by simp only [hnum], hrepr, hinit, hnum, hused, hb.pageId_nonneg⟩
  | none =>
    simp only [hp, Option.bind_eq_some_iff] at hs
    obtain ⟨r, hr, hs⟩ := hs
    obtain ⟨L, rfl, hrepr, hinit, hused⟩ := hb.dropPage (List.mem_of_find?_eq_some hr) hs
    have hnum : s.presentPagesNum =
        ((removeFrom q r .swappedPagesQueue) .presentPagesQueue).length := by
      rw [Links.removeFrom_of_ne (by decide), hb.num]
    exact ⟨_, r, L, hr, fun _ => rfl, by simp only [← hnum], hrepr, hinit, hnum, hused,
      hb.pageId_nonneg⟩

/-- A record that is found is taken off; what it leaves of the present pages has a twin if it has
the property that the search was for. -/
lemma Book.freePageWith_drops (hb : s.Book q) {p : Pfn → Bool}
    {findPage : Queue → Option (Option Pfn)} (hfind : ∀ h, findPage h = some ((q h).find? p))
    (hs : s.freePageWith findPage = some t) :
    ∃ q', Drops s t q q' ∧ t.toMemory = s.toMemory ∧ t.sharePages = s.sharePages ∧
      ∀ r ∈ q' .presentPagesQueue, p r = true →
        ∃ r' ∈ q .presentPagesQueue, r' ≠ r ∧ p r' = true := by
  obtain ⟨g, r, L, hr, hpresent, rfl, hbook⟩ := hb.freePageWith hfind hs
  have hmem := List.mem_of_find?_eq_some hr
  refine ⟨_, ⟨hbook, fun g' => ?_, fun g' r' hr' => ?_, rfl, rfl⟩, rfl, rfl, fun r' hr' hp => ?_⟩
  · rcases eq_or_ne g' g with rfl | hne
    · rw [Links.removeFrom_self]
      exact List.erase_sublist
    · rw [Links.removeFrom_of_ne hne]
  · exact Function.update_of_ne ((Links.mem_removeFrom hb.repr hmem).1 hr').1 _ _
  · obtain ⟨hne, hr'⟩ := (Links.mem_removeFrom hb.repr hmem).1 hr'
    cases g with
    | presentPagesQueue => exact ⟨r, hmem, hne.symm, List.find?_some hr⟩
    | swappedPagesQueue => exact absurd hp (List.find?_eq_none.1 (hpresent rfl) r' hr')

lemma Drops.refl (hb : s.Book q) : Drops s s q q :=
  ⟨hb, fun _ => .refl _, fun _ _ _ => rfl, rfl, rfl⟩

lemma Drops.trans {u : State} {q' q'' : Queue → List Pfn} (h : Drops s t q q')
    (h' : Drops t u q' q'') : Drops s u q q'' where
  book := h'.book
  sublist := fun g => (h'.sublist g).trans (h.sublist g)
  pages := fun g r hr => (h'.pages g r hr).trans (h.pages g r ((h'.sublist g).subset hr))
  sd := h'.sd.trans h.sd
  diskSectorsStartid := h'.diskSectorsStartid.trans h.diskSectorsStartid

/-- The memory and the slots do not matter. -/
lemma Drops.congr {q' : Queue → List Pfn} (h : Drops s t q q') (m : Memory)
    (p : Fin 16 → SharePage) : Drops s { t with toMemory := m, sharePages := p } q q' :=
  ⟨h.book.congr (fun _ => rfl) rfl rfl rfl, h.sublist, h.pages, h.sd, h.diskSectorsStartid⟩

lemma Drops.eq_nil {q' : Queue → List Pfn} {g : Queue} (h : Drops s t q q') (hq : q g = []) :
    q' g = [] :=
  List.sublist_nil.1 (hq ▸ h.sublist g)

/-- Swapping out happens when the counter has reached the bound, and leaves it below. -/
lemma Book.makeRoom (hb : s.Book q) (hP : s.presentPagesNum ≤ P) (hs : s.makeRoom P = some t) :
    (∃ q', t.Book q') ∧ t.presentPagesNum < P := by
  simp only [State.makeRoom] at hs
  split_ifs at hs with hle
  · obtain ⟨r, l, L, m, -, -, rfl, hbook⟩ := hb.swapOut hs
    exact ⟨⟨_, hbook⟩, by simp only; omega⟩
  · rw [Option.some.injEq] at hs
    exact ⟨⟨q, hs ▸ hb⟩, by rw [← hs]; omega⟩

/-- `alloc_page_helper` makes room for the new page first. -/
lemma Book.allocPageHelper (hb : s.Book q) (hP : s.presentPagesNum ≤ P)
    (hs : s.allocPageHelper P uva pgdir = some (kva, t)) :
    (∃ q', t.Book q') ∧ t.presentPagesNum ≤ P := by
  simp only [State.allocPageHelper, Option.bind_eq_bind, Option.bind_eq_some_iff,
    Option.some.injEq, Prod.mk.injEq] at hs
  obtain ⟨⟨kva, m⟩, ha, m', hm, s', hs', t, ht, rfl, rfl⟩ := hs
  have hb₁ : ({ s with toMemory := m' } : State).Book q := hb.memory m'
  obtain ⟨⟨q', hb'⟩, hlt⟩ := hb₁.makeRoom hP hs'
  obtain ⟨r, L, -, rfl, hbook⟩ := hb'.addNewPrePage ht
  exact ⟨⟨_, hbook⟩, by simp only; omega⟩

/-- A round of `swap_in_all_pages` swaps its record in or leaves it. -/
lemma Book.swapInRound (hb : s.Book q ∧ s.presentPagesNum ≤ P) (hr : r ∈ q .swappedPagesQueue)
    (hs : s.swapInRound P pgdir r = some t) :
    ∃ q', (t.Book q' ∧ t.presentPagesNum ≤ P) ∧
      (q' .swappedPagesQueue = q .swappedPagesQueue ∨
        q' .swappedPagesQueue = (q .swappedPagesQueue).erase r) := by
  simp only [State.swapInRound] at hs
  split_ifs at hs with hc
  · obtain ⟨L, kva, m, m', -, -, rfl, hbook⟩ := hb.1.swapIn hr hs
    refine ⟨_, ⟨hbook, by simp only; omega⟩, Or.inr ?_⟩
    rw [Links.appendTo_of_ne (by decide), Links.removeFrom_self]
  · rw [Option.some.injEq] at hs
    exact ⟨q, hs ▸ hb, Or.inl rfl⟩

/-- `swap_in_all_pages` stops at the bound. -/
lemma Book.swapInAllPages (hb : s.Book q) (hP : s.presentPagesNum ≤ P)
    (hs : s.swapInAllPages P pgdir = some t) : (∃ q', t.Book q') ∧ t.presentPagesNum ≤ P := by
  obtain ⟨q', hb', hle⟩ := Links.forEachSafe_rule
    (P := fun s q => s.Book q ∧ s.presentPagesNum ≤ (P : ℤ)) (fun _ _ hs => hs.1.repr)
    (fun _ _ _ _ hs hr hround => Book.swapInRound hs hr hround) ⟨hb, hP⟩ (hb.init _) hs
  exact ⟨⟨q', hb'⟩, hle⟩

/-- The bound on the rounds of `swap_in_all_pages` is never what ends it. -/
lemma Book.swapInAllPages_rounds (hb : s.Book q) (hP : s.presentPagesNum ≤ P) {n : ℕ}
    (hn : loopBound ≤ n) :
    Links.forEachSafe links .swappedPagesQueue (State.swapInRound P pgdir) n
      (s.links.next (.inl .swappedPagesQueue)) s = s.swapInAllPages P pgdir :=
  Links.forEachSafe_rounds (P := fun s q => s.Book q ∧ s.presentPagesNum ≤ (P : ℤ))
    (fun _ _ hs => hs.1.repr) (fun _ _ _ _ hs hr hround => Book.swapInRound hs hr hround)
    ⟨hb, hP⟩ (hb.init _) (length_lt_loopBound hb _) hn

end State

end Mm
end UcasKernel
