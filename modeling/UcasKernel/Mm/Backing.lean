/-
The records of the owners, and the routines that move frames.

The owners of the frames are the records on the queue of the present pages, and between
`map_uva_to_kva` and `add_new_pre_page` a page that has no record yet.  `swap_out` takes the
first record: the frame of a page that is not shared has no other page that maps it, and
the entry of its page is not present any more when the frame becomes free.  So a routine
keeps every shared frame, and the frames of all pages but the one that it maps.
-/
import UcasKernel.Mm.Moves
import UcasKernel.Mm.Owners

namespace UcasKernel
namespace Mm

open Links (appendTo removeFrom)
open Memory

/-- The pages of the records that are present, with their frames. -/
def State.owners (s : State) (q : Queue → List Pfn) : List (UserPage × ℕ) :=
  (q .presentPagesQueue).map fun r => ((s.pages r).userPage, (s.pages r).kva)

/-- The owners of the frames are the records that are present, and `new`. -/
structure Backed (s : State) (spaces : Finset ℕ) (role : ℕ → Role) (e : ℕ) (q : Queue → List Pfn)
    (S : Set ℕ) (new : List (UserPage × ℕ)) : Prop where
  exclusive : Exclusive s.toMemory spaces role e S (s.owners q ++ new)
  book : s.Book q
  own : ∀ g, ∀ r ∈ q g, Own (vpn2 (s.pages r).uva)

/-- The page that `swap_out` would take next is of an address space in use, and its frame is not one
of `S`. -/
def State.SparesNext (s : State) (spaces : Finset ℕ) (S : Set ℕ) : Prop :=
  ∀ r, s.firstEntry .presentPagesQueue = some r → (s.pages r).pgdir ∈ spaces ∧ (s.pages r).kva ∉ S

/-- The records are the owners of the frames in `t`, where the pages outside of `U`, the shared
frames and the slots are as they were. -/
def Moved (s : State) (spaces : Finset ℕ) (role : ℕ → Role) (S : Set ℕ) (U : Set UserPage)
    (t : State) : Prop :=
  ∃ role' e' q', Backed t spaces role' e' q' S [] ∧
    Undisturbed spaces S U role role' s.toMemory t.toMemory ∧ t.sharePages = s.sharePages

namespace Backed

variable {s t : State} {spaces spaces' : Finset ℕ} {role role' : ℕ → Role} {e e' : ℕ}
  {q q' : Queue → List Pfn} {S S' : Set ℕ} {new new' : List (UserPage × ℕ)} {a : UserPage}
  {r : Pfn} {uva kva pgdir P : ℕ} {m : Memory}

/-- The owners are read off the records that are present. -/
lemma owners_congr (hpages : ∀ x ∈ q .presentPagesQueue, t.pages x = s.pages x) :
    t.owners q = s.owners q :=
  List.map_congr_left fun x hx => by rw [hpages x hx]

lemma owners_appendTo (hpages : ∀ x ∈ q .presentPagesQueue, t.pages x = s.pages x) :
    t.owners (appendTo q r .presentPagesQueue) =
      s.owners q ++ [((t.pages r).userPage, (t.pages r).kva)] := by
  rw [State.owners, Links.appendTo_self, List.map_append, List.map_singleton]
  exact congrArg (· ++ _) (owners_congr hpages)

/-- The memory alone changes. -/
lemma of_memory (h : Backed s spaces role e q S new)
    (hm : Exclusive m spaces' role' e' S' (s.owners q ++ new')) :
    Backed { s with toMemory := m } spaces' role' e' q S' new' where
  exclusive := hm
  book := h.book.memory _
  own := h.own

/-- The slots alone change. -/
lemma setSharePage (h : Backed s spaces role e q S new) (i : Fin 16) (v : SharePage) :
    Backed (s.setSharePage i v) spaces role e q S new where
  exclusive := h.exclusive
  book := h.book.slot _ _
  own := h.own

/-- Only the shared frames that have an owner count. -/
lemma shared (h : Backed s spaces role e q S []) (hS : ∀ o ∈ s.owners q, o.2 ∈ S → o.2 ∈ S') :
    Backed s spaces role e q S' [] where
  exclusive := h.exclusive.shared fun o ho => hS o (List.append_nil (s.owners q) ▸ ho)
  book := h.book
  own := h.own

/-- Records are taken off the queues. -/
lemma of_drops (h : Backed s spaces role e q S []) (hd : State.Drops s t q q')
    (hm : Exclusive t.toMemory spaces' role' e' S' (s.owners q)) :
    Backed t spaces' role' e' q' S' [] where
  exclusive := by
    rw [List.append_nil, owners_congr (hd.pages _)]
    exact hm.sublist ((hd.sublist _).map _)
  book := hd.book
  own := fun g r hr => by
    rw [hd.pages g r hr]
    exact h.own g r ((hd.sublist g).subset hr)

/-- The new page gets its record. -/
lemma addNewPrePage (h : Backed s spaces role e q S [((pgdir, vpns uva), kva)])
    (ho : Own (vpn2 uva)) (hs : s.addNewPrePage uva kva pgdir = some t) :
    ∃ q', Backed t spaces role e q' S [] ∧ t.toMemory = s.toMemory ∧
      t.sharePages = s.sharePages := by
  obtain ⟨r, L, hfree, ht, hb⟩ := h.book.addNewPrePage hs
  have hself : t.pages r =
      { s.pages r with uva := uva, kva := kva, pageId := s.pageId + 1, pgdir := pgdir } := by
    rw [ht]
    exact Function.update_self ..
  have hother : ∀ g, ∀ x ∈ q g, t.pages x = s.pages x := by
    intro g x hx
    rw [ht]
    refine Function.update_of_ne ?_ _ _
    rintro rfl
    exact (h.book.used x).2 ⟨g, hx⟩ hfree
  have hmem : t.toMemory = s.toMemory := by rw [ht]
  refine ⟨_, ⟨?_, hb, fun g x hx => ?_⟩, hmem, by rw [ht]⟩
  · rw [hmem, owners_appendTo (hother _), hself, List.append_nil]
    exact h.exclusive
  · rcases Links.mem_appendTo.1 hx with hx | ⟨rfl, -⟩
    · rw [hother g x hx]
      exact h.own g x hx
    · rw [hself]
      exact ho

/-! ## Swapping -/

/-- `swap_out` gives the frame of the first record up. -/
lemma swapOut (h : Backed s spaces role e q S new) (hnext : s.SparesNext spaces S)
    (hs : s.swapOut = some t) :
    ∃ role' q', Backed t spaces role' e q' S new ∧
      Undisturbed spaces S ∅ role role' s.toMemory t.toMemory ∧ t.sharePages = s.sharePages ∧
      ∀ x ∈ q .swappedPagesQueue, x ∈ q' .swappedPagesQueue ∧ t.pages x = s.pages x := by
  obtain ⟨r, l, L, m, hq, hm, ht, hb⟩ := h.book.swapOut hs
  have hr : r ∈ q .presentPagesQueue := by rw [hq]; exact List.mem_cons_self
  obtain ⟨hd, hS⟩ := hnext r (h.book.firstEntry_eq hq)
  have hother : ∀ x, x ≠ r → t.pages x = s.pages x := fun x hx => by
    rw [ht]
    exact Function.update_of_ne hx _ _
  have huva : (t.pages r).uva = (s.pages r).uva := by
    rw [ht]
    simp only [Function.update_self]
  have hmem : t.toMemory = m.kfree (s.pages r).kva := by rw [ht]
  have hnd := h.book.repr.nodup .presentPagesQueue
  rw [hq, List.nodup_cons] at hnd
  have howners : s.owners q = ((s.pages r).userPage, (s.pages r).kva) ::
      t.owners (appendTo (removeFrom q r .presentPagesQueue) r .swappedPagesQueue) := by
    rw [State.owners, State.owners, hq, List.map_cons, Links.appendTo_of_ne (by decide),
      Links.removeFrom_self, hq, List.erase_cons_head]
    refine congrArg _ (List.map_congr_left fun x hx => ?_)
    rw [hother x fun heq => hnd.1 (heq ▸ hx)]
  have hex := h.exclusive
  rw [howners, List.cons_append] at hex
  obtain ⟨hex', hund⟩ := hex.unmap hd (h.own _ r hr) hS hm
  rw [← hmem] at hex' hund
  refine ⟨_, _, ⟨hex', hb, fun g x hx => ?_⟩, hund, by rw [ht], fun x hx => ?_⟩
  · have hx' := (Links.mem_move h.book.repr hr).1 hx
    split_ifs at hx' with hxr
    · rw [hxr, huva]
      exact h.own _ r hr
    · rw [hother x hxr]
      exact h.own g x hx'
  · have hne : x ≠ r := by
      rintro rfl
      cases h.book.repr.disjoint _ _ x hr hx
    refine ⟨(Links.mem_move h.book.repr hr).2 ?_, hother x hne⟩
    rwa [if_neg hne]

lemma makeRoom (h : Backed s spaces role e q S new)
    (hnext : (P : ℤ) ≤ s.presentPagesNum → s.SparesNext spaces S) (hs : s.makeRoom P = some t) :
    ∃ role' q', Backed t spaces role' e q' S new ∧
      Undisturbed spaces S ∅ role role' s.toMemory t.toMemory ∧ t.sharePages = s.sharePages ∧
      ∀ x ∈ q .swappedPagesQueue, x ∈ q' .swappedPagesQueue ∧ t.pages x = s.pages x := by
  simp only [State.makeRoom] at hs
  split_ifs at hs with hfull
  · exact h.swapOut (hnext hfull) hs
  · rw [Option.some.injEq] at hs
    subst hs
    exact ⟨role, q, h, Undisturbed.refl _ _ _ _ _, rfl, fun _ hx => ⟨hx, rfl⟩⟩

/-- `swap_in` maps a new frame at the page of the record. -/
lemma swapIn (h : Backed s spaces role e q S []) (hr : r ∈ q .swappedPagesQueue)
    (hd : (s.pages r).pgdir ∈ spaces) (hs : s.swapIn r = some t) :
    ∃ role' e', Backed t spaces role' e'
        (appendTo (removeFrom q r .swappedPagesQueue) r .presentPagesQueue) S [] ∧
      Undisturbed spaces S {(s.pages r).userPage} role role' s.toMemory t.toMemory ∧
      t.sharePages = s.sharePages ∧
      ∀ x, (t.pages x).userPage = (s.pages x).userPage ∧ (t.pages x).pgdir = (s.pages x).pgdir := by
  obtain ⟨L, kva, m₁, m', hk, hm, ht, hb⟩ := h.book.swapIn hr hs
  have ho := h.own _ r hr
  obtain ⟨role', e', hex, -, hkva, hpage, -, hsame⟩ := h.exclusive.mapNew hd ho hk hm
  rw [List.append_nil] at hex
  have hself : t.pages r = { s.pages r with kva := kva, sectorId := 0 } := by
    rw [ht]
    exact Function.update_self ..
  have hother : ∀ x, x ≠ r → t.pages x = s.pages x := fun x hx => by
    rw [ht]
    exact Function.update_of_ne hx _ _
  have hpresent : ∀ x ∈ q .presentPagesQueue, t.pages x = s.pages x := fun x hx =>
    hother x fun heq => by cases h.book.repr.disjoint _ _ r (heq ▸ hx) hr
  -- the words of the card go to the frame
  obtain ⟨n, -, hpa, hpk⟩ := (hex.isFrame hkva).1.kva2pa_eq
  rw [← hpa] at hpk
  have hwords : ∀ g, g ≠ kva → t.mem g = m'.mem g := by
    intro g hg
    rw [ht, hpk]
    exact Function.update_of_ne hg _ _
  have hlist : t.freememList = m'.freememList := by
    rw [ht]
    rfl
  obtain ⟨hdirs, hleaf⟩ := hex.directories.write (Or.inl hkva) hlist hwords
  refine ⟨role', e', ⟨?_, hb, fun g x hx => ?_⟩, ?_, by rw [ht], fun x => ?_⟩
  · have howners : t.owners (appendTo (removeFrom q r .swappedPagesQueue) r .presentPagesQueue) =
        s.owners q ++ [((s.pages r).userPage, kva)] := by
      have hsame : s.owners (removeFrom q r .swappedPagesQueue) = s.owners q := by
        rw [State.owners, Links.removeFrom_of_ne (by decide), State.owners]
      rw [owners_appendTo, hsame, hself]
      · rfl
      · rwa [Links.removeFrom_of_ne (by decide)]
    rw [howners, List.append_nil]
    exact hex.of_sameLeaves hdirs (fun _ => id) subset_rfl hleaf
  · have hx' := (Links.mem_move h.book.repr hr).1 hx
    split_ifs at hx' with hxr
    · rw [hxr, hself]
      exact ho
    · rw [hother x hxr]
      exact h.own g x hx'
  · exact (Undisturbed.of_sameBut (a := (s.pages r).userPage) hpage hsame
      (Set.mem_singleton _)).trans
      (Undisturbed.of_sameLeaves (fun _ => id) hleaf)
  · rcases eq_or_ne x r with rfl | hx
    · rw [hself]
      exact ⟨rfl, rfl⟩
    · rw [hother x hx]
      exact ⟨rfl, rfl⟩

/-- `swap_in_all_pages` maps the pages of records of the directory. -/
lemma swapInAllPages (h : Backed s spaces role e q S []) (hd : pgdir ∈ spaces)
    (hs : s.swapInAllPages P pgdir = some t) :
    Moved s spaces role S {a | ∃ r ∈ q .swappedPagesQueue, (s.pages r).pgdir = pgdir ∧
      (s.pages r).userPage = a} t := by
  obtain ⟨U, hU⟩ : ∃ U, {a | ∃ r ∈ q .swappedPagesQueue, (s.pages r).pgdir = pgdir ∧
      (s.pages r).userPage = a} = U := ⟨_, rfl⟩
  rw [hU]
  have hround : ∀ s₁ q₁ r t₁, (∃ role₁ e₁, Backed s₁ spaces role₁ e₁ q₁ S [] ∧
      Undisturbed spaces S U role role₁ s.toMemory s₁.toMemory ∧ s₁.sharePages = s.sharePages ∧
      (∀ x ∈ q₁ .swappedPagesQueue, x ∈ q .swappedPagesQueue) ∧
      ∀ x, (s₁.pages x).userPage = (s.pages x).userPage ∧ (s₁.pages x).pgdir = (s.pages x).pgdir) →
      r ∈ q₁ .swappedPagesQueue → State.swapInRound P pgdir r s₁ = some t₁ →
      ∃ q', (∃ role₁ e₁, Backed t₁ spaces role₁ e₁ q' S [] ∧
        Undisturbed spaces S U role role₁ s.toMemory t₁.toMemory ∧ t₁.sharePages = s.sharePages ∧
        (∀ x ∈ q' .swappedPagesQueue, x ∈ q .swappedPagesQueue) ∧
        ∀ x, (t₁.pages x).userPage = (s.pages x).userPage ∧
          (t₁.pages x).pgdir = (s.pages x).pgdir) ∧
        (q' .swappedPagesQueue = q₁ .swappedPagesQueue ∨
          q' .swappedPagesQueue = (q₁ .swappedPagesQueue).erase r) := by
    rintro s₁ q₁ r t₁ ⟨role₁, e₁, h₁, hund, hshare, hsub, hsame⟩ hr ht
    simp only [State.swapInRound] at ht
    split_ifs at ht with hc
    · obtain ⟨role₂, e₂, h₂, hund₂, hshare₂, hsame₂⟩ := h₁.swapIn hr (hc.1 ▸ hd) ht
      have hswapped : appendTo (removeFrom q₁ r .swappedPagesQueue) r .presentPagesQueue
          .swappedPagesQueue = (q₁ .swappedPagesQueue).erase r := by
        rw [Links.appendTo_of_ne (by decide), Links.removeFrom_self]
      have hmem : (s₁.pages r).userPage ∈ U := by
        rw [← hU]
        exact ⟨r, hsub r hr, (hsame r).2.symm.trans hc.1, (hsame r).1.symm⟩
      refine ⟨_, ⟨role₂, e₂, h₂, hund.trans (hund₂.mono (Set.singleton_subset_iff.2 hmem)),
        hshare₂.trans hshare, fun x hx => ?_, fun x => ?_⟩, Or.inr hswapped⟩
      · rw [hswapped] at hx
        exact hsub x (List.mem_of_mem_erase hx)
      · exact ⟨(hsame₂ x).1.trans (hsame x).1, (hsame₂ x).2.trans (hsame x).2⟩
    · rw [Option.some.injEq] at ht
      subst ht
      exact ⟨q₁, ⟨role₁, e₁, h₁, hund, hshare, hsub, hsame⟩, Or.inl rfl⟩
  obtain ⟨q', role', e', h', hund, hshare, -⟩ := Links.forEachSafe_rule
    (by
      rintro s₁ q₁ ⟨role₁, e₁, h₁, -⟩
      exact h₁.book.repr) hround
    ⟨role, e, h, Undisturbed.refl _ _ _ _ _, rfl, fun _ => id, fun _ => ⟨rfl, rfl⟩⟩
    (h.book.init _) hs
  exact ⟨role', e', q', h', hund, hshare⟩

/-! ## Allocation and page faults -/

/-- `alloc_page_helper` maps a frame that was free. -/
lemma allocPageHelper (h : Backed s spaces role e q S []) (hd : pgdir ∈ spaces)
    (ho : Own (vpn2 uva)) (hnext : (P : ℤ) ≤ s.presentPagesNum → s.SparesNext spaces S)
    (hs : s.allocPageHelper P uva pgdir = some (kva, t)) :
    ∃ role' e' q', Backed t spaces role' e' q' S [] ∧
      Undisturbed spaces S {(pgdir, vpns uva)} role role' s.toMemory t.toMemory ∧
      t.sharePages = s.sharePages ∧ role kva = .free ∧ role' kva = .page ∧
      t.leaf pgdir (vpns uva) ≠ 0 ∧ frameOf (t.leaf pgdir (vpns uva)) = kva := by
  simp only [State.allocPageHelper, Option.bind_eq_bind, Option.bind_eq_some_iff,
    Option.some.injEq, Prod.mk.injEq] at hs
  obtain ⟨⟨kva, m⟩, hk, m', hm, u, hu, v, hv, rfl, rfl⟩ := hs
  obtain ⟨role₁, e₁, hex, hfree, hkva, hpage, hself, hsame⟩ := h.exclusive.mapNew hd ho hk hm
  obtain ⟨hframe, hlt⟩ := hex.isFrame hkva
  rw [List.append_nil] at hex
  have h₁ : Backed { s with toMemory := m' } spaces role₁ e₁ q S [((pgdir, vpns uva), kva)] :=
    h.of_memory hex
  have hund₁ : Undisturbed spaces S {(pgdir, vpns uva)} role role₁ s.toMemory m' :=
    Undisturbed.of_sameBut (a := (pgdir, vpns uva)) hpage hsame (Set.mem_singleton _)
  obtain ⟨role₂, q₂, h₂, hund₂, hshare₂, -⟩ := h₁.makeRoom hnext hu
  obtain ⟨q₃, h₃, hmem, hshare₃⟩ := h₂.addNewPrePage ho hv
  -- the page is on the list of the owners, so it keeps its frame
  have hkva₂ : role₂ kva = .page :=
    h₂.exclusive.page _ (List.mem_append_right _ (List.mem_singleton_self _))
  obtain ⟨hne, hframe₂⟩ := hund₂.frame (pgdir, vpns uva) hd ho (Set.notMem_empty _)
    (show m'.leaf pgdir (vpns uva) ≠ 0 by
      rw [hself]
      exact entry_ne_zero hframe (by decide) hlt.ne')
  have hold : frameOf (m'.leaf pgdir (vpns uva)) = kva := by
    rw [hself]
    exact frameOf_entry hframe (by decide)
  refine ⟨role₂, e₁, q₃, h₃, ?_, hshare₃.trans hshare₂, hfree, hkva₂, ?_, ?_⟩
  · rw [hmem]
    exact hund₁.trans (hund₂.mono (Set.empty_subset _))
  · rw [hmem]
    exact hne
  · rw [hmem]
    exact hframe₂.trans hold

/-- Attributes of an entry change. -/
lemma modifyAttributes {g : ℕ → ℕ} (h : Backed s spaces role e q S []) (hd : pgdir ∈ spaces)
    (ho : Own (vpn2 uva))
    (hg : ∀ f bits, IsFrame f → bits < 2 ^ 10 →
      ∃ bits' < 2 ^ 10, (bits' % 2 = 1 → bits % 2 = 1) ∧ g (entry f bits) = entry f bits')
    (hm : s.modifyPte uva pgdir g = some m) :
    Backed { s with toMemory := m } spaces role e q S [] ∧
      Undisturbed spaces S ∅ role role s.toMemory m := by
  obtain ⟨hex, hund, -⟩ := h.exclusive.modifyAttributes hd ho hg hm
  exact ⟨h.of_memory hex, hund⟩

/-- A fault of a page that is not mapped allocates it, and one of a page that is mapped swaps it
in. -/
lemma bringIn (h : Backed s spaces role e q S []) (hd : pgdir ∈ spaces) (ho : Own (vpn2 uva))
    (hnext : (P : ℤ) ≤ s.presentPagesNum → s.SparesNext spaces S)
    (hs : s.bringIn P uva pgdir = some t) : Moved s spaces role S {(pgdir, vpns uva)} t := by
  simp only [State.bringIn] at hs
  split_ifs at hs with hkva
  · obtain ⟨⟨kva, u⟩, hu, rfl⟩ := Option.map_eq_some_iff.1 hs
    obtain ⟨role', e', q', h', hund, hshare, -⟩ := h.allocPageHelper hd ho hnext hu
    exact ⟨role', e', q', h', hund, hshare⟩
  · simp only [Option.bind_eq_bind, Option.bind_eq_some_iff] at hs
    obtain ⟨page, hpage, u, hu, r, rfl, ht⟩ := hs
    rw [State.findPageWithUva, h.book.find, Option.some.injEq] at hpage
    have hr := List.mem_of_find?_eq_some hpage
    have hfound := List.find?_some hpage
    rw [decide_eq_true_eq] at hfound
    obtain ⟨huva, hpgdir⟩ := hfound
    obtain ⟨role₁, q₁, h₁, hund₁, hshare₁, hkeep⟩ := h.makeRoom hnext hu
    obtain ⟨hr₁, heq⟩ := hkeep r hr
    obtain ⟨role₂, e₂, h₂, hund₂, hshare₂, -⟩ :=
      h₁.swapIn hr₁ (by rw [heq, hpgdir]; exact hd) ht
    have hpg : (u.pages r).userPage = (pgdir, vpns uva) := by rw [heq, Page.userPage, huva, hpgdir]
    rw [hpg] at hund₂
    exact ⟨role₂, e₂, _, h₂, (hund₁.mono (Set.empty_subset _)).trans hund₂, hshare₂.trans hshare₁⟩

lemma handlePageFault {stval : ℕ} {store : Bool} (h : Backed s spaces role e q S [])
    (hd : pgdir ∈ spaces) (ho : Own (vpn2 stval))
    (hnext : (P : ℤ) ≤ s.presentPagesNum → s.SparesNext spaces S)
    (hs : s.handlePageFault P stval pgdir store = some t) :
    Moved s spaces role S {(pgdir, vpns (stval &&& PAGE_MASK))} t := by
  have ho' : Own (vpn2 (stval &&& PAGE_MASK)) := by rwa [vpn2_and_pageMask]
  have hset : ∀ b, b < 2 ^ 10 → b % 2 = 0 → ∀ f bits, IsFrame f → bits < 2 ^ 10 →
      ∃ bits' < 2 ^ 10, (bits' % 2 = 1 → bits % 2 = 1) ∧
        setAttribute (entry f bits) b = entry f bits' := by
    intro b hb heven f bits _ hbits
    obtain ⟨bits', hbits', hmod, heq⟩ := exists_setAttribute_even (f := f) hb heven hbits
    exact ⟨bits', hbits', fun hodd => hmod ▸ hodd, heq⟩
  simp only [State.handlePageFault, Option.bind_eq_bind, Option.bind_eq_some_iff] at hs
  obtain ⟨u, hu, m, hm, hs⟩ := hs
  obtain ⟨role', e', q', h₁, hund₁, hshare⟩ := h.bringIn hd ho' hnext hu
  obtain ⟨h₂, hund₂⟩ := h₁.modifyAttributes hd ho' (hset _ (by decide) (by decide)) hm
  have hund := hund₁.trans (hund₂.mono (Set.empty_subset _))
  split_ifs at hs with hstore
  · simp only [Option.bind_eq_some_iff, Option.some.injEq] at hs
    obtain ⟨m', hm', rfl⟩ := hs
    obtain ⟨h₃, hund₃⟩ := h₂.modifyAttributes hd ho' (hset _ (by decide) (by decide)) hm'
    exact ⟨role', e', q', h₃, hund.trans (hund₃.mono (Set.empty_subset _)), hshare⟩
  · rw [Option.some.injEq] at hs
    subst hs
    exact ⟨role', e', q', h₂, hund, hshare⟩

/-! ## What moves no page -/

/-- A process stores a word in a page that its tables map. -/
lemma storeUser {v : ℕ} (h : Backed s spaces role e q S []) (hd : pgdir ∈ spaces)
    (hs : s.storeUser uva pgdir v = some t) : Moved s spaces role S ∅ t := by
  obtain ⟨-, ho, hpresent, ht⟩ := State.storeUser_eq_some hs
  have hpage := (h.exclusive.leaf (pgdir, vpns uva) hd ho).ok.role_frameOf hpresent
  obtain ⟨f, hf⟩ : ∃ f, frameOf (s.leaf pgdir (vpns uva)) = f := ⟨_, rfl⟩
  have hpage : role f = .page := hf ▸ hpage
  rw [hf] at ht
  subst ht
  have hmem : ∀ g, g ≠ f → (s.store f (Fin.ofNat 512 (uva / 8)) v).mem g = s.mem g :=
    fun g hg => store_of_ne hg
  have hwrite : Directories (s.store f (Fin.ofNat 512 (uva / 8)) v) spaces role e ∧
      SameLeaves spaces s.toMemory (s.store f (Fin.ofNat 512 (uva / 8)) v) :=
    h.exclusive.directories.write (Or.inl hpage) rfl hmem
  obtain ⟨hdirs, hleaf⟩ := hwrite
  exact ⟨role, e, q, h.of_memory (h.exclusive.of_sameLeaves hdirs (fun _ => id) subset_rfl hleaf),
    Undisturbed.of_sameLeaves (fun _ => id) hleaf, rfl⟩

lemma freePageWithKva (h : Backed s spaces role e q S []) (hs : s.freePageWithKva kva = some t) :
    Moved s spaces role S ∅ t := by
  obtain ⟨q', hdrops, hmem, hshare, -⟩ := h.book.freePageWith_drops (fun _ => h.book.find _) hs
  have hex := h.exclusive
  rw [List.append_nil, ← hmem] at hex
  refine ⟨role, e, q', h.of_drops hdrops hex, ?_, hshare⟩
  rw [hmem]
  exact Undisturbed.refl _ _ _ _ _

/-- `free_pagetable` and `free_pgdir`. -/
lemma exit (h : Backed s spaces role e q S []) (hd : pgdir ∈ spaces)
    (hs : s.freePagetable pgdir = some t) :
    Moved s (spaces.erase pgdir) role S ∅ { t with toMemory := t.freePgdir pgdir } := by
  obtain ⟨-, role', ht, hfree, hfrees⟩ := State.freePgdir_tables h.book
    h.exclusive.directories.tables (h.exclusive.directories.role_dir hd) hs
  obtain ⟨⟨q', hdrops⟩, hshare⟩ := h.book.freePagetable_drops hs
  obtain ⟨hex, hund⟩ := h.exclusive.of_frees (U := ∅) hd ht hfree hfrees
  rw [List.append_nil] at hex
  exact ⟨role', e, q', h.of_drops (hdrops.congr _ _) hex, hund, hshare⟩

end Backed

end Mm
end UcasKernel
