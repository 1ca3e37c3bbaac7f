/-
The records of the pages, and the routines that move pages.

`Paged` adds to the places of the pages that the records on the queues are those of the
pages that have a place, each with the frame or with the sectors of its page.  Between
`map_uva_to_kva` and `add_new_pre_page` a page is mapped that has no record yet.  The
routines that swap pages change places only: what the words of a page are, in its frame or
on the card, stays.
-/
import UcasKernel.Mm.Places
import UcasKernel.Mm.Teardown

namespace UcasKernel
namespace Mm

open Links (appendTo removeFrom)
open Memory

/-- The page that a record is of. -/
def Page.userPage (v : Page) : UserPage := (v.pgdir, vpns v.uva)

/-- Where the record of a page on a queue says that the page is. -/
def Queue.place (v : Page) : Queue → Place
  | .presentPagesQueue => .frame v.kva
  | .swappedPagesQueue => .card v.sectorId

/-- The pages of the address spaces have their places, and the pages with a place have records,
`new` apart. -/
structure Paged (s : State) (spaces : Finset ℕ) (role : ℕ → Role) (e : ℕ) (q : Queue → List Pfn)
    (w : UserPage → Place) (new : Set UserPage) : Prop where
  placed : Placed s.toMemory spaces role e w
  book : s.Book q
  place : ∀ h, ∀ r ∈ q h, w (s.pages r).userPage = h.place (s.pages r)
  aligned : ∀ h, ∀ r ∈ q h, uvaOf (vpns (s.pages r).uva) = (s.pages r).uva
  notNew : ∀ h, ∀ r ∈ q h, (s.pages r).userPage ∉ new
  record : ∀ a, w a ≠ .unmapped → a ∈ new ∨ ∃ h, ∃ r ∈ q h, (s.pages r).userPage = a
  one : ∀ h h', ∀ r ∈ q h, ∀ r' ∈ q h', (s.pages r).userPage = (s.pages r').userPage → r = r'
  startid : 0 ≤ s.diskSectorsStartid
  /-- The sectors that are in use are below `disk_sectors_startid`. -/
  card : ∀ a k, w a = .card k → 0 ≤ k ∧ k + SECTORS_PER_PAGE ≤ s.diskSectorsStartid

/-- A page that has come from the card has all the attributes that `map_uva_to_kva` sets. -/
def Brought (w w' : UserPage → Place) (m' : Memory) : Prop :=
  ∀ a k f, w a = .card k → w' a = .frame f → m'.leaf a.1 a.2 &&& PAGE_ALL = PAGE_ALL

lemma or_and_self (x bits : ℕ) : (x ||| bits) &&& bits = bits := by
  refine Nat.eq_of_testBit_eq fun i => ?_
  rw [Nat.testBit_and, Nat.testBit_or]
  cases x.testBit i <;> cases bits.testBit i <;> rfl

lemma or_and_of_and {x y : ℕ} (h : x &&& y = y) (bits : ℕ) : (x ||| bits) &&& y = y := by
  rw [Nat.and_or_distrib_right, h]
  refine Nat.eq_of_testBit_eq fun i => ?_
  rw [Nat.testBit_or, Nat.testBit_and]
  cases y.testBit i <;> cases bits.testBit i <;> rfl

lemma entry_and_all (f : ℕ) : entry f PAGE_ALL &&& PAGE_ALL = PAGE_ALL := by
  rw [entry, setAttribute, or_and_self]

lemma Brought.refl (w : UserPage → Place) (m : Memory) : Brought w w m := by
  intro a k f hk hf
  rw [hk] at hf
  cases hf

namespace Paged

variable {s t : State} {spaces spaces' : Finset ℕ} {role role' : ℕ → Role} {e e' : ℕ}
  {q q' : Queue → List Pfn} {w w' : UserPage → Place} {new : Set UserPage} {a : UserPage}
  {r : Pfn} {uva kva pgdir P : ℕ} {m : Memory}

/-! ## The memory alone -/

/-- Where the words of the pages are left, they are the same at every place. -/
lemma seen_of_mem (h : Paged s spaces role e q w new)
    (hmem : ∀ f, role f = .page → m.mem f = s.mem f) (a : UserPage) :
    ({ s with toMemory := m } : State).seen (w a) = s.seen (w a) := by
  cases hw : w a with
  | unmapped => rfl
  | frame f => exact congrArg some (hmem f (h.placed.role_frame hw))
  | card k => rfl

/-- The places and the records stay. -/
lemma of_memory (h : Paged s spaces role e q w new) (hp : Placed m spaces' role' e' w) :
    Paged { s with toMemory := m } spaces' role' e' q w new where
  placed := hp
  book := h.book.memory _
  place := h.place
  aligned := h.aligned
  notNew := h.notNew
  record := h.record
  one := h.one
  startid := h.startid
  card := h.card

/-- A page gets a frame of zeros, and no record yet. -/
lemma mapNew {m' : Memory} (h : Paged s spaces role e q w ∅) (hd : pgdir ∈ spaces)
    (ho : Own (vpn2 uva)) (hw : w (pgdir, vpns uva) = .unmapped) (hk : s.kalloc = some (kva, m))
    (hm : m.mapUvaToKva uva kva pgdir = some m') :
    ∃ role' e', Paged { s with toMemory := m' } spaces role' e' q
        (Function.update w (pgdir, vpns uva) (.frame kva)) {(pgdir, vpns uva)} ∧
      ∀ b, ({ s with toMemory := m' } : State).seen
          (Function.update w (pgdir, vpns uva) (.frame kva) b) =
        Function.update (fun b => s.seen (w b)) (pgdir, vpns uva) (some fun _ => 0) b := by
  obtain ⟨e₁, h₁, hfree, hzero, hmem₁⟩ := h.placed.kalloc (r := .page) (by simp) (by simp) hk
  have hkva : Function.update role kva .page kva = .page := Function.update_self ..
  have hnew : ∀ b, w b ≠ .frame kva := fun b hb => by
    have hpage := h.placed.role_frame hb
    rw [hfree] at hpage
    cases hpage
  obtain ⟨role', e', h₂, hrole, -, -, hmem₂⟩ := h₁.mapUvaToKva hd ho hkva hnew hm
  refine ⟨role', e', ⟨h₂, h.book.congr (fun _ => rfl) rfl rfl rfl, fun g r hr => ?_, h.aligned,
    fun g r hr heq => ?_, fun b hb => ?_, h.one, h.startid, fun b k hb => ?_⟩, fun b => ?_⟩
  · rw [Function.update_of_ne, h.place g r hr]
    intro heq
    have hplace := h.place g r hr
    rw [heq, hw] at hplace
    cases g <;> cases hplace
  · have hplace := h.place g r hr
    rw [Set.mem_singleton_iff.1 heq, hw] at hplace
    cases g <;> cases hplace
  · by_cases hba : b = (pgdir, vpns uva)
    · exact Or.inl hba
    · rw [Function.update_of_ne hba] at hb
      exact Or.inr ((h.record b hb).resolve_left (Set.notMem_empty b))
  · have hba : b ≠ (pgdir, vpns uva) := by
      rintro rfl
      rw [Function.update_self] at hb
      cases hb
    rw [Function.update_of_ne hba] at hb
    exact h.card b k hb
  · rcases eq_or_ne b (pgdir, vpns uva) with rfl | hba
    · rw [Function.update_self, Function.update_self]
      exact congrArg some ((hmem₂ kva hkva).trans hzero)
    · rw [Function.update_of_ne hba, Function.update_of_ne hba]
      refine h.seen_of_mem (fun f hf => ?_) b
      have hf' : Function.update role kva .page f = .page := by
        rcases eq_or_ne f kva with rfl | hne
        · exact hkva
        · rw [Function.update_of_ne hne, hf]
      exact (hmem₂ f hf').trans (hmem₁ f (by simp [hf]))

/-- The new page gets its record. -/
lemma addNewPrePage (h : Paged s spaces role e q w {(pgdir, vpns uva)})
    (huva : uvaOf (vpns uva) = uva) (hw : w (pgdir, vpns uva) = .frame kva)
    (hs : s.addNewPrePage uva kva pgdir = some t) :
    ∃ q', Paged t spaces role e q' w ∅ ∧ ∀ b, t.seen b = s.seen b := by
  obtain ⟨r, L, hfree, rfl, hb⟩ := h.book.addNewPrePage hs
  have hold : ∀ g, ∀ x ∈ q g, x ≠ r := by
    rintro g x hx rfl
    exact (h.book.used x).2 ⟨g, hx⟩ hfree
  have hmem : ∀ g x, x ∈ appendTo q r .presentPagesQueue g ↔
      x ∈ q g ∨ x = r ∧ g = .presentPagesQueue := fun g x => by
    rw [Links.mem_appendTo]
  refine ⟨_, ⟨h.placed, hb, fun g x hx => ?_, fun g x hx => ?_, fun _ _ _ => Set.notMem_empty _,
    fun b hb => ?_, fun g g' x hx y hy heq => ?_, h.startid, h.card⟩, fun b => by cases b <;> rfl⟩
  · rcases (hmem g x).1 hx with hx | ⟨rfl, rfl⟩
    · simp only [Function.update_of_ne (hold g x hx)]
      exact h.place g x hx
    · simp only [Function.update_self]
      exact hw
  · rcases (hmem g x).1 hx with hx | ⟨rfl, rfl⟩
    · simp only [Function.update_of_ne (hold g x hx)]
      exact h.aligned g x hx
    · simp only [Function.update_self]
      exact huva
  · rcases h.record b hb with hb | ⟨g, x, hx, heq⟩
    · refine Or.inr ⟨.presentPagesQueue, r, (hmem _ _).2 (Or.inr ⟨rfl, rfl⟩), ?_⟩
      simp only [Function.update_self]
      exact (Set.mem_singleton_iff.1 hb).symm
    · refine Or.inr ⟨g, x, (hmem _ _).2 (Or.inl hx), ?_⟩
      simp only [Function.update_of_ne (hold g x hx)]
      exact heq
  · rcases (hmem g x).1 hx with hx' | ⟨hx', -⟩ <;> rcases (hmem g' y).1 hy with hy' | ⟨hy', -⟩
    · simp only [Function.update_of_ne (hold g x hx'), Function.update_of_ne (hold g' y hy')] at heq
      exact h.one g g' x hx' y hy' heq
    · simp only [Function.update_of_ne (hold g x hx'), hy', Function.update_self] at heq
      exact absurd heq (h.notNew g x hx')
    · simp only [Function.update_of_ne (hold g' y hy'), hx', Function.update_self] at heq
      exact absurd heq.symm (h.notNew g' y hy')
    · exact hx'.trans hy'.symm

/-! ## Swapping -/

/-- The words of a page that is written to the card, and of the pages that are there. -/
lemma sdwrite_saved {page block : ℕ} (s : State) (i : Fin 512) :
    (s.sdwrite page block).sd (block + i / 64) (Fin.ofNat 64 i) = s.mem page i := by
  have hi : i.val / 64 < 8 := by omega
  have hword : Fin.ofNat 512 ((block + i.val / 64 - block) * 64 + (Fin.ofNat 64 i.val).val) = i := by
    refine Fin.ext ?_
    simp only [Fin.ofNat]
    omega
  simp only [State.sdwrite]
  rw [if_pos ⟨by omega, by simp only [SECTORS_PER_PAGE]; omega⟩, hword]

lemma sdwrite_of_lt {page block sector : ℕ} (s : State) (h : sector < block) :
    (s.sdwrite page block).sd sector = s.sd sector := by
  funext i
  simp only [State.sdwrite]
  exact if_neg fun hle => absurd hle.1 (by omega)

/-- A record moves to another queue, and its page to another place. -/
lemma move {g k : Queue} {v : Page} (h : Paged s spaces role e q w new) (hr : r ∈ q g)
    (hb : t.Book (appendTo (removeFrom q r g) r k))
    (hpages : t.pages = Function.update s.pages r v) (huva : v.uva = (s.pages r).uva)
    (hpgdir : v.pgdir = (s.pages r).pgdir)
    (hp : Placed t.toMemory spaces role' e'
      (Function.update w (s.pages r).userPage (k.place v)))
    (hstart : s.diskSectorsStartid ≤ t.diskSectorsStartid)
    (hcard : ∀ n, k.place v = .card n → 0 ≤ n ∧ n + SECTORS_PER_PAGE ≤ t.diskSectorsStartid) :
    Paged t spaces role' e' (appendTo (removeFrom q r g) r k)
      (Function.update w (s.pages r).userPage (k.place v)) new := by
  have hmem : ∀ x i, x ∈ appendTo (removeFrom q r g) r k i ↔ if x = r then i = k else x ∈ q i :=
    fun x i => Links.mem_move h.book.repr hr
  have hsame : v.userPage = (s.pages r).userPage := by
    rw [Page.userPage, Page.userPage, huva, hpgdir]
  have huser : ∀ x, (t.pages x).userPage = (s.pages x).userPage := by
    intro x
    rw [hpages]
    rcases eq_or_ne x r with rfl | hx
    · rw [Function.update_self, hsame]
    · rw [Function.update_of_ne hx]
  have hother : ∀ x i, x ∈ q i → x ≠ r → (s.pages x).userPage ≠ (s.pages r).userPage :=
    fun x i hx hne heq => hne (h.one _ _ _ hx _ hr heq)
  -- the record is on some queue, before and after
  have hback : ∀ x i, x ∈ appendTo (removeFrom q r g) r k i → ∃ j, x ∈ q j := by
    intro x i hx
    have hx' := (hmem x i).1 hx
    split_ifs at hx' with hxr
    · exact ⟨g, hxr ▸ hr⟩
    · exact ⟨i, hx'⟩
  refine ⟨hp, hb, fun i x hx => ?_, fun i x hx => ?_, fun i x hx => ?_, fun b hb => ?_,
    fun i j x hx y hy heq => ?_, h.startid.trans hstart, fun b n hb => ?_⟩
  · rw [huser, hpages]
    have hx' := (hmem x i).1 hx
    split_ifs at hx' with hxr
    · rw [hxr, hx', Function.update_self, Function.update_self]
    · rw [Function.update_of_ne (hother x i hx' hxr), Function.update_of_ne hxr]
      exact h.place i x hx'
  · obtain ⟨j, hj⟩ := hback x i hx
    have huva' : (t.pages x).uva = (s.pages x).uva := by
      rw [hpages]
      rcases eq_or_ne x r with rfl | hx
      · rw [Function.update_self, huva]
      · rw [Function.update_of_ne hx]
    rw [huva']
    exact h.aligned j x hj
  · obtain ⟨j, hj⟩ := hback x i hx
    rw [huser]
    exact h.notNew j x hj
  · have hw : w b ≠ .unmapped := by
      rcases eq_or_ne b (s.pages r).userPage with rfl | hne
      · rw [h.place g r hr]
        cases g <;> simp [Queue.place]
      · rwa [Function.update_of_ne hne] at hb
    refine (h.record b hw).imp_right ?_
    rintro ⟨i, x, hx, heq⟩
    refine ⟨if x = r then k else i, x, (hmem x _).2 ?_, by rw [huser, heq]⟩
    split_ifs with hxr
    · rfl
    · exact hx
  · obtain ⟨i', hx'⟩ := hback x i hx
    obtain ⟨j', hy'⟩ := hback y j hy
    rw [huser, huser] at heq
    exact h.one i' j' x hx' y hy' heq
  · rcases eq_or_ne b (s.pages r).userPage with rfl | hne
    · rw [Function.update_self] at hb
      exact hcard n hb
    · rw [Function.update_of_ne hne] at hb
      obtain ⟨hk, hle⟩ := h.card b n hb
      exact ⟨hk, hle.trans hstart⟩

/-- The first page that is present goes to the card. -/
lemma swapOut (h : Paged s spaces role e q w new) (hs : s.swapOut = some t) :
    ∃ role' q' w', Paged t spaces role' e q' w' new ∧ (∀ b, t.seen (w' b) = s.seen (w b)) ∧
      (∀ b f, w' b = .frame f → w b = .frame f) ∧ (∀ b ∈ new, w' b = w b) ∧
      ∀ x ∈ q .swappedPagesQueue, x ∈ q' .swappedPagesQueue ∧ t.pages x = s.pages x := by
  obtain ⟨r, l, L, m', hq, hm, rfl, hb⟩ := h.book.swapOut hs
  have hr : r ∈ q .presentPagesQueue := by rw [hq]; exact List.mem_cons_self
  have hw : w (s.pages r).userPage = .frame (s.pages r).kva := h.place _ r hr
  have hpage := h.placed.role_frame hw
  obtain ⟨hd, ho⟩ := h.placed.mapped (s.pages r).userPage (by simp [hw])
  obtain ⟨n, -, hpa, hkva⟩ :=
    (h.placed.tables.isFrame (f := (s.pages r).kva) (by simp [hpage]) (by simp [hpage])).1.kva2pa_eq
  rw [← hpa] at hkva
  obtain ⟨hp, -, hmem⟩ := h.placed.unmap hd ho hw hm s.diskSectorsStartid
  have hstart : s.diskSectorsStartid ≤ s.diskSectorsStartid + SECTORS_PER_PAGE := by
    simp only [SECTORS_PER_PAGE]
    omega
  refine ⟨_, _, _, h.move (k := .swappedPagesQueue)
    (v := { s.pages r with sectorId := s.diskSectorsStartid }) hr hb rfl rfl rfl hp hstart
    (fun k hk => ?_), fun b => ?_, fun b f hb => ?_, fun b hb => ?_, fun x hx => ?_⟩
  · obtain rfl := Place.card.inj hk
    exact ⟨h.startid, le_rfl⟩
  · rcases eq_or_ne b (s.pages r).userPage with rfl | hne
    · rw [Function.update_self, hw]
      refine congrArg some (funext fun i => ?_)
      rw [hkva]
      exact sdwrite_saved s i
    · rw [Function.update_of_ne hne]
      cases hwb : w b with
      | unmapped => rfl
      | frame f =>
        refine congrArg some (hmem f (h.placed.role_frame hwb) ?_)
        rintro rfl
        exact hne (h.placed.frames b _ _ hwb hw)
      | card k =>
        obtain ⟨hk, hle⟩ := h.card b k hwb
        refine congrArg some (funext fun i => ?_)
        have hi : i.val / 64 < 8 := by omega
        simp only [SECTORS_PER_PAGE] at hle
        exact congrFun (sdwrite_of_lt s (by omega)) _
  · rcases eq_or_ne b (s.pages r).userPage with rfl | hne
    · rw [Function.update_self] at hb
      cases hb
    · rwa [Function.update_of_ne hne] at hb
  · refine Function.update_of_ne ?_ _ _
    rintro rfl
    exact h.notNew _ r hr hb
  · have hne : x ≠ r := by
      rintro rfl
      cases h.book.repr.disjoint _ _ x hr hx
    refine ⟨(Links.mem_move h.book.repr hr).2 ?_, Function.update_of_ne hne _ _⟩
    rwa [if_neg hne]

lemma makeRoom (h : Paged s spaces role e q w new) (hs : s.makeRoom P = some t) :
    ∃ role' q' w', Paged t spaces role' e q' w' new ∧ (∀ b, t.seen (w' b) = s.seen (w b)) ∧
      (∀ b f, w' b = .frame f → w b = .frame f) ∧ (∀ b ∈ new, w' b = w b) ∧
      ∀ x ∈ q .swappedPagesQueue, x ∈ q' .swappedPagesQueue ∧ t.pages x = s.pages x := by
  simp only [State.makeRoom] at hs
  split_ifs at hs
  · exact h.swapOut hs
  · rw [Option.some.injEq] at hs
    subst hs
    exact ⟨role, q, w, h, fun _ => rfl, fun _ _ => id, fun _ _ => rfl, fun _ hx => ⟨hx, rfl⟩⟩

/-- A page comes from the card: `map_uva_to_kva` makes a new entry for it. -/
lemma swapIn (h : Paged s spaces role e q w new) (hr : r ∈ q .swappedPagesQueue)
    (hs : s.swapIn r = some t) :
    ∃ role' e' kva, Paged t spaces role' e'
        (appendTo (removeFrom q r .swappedPagesQueue) r .presentPagesQueue)
        (Function.update w (s.pages r).userPage (.frame kva)) new ∧
      (∀ b, t.seen (Function.update w (s.pages r).userPage (.frame kva) b) = s.seen (w b)) ∧
      t.leaf (s.pages r).pgdir (vpns (s.pages r).uva) = entry kva PAGE_ALL ∧
      ∀ b : UserPage, b.1 ∈ spaces → Own b.2.1 → b ≠ (s.pages r).userPage →
        t.leaf b.1 b.2 = s.leaf b.1 b.2 := by
  obtain ⟨L, kva, m₁, m', hk, hm, rfl, hb⟩ := h.book.swapIn hr hs
  have hw : w (s.pages r).userPage = .card (s.pages r).sectorId := h.place _ r hr
  obtain ⟨hd, ho⟩ := h.placed.mapped (s.pages r).userPage (by simp [hw])
  obtain ⟨e₁, h₁, hfree, -, hmem₁⟩ := h.placed.kalloc (r := .page) (by simp) (by simp) hk
  have hkva : Function.update role kva .page kva = .page := Function.update_self ..
  have hne : ∀ b f, w b = .frame f → f ≠ kva := by
    rintro b f hwb rfl
    have hpage := h.placed.role_frame hwb
    rw [hfree] at hpage
    cases hpage
  obtain ⟨role', e', h₂, hrole, hself, hleaf, hmem₂⟩ :=
    h₁.mapUvaToKva hd ho hkva (fun b hb => hne b _ hb rfl) hm
  have hkva' : role' kva = .page := (hrole kva).1 hkva
  obtain ⟨hframe, -⟩ := h₂.tables.isFrame (f := kva) (by simp [hkva']) (by simp [hkva'])
  obtain ⟨n, -, hpa, hpk⟩ := hframe.kva2pa_eq
  rw [← hpa] at hpk
  -- the words of the card go to the frame
  obtain ⟨M, hM⟩ : ∃ M, ({ s with toMemory := m' } : State).sdread (pa2kva (kva2pa kva))
      (s.pages r).sectorId.toNat = M := ⟨_, rfl⟩
  have hlist : M.freememList = m'.freememList := by rw [← hM]; rfl
  have hread : M.mem kva = fun i : Fin 512 =>
      s.sd ((s.pages r).sectorId.toNat + i / 64) (Fin.ofNat 64 i) := by
    rw [← hM, hpk]
    exact Function.update_self ..
  have hmem₃ : ∀ g, g ≠ kva → M.mem g = m'.mem g := by
    intro g hg
    rw [← hM, hpk]
    exact Function.update_of_ne hg _ _
  obtain ⟨h₃, hleaf₃⟩ := h₂.write hkva' hlist hmem₃
  rw [hM] at hb ⊢
  have hleaves : ∀ b : UserPage, b.1 ∈ spaces → Own b.2.1 → M.leaf b.1 b.2 = m'.leaf b.1 b.2 :=
    fun b hb => hleaf₃ b.1 hb b.2
  refine ⟨role', e', kva, h.move (k := .presentPagesQueue)
    (v := { s.pages r with kva := kva, sectorId := 0 }) hr hb rfl rfl rfl h₃ le_rfl
    (fun k hk => by cases hk), fun b => ?_, ?_, fun b hb hob hbr => ?_⟩
  · rcases eq_or_ne b (s.pages r).userPage with rfl | hbr
    · rw [Function.update_self, hw]
      exact congrArg some hread
    · rw [Function.update_of_ne hbr]
      cases hwb : w b with
      | unmapped => rfl
      | frame f =>
        have hf := h.placed.role_frame hwb
        have hfk := hne b f hwb
        refine congrArg some ?_
        show M.mem f = s.mem f
        rw [hmem₃ f hfk, hmem₂ f (by rw [Function.update_of_ne hfk, hf]), hmem₁ f (by simp [hf])]
      | card k => rfl
  · exact (hleaves (s.pages r).userPage hd ho).trans hself
  · show M.leaf b.1 b.2 = _
    rw [hleaves b hb hob, hleaf b hb hob hbr]
    exact h.placed.tables.leaf_of_mem (h.placed.role_dir hb) hob fun f hf _ _ => hmem₁ f hf

/-- The pages of a directory come from the card, one after the other. -/
lemma swapInAllPages (h : Paged s spaces role e q w new) (hs : s.swapInAllPages P pgdir = some t) :
    ∃ role' e' q' w', Paged t spaces role' e' q' w' new ∧ (∀ b, t.seen (w' b) = s.seen (w b)) ∧
      Brought w w' t.toMemory := by
  have hround : ∀ s₁ q₁ r t₁, (∃ role' e' w', Paged s₁ spaces role' e' q₁ w' new ∧
      (∀ b, s₁.seen (w' b) = s.seen (w b)) ∧ Brought w w' s₁.toMemory) →
      r ∈ q₁ .swappedPagesQueue → State.swapInRound P pgdir r s₁ = some t₁ →
      ∃ q', (∃ role' e' w', Paged t₁ spaces role' e' q' w' new ∧
        (∀ b, t₁.seen (w' b) = s.seen (w b)) ∧ Brought w w' t₁.toMemory) ∧
        (q' .swappedPagesQueue = q₁ .swappedPagesQueue ∨
          q' .swappedPagesQueue = (q₁ .swappedPagesQueue).erase r) := by
    rintro s₁ q₁ r t₁ ⟨role₁, e₁, w₁, h₁, hseen, hbrought⟩ hr ht
    simp only [State.swapInRound] at ht
    split_ifs at ht with hc
    · obtain ⟨role₂, e₂, kva, h₂, hseen₂, hself, hother⟩ := h₁.swapIn hr ht
      refine ⟨_, ⟨role₂, e₂, _, h₂, fun b => (hseen₂ b).trans (hseen b), fun b k f hk hf => ?_⟩,
        Or.inr (by rw [Links.appendTo_of_ne (by decide), Links.removeFrom_self])⟩
      rcases eq_or_ne b (s₁.pages r).userPage with rfl | hne
      · rw [show t₁.leaf (s₁.pages r).userPage.1 (s₁.pages r).userPage.2 = _ from hself]
        exact entry_and_all kva
      · rw [Function.update_of_ne hne] at hf
        obtain ⟨hd, ho⟩ := h₁.placed.mapped b (by simp [hf])
        rw [hother b hd ho hne]
        exact hbrought b k f hk hf
    · rw [Option.some.injEq] at ht
      subst ht
      exact ⟨q₁, ⟨role₁, e₁, w₁, h₁, hseen, hbrought⟩, Or.inl rfl⟩
  obtain ⟨q', role', e', w', h', hseen, hbrought⟩ := Links.forEachSafe_rule
    (by
      rintro s₁ q₁ ⟨role₁, e₁, w₁, h₁, -⟩
      exact h₁.book.repr) hround
    ⟨role, e, w, h, fun _ => rfl, Brought.refl w _⟩ (h.book.init _) hs
  exact ⟨role', e', q', w', h', hseen, hbrought⟩

/-! ## Allocation and page faults -/

/-- `alloc_page_helper` of a page that is nowhere gives it a frame of zeros. -/
lemma allocPageHelper (h : Paged s spaces role e q w ∅) (hd : pgdir ∈ spaces)
    (ho : Own (vpn2 uva)) (huva : uvaOf (vpns uva) = uva) (hw : w (pgdir, vpns uva) = .unmapped)
    (hs : s.allocPageHelper P uva pgdir = some (kva, t)) :
    ∃ role' e' q' w', Paged t spaces role' e' q' w' ∅ ∧
      (∀ b, t.seen (w' b) =
        Function.update (fun b => s.seen (w b)) (pgdir, vpns uva) (some fun _ => 0) b) ∧
      Brought w w' t.toMemory := by
  simp only [State.allocPageHelper, Option.bind_eq_bind, Option.bind_eq_some_iff,
    Option.some.injEq, Prod.mk.injEq] at hs
  obtain ⟨⟨kva, m⟩, hk, m', hm, u, hu, v, hv, rfl, rfl⟩ := hs
  obtain ⟨role₁, e₁, h₁, hseen₁⟩ := h.mapNew hd ho hw hk hm
  obtain ⟨role₂, q₂, w₂, h₂, hseen₂, hframe, hnew, -⟩ := h₁.makeRoom hu
  have hw₂ : w₂ (pgdir, vpns uva) = .frame kva := by
    rw [hnew _ (Set.mem_singleton _), Function.update_self]
  obtain ⟨q₃, h₃, hseen₃⟩ := h₂.addNewPrePage huva hw₂ hv
  refine ⟨role₂, e₁, q₃, w₂, h₃, fun b => ?_, fun b k f hk hf => ?_⟩
  · rw [hseen₃, hseen₂, hseen₁]
  · -- no page has come from the card
    have hf := hframe b f hf
    rcases eq_or_ne b (pgdir, vpns uva) with rfl | hne
    · rw [hw] at hk
      cases hk
    · rw [Function.update_of_ne hne, hk] at hf
      cases hf

/-- Attributes of a page are set. -/
lemma setAttribute {bits : ℕ} (h : Paged s spaces role e q w new) (hd : pgdir ∈ spaces)
    (ho : Own (vpn2 uva)) (hbits : bits < 2 ^ 10) (heven : bits % 2 = 0)
    (hm : s.modifyPte uva pgdir (fun pte => Mm.setAttribute pte bits) = some m) :
    Paged { s with toMemory := m } spaces role e q w new ∧
      (∀ b, ({ s with toMemory := m } : State).seen (w b) = s.seen (w b)) ∧
      ∀ w₀, Brought w₀ w s.toMemory → Brought w₀ w m := by
  obtain ⟨hp, hself, hother, hmem⟩ := h.placed.modifyAttributes hd ho
    (fun _ _ _ => exists_setAttribute_even hbits heven) hm
  refine ⟨h.of_memory hp, h.seen_of_mem hmem, fun w₀ hbrought b k f hk hf => ?_⟩
  have hb := hbrought b k f hk hf
  obtain ⟨hdb, hob⟩ := h.placed.mapped b (by simp [hf])
  rcases eq_or_ne b (pgdir, vpns uva) with rfl | hne
  · show m.leaf pgdir (vpns uva) &&& PAGE_ALL = PAGE_ALL
    rw [hself, Mm.setAttribute]
    exact or_and_of_and hb bits
  · rw [hother b hdb hob hne, hb]

/-- A fault of a page that is nowhere allocates it, and one of a page that is on the card swaps it
in. -/
lemma bringIn (h : Paged s spaces role e q w ∅) (hd : pgdir ∈ spaces) (ho : Own (vpn2 uva))
    (huva : uvaOf (vpns uva) = uva) (hs : s.bringIn P uva pgdir = some t) :
    ∃ role' e' q' w', Paged t spaces role' e' q' w' ∅ ∧
      (∀ b, t.seen (w' b) = if w (pgdir, vpns uva) = .unmapped then
        Function.update (fun b => s.seen (w b)) (pgdir, vpns uva) (some fun _ => 0) b
        else s.seen (w b)) ∧
      Brought w w' t.toMemory := by
  have hzero := h.placed.getKvaOfUva_eq_zero_iff hd ho
  simp only [State.bringIn] at hs
  split_ifs at hs with hkva
  · have hw := hzero.1 hkva
    obtain ⟨⟨kva, u⟩, hu, rfl⟩ := Option.map_eq_some_iff.1 hs
    simp only [if_pos hw]
    exact h.allocPageHelper hd ho huva hw hu
  · have hw : w (pgdir, vpns uva) ≠ .unmapped := fun hw => hkva (hzero.2 hw)
    simp only [Option.bind_eq_bind, Option.bind_eq_some_iff] at hs
    obtain ⟨page, hpage, u, hu, r, rfl, ht⟩ := hs
    rw [State.findPageWithUva, h.book.find, Option.some.injEq] at hpage
    have hr := List.mem_of_find?_eq_some hpage
    have hfound := List.find?_some hpage
    rw [decide_eq_true_eq] at hfound
    obtain ⟨huva', hpgdir⟩ := hfound
    have hpg : (s.pages r).userPage = (pgdir, vpns uva) := by rw [Page.userPage, huva', hpgdir]
    have hcard := h.place _ r hr
    rw [hpg] at hcard
    obtain ⟨role₁, q₁, w₁, h₁, hseen₁, hframe, -, hkeep⟩ := h.makeRoom hu
    obtain ⟨hr₁, heq⟩ := hkeep r hr
    obtain ⟨role₂, e₂, kva, h₂, hseen₂, hself, -⟩ := h₁.swapIn hr₁ ht
    rw [heq] at h₂ hseen₂ hself
    rw [hpg] at h₂ hseen₂
    refine ⟨role₂, e₂, _, _, h₂, fun b => ?_, fun b k f hk hf => ?_⟩
    · rw [if_neg hw, hseen₂, hseen₁]
    · rcases eq_or_ne b (pgdir, vpns uva) with rfl | hne
      · show t.leaf pgdir (vpns uva) &&& PAGE_ALL = PAGE_ALL
        rw [← huva', ← hpgdir, hself]
        exact entry_and_all kva
      · -- making room has brought no page
        rw [Function.update_of_ne hne] at hf
        have hf := hframe b f hf
        rw [hk] at hf
        cases hf

lemma handlePageFault {stval : ℕ} {store : Bool} (h : Paged s spaces role e q w ∅)
    (hd : pgdir ∈ spaces) (hstval : stval < 2 ^ 38)
    (hs : s.handlePageFault P stval pgdir store = some t) :
    ∃ role' e' q' w', Paged t spaces role' e' q' w' ∅ ∧
      (∀ b, t.seen (w' b) = if w (pgdir, vpns stval) = .unmapped then
        Function.update (fun b => s.seen (w b)) (pgdir, vpns stval) (some fun _ => 0) b
        else s.seen (w b)) ∧
      Brought w w' t.toMemory := by
  have hmask : stval &&& PAGE_MASK = stval / 4096 * 4096 := and_pageMask (by omega)
  have hlt : stval &&& PAGE_MASK < 2 ^ 38 := by omega
  have hvpns : vpns (stval &&& PAGE_MASK) = vpns stval := by
    rw [vpns_eq_iff hstval hlt, hmask]
    simp only [PAGE_SIZE]
    omega
  have huva : uvaOf (vpns (stval &&& PAGE_MASK)) = stval &&& PAGE_MASK := by
    rw [uvaOf_vpns_iff, hmask]
    simp only [PAGE_SIZE]
    omega
  have ho := own_vpn2 hlt
  simp only [State.handlePageFault, Option.bind_eq_bind, Option.bind_eq_some_iff] at hs
  obtain ⟨u, hu, m, hm, hs⟩ := hs
  obtain ⟨role₁, e₁, q₁, w₁, h₁, hseen₁, hbrought₁⟩ := h.bringIn hd ho huva hu
  rw [hvpns] at hseen₁
  obtain ⟨h₂, hseen₂, hbrought₂⟩ := h₁.setAttribute hd ho (by decide) (by decide) hm
  split_ifs at hs with hstore
  · simp only [Option.bind_eq_some_iff, Option.some.injEq] at hs
    obtain ⟨m', hm', rfl⟩ := hs
    obtain ⟨h₃, hseen₃, hbrought₃⟩ := h₂.setAttribute hd ho (by decide) (by decide) hm'
    exact ⟨role₁, e₁, q₁, w₁, h₃, fun b => ((hseen₃ b).trans (hseen₂ b)).trans (hseen₁ b),
      hbrought₃ w (hbrought₂ w hbrought₁)⟩
  · rw [Option.some.injEq] at hs
    subst hs
    exact ⟨role₁, e₁, q₁, w₁, h₂, fun b => (hseen₂ b).trans (hseen₁ b), hbrought₂ w hbrought₁⟩

/-! ## Stores -/

/-- A process stores a word in its page. -/
lemma storeUser {v : ℕ} (h : Paged s spaces role e q w new) (hd : pgdir ∈ spaces)
    (hs : s.storeUser uva pgdir v = some t) :
    Paged t spaces role e q w new ∧
      ∀ b, t.seen (w b) = Function.update (fun b => s.seen (w b)) (pgdir, vpns uva)
        ((s.seen (w (pgdir, vpns uva))).map fun page =>
          Function.update page (Fin.ofNat 512 (uva / 8)) v) b := by
  obtain ⟨-, ho, hpresent, ht⟩ := State.storeUser_eq_some hs
  have hw := (h.placed.present_iff (a := (pgdir, vpns uva)) hd ho).1 hpresent
  obtain ⟨f, hf⟩ : ∃ f, frameOf (s.leaf pgdir (vpns uva)) = f := ⟨_, rfl⟩
  have hw : w (pgdir, vpns uva) = .frame f := hf ▸ hw
  rw [hf] at ht
  subst ht
  have hother : ∀ g, g ≠ f → (s.store f (Fin.ofNat 512 (uva / 8)) v).mem g = s.mem g :=
    fun g hg => store_of_ne hg
  have hlist : (s.store f (Fin.ofNat 512 (uva / 8)) v).freememList = s.freememList := rfl
  obtain ⟨hp, -⟩ := h.placed.write (h.placed.role_frame hw) hlist hother
  refine ⟨h.of_memory hp, fun b => ?_⟩
  rcases eq_or_ne b (pgdir, vpns uva) with rfl | hne'
  · rw [Function.update_self, hw]
    exact congrArg some store_self
  · rw [Function.update_of_ne hne']
    cases hwb : w b with
    | unmapped => rfl
    | frame g =>
      refine congrArg some (store_of_ne ?_)
      rintro rfl
      exact hne' (h.placed.frames b _ _ hwb hw)
    | card k => rfl

/-! ## The end of an address space -/

/-- `free_pagetable` and `free_pgdir` take the pages of the directory, and no others. -/
lemma exit (h : Paged s spaces role e q w ∅) (hd : pgdir ∈ spaces)
    (hs : s.freePagetable pgdir = some t) :
    ∃ role' q', Paged { t with toMemory := t.freePgdir pgdir } (spaces.erase pgdir) role' e q'
        (fun b => if b.1 = pgdir then .unmapped else w b) ∅ ∧
      ∀ b, ({ t with toMemory := t.freePgdir pgdir } : State).seen
          (if b.1 = pgdir then .unmapped else w b) =
        if b.1 = pgdir then none else s.seen (w b) := by
  have hdir := h.placed.role_dir hd
  obtain ⟨-, role', ht, hfree, hfrees⟩ := State.freePgdir_tables h.book h.placed.tables hdir hs
  obtain ⟨hp, -, hmem⟩ := h.placed.of_frees hd ht hfree hfrees
  obtain ⟨⟨q', hb', hsublist, hsame, hsd, hid⟩, -⟩ := State.Book.freePagetable_drops h.book hs
  have hsub : ∀ g, ∀ r ∈ q' g, r ∈ q g := fun g r hr => (hsublist g).subset hr
  obtain ⟨-, -, -, hother⟩ := State.freePagetable_freed h.book hs
  have huser : ∀ g, ∀ r ∈ q g, (s.pages r).pageId ≠ 0 := fun g r hr => (h.book.used r).2 ⟨g, hr⟩
  -- every page has one record, and it is freed
  have hgone : ∀ g, ∀ r ∈ q' g, (s.pages r).pgdir ≠ pgdir := by
    intro g r hr hpg
    have hrq := hsub g r hr
    have hw : w (s.pages r).userPage ≠ .unmapped := by
      rw [h.place g r hrq]
      cases g <;> simp [Queue.place]
    obtain ⟨hmem', ho⟩ := h.placed.mapped _ hw
    have hrec : ∀ p : Vpns, Own p.1 → s.leaf pgdir p ≠ 0 → s.HasRecord (uvaOf p) pgdir := by
      intro p hp hne
      obtain ⟨g', r', hr', heq⟩ := (h.record (pgdir, p) fun hun =>
        hne ((h.placed.leaf_eq_zero_iff (a := (pgdir, p)) hd hp).2 hun)).resolve_left
          (Set.notMem_empty _)
      obtain ⟨hpg', hvp⟩ := Prod.mk.inj heq
      exact ⟨r', huser g' r' hr', by rw [← hvp, h.aligned g' r' hr'], hpg'⟩
    have hone : s.OneRecord (uvaOf (vpns (s.pages r).uva)) pgdir := by
      rintro r₁ r₂ h₁ h₂ ⟨hu₁, hp₁⟩ ⟨hu₂, hp₂⟩
      obtain ⟨g₁, hr₁⟩ := (h.book.used r₁).1 h₁
      obtain ⟨g₂, hr₂⟩ := (h.book.used r₂).1 h₂
      refine h.one g₁ g₂ r₁ hr₁ r₂ hr₂ ?_
      rw [Page.userPage, Page.userPage, hu₁, hu₂, hp₁, hp₂]
    refine State.freePagetable_gone (p := vpns (s.pages r).uva) h.book h.placed.tables hdir hrec ho
      ?_ hone hs ⟨r, (hb'.used r).2 ⟨g, hr⟩, ?_, ?_⟩
    · intro hzero
      refine hw ((h.placed.leaf_eq_zero_iff hmem' ho).1 ?_)
      rw [← hzero, Page.userPage, hpg]
    · rw [hsame g r hr, h.aligned g r hrq]
    · rw [hsame g r hr, hpg]
  refine ⟨role', q', ⟨hp, hb'.congr (fun _ => rfl) rfl rfl rfl, fun g r hr => ?_, fun g r hr => ?_,
    fun _ _ _ => Set.notMem_empty _, fun b hb => ?_, fun g g' r hr r' hr' heq => ?_, ?_,
    fun b k hb => ?_⟩, fun b => ?_⟩
  · show (if (t.pages r).pgdir = pgdir then Place.unmapped else w (t.pages r).userPage) =
      g.place (t.pages r)
    rw [hsame g r hr, if_neg (hgone g r hr)]
    exact h.place g r (hsub g r hr)
  · show uvaOf (vpns (t.pages r).uva) = (t.pages r).uva
    rw [hsame g r hr]
    exact h.aligned g r (hsub g r hr)
  · split_ifs at hb with hbd
    · exact absurd rfl hb
    obtain ⟨g, r, hr, heq⟩ := (h.record b hb).resolve_left (Set.notMem_empty b)
    have hpg : (s.pages r).pgdir ≠ pgdir := by
      rintro rfl
      exact hbd (congrArg Prod.fst heq).symm
    have hpage := hother r hpg
    have hused : (t.pages r).pageId ≠ 0 := by
      rw [hpage]
      exact huser g r hr
    obtain ⟨g', hr'⟩ := (hb'.used r).1 hused
    exact Or.inr ⟨g', r, hr', by rw [← heq, ← hpage]⟩
  · have heq : (t.pages r).userPage = (t.pages r').userPage := heq
    rw [hsame g r hr, hsame g' r' hr'] at heq
    exact h.one g g' r (hsub g r hr) r' (hsub g' r' hr') heq
  · show 0 ≤ t.diskSectorsStartid
    rw [hid]
    exact h.startid
  · split_ifs at hb
    show _ ∧ _ ≤ t.diskSectorsStartid
    rw [hid]
    exact h.card b k hb
  · split_ifs with hbd
    · rfl
    cases hw : w b with
    | unmapped => rfl
    | frame f => exact congrArg some (hmem f (h.placed.role_frame hw))
    | card k => exact congrArg some (funext fun i => by rw [hsd])

end Paged

end Mm
end UcasKernel
