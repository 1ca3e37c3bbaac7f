/-
Reclaiming a page when all records are in use.

There are as many records as pages may be present, and a record that is swapped out stays
in use.  So when `alloc_page_helper` has to swap a page out, no record is left for the
page that it was called for, and the assertion of `add_new_pre_page` fails.
-/
import UcasKernel.Mm.SharedRuns

namespace UcasKernel
namespace Mm

open Links (appendTo removeFrom)

namespace State

/-- `alloc_page_helper` up to its call of `add_new_pre_page`. -/
def madeRoom (s : State) (uva pgdir : ℕ) : Option (ℕ × State) := do
  let (kva, m) ← s.kalloc
  let m ← m.mapUvaToKva uva kva pgdir
  let s ← ({ s with toMemory := m } : State).makeRoom MAX_PRESENT_PFN
  some (kva, s)

/-- When a page has to be reclaimed, there is a record for the new one, and the allocation
succeeds. -/
def Reclaims (s : State) (uva pgdir : ℕ) : Prop :=
  (MAX_PRESENT_PFN : ℤ) ≤ s.presentPagesNum → ∀ kva t, s.madeRoom uva pgdir = some (kva, t) →
    (∃ r, (t.pages r).pageId = 0) ∧ ∃ u, s.allocPageHelper MAX_PRESENT_PFN uva pgdir = some u

variable {s t u : State} {q : Queue → List Pfn} {r : Pfn} {uva kva pgdir stval : ℕ}

/-! ## No record is left -/

/-- No page is swapped out, and the lists, the counter and the slots agree. -/
def Unswapped (s : State) : Prop := ∃ q, s.Book q ∧ q .swappedPagesQueue = []

namespace Unswapped

lemma congr (h : s.Unswapped) (hpages : t.pages = s.pages) (hlinks : t.links = s.links)
    (hnum : t.presentPagesNum = s.presentPagesNum) (hid : t.pageId = s.pageId) : t.Unswapped := by
  obtain ⟨q, hb, hq⟩ := h
  exact ⟨q, hb.congr (fun r => by rw [hpages]) hlinks hnum hid, hq⟩

lemma memory (h : s.Unswapped) (m : Memory) : ({ s with toMemory := m } : State).Unswapped :=
  h.congr rfl rfl rfl rfl

lemma setSharePage (h : s.Unswapped) (i : Fin 16) (v : SharePage) :
    (s.setSharePage i v).Unswapped :=
  h.congr rfl rfl rfl rfl

lemma allocPageHelper (h : s.Unswapped)
    (hs : s.allocPageHelper MAX_PRESENT_PFN uva pgdir = some (kva, t)) : t.Unswapped := by
  obtain ⟨q, hb, hq⟩ := h
  obtain ⟨m, m', r, L, -, -, -, hbook⟩ := hb.allocPageHelper_spec hs
  exact ⟨_, hbook, by rw [Links.appendTo_of_ne (by decide), hq]⟩

lemma handlePageFault {store : Bool} (h : s.Unswapped)
    (hs : s.handlePageFault MAX_PRESENT_PFN stval pgdir store = some t) : t.Unswapped := by
  obtain ⟨q, hb, hq⟩ := h
  obtain ⟨u, m, rfl, ⟨uva, kva, hu⟩ | ⟨uva, r, v, hr, -, -⟩⟩ := handlePageFault_cases hs
  · exact (allocPageHelper ⟨q, hb, hq⟩ hu).memory m
  · rw [findPageWithUva, hb.find, hq] at hr
    cases hr

lemma swapInAllPages {P : ℕ} (h : s.Unswapped) (hs : s.swapInAllPages P pgdir = some t) :
    t.Unswapped := by
  obtain ⟨q, hb, hq⟩ := h
  obtain rfl := hb.swapInAllPages_eq hq hs
  exact ⟨q, hb, hq⟩

lemma freePageWithUva (h : s.Unswapped) (hs : s.freePageWithUva uva pgdir = some t) :
    t.Unswapped := by
  obtain ⟨q, hb, hq⟩ := h
  obtain ⟨q', hdrops, -⟩ := hb.freePageWith_drops (fun _ => hb.find _) hs
  exact ⟨q', hdrops.book, hdrops.eq_nil hq⟩

lemma freePageWithKva (h : s.Unswapped) (hs : s.freePageWithKva kva = some t) : t.Unswapped := by
  obtain ⟨q, hb, hq⟩ := h
  obtain ⟨q', hdrops, -⟩ := hb.freePageWith_drops (fun _ => hb.find _) hs
  exact ⟨q', hdrops.book, hdrops.eq_nil hq⟩

lemma freePagetable (h : s.Unswapped) (hs : s.freePagetable pgdir = some t) : t.Unswapped :=
  freePagetable_rule (I := Unswapped) (fun _ m h => h.memory m)
    (fun _ _ _ h ht => h.freePageWithUva ht) h hs

lemma shmPageGet {key : ℤ} (h : s.Unswapped) (hs : s.shmPageGet key pgdir = some (uva, t)) :
    t.Unswapped := by
  simp only [State.shmPageGet] at hs
  split at hs
  · simp only [Option.bind_eq_bind, Option.bind_eq_some_iff, Option.some.injEq,
      Prod.mk.injEq] at hs
    obtain ⟨ref, -, v, -, m, -, -, rfl⟩ := hs
    exact (h.setSharePage _ _).memory m
  · split at hs
    · simp only [Option.bind_eq_bind, Option.bind_eq_some_iff, Option.some.injEq,
        Prod.mk.injEq] at hs
      obtain ⟨ref, -, v, -, ⟨kva, u⟩, hu, -, rfl⟩ := hs
      exact ((h.setSharePage _ _).allocPageHelper hu).setSharePage _ _
    · simp only [Option.some.injEq, Prod.mk.injEq] at hs
      exact hs.2 ▸ h

lemma shmPageDt (h : s.Unswapped) (hs : s.shmPageDt uva pgdir = some t) : t.Unswapped := by
  simp only [State.shmPageDt, Option.bind_eq_bind, Option.bind_eq_some_iff] at hs
  obtain ⟨m, -, hs⟩ := hs
  split at hs
  · exact Option.some.inj hs ▸ h.memory m
  · simp only [Option.bind_eq_some_iff] at hs
    obtain ⟨ref, -, hs⟩ := hs
    split_ifs at hs with hzero
    · simp only [Option.bind_eq_some_iff, Option.some.injEq] at hs
      obtain ⟨u, hu, rfl⟩ := hs
      exact ((((h.memory m).setSharePage _ _).setSharePage _ _).freePageWithKva hu).setSharePage _ _
    · exact Option.some.inj hs ▸ (h.memory m).setSharePage _ _

end Unswapped

/-- A page that is swapped out leaves no record, and no allocation succeeds. -/
lemma Book.full (hb : s.Book q) (hfull : (MAX_PRESENT_PFN : ℤ) ≤ s.presentPagesNum) :
    s.allocPageHelper MAX_PRESENT_PFN uva pgdir = none ∧
      ∀ kva t, s.madeRoom uva pgdir = some (kva, t) → ∀ r, (t.pages r).pageId ≠ 0 := by
  have hused : ∀ m t, ({ s with toMemory := m } : State).makeRoom MAX_PRESENT_PFN = some t →
      ∀ r, (t.pages r).pageId ≠ 0 := by
    intro m t ht r
    have hb₁ : ({ s with toMemory := m } : State).Book q := hb.memory m
    simp only [State.makeRoom, if_pos hfull] at ht
    obtain ⟨r', l, L, m', hq, -, -, hbook⟩ := hb₁.swapOut ht
    have hmem : r' ∈ q .presentPagesQueue := by
      rw [hq]
      exact List.mem_cons_self
    exact (hbook.used r).2 ((hb₁.exists_mem_move hmem r).2 ⟨_, hb₁.mem_of_full hfull r⟩)
  constructor
  · cases halloc : s.allocPageHelper MAX_PRESENT_PFN uva pgdir with
    | none => rfl
    | some v =>
      obtain ⟨kva, t⟩ := v
      obtain ⟨m, m', r, L, -, -, rfl, hbook⟩ := hb.allocPageHelper_spec halloc
      -- `alloc_page_helper` returns only below the bound
      have hnum := hbook.num_le
      simp only at hnum
      omega
  · intro kva t ht
    simp only [madeRoom, Option.bind_eq_bind, Option.bind_eq_some_iff, Option.some.injEq,
      Prod.mk.injEq] at ht
    obtain ⟨⟨kva, m⟩, -, m', -, u, hu, rfl, rfl⟩ := ht
    exact hused m' u hu

/-! ## All records can be taken -/

lemma Book.exists_unused (hb : s.Book q) (hq : q .swappedPagesQueue = [])
    (hlt : s.presentPagesNum < MAX_PRESENT_PFN) : ∃ r, (s.pages r).pageId = 0 := by
  by_contra hno
  have hall : ∀ r, r ∈ q .presentPagesQueue := by
    intro r
    obtain ⟨h, hr⟩ := (hb.used r).1 fun hr => hno ⟨r, hr⟩
    cases h with
    | presentPagesQueue => exact hr
    | swappedPagesQueue => simp [hq] at hr
  have hlen := ((List.nodup_finRange 512).subperm fun r _ => hall r).length_le
  have hnum := hb.num
  rw [List.length_finRange] at hlen
  simp only [MAX_PRESENT_PFN] at hlt
  omega

lemma Book.addNewPrePage_isSome (hb : s.Book q) (hr : ∃ r, (s.pages r).pageId = 0)
    (hid : s.pageId + 1 < 2 ^ 31) : ∃ t, s.addNewPrePage uva kva pgdir = some t := by
  obtain ⟨r₀, hr₀⟩ := hr
  obtain ⟨r, hr⟩ : ∃ r, (List.finRange 512).find? (fun i => (s.pages i).pageId = 0) = some r := by
    rw [← Option.isSome_iff_exists, List.find?_isSome]
    exact ⟨r₀, List.mem_finRange r₀, by simpa using hr₀⟩
  have hfree : (s.pages r).pageId = 0 := by simpa using List.find?_some hr
  have hadd : addInt s.pageId 1 = some (s.pageId + 1) := by
    have := hb.pageId_nonneg
    exact if_pos ⟨by omega, hid⟩
  obtain ⟨L, hL, -⟩ := hb.repr.addTail (hb.init .presentPagesQueue)
    fun h hmem => (hb.used r).2 ⟨h, hmem⟩ hfree
  simp only [State.addNewPrePage, hr, hadd, listAddTail, setPage, hL, Option.bind_eq_bind,
    Option.bind_some, Option.map_some]
  exact ⟨_, rfl⟩

lemma Book.swapOut_isSome {l : List Pfn} (hb : s.Book q) (hq : q .presentPagesQueue = r :: l)
    (hleaf : s.leaf (s.pages r).pgdir (vpns (s.pages r).uva) ≠ 0) (hid : 0 ≤ s.diskSectorsStartid)
    (hid' : s.diskSectorsStartid + SECTORS_PER_PAGE < 2 ^ 31) : ∃ t, s.swapOut = some t := by
  have hfirst : s.firstEntry .presentPagesQueue = some r := by
    rw [firstEntry, hb.repr.next_head (hb.init _), hq]
    rfl
  obtain ⟨L₁, L₂, hL₁, hL₂, -⟩ := hb.repr.move (by rw [hq]; exact List.mem_cons_self)
    (hb.init .swappedPagesQueue)
  have hadd : addInt s.diskSectorsStartid SECTORS_PER_PAGE =
      some (s.diskSectorsStartid + SECTORS_PER_PAGE) := by
    refine if_pos ⟨?_, hid'⟩
    simp only [SECTORS_PER_PAGE]
    omega
  simp only [State.swapOut, hfirst, listDeleteEntry, hL₁, listAddTail, hL₂, sdwrite, setPage, hadd,
    Memory.modifyPte_eq, Function.update_self, if_neg hleaf, Option.bind_eq_bind, Option.bind_some,
    Option.map_some]
  exact ⟨_, rfl⟩

end State

section Spaces

variable {A : Prop} {s : State} {q : Queue → List Pfn} {spaces : Finset ℕ} {role : ℕ → Role}
  {e uva pgdir : ℕ}

/-- While there is memory, a page can be allocated and mapped. -/
lemma Spaces.mapUvaToKva_isSome (h : Spaces A s.toMemory spaces role e) (hd : pgdir ∈ spaces)
    (ho : Own (vpn2 uva)) (hroom : e + 3 * PAGE_SIZE < FREEMEM_KERNEL_STOP) :
    ∃ kva m m', s.kalloc = some (kva, m) ∧ m.mapUvaToKva uva kva pgdir = some m' ∧
      m'.leaf pgdir (vpns uva) ≠ 0 ∧ SameBut spaces pgdir (vpns uva) s.toMemory m' := by
  obtain ⟨kva, m, hk⟩ := h.tables.kalloc_isSome (by omega)
  obtain ⟨e₁, h₁, -, -, hleaf, hle⟩ := h.kalloc (r := .page) (by simp) (by simp) hk
  obtain ⟨m', hm⟩ : ∃ m', m.mapUvaToKva uva kva pgdir = some m' :=
    h₁.tables.mapUvaToKva_isSome (h₁.role_dir hd) ho (by omega)
  have hkva : Mapped A (Function.update role kva .page) kva := Or.inl (Function.update_self ..)
  obtain ⟨role₂, e₂, h₂, hkeep, hself, hsame, -⟩ := h₁.mapUvaToKva hd ho hkva hm
  refine ⟨kva, m, m', hk, hm, ?_, fun d hd q hq hne => ?_⟩
  · rw [hself]
    exact h₂.entry_ne_zero (hkva.mono (Stays.of_keep hkeep)) (by decide)
  · rw [hsame d hd q hq hne, hleaf d hd q hq]

lemma Spaces.allocPageHelper_isSome (h : Spaces A s.toMemory spaces role e) (hb : s.Book q)
    (hq : q .swappedPagesQueue = []) (hd : pgdir ∈ spaces) (ho : Own (vpn2 uva))
    (hlt : s.presentPagesNum < MAX_PRESENT_PFN) (hid : s.pageId + 1 < 2 ^ 31)
    (hroom : e + 3 * PAGE_SIZE < FREEMEM_KERNEL_STOP) :
    ∃ kva t, s.allocPageHelper MAX_PRESENT_PFN uva pgdir = some (kva, t) := by
  obtain ⟨kva, m, m', hk, hm, -⟩ := h.mapUvaToKva_isSome hd ho hroom
  have hb₁ : ({ s with toMemory := m' } : State).Book q := hb.memory m'
  obtain ⟨t, ht⟩ : ∃ t, ({ s with toMemory := m' } : State).addNewPrePage uva kva pgdir = some t :=
    hb₁.addNewPrePage_isSome (hb₁.exists_unused hq hlt) hid
  simp only [State.allocPageHelper, hk, hm, State.makeRoom, if_neg (not_le.2 hlt), ht,
    Option.bind_eq_bind, Option.bind_some]
  exact ⟨kva, t, rfl⟩

end Spaces

namespace Sharing

variable {x y : Sharing}

lemma unswapped_call {ev : ShareEvent} (h : x.state.Unswapped) (hc : x.call ev = some y) :
    y.state.Unswapped := by
  cases ev with
  | newPgdir =>
    obtain ⟨⟨p, m⟩, -, rfl⟩ := Option.map_eq_some_iff.1 hc
    exact h.memory m
  | sharePgtable pgdir =>
    rw [call, Option.some.injEq] at hc
    exact hc ▸ h.memory _
  | kalloc =>
    obtain ⟨⟨p, m⟩, -, rfl⟩ := Option.map_eq_some_iff.1 hc
    exact h.memory m
  | allocPageHelper uva pgdir =>
    obtain ⟨⟨kva, t⟩, ht, rfl⟩ := Option.map_eq_some_iff.1 hc
    exact h.allocPageHelper ht
  | unsetExec uva pgdir =>
    obtain ⟨m, -, rfl⟩ := Option.map_eq_some_iff.1 hc
    exact h.memory m
  | handlePageFault stval pgdir store =>
    obtain ⟨t, ht, rfl⟩ := Option.map_eq_some_iff.1 hc
    exact h.handlePageFault ht
  | swapInAllPages pgdir =>
    obtain ⟨t, ht, rfl⟩ := Option.map_eq_some_iff.1 hc
    exact h.swapInAllPages ht
  | freePageWithKva kva =>
    obtain ⟨t, ht, rfl⟩ := Option.map_eq_some_iff.1 hc
    exact h.freePageWithKva ht
  | exit pgdir =>
    simp only [call, Option.map_eq_some_iff] at hc
    obtain ⟨t, ht, rfl⟩ := hc
    exact (h.freePagetable ht).memory _
  | shmPageGet key pgdir =>
    simp only [call, Option.map_eq_some_iff] at hc
    obtain ⟨⟨uva, t⟩, ht, rfl⟩ := hc
    have hrecord : (record (x.next t) key pgdir uva).state = t := by
      rw [record]
      split_ifs <;> rfl
    rw [hrecord]
    exact h.shmPageGet ht
  | shmPageDt addr pgdir =>
    simp only [call, Option.map_eq_some_iff] at hc
    obtain ⟨t, ht, rfl⟩ := hc
    exact h.shmPageDt ht
  | store uva pgdir v =>
    obtain ⟨t, ht, rfl⟩ := Option.map_eq_some_iff.1 hc
    obtain ⟨-, -, -, rfl⟩ := State.storeUser_eq_some ht
    exact h.memory _

/-- In no state of any run does reclaiming leave a record for the page that is to be
allocated. -/
theorem reclaim_never (m : Memory) (kernel io : ℕ) (sd : ℕ → Fin 64 → ℕ) (startid : ℤ)
    (es : List ShareEvent) :
    Trace.Always step (fun x => (MAX_PRESENT_PFN : ℤ) ≤ x.state.presentPagesNum → ∀ uva pgdir,
      x.state.allocPageHelper MAX_PRESENT_PFN uva pgdir = none ∧
        ∀ kva t, x.state.madeRoom uva pgdir = some (kva, t) → ∀ r, (t.pages r).pageId ≠ 0)
      (boot m kernel io sd startid) es := by
  have halways : Trace.Always step (fun x => x.state.Unswapped) (boot m kernel io sd startid) es := by
    refine Trace.always_of_invariant (C := fun _ _ => True) ?_ ⟨_, State.book_boot _ sd startid, rfl⟩
      (Trace.stepsMeet_true _ _)
    rintro x ev y h - hs
    rw [step, Option.ite_none_right_eq_some] at hs
    exact unswapped_call h hs.2
  refine halways.mono fun x hx hfull uva pgdir => ?_
  obtain ⟨q, hb, -⟩ := hx
  exact hb.full hfull

/-- `n` pages of the first process are present, and they are mapped. -/
structure Filled (x : Sharing) (n : ℕ) : Prop where
  spaces : ∃ role e q, Spaces False x.state.toMemory x.spaces role e ∧ x.state.Book q ∧
    q .swappedPagesQueue = [] ∧ e ≤ FREEMEM_KERNEL + (3 * n + 1) * PAGE_SIZE
  mem : FREEMEM_KERNEL ∈ x.spaces
  num : x.state.presentPagesNum = n
  pageId : x.state.pageId = n
  startid : x.state.diskSectorsStartid = 100
  mapped : ∀ r, (x.state.pages r).pageId ≠ 0 → (x.state.pages r).pgdir = FREEMEM_KERNEL ∧
    Own (vpn2 (x.state.pages r).uva) ∧
      x.state.leaf FREEMEM_KERNEL (vpns (x.state.pages r).uva) ≠ 0

/-- One page more. -/
lemma Filled.allocPageHelper {n uva : ℕ} (h : x.Filled n) (hn : n < MAX_PRESENT_PFN)
    (huva : uva < 2 ^ 38) :
    ∃ y, x.step (.allocPageHelper uva FREEMEM_KERNEL) = some y ∧ y.Filled (n + 1) := by
  obtain ⟨role, e, q, hs, hb, hq, he⟩ := h.spaces
  have ho := own_vpn2 huva
  have hnum := h.num
  have hid := h.pageId
  simp only [MAX_PRESENT_PFN] at hn
  have hroom : e + 3 * PAGE_SIZE < FREEMEM_KERNEL_STOP := by
    simp only [PAGE_SIZE, FREEMEM_KERNEL, FREEMEM_KERNEL_STOP] at he ⊢
    omega
  obtain ⟨kva, t, ht⟩ := hs.allocPageHelper_isSome hb hq h.mem ho
    (by simp only [MAX_PRESENT_PFN]; omega) (by omega) hroom
  obtain ⟨⟨q', hb', hq'⟩, -, -, role', e', hs', -, hpage, hself, hsame, he'⟩ :=
    hs.allocPageHelper hb hq h.mem ho ht
  obtain ⟨m, m', r, L, -, -, heq, -⟩ := hb.allocPageHelper_spec ht
  have hpages : t.pages = Function.update x.state.pages r { x.state.pages r with
      uva := uva, kva := kva, pageId := x.state.pageId + 1, pgdir := FREEMEM_KERNEL } := by rw [heq]
  have hnum' : t.presentPagesNum = x.state.presentPagesNum + 1 := by rw [heq]
  have hid' : t.pageId = x.state.pageId + 1 := by rw [heq]
  have hstart : t.diskSectorsStartid = x.state.diskSectorsStartid := by rw [heq]
  refine ⟨(x.next t).letGo uva FREEMEM_KERNEL, ?_, ⟨role', e', q', hs', hb', hq', ?_⟩, h.mem, ?_, ?_,
    hstart.trans h.startid, fun r' hr' => ?_⟩
  · have hd : ∀ d ∈ (ShareEvent.allocPageHelper uva FREEMEM_KERNEL).pgdir, d ∈ x.spaces := by
      intro d hd
      obtain rfl := Option.some.inj hd
      exact h.mem
    rw [step, if_pos hd, call, ht, Option.map_some]
  · simp only [PAGE_SIZE] at he he' ⊢
    omega
  · show t.presentPagesNum = _
    rw [hnum', hnum]
    rfl
  · show t.pageId = _
    rw [hid', hid]
    rfl
  · show (t.pages r').pgdir = _ ∧ Own (vpn2 (t.pages r').uva) ∧ t.leaf _ (vpns (t.pages r').uva) ≠ 0
    change (t.pages r').pageId ≠ 0 at hr'
    rw [hpages] at hr' ⊢
    have hne : t.leaf FREEMEM_KERNEL (vpns uva) ≠ 0 := by
      rw [hself]
      exact hs'.entry_ne_zero (Or.inl hpage) (by decide)
    rcases eq_or_ne r' r with rfl | hr
    · rw [Function.update_self]
      exact ⟨rfl, ho, hne⟩
    · rw [Function.update_of_ne hr] at hr' ⊢
      obtain ⟨hd, hown, hleaf⟩ := h.mapped r' hr'
      refine ⟨hd, hown, ?_⟩
      by_cases hv : vpns (x.state.pages r').uva = vpns uva
      · rw [hv]
        exact hne
      · have hsame' := hsame FREEMEM_KERNEL h.mem (vpns (x.state.pages r').uva) hown
          fun heq => hv (Prod.ext_iff.1 heq).2
        rwa [hsame']

/-- The events of a process that allocates `n` pages. -/
def fills (n : ℕ) : List ShareEvent :=
  .newPgdir :: (List.range n).map fun k =>
    .allocPageHelper (0x10000 + k * PAGE_SIZE) FREEMEM_KERNEL

/-- The memory manager after boot with an empty memory. -/
def emptyBoot : Sharing := boot ⟨fun _ _ => 0, 0⟩ 1 1 (fun _ _ => 0) 100

lemma exists_filled {n : ℕ} (hn : n ≤ MAX_PRESENT_PFN) :
    ∃ x, Trace.run step emptyBoot (fills n) = some x ∧ x.Filled n := by
  induction n with
  | zero =>
    obtain ⟨role, q, h⟩ : ∃ role q, emptyBoot.Inv False role FREEMEM_KERNEL q := inv_boot ..
    have hk : emptyBoot.state.kalloc.map Prod.fst = some FREEMEM_KERNEL := by decide +kernel
    obtain ⟨⟨p, m⟩, hk, rfl⟩ := Option.map_eq_some_iff.1 hk
    obtain ⟨e', hs, -, -, -, he'⟩ := h.spaces.newPgdir hk
    have hd : ∀ d ∈ ShareEvent.newPgdir.pgdir, d ∈ emptyBoot.spaces := nofun
    refine ⟨{ emptyBoot.next { emptyBoot.state with toMemory := m } with
      spaces := insert FREEMEM_KERNEL emptyBoot.spaces }, ?_,
      ⟨_, e', q, hs, h.book.memory _, h.swapped, ?_⟩,
      Finset.mem_insert_self _ _, rfl, rfl, rfl, fun r hr => absurd rfl hr⟩
    · rw [fills, List.range_zero, List.map_nil, Trace.run_singleton, step, if_pos hd, call, hk,
        Option.map_some]
    · simp only [PAGE_SIZE] at he' ⊢
      omega
  | succ n ih =>
    obtain ⟨x, hx, hfilled⟩ := ih (Nat.le_of_succ_le hn)
    have huva : 0x10000 + n * PAGE_SIZE < 2 ^ 38 := by
      simp only [MAX_PRESENT_PFN, PAGE_SIZE] at hn ⊢
      omega
    obtain ⟨y, hy, hfilled'⟩ := hfilled.allocPageHelper hn huva
    refine ⟨y, ?_, hfilled'⟩
    have hfills : fills (n + 1) =
        fills n ++ [.allocPageHelper (0x10000 + n * PAGE_SIZE) FREEMEM_KERNEL] := by
      rw [fills, fills, List.range_succ, List.map_append, List.map_singleton, List.cons_append]
    rw [hfills, Trace.run_append_eq_some]
    exact ⟨x, hx, by rw [Trace.run_singleton, hy]⟩

/-- When all the pages are mapped, one of them can be swapped out. -/
lemma Filled.madeRoom_isSome {n uva : ℕ} (h : x.Filled n) (hn : n = MAX_PRESENT_PFN)
    (huva : uva < 2 ^ 38) : ∃ kva t, x.state.madeRoom uva FREEMEM_KERNEL = some (kva, t) := by
  obtain ⟨role, e, q, hs, hb, hq, he⟩ := h.spaces
  have hnum := h.num
  have hstart := h.startid
  obtain ⟨kva, m, m', hk, hm, hne, hsame⟩ := hs.mapUvaToKva_isSome h.mem (own_vpn2 huva) (by
    simp only [hn, MAX_PRESENT_PFN, PAGE_SIZE, FREEMEM_KERNEL, FREEMEM_KERNEL_STOP] at he ⊢
    omega)
  have hb₁ : ({ x.state with toMemory := m' } : State).Book q := hb.memory m'
  have hfull : (MAX_PRESENT_PFN : ℤ) ≤ x.state.presentPagesNum := by rw [hnum, hn]
  obtain ⟨r, l, hqr⟩ := List.exists_cons_of_ne_nil (List.ne_nil_of_mem (hb.mem_of_full hfull 0))
  obtain ⟨hd, hown, hleaf⟩ := h.mapped r ((hb.used r).2 ⟨_, hb.mem_of_full hfull r⟩)
  obtain ⟨t, ht⟩ := hb₁.swapOut_isSome hqr (by
    show m'.leaf (x.state.pages r).pgdir (vpns (x.state.pages r).uva) ≠ 0
    rw [hd]
    by_cases hv : vpns (x.state.pages r).uva = vpns uva
    · rwa [hv]
    · have hsame' := hsame FREEMEM_KERNEL h.mem (vpns (x.state.pages r).uva) hown
        fun heq => hv (Prod.ext_iff.1 heq).2
      rwa [hsame']) (by show 0 ≤ x.state.diskSectorsStartid; omega) (by
    show x.state.diskSectorsStartid + SECTORS_PER_PAGE < 2 ^ 31
    rw [hstart]
    decide)
  simp only [State.madeRoom, hk, hm, State.makeRoom, if_pos hfull, ht, Option.bind_eq_bind,
    Option.bind_some]
  exact ⟨kva, t, rfl⟩

/-- A process that has allocated 512 pages needs one more: a page is swapped out, and there is
no record. -/
theorem full_not_reclaims : ∃ x, Trace.run step emptyBoot (fills MAX_PRESENT_PFN) = some x ∧
    FREEMEM_KERNEL ∈ x.spaces ∧ ¬ x.state.Reclaims 0x300000 FREEMEM_KERNEL := by
  obtain ⟨x, hx, h⟩ := exists_filled le_rfl
  refine ⟨x, hx, h.mem, fun hreclaims => ?_⟩
  obtain ⟨role, e, q, -, hb, -⟩ := h.spaces
  have hfull : (MAX_PRESENT_PFN : ℤ) ≤ x.state.presentPagesNum := h.num.ge
  obtain ⟨kva, t, ht⟩ := h.madeRoom_isSome rfl (show 0x300000 < 2 ^ 38 by decide)
  obtain ⟨⟨r, hr⟩, -⟩ := hreclaims hfull kva t ht
  exact (hb.full hfull).2 kva t ht r hr

end Sharing

end Mm
end UcasKernel
