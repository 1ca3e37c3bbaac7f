/-
Shared pages.

`share_pages` has a slot for each key in use: the frame, and how often it was got.  A
get maps the frame of the key at the first address from `SHARE_PAGE_UVA_START` on that
is not mapped; the slot of a new key gets a new frame.  Key 0 marks a slot that is
free, but is looked up like any other key.
-/
import UcasKernel.Mm.Paging

namespace UcasKernel
namespace Mm

def MAX_PRESENT_PFN : ℕ := 512
def SHARE_PAGE_UVA_START : ℕ := 0x100000

/-- The values of `j` for which `j * PAGE_SIZE` fits an `int`. -/
def SHARE_PAGE_ROUNDS : ℕ := 0x80000

/-- The loop over `j` of `shm_page_get`, from `j` on. -/
def Memory.firstUnmapped (m : Memory) (pgdir j : ℕ) : ℕ → Option ℕ
  | 0 => none
  | n + 1 =>
    let uva := SHARE_PAGE_UVA_START + j * PAGE_SIZE
    if m.getPteOfUva uva pgdir = none then some uva else m.firstUnmapped pgdir (j + 1) n

namespace State

def setSharePage (s : State) (i : Fin 16) (v : SharePage) : State :=
  { s with sharePages := Function.update s.sharePages i v }

/-- The books do not read the slots. -/
lemma Book.slot {s : State} {q : Queue → List Pfn} (hb : s.Book q) (i : Fin 16)
    (v : SharePage) : (s.setSharePage i v).Book q :=
  hb.congr (fun _ => rfl) rfl rfl rfl

/-- The first slot with a key. -/
def findShare (s : State) (key : ℤ) : Option (Fin 16) :=
  (List.finRange 16).find? fun i => (s.sharePages i).key = key

/-- `shm_page_get` of a process with the page directory `pgdir`. -/
def shmPageGet (s : State) (key : ℤ) (pgdir : ℕ) : Option (ℕ × State) :=
  match s.findShare key with
  | some i => do
    let ref ← addInt (s.sharePages i).ref 1
    let s := s.setSharePage i { s.sharePages i with ref := ref }
    let uva ← s.firstUnmapped pgdir 0 SHARE_PAGE_ROUNDS
    let m ← s.mapUvaToKva uva (s.sharePages i).kva pgdir
    some (uva, { s with toMemory := m })
  | none =>
    match s.findShare 0 with
    | some i => do
      let ref ← addInt (s.sharePages i).ref 1
      let s := s.setSharePage i { s.sharePages i with key := key, ref := ref }
      let uva ← s.firstUnmapped pgdir 0 SHARE_PAGE_ROUNDS
      let (kva, s) ← s.allocPageHelper MAX_PRESENT_PFN uva pgdir
      some (uva, s.setSharePage i { s.sharePages i with kva := kva })
    | none => some (0, s)

/-- The first slot with a frame. -/
def findShareKva (s : State) (kva : ℕ) : Option (Fin 16) :=
  (List.finRange 16).find? fun i => (s.sharePages i).kva = kva

/-- `shm_page_dt`. -/
def shmPageDt (s : State) (addr pgdir : ℕ) : Option State := do
  let kva := s.getKvaOfUva addr pgdir &&& PAGE_MASK
  let m ← s.modifyPte addr pgdir fun _ => 0
  let s := { s with toMemory := m }
  match s.findShareKva kva with
  | none => some s
  | some i =>
    let ref ← addInt (s.sharePages i).ref (-1)
    let s := s.setSharePage i { s.sharePages i with ref := ref }
    if ref = 0 then
      let s := s.setSharePage i { s.sharePages i with key := 0 }
      let s ← s.freePageWithKva (s.sharePages i).kva
      some (s.setSharePage i { s.sharePages i with kva := 0 })
    else some s

end State

/-! ## What the searches find -/

section Searches

variable {m : Memory} {s : State} {uva pgdir kva j n : ℕ} {key : ℤ} {i : Fin 16}

/-- The address search ends at a page that is not mapped. -/
lemma Memory.firstUnmapped_spec (h : m.firstUnmapped pgdir j n = some uva) :
    m.getPteOfUva uva pgdir = none ∧ ∃ k < j + n, uva = SHARE_PAGE_UVA_START + k * PAGE_SIZE := by
  induction n generalizing j with
  | zero => simp [Memory.firstUnmapped] at h
  | succ n ih =>
    simp only [Memory.firstUnmapped] at h
    split_ifs at h with hnone
    · rw [Option.some.injEq] at h
      subst h
      exact ⟨hnone, j, by omega, rfl⟩
    · obtain ⟨hpte, k, hk, heq⟩ := ih h
      exact ⟨hpte, k, by omega, heq⟩

/-- The address that `shm_page_get` returns is one of the lower half of the user addresses. -/
lemma Memory.firstUnmapped_uva (h : m.firstUnmapped pgdir 0 SHARE_PAGE_ROUNDS = some uva) :
    uva ≠ 0 ∧ uva % PAGE_SIZE = 0 ∧ uva < 2 ^ 38 ∧ m.getPteOfUva uva pgdir = none := by
  obtain ⟨hpte, k, hk, rfl⟩ := Memory.firstUnmapped_spec h
  simp only [SHARE_PAGE_UVA_START, SHARE_PAGE_ROUNDS, PAGE_SIZE] at hk ⊢
  exact ⟨by omega, by omega, by omega, hpte⟩

lemma State.findShare_eq_some (h : s.findShare key = some i) : (s.sharePages i).key = key := by
  simpa using List.find?_some h

lemma State.findShare_eq_none : s.findShare key = none ↔ ∀ i, (s.sharePages i).key ≠ key := by
  simp [State.findShare]

lemma State.findShareKva_eq_some (h : s.findShareKva kva = some i) : (s.sharePages i).kva = kva := by
  simpa using List.find?_some h

end Searches

/-! ## Without swapping

There are as many records as pages may be present, so a page that is swapped out leaves
no record for the page that it makes room for. -/

namespace State

open Links (appendTo removeFrom)

variable {s t : State} {q : Queue → List Pfn} {r : Pfn} {uva kva pgdir : ℕ}

/-- When as many pages are present as may be, every slot is in use. -/
lemma Book.mem_of_full (hb : s.Book q) (hfull : (MAX_PRESENT_PFN : ℤ) ≤ s.presentPagesNum) (r : Pfn) :
    r ∈ q .presentPagesQueue := by
  have hnd := hb.repr.nodup .presentPagesQueue
  have hlen : 512 ≤ (q .presentPagesQueue).length := by
    have := hb.num
    simp only [MAX_PRESENT_PFN] at hfull
    omega
  have hcard : (q .presentPagesQueue).toFinset = Finset.univ := by
    refine Finset.eq_univ_of_card _ (le_antisymm (Finset.card_le_univ _) ?_)
    rw [List.toFinset_card_of_nodup hnd, Fintype.card_fin]
    exact hlen
  exact List.mem_toFinset.1 (hcard ▸ Finset.mem_univ r)

/-- No more pages are present than there are records. -/
lemma Book.num_le (hb : s.Book q) : s.presentPagesNum ≤ MAX_PRESENT_PFN := by
  have hlen : (q .presentPagesQueue).length ≤ 512 :=
    ((hb.repr.nodup _).length_le_card).trans (Fintype.card_fin 512).le
  have := hb.num
  simp only [MAX_PRESENT_PFN]
  omega

/-- `alloc_page_helper` returns only when it need not swap out. -/
lemma Book.allocPageHelper_spec (hb : s.Book q)
    (hs : s.allocPageHelper MAX_PRESENT_PFN uva pgdir = some (kva, t)) :
    ∃ (m m' : Memory) (r : Pfn) (L : Links Queue Pfn), s.kalloc = some (kva, m) ∧
      m.mapUvaToKva uva kva pgdir = some m' ∧ t = { s with
        toMemory := m'
        pages := Function.update s.pages r
          { s.pages r with uva := uva, kva := kva, pageId := s.pageId + 1, pgdir := pgdir }
        links := L
        presentPagesNum := s.presentPagesNum + 1
        pageId := s.pageId + 1 } ∧ t.Book (appendTo q r .presentPagesQueue) := by
  simp only [State.allocPageHelper, Option.bind_eq_bind, Option.bind_eq_some_iff,
    Option.some.injEq, Prod.mk.injEq] at hs
  obtain ⟨⟨kva, m⟩, ha, m', hm, s', hs', t, ht, rfl, rfl⟩ := hs
  have hb₁ : ({ s with toMemory := m' } : State).Book q := hb.memory m'
  simp only [State.makeRoom] at hs'
  split_ifs at hs' with hfull
  · -- no record is left
    obtain ⟨r, l, L, m₁, hq, -, -, hbook⟩ := hb₁.swapOut hs'
    obtain ⟨r', L', hfree, -, -⟩ := hbook.addNewPrePage ht
    have hmem : r ∈ q .presentPagesQueue := by
      rw [hq]
      exact List.mem_cons_self
    exact absurd hfree ((hbook.used r').2
      ((hb₁.exists_mem_move hmem r').2 ⟨_, hb₁.mem_of_full hfull r'⟩))
  · rw [Option.some.injEq] at hs'
    subst hs'
    obtain ⟨r, L, -, rfl, hbook⟩ := hb₁.addNewPrePage ht
    exact ⟨m, m', r, L, ha, hm, rfl, hbook⟩

/-- `swap_in_all_pages` has nothing to do. -/
lemma Book.swapInAllPages_eq (hb : s.Book q) (hq : q .swappedPagesQueue = []) {P : ℕ}
    (hs : s.swapInAllPages P pgdir = some t) : t = s := by
  obtain ⟨q', ht, -⟩ := Links.forEachSafe_rule (P := fun s' q' => s' = s ∧ q' = q)
    (fun _ _ hs => hs.1 ▸ hs.2 ▸ hb.repr)
    (fun _ _ r _ hs hr _ => by
      rw [hs.2, hq] at hr
      cases hr) ⟨rfl, rfl⟩ (hb.init _) hs
  exact ht

/-- A page fault maps a new page. -/
lemma Book.bringIn_spec (hb : s.Book q) (hq : q .swappedPagesQueue = [])
    (hs : s.bringIn MAX_PRESENT_PFN uva pgdir = some t) :
    s.getKvaOfUva uva pgdir = 0 ∧
      ∃ kva, s.allocPageHelper MAX_PRESENT_PFN uva pgdir = some (kva, t) := by
  simp only [bringIn] at hs
  split_ifs at hs with hkva
  · obtain ⟨⟨kva, u⟩, halloc, rfl⟩ := Option.map_eq_some_iff.1 hs
    exact ⟨hkva, kva, halloc⟩
  · have hfind : s.findPageWithUva uva pgdir .swappedPagesQueue = some none := by
      rw [findPageWithUva, hb.find, hq]
      rfl
    simp only [hfind, Option.bind_eq_bind, Option.bind_some] at hs
    obtain ⟨u, -, hs⟩ := Option.bind_eq_some_iff.1 hs
    cases hs

end State

end Mm
end UcasKernel
