/-
The sectors that pages are swapped out to.

`swap_out` writes eight sectors from `disk_sectors_startid` on and moves it up;
nothing moves it down, so no two pages that are swapped out share a sector.  It is
not compared with `FS_START_SECTOR` either: the file system is safe as long as the
swap-outs of the run fit below it.
-/
import UcasKernel.Fs.Layout
import UcasKernel.Mm.PageRuns
import UcasKernel.Mm.Paging

namespace UcasKernel
namespace Mm

open Fs (fsStartSector)
open Links (appendTo removeFrom)

/-- What changes the memory manager: calls on the page records, page faults, the end of
an address space, and whatever else writes to the memory. -/
inductive SwapEvent
  | page (e : PageEvent)
  | handlePageFault (stval pgdir : ℕ) (store : Bool)
  | exit (pgdir : ℕ)
  | memory (m : Memory)

namespace State

def swapStep (P : ℕ) (s : State) : SwapEvent → Option State
  | .page e => s.pageStep P e
  | .handlePageFault stval pgdir store => s.handlePageFault P stval pgdir store
  | .exit pgdir => (s.freePagetable pgdir).map fun t => { t with toMemory := t.freePgdir pgdir }
  | .memory m => some { s with toMemory := m }

/-- The step calls `swap_out`. -/
def swapsOut (P : ℕ) (s : State) : SwapEvent → Bool
  | .page .swapOut => true
  | .page (.allocPageHelper _ _) | .handlePageFault _ _ _ => (P : ℤ) ≤ s.presentPagesNum
  | _ => false

end State

/-- A run, with the blocks that `swap_out` has passed to `bios_sdwrite`. -/
structure SwapRun where
  mm : State
  written : List ℤ

namespace SwapRun

/-- After boot, whatever is in the memory and on the card. -/
def init (m : Memory) (sd : ℕ → Fin 64 → ℕ) (startid : ℕ) : SwapRun :=
  ⟨State.boot m sd startid, []⟩

def step (P : ℕ) (s : SwapRun) (e : SwapEvent) : Option SwapRun :=
  (s.mm.swapStep P e).map fun mm =>
    ⟨mm, if s.mm.swapsOut P e then s.written ++ [s.mm.diskSectorsStartid] else s.written⟩

/-- The page is swapped out and the sector is one of the eight that hold it. -/
def Holds (s : SwapRun) (page : Pfn) (sector : ℤ) : Prop :=
  s.mm.links.On .swappedPagesQueue page ∧ (s.mm.pages page).sectorId ≤ sector ∧
    sector < (s.mm.pages page).sectorId + SECTORS_PER_PAGE

/-- The swap area and the file system do not overlap; `sd` is the card at boot. -/
structure Law (sd : ℕ → Fin 64 → ℕ) (s : SwapRun) : Prop where
  /-- A sector holds one page at most. -/
  disjoint : ∀ page page' sector, s.Holds page sector → s.Holds page' sector → page = page'
  /-- All eight sectors of every write of `swap_out` are below the file system. -/
  below : ∀ block ∈ s.written, block + SECTORS_PER_PAGE ≤ fsStartSector
  /-- The sectors of the file system are as they were. -/
  unchanged : ∀ sector, fsStartSector ≤ sector → s.mm.sd sector = sd sector

/-- If the step swaps a page out, the eight next sectors are below the file system. -/
def Room (P : ℕ) (s : SwapRun) (e : SwapEvent) : Prop :=
  s.mm.swapsOut P e → s.mm.diskSectorsStartid + SECTORS_PER_PAGE ≤ fsStartSector

instance (P : ℕ) (s : SwapRun) (e : SwapEvent) : Decidable (Room P s e) :=
  inferInstanceAs (Decidable (_ → _))

end SwapRun

namespace State

variable {s t : State} {q : Queue → List Pfn} {r : Pfn} {P uva kva pgdir : ℕ} {id : ℤ}
  {sd : ℕ → Fin 64 → ℕ}

/-- The sectors that are in use are below `id`, which is where the next write goes. -/
structure Slots (sd : ℕ → Fin 64 → ℕ) (id : ℤ) (s : State) (q : Queue → List Pfn) : Prop where
  book : s.Book q
  startid : s.diskSectorsStartid = id
  nonneg : 0 ≤ id
  le : ∀ r ∈ q .swappedPagesQueue, (s.pages r).sectorId + SECTORS_PER_PAGE ≤ id
  apart : ∀ r ∈ q .swappedPagesQueue, ∀ r' ∈ q .swappedPagesQueue, r ≠ r' →
    (s.pages r).sectorId + SECTORS_PER_PAGE ≤ (s.pages r').sectorId ∨
      (s.pages r').sectorId + SECTORS_PER_PAGE ≤ (s.pages r).sectorId
  unchanged : ∀ sector, fsStartSector ≤ sector → s.sd sector = sd sector

lemma slots_boot (m : Memory) (sd : ℕ → Fin 64 → ℕ) (startid : ℕ) :
    (boot m sd startid).Slots sd startid fun _ => [] where
  book := book_boot m sd startid
  startid := rfl
  nonneg := Int.natCast_nonneg startid
  le := by simp
  apart := by simp
  unchanged := fun _ _ => rfl

/-- Fewer pages that are swapped out need fewer sectors. -/
lemma Slots.of_subset {q' : Queue → List Pfn} (h : s.Slots sd id q) (hb : t.Book q')
    (hsub : ∀ r ∈ q' .swappedPagesQueue,
      r ∈ q .swappedPagesQueue ∧ (t.pages r).sectorId = (s.pages r).sectorId)
    (hid : t.diskSectorsStartid = s.diskSectorsStartid) (hsd : t.sd = s.sd) :
    t.Slots sd id q' where
  book := hb
  startid := hid ▸ h.startid
  nonneg := h.nonneg
  le := fun r hr => by rw [(hsub r hr).2]; exact h.le r (hsub r hr).1
  apart := fun r hr r' hr' hne => by
    rw [(hsub r hr).2, (hsub r' hr').2]
    exact h.apart r (hsub r hr).1 r' (hsub r' hr').1 hne
  unchanged := fun sector hs => by rw [hsd]; exact h.unchanged sector hs

lemma Slots.memory (h : s.Slots sd id q) (m : Memory) :
    ({ s with toMemory := m } : State).Slots sd id q :=
  h.of_subset (h.book.memory _) (fun _ hr => ⟨hr, rfl⟩) rfl rfl

/-- The page that is swapped out gets the sectors from `id` on. -/
lemma Slots.swapOut (h : s.Slots sd id q) (hroom : id + SECTORS_PER_PAGE ≤ fsStartSector)
    (hs : s.swapOut = some t) : ∃ q', t.Slots sd (id + SECTORS_PER_PAGE) q' ∧
      q .swappedPagesQueue ⊆ q' .swappedPagesQueue := by
  obtain ⟨r, l, L, m, hq, -, rfl, hb⟩ := h.book.swapOut hs
  have hr : r ∈ q .presentPagesQueue := by rw [hq]; exact List.mem_cons_self
  have hno : r ∉ q .swappedPagesQueue := fun hmem => by
    simpa using h.book.repr.disjoint _ _ r hr hmem
  have hmem : ∀ x, x ∈ appendTo (removeFrom q r .presentPagesQueue) r .swappedPagesQueue
      .swappedPagesQueue → x ∈ q .swappedPagesQueue ∨ x = r := by
    intro x hx
    simpa [Links.mem_appendTo, Links.removeFrom_of_ne] using hx
  have hid := h.startid
  refine ⟨_, ⟨hb, by simp only [hid], ?_, ?_, ?_, ?_⟩, fun x hx => ?_⟩
  · have := h.nonneg
    simp only [SECTORS_PER_PAGE]
    omega
  · intro x hx
    rcases hmem x hx with hx | rfl
    · have hne : x ≠ r := fun heq => hno (heq ▸ hx)
      simp only [Function.update_of_ne hne]
      have := h.le x hx
      simp only [SECTORS_PER_PAGE] at this ⊢
      omega
    · simp only [Function.update_self, hid, le_refl]
  · intro x hx y hy hxy
    -- of two pages at most one is new, and what was there is below `id`
    rcases hmem x hx with hx' | rfl <;> rcases hmem y hy with hy' | rfl
    · have hxr : x ≠ r := fun heq => hno (heq ▸ hx')
      have hyr : y ≠ r := fun heq => hno (heq ▸ hy')
      simp only [Function.update_of_ne hxr, Function.update_of_ne hyr]
      exact h.apart x hx' y hy' hxy
    · simp only [Function.update_of_ne hxy, Function.update_self, hid]
      exact Or.inl (h.le x hx')
    · simp only [Function.update_of_ne hxy.symm, Function.update_self, hid]
      exact Or.inr (h.le y hy')
    · exact absurd rfl hxy
  · intro sector hsector
    have hnonneg := h.nonneg
    rw [← h.unchanged sector hsector]
    funext i
    simp only [sdwrite, hid]
    refine if_neg ?_
    simp only [SECTORS_PER_PAGE] at hroom ⊢
    omega
  · rw [Links.appendTo_self, Links.removeFrom_of_ne (by decide)]
    exact List.mem_append_left _ hx

lemma Slots.makeRoom (h : s.Slots sd id q)
    (hroom : (P : ℤ) ≤ s.presentPagesNum → id + SECTORS_PER_PAGE ≤ fsStartSector)
    (hs : s.makeRoom P = some t) :
    ∃ q', t.Slots sd (if (P : ℤ) ≤ s.presentPagesNum then id + SECTORS_PER_PAGE else id) q' ∧
      q .swappedPagesQueue ⊆ q' .swappedPagesQueue := by
  simp only [State.makeRoom] at hs
  split_ifs at hs ⊢ with hle
  · exact h.swapOut (hroom hle) hs
  · rw [Option.some.injEq] at hs
    exact ⟨q, hs ▸ h, List.Subset.refl _⟩

lemma Slots.allocPageHelper (h : s.Slots sd id q)
    (hroom : (P : ℤ) ≤ s.presentPagesNum → id + SECTORS_PER_PAGE ≤ fsStartSector)
    (hs : s.allocPageHelper P uva pgdir = some (kva, t)) :
    ∃ q', t.Slots sd (if (P : ℤ) ≤ s.presentPagesNum then id + SECTORS_PER_PAGE else id) q' := by
  simp only [State.allocPageHelper, Option.bind_eq_bind, Option.bind_eq_some_iff,
    Option.some.injEq, Prod.mk.injEq] at hs
  obtain ⟨⟨kva, m⟩, -, m', -, u, hu, t, ht, rfl, rfl⟩ := hs
  obtain ⟨q', h', -⟩ := (h.memory m').makeRoom hroom hu
  obtain ⟨r, L, hfree, rfl, hb⟩ := h'.book.addNewPrePage ht
  refine ⟨_, h'.of_subset hb (fun x hx => ?_) rfl rfl⟩
  rw [Links.appendTo_of_ne (by decide)] at hx
  have hne : x ≠ r := fun heq => (h'.book.used x).2 ⟨_, hx⟩ (heq ▸ hfree)
  exact ⟨hx, by simp only [Function.update_of_ne hne]⟩

/-- A record that is swapped in gives its sectors up. -/
lemma Slots.swapIn (h : s.Slots sd id q) (hr : r ∈ q .swappedPagesQueue)
    (hs : s.swapIn r = some t) :
    ∃ q', t.Slots sd id q' ∧ q' .swappedPagesQueue = (q .swappedPagesQueue).erase r := by
  obtain ⟨L, kva, m, m', -, -, rfl, hb⟩ := h.book.swapIn hr hs
  have hq : appendTo (removeFrom q r .swappedPagesQueue) r .presentPagesQueue .swappedPagesQueue =
      (q .swappedPagesQueue).erase r := by
    rw [Links.appendTo_of_ne (by decide), Links.removeFrom_self]
  refine ⟨_, h.of_subset hb (fun x hx => ?_) rfl rfl, hq⟩
  rw [hq, (h.book.repr.nodup _).mem_erase_iff] at hx
  exact ⟨hx.2, by simp only [Function.update_of_ne hx.1]⟩

lemma Slots.swapInAllPages (h : s.Slots sd id q) (hs : s.swapInAllPages P pgdir = some t) :
    ∃ q', t.Slots sd id q' := by
  refine Links.forEachSafe_rule (P := Slots sd id) (fun _ _ h => h.book.repr) ?_ h
    (h.book.init _) hs
  intro s q r t h hr hs
  simp only [State.swapInRound] at hs
  split_ifs at hs with hc
  · obtain ⟨q', h', hq⟩ := h.swapIn hr hs
    exact ⟨q', h', Or.inr hq⟩
  · rw [Option.some.injEq] at hs
    exact ⟨q, hs ▸ h, Or.inl rfl⟩

lemma Slots.freePageWith (h : s.Slots sd id q) {p : Pfn → Bool}
    {findPage : Queue → Option (Option Pfn)} (hfind : ∀ h, findPage h = some ((q h).find? p))
    (hs : s.freePageWith findPage = some t) : ∃ q', t.Slots sd id q' := by
  obtain ⟨g, r, L, hr, -, rfl, hb⟩ := h.book.freePageWith hfind hs
  have hmem := List.mem_of_find?_eq_some hr
  refine ⟨_, h.of_subset hb (fun x hx => ?_) rfl rfl⟩
  obtain ⟨hne, hx⟩ := (Links.mem_removeFrom h.book.repr hmem).1 hx
  exact ⟨hx, by simp only [Function.update_of_ne hne]⟩

lemma Slots.pageStep {e : PageEvent} (h : s.Slots sd id q)
    (hroom : s.swapsOut P (.page e) → id + SECTORS_PER_PAGE ≤ fsStartSector)
    (hs : s.pageStep P e = some t) :
    ∃ q', t.Slots sd (if s.swapsOut P (.page e) then id + SECTORS_PER_PAGE else id) q' := by
  cases e with
  | allocPageHelper uva pgdir =>
    simp only [State.pageStep, Option.map_eq_some_iff] at hs
    obtain ⟨⟨kva, t⟩, hs, rfl⟩ := hs
    simpa only [State.swapsOut, decide_eq_true_eq] using
      h.allocPageHelper (by simpa only [State.swapsOut, decide_eq_true_eq] using hroom) hs
  | swapOut =>
    obtain ⟨q', h', -⟩ := h.swapOut (hroom rfl) hs
    exact ⟨q', h'⟩
  | swapIn r =>
    simp only [State.pageStep, Option.ite_none_right_eq_some] at hs
    obtain ⟨⟨hr, -⟩, hs⟩ := hs
    obtain ⟨q', h', -⟩ := h.swapIn (h.book.onQueue_iff.1 hr) hs
    exact ⟨q', h'⟩
  | swapInAllPages pgdir => exact h.swapInAllPages hs
  | freePageWithUva uva pgdir => exact h.freePageWith (fun _ => h.book.find _) hs
  | freePageWithKva kva => exact h.freePageWith (fun _ => h.book.find _) hs

lemma Slots.handlePageFault {stval : ℕ} {store : Bool} (h : s.Slots sd id q)
    (hroom : (P : ℤ) ≤ s.presentPagesNum → id + SECTORS_PER_PAGE ≤ fsStartSector)
    (hs : s.handlePageFault P stval pgdir store = some t) :
    ∃ q', t.Slots sd (if (P : ℤ) ≤ s.presentPagesNum then id + SECTORS_PER_PAGE else id) q' := by
  obtain ⟨u, m, rfl, ⟨uva, kva, hu⟩ | ⟨uva, r, v, hr, hv, hu⟩⟩ := handlePageFault_cases hs
  · obtain ⟨q', h'⟩ := h.allocPageHelper hroom hu
    exact ⟨q', h'.memory m⟩
  · rw [findPageWithUva, h.book.find, Option.some.injEq] at hr
    obtain ⟨q', h', hsub⟩ := h.makeRoom hroom hv
    obtain ⟨q'', h'', -⟩ := h'.swapIn (hsub (List.mem_of_find?_eq_some hr)) hu
    exact ⟨q'', h''.memory m⟩

/-- A step moves `id` up by eight if it swaps a page out, and leaves it otherwise. -/
lemma Slots.swapStep {e : SwapEvent} (h : s.Slots sd id q)
    (hroom : s.swapsOut P e → id + SECTORS_PER_PAGE ≤ fsStartSector)
    (hs : s.swapStep P e = some t) :
    ∃ q', t.Slots sd (if s.swapsOut P e then id + SECTORS_PER_PAGE else id) q' := by
  cases e with
  | page e => exact h.pageStep hroom hs
  | handlePageFault stval pgdir store =>
    simpa only [swapsOut, decide_eq_true_eq] using
      h.handlePageFault (by simpa only [swapsOut, decide_eq_true_eq] using hroom) hs
  | exit pgdir =>
    simp only [State.swapStep, Option.map_eq_some_iff] at hs
    obtain ⟨u, hu, rfl⟩ := hs
    obtain ⟨q', h'⟩ := freePagetable_rule (I := fun s => ∃ q, s.Slots sd id q)
      (fun s m ⟨q, h⟩ => ⟨q, h.memory m⟩)
      (fun s uva t ⟨q, h⟩ hs => h.freePageWith (fun _ => h.book.find _) hs) ⟨q, h⟩ hu
    exact ⟨q', h'.memory _⟩
  | memory m =>
    simp only [State.swapStep, Option.some.injEq] at hs
    exact ⟨q, hs ▸ h.memory m⟩

end State

namespace SwapRun

open State (Slots)

variable {s t : SwapRun} {q : Queue → List Pfn} {P : ℕ} {sd : ℕ → Fin 64 → ℕ} {e : SwapEvent}

/-- All the writes so far were below the file system, and the next one goes where
`disk_sectors_startid` says. -/
def Inv (sd : ℕ → Fin 64 → ℕ) (s : SwapRun) : Prop :=
  (∃ q, s.mm.Slots sd s.mm.diskSectorsStartid q) ∧
    ∀ block ∈ s.written, block + SECTORS_PER_PAGE ≤ fsStartSector

lemma Inv.step (h : s.Inv sd) (hroom : Room P s e) (hs : s.step P e = some t) : t.Inv sd := by
  obtain ⟨⟨q, h⟩, hwritten⟩ := h
  simp only [SwapRun.step, Option.map_eq_some_iff] at hs
  obtain ⟨mm, hs, rfl⟩ := hs
  obtain ⟨q', h'⟩ := h.swapStep hroom hs
  refine ⟨⟨q', by rw [h'.startid]; exact h'⟩, fun block hblock => ?_⟩
  simp only at hblock
  split_ifs at hblock with hout
  · rcases List.mem_append.1 hblock with hblock | hblock
    · exact hwritten block hblock
    · rw [List.mem_singleton] at hblock
      exact hblock ▸ hroom hout
  · exact hwritten block hblock

lemma Inv.law (h : s.Inv sd) : s.Law sd := by
  obtain ⟨⟨q, h⟩, hwritten⟩ := h
  refine ⟨?_, hwritten, h.unchanged⟩
  rintro r r' sector ⟨hr, hle, hlt⟩ ⟨hr', hle', hlt'⟩
  by_contra hne
  have hapart := h.apart r (h.book.repr.on_iff.1 hr) r' (h.book.repr.on_iff.1 hr') hne
  omega

/-- As long as every swap-out finds eight sectors below the file system, the pages that
are swapped out have sectors of their own and the file system is not written. -/
theorem swap_area_below_fs (P : ℕ) (m : Memory) (sd : ℕ → Fin 64 → ℕ) (startid : ℕ)
    (es : List SwapEvent) (h : Trace.StepsMeet (step P) (Room P) (init m sd startid) es) :
    Trace.Always (step P) (Law sd) (init m sd startid) es := by
  have halways : Trace.Always (step P) (Inv sd) (init m sd startid) es :=
    Trace.always_of_invariant (fun s e t hs hC hstep => hs.step hC hstep)
      ⟨⟨_, State.slots_boot m sd startid⟩, by simp [init]⟩ h
  exact halways.mono fun t ht => ht.law

/-- Pages are swapped out, in, and out again below the file system. -/
theorem swap_area_below_fs_swaps : Trace.Always (step 1) (Law fun _ _ => 0)
    (init (Memory.initKernelFreemem ⟨fun _ _ => 0, 0⟩) (fun _ _ => 0) 100)
    [.page (.allocPageHelper 0x10000 PGDIR_VA), .page (.allocPageHelper 0x11000 PGDIR_VA),
      .handlePageFault 0x10123 PGDIR_VA true] := by
  refine swap_area_below_fs 1 _ _ 100 _ (Trace.StepsMeet.mono
    (Trace.stepsMeet_of_checkSteps (C := fun s e => decide (Room 1 s e)) ?_)
      fun s e h => of_decide_eq_true h)
  decide +kernel

/-- `disk_sectors_startid` starts one sector below the file system: the first page that is
swapped out goes into it. -/
theorem swap_out_reaches_fs : ¬ Trace.Always (step 1) (Law fun _ _ => 0)
    (init (Memory.initKernelFreemem ⟨fun _ _ => 0, 0⟩) (fun _ _ => 0) 0xfffff)
    [.page (.allocPageHelper 0x10000 PGDIR_VA), .page (.allocPageHelper 0x11000 PGDIR_VA)] := by
  intro h
  have hrun : (Trace.run (step 1) (init (Memory.initKernelFreemem ⟨fun _ _ => 0, 0⟩)
      (fun _ _ => 0) 0xfffff) [.page (.allocPageHelper 0x10000 PGDIR_VA),
        .page (.allocPageHelper 0x11000 PGDIR_VA)]).map (·.written) = some [0xfffff] := by
    decide +kernel
  rw [Option.map_eq_some_iff] at hrun
  obtain ⟨t, ht, hw⟩ := hrun
  have := (h.last ht).below 0xfffff (by simp [hw])
  revert this
  decide

end SwapRun

end Mm
end UcasKernel
