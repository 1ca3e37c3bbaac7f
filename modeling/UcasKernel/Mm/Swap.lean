/-
The records of user pages, and swapping.

`pages` has a record for every user page that was allocated; a record is on
`present_pages_queue` while its page has a frame, and on `swapped_pages_queue`
while its content is on the card.  `alloc_page_helper` and `swap_in` take a frame
from the allocator, `swap_out` gives one back.
-/
import Mathlib.Algebra.Group.Int.Defs
import Mathlib.Data.Fintype.Basic
import Mathlib.Data.Int.Notation
import UcasKernel.Lib.DListLoop
import UcasKernel.Mm.Pgtable

namespace UcasKernel
namespace Mm

def SECTORS_PER_PAGE : ℕ := 8

/-- An index of `pages`: `MAX_PFN` is 512. -/
abbrev Pfn := Fin 512

/-- The heads of the two queues. -/
inductive Queue
  | presentPagesQueue
  | swappedPagesQueue
deriving DecidableEq, Repr

/-- `page_t`, without its list node. -/
structure Page where
  uva : ℕ
  kva : ℕ
  pgdir : ℕ
  pageId : ℤ
  sectorId : ℤ
deriving DecidableEq, Repr

/-- `share_page_t` -/
structure SharePage where
  kva : ℕ
  ref : ℤ
  key : ℤ
deriving DecidableEq, Repr

/-- The memory manager, and the words of the sectors of the card. -/
structure State extends Memory where
  pages : Pfn → Page
  links : Links Queue Pfn
  presentPagesNum : ℤ
  pageId : ℤ
  diskSectorsStartid : ℤ
  sd : ℕ → Fin 64 → ℕ
  sharePages : Fin 16 → SharePage

/-- The sum of two `int`s; an overflow is undefined. -/
def addInt (x y : ℤ) : Option ℤ :=
  if -2 ^ 31 ≤ x + y ∧ x + y < 2 ^ 31 then some (x + y) else none

namespace State

/-- A bound on the rounds of a loop over a queue: one more than there are records. -/
def loopBound : ℕ := 513

def setPage (s : State) (page : Pfn) (v : Page) : State :=
  { s with pages := Function.update s.pages page v }

/-- `list_delete_entry(&page->list)`. -/
def listDeleteEntry (s : State) (page : Pfn) : Option State :=
  (s.links.delete page).map fun links => { s with links := links }

/-- `list_add_tail(&page->list, queue)`. -/
def listAddTail (s : State) (page : Pfn) (queue : Queue) : Option State :=
  (s.links.addTail page queue).map fun links => { s with links := links }

/-- `list_entry(queue.next, page_t)`; the head of an empty queue is no record. -/
def firstEntry (s : State) (queue : Queue) : Option Pfn :=
  match s.links.next (.inl queue) with
  | some (.inr page) => some page
  | _ => none

/-- `bios_sdwrite` of a page. -/
def sdwrite (s : State) (page block : ℕ) : State :=
  { s with sd := fun b i => if block ≤ b ∧ b < block + SECTORS_PER_PAGE then
      s.mem page (Fin.ofNat 512 ((b - block) * 64 + i)) else s.sd b i }

/-- `bios_sdread` of a page. -/
def sdread (s : State) (page block : ℕ) : State :=
  { s with mem := Function.update s.mem page fun i => s.sd (block + i / 64) (Fin.ofNat 64 i) }

/-! ## Allocation -/

/-- `add_new_pre_page`. -/
def addNewPrePage (s : State) (uva kva pgdir : ℕ) : Option State := do
  let page ← (List.finRange 512).find? fun i => (s.pages i).pageId = 0
  let pageId ← addInt s.pageId 1
  let s := { s with pageId := pageId }
  let s := s.setPage page { s.pages page with uva := uva, kva := kva, pageId := pageId, pgdir := pgdir }
  let s ← s.listAddTail page .presentPagesQueue
  some { s with presentPagesNum := s.presentPagesNum + 1 }

/-- `swap_out`. -/
def swapOut (s : State) : Option State := do
  let page ← s.firstEntry .presentPagesQueue
  let s ← s.listDeleteEntry page
  let s ← s.listAddTail page .swappedPagesQueue
  let pa := kva2pa (s.pages page).kva
  let s := s.sdwrite (pa2kva pa) s.diskSectorsStartid.toNat
  let s := s.setPage page { s.pages page with sectorId := s.diskSectorsStartid }
  let startid ← addInt s.diskSectorsStartid SECTORS_PER_PAGE
  let s := { s with diskSectorsStartid := startid }
  let m ← s.modifyPte (s.pages page).uva (s.pages page).pgdir fun pte =>
    unsetAttribute pte PAGE_PRESENT
  let s := { s with toMemory := m.kfree (s.pages page).kva }
  some { s with presentPagesNum := s.presentPagesNum - 1 }

/-- Swap a page out when `present_pages_num` has reached `MAX_PRESENT_PFN`. -/
def makeRoom (s : State) (maxPresentPfn : ℕ) : Option State :=
  if (maxPresentPfn : ℤ) ≤ s.presentPagesNum then s.swapOut else some s

/-- `alloc_page_helper`, with `MAX_PRESENT_PFN` as a parameter. -/
def allocPageHelper (s : State) (maxPresentPfn : ℕ) (uva pgdir : ℕ) : Option (ℕ × State) := do
  let (kva, m) ← s.kalloc
  let m ← m.mapUvaToKva uva kva pgdir
  let s := { s with toMemory := m }
  let s ← s.makeRoom maxPresentPfn
  let s ← s.addNewPrePage uva kva pgdir
  some (kva, s)

/-! ## Swapping in -/

/-- `swap_in`. -/
def swapIn (s : State) (page : Pfn) : Option State := do
  let s ← s.listDeleteEntry page
  let s ← s.listAddTail page .presentPagesQueue
  let (kva, m) ← s.kalloc
  let s := { s with toMemory := m }.setPage page { s.pages page with kva := kva }
  let m ← s.mapUvaToKva (s.pages page).uva (s.pages page).kva (s.pages page).pgdir
  let s := { s with toMemory := m }
  let pa := kva2pa (s.pages page).kva
  let s := s.sdread (pa2kva pa) (s.pages page).sectorId.toNat
  let s := s.setPage page { s.pages page with sectorId := 0 }
  some { s with presentPagesNum := s.presentPagesNum + 1 }

/-- The body of the loop of `swap_in_all_pages`. -/
def swapInRound (maxPresentPfn pgdir : ℕ) (page : Pfn) (s : State) : Option State :=
  if (s.pages page).pgdir = pgdir ∧ s.presentPagesNum < maxPresentPfn then s.swapIn page
  else some s

/-- `swap_in_all_pages`. -/
def swapInAllPages (s : State) (maxPresentPfn pgdir : ℕ) : Option State :=
  Links.forEachSafe links .swappedPagesQueue (swapInRound maxPresentPfn pgdir) loopBound
    (s.links.next (.inl .swappedPagesQueue)) s

/-! ## Records -/

/-- `find_page_with_uva`: a record, or `NULL`. -/
def findPageWithUva (s : State) (uva pgdir : ℕ) (queue : Queue) : Option (Option Pfn) :=
  s.links.find queue (fun page => (s.pages page).uva = uva ∧ (s.pages page).pgdir = pgdir)
    loopBound (s.links.next (.inl queue))

/-- `find_page_with_kva`. -/
def findPageWithKva (s : State) (kva : ℕ) (queue : Queue) : Option (Option Pfn) :=
  s.links.find queue (fun page => (s.pages page).kva = kva)
    loopBound (s.links.next (.inl queue))

/-- `reset_page_info`. -/
def resetPageInfo (s : State) (page : Pfn) : State :=
  s.setPage page { s.pages page with pageId := 0, sectorId := 0, uva := 0, kva := 0 }

/-- `reset_page_info`, `list_delete_entry` and `kfree`, which is called on the `kva`
that was reset. -/
def dropPage (s : State) (page : Pfn) : Option State := do
  let s := s.resetPageInfo page
  let s ← s.listDeleteEntry page
  some { s with toMemory := s.kfree (s.pages page).kva }

/-- The common part of `free_page_with_uva` and `free_page_with_kva`, which differ in
the way a record is found. -/
def freePageWith (s : State) (findPage : Queue → Option (Option Pfn)) : Option State := do
  match ← findPage .presentPagesQueue with
  | some page =>
    let s ← s.dropPage page
    some { s with presentPagesNum := s.presentPagesNum - 1 }
  | none =>
    let page ← ← findPage .swappedPagesQueue
    s.dropPage page

def freePageWithUva (s : State) (uva pgdir : ℕ) : Option State :=
  s.freePageWith (s.findPageWithUva uva pgdir)

def freePageWithKva (s : State) (kva : ℕ) : Option State := s.freePageWith (s.findPageWithKva kva)

end State

end Mm
end UcasKernel
