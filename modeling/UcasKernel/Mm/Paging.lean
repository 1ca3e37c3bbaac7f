/-
Page faults, and the end of an address space.

`handle_page_fault` allocates a page that is not mapped and swaps a mapped one in.
`free_pagetable` walks the three levels of a page directory, less the two entries
that all directories share, and frees the record of every page it finds.
-/
import UcasKernel.Lib.Trace
import UcasKernel.Mm.Queues

namespace UcasKernel
namespace Mm

/-- `~((1 << NORMAL_PAGE_SHIFT) - 1)` as a 64-bit word. -/
def PAGE_MASK : ℕ := 2 ^ 64 - PAGE_SIZE

namespace State

/-- The branches of `handle_page_fault`: a page that is not mapped is allocated, a page
that is mapped is swapped in.  `swap_in` of `NULL` is undefined. -/
def bringIn (s : State) (maxPresentPfn faultAddrUva pgdir : ℕ) : Option State :=
  if s.getKvaOfUva faultAddrUva pgdir = 0 then
    (s.allocPageHelper maxPresentPfn faultAddrUva pgdir).map Prod.snd
  else do
    let page ← s.findPageWithUva faultAddrUva pgdir .swappedPagesQueue
    let s ← s.makeRoom maxPresentPfn
    s.swapIn (← page)

/-- `handle_page_fault` of a process with the page directory `pgdir`; `store` says that
`scause` is `EXCC_STORE_PAGE_FAULT`. -/
def handlePageFault (s : State) (maxPresentPfn stval pgdir : ℕ) (store : Bool) :
    Option State := do
  let faultAddrUva := stval &&& PAGE_MASK
  let s ← s.bringIn maxPresentPfn faultAddrUva pgdir
  let m ← s.modifyPte faultAddrUva pgdir fun pte => setAttribute pte PAGE_ACCESSED
  if store then
    let m ← m.modifyPte faultAddrUva pgdir fun pte => setAttribute pte PAGE_DIRTY
    some { s with toMemory := m }
  else some { s with toMemory := m }

/-- The body of the innermost loop of `free_pagetable`. -/
def freeLeaf (pgdir : ℕ) (vpn2 vpn1 : Fin 512) (pte : ℕ) (s : State) (vpn0 : Fin 512) :
    Option State :=
  if s.mem pte vpn0 ≠ 0 then do
    let s ← s.freePageWithUva (getUvaFromVpns vpn2 vpn1 vpn0) pgdir
    some { s with toMemory := s.store pte vpn0 0 }
  else some s

/-- The body of the loop over a second-level table. -/
def freeTable (pgdir : ℕ) (vpn2 : Fin 512) (pmd : ℕ) (s : State) (vpn1 : Fin 512) :
    Option State :=
  if s.mem pmd vpn1 ≠ 0 then do
    let pte := s.tableOf pmd vpn1
    let s ← (List.finRange 512).foldlM (freeLeaf pgdir vpn2 vpn1 pte) s
    some { s with toMemory := s.kfree pte }
  else some s

/-- The body of the loop over the page directory. -/
def freeMid (pgdir : ℕ) (s : State) (vpn2 : Fin 512) : Option State :=
  if s.mem pgdir vpn2 ≠ 0 ∧ vpn2 ≠ KERNEL_VA_VPN2 ∧ vpn2 ≠ IO_REMAP_VA_VPN2 then do
    let pmd := s.tableOf pgdir vpn2
    let s ← (List.finRange 512).foldlM (freeTable pgdir vpn2 pmd) s
    some { s with toMemory := (s.clear pmd).kfree pmd }
  else some s

/-- `free_pagetable`. -/
def freePagetable (s : State) (pgdir : ℕ) : Option State :=
  (List.finRange 512).foldlM (freeMid pgdir) s

variable {s t : State} {q : Queue → List Pfn} {P stval pgdir : ℕ} {store : Bool}

/-! ## What they are made of -/

/-- A fault is an allocation, or making room and swapping a swapped record in; then
entries of the tables are changed. -/
lemma handlePageFault_cases (h : s.handlePageFault P stval pgdir store = some t) :
    ∃ (u : State) (m : Memory), t = { u with toMemory := m } ∧
      ((∃ uva kva, s.allocPageHelper P uva pgdir = some (kva, u)) ∨
        ∃ uva r v, s.findPageWithUva uva pgdir .swappedPagesQueue = some (some r) ∧
          s.makeRoom P = some v ∧ v.swapIn r = some u) := by
  simp only [handlePageFault, Option.bind_eq_bind, Option.bind_eq_some_iff] at h
  obtain ⟨u, hu, m, -, h⟩ := h
  have ht : ∃ m', t = { u with toMemory := m' } := by
    split_ifs at h with hstore
    · simp only [Option.bind_eq_some_iff, Option.some.injEq] at h
      obtain ⟨m', -, rfl⟩ := h
      exact ⟨m', rfl⟩
    · rw [Option.some.injEq] at h
      exact ⟨m, h.symm⟩
  obtain ⟨m', rfl⟩ := ht
  refine ⟨u, m', rfl, ?_⟩
  simp only [bringIn] at hu
  split_ifs at hu with hkva
  · simp only [Option.map_eq_some_iff] at hu
    obtain ⟨⟨kva, u⟩, hu, rfl⟩ := hu
    exact Or.inl ⟨_, kva, hu⟩
  · simp only [Option.bind_eq_bind, Option.bind_eq_some_iff] at hu
    obtain ⟨page, hpage, v, hv, r, rfl, hu⟩ := hu
    exact Or.inr ⟨_, r, v, hpage, hv, hu⟩

/-! ### What the loops of `free_pagetable` keep -/

section Rules

variable {I : State → Prop} (hmem : ∀ s m, I s → I { s with toMemory := m })
  (hfree : ∀ s uva t, I s → s.freePageWithUva uva pgdir = some t → I t)
include hmem hfree

lemma freeLeaf_rule {vpn2 vpn1 vpn0 : Fin 512} {pte : ℕ} (hs : I s)
    (h : freeLeaf pgdir vpn2 vpn1 pte s vpn0 = some t) : I t := by
  simp only [freeLeaf] at h
  split_ifs at h with hne
  · simp only [Option.bind_eq_bind, Option.bind_eq_some_iff, Option.some.injEq] at h
    obtain ⟨u, hu, rfl⟩ := h
    exact hmem u _ (hfree s _ u hs hu)
  · rw [Option.some.injEq] at h
    exact h ▸ hs

lemma freeTable_rule {vpn2 vpn1 : Fin 512} {pmd : ℕ} (hs : I s)
    (h : freeTable pgdir vpn2 pmd s vpn1 = some t) : I t := by
  simp only [freeTable] at h
  split_ifs at h with hne
  · simp only [Option.bind_eq_bind, Option.bind_eq_some_iff, Option.some.injEq] at h
    obtain ⟨u, hu, rfl⟩ := h
    exact hmem u _ (Trace.foldlM_invariant (fun _ _ _ => freeLeaf_rule hmem hfree) hs hu)
  · rw [Option.some.injEq] at h
    exact h ▸ hs

lemma freeMid_rule {vpn2 : Fin 512} (hs : I s) (h : freeMid pgdir s vpn2 = some t) : I t := by
  simp only [freeMid] at h
  split_ifs at h with hne
  · simp only [Option.bind_eq_bind, Option.bind_eq_some_iff, Option.some.injEq] at h
    obtain ⟨u, hu, rfl⟩ := h
    exact hmem u _ (Trace.foldlM_invariant (fun _ _ _ => freeTable_rule hmem hfree) hs hu)
  · rw [Option.some.injEq] at h
    exact h ▸ hs

/-- What freeing a record by its address and changing the memory keep, `free_pagetable`
keeps. -/
theorem freePagetable_rule (hs : I s) (h : s.freePagetable pgdir = some t) : I t :=
  Trace.foldlM_invariant (fun _ _ _ => freeMid_rule hmem hfree) hs h

end Rules

end State

end Mm
end UcasKernel
