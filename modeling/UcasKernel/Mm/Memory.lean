/-
Physical pages and the page allocator.

A page is named by the kernel virtual address of its first byte and holds 512
words.  The free list is threaded through word 0 of the free pages: `kalloc`
takes the first one and clears it, `kfree` puts a page in front.  The last page
of the list stores `NULL`; taking it moves the end of the list one page up.
-/
import Mathlib.Algebra.Group.Nat.Defs
import Mathlib.Data.List.Nodup
import Mathlib.Order.Nat
import UcasKernel.Lib.FreeChain
import UcasKernel.Lib.Index

namespace UcasKernel
namespace Mm

def PAGE_SIZE : ℕ := 4096
def FREEMEM_KERNEL : ℕ := 0xffffffc052000000
def FREEMEM_KERNEL_STOP : ℕ := 0xffffffc060000000

/-- The words of the pages, and the head of the free list. -/
structure Memory where
  mem : ℕ → Fin 512 → ℕ
  freememList : ℕ

namespace Memory

/-- The field `next` of the `freemem_t` at the start of a page. -/
def next (m : Memory) (page : ℕ) : ℕ := m.mem page 0

/-- Store a word in a page. -/
def store (m : Memory) (page : ℕ) (i : Fin 512) (v : ℕ) : Memory :=
  { m with mem := Function.update m.mem page (Function.update (m.mem page) i v) }

/-- `memset(page, 0, PAGE_SIZE)`. -/
def clear (m : Memory) (page : ℕ) : Memory :=
  { m with mem := Function.update m.mem page fun _ => 0 }

def initKernelFreemem (m : Memory) : Memory :=
  let m := { m with freememList := FREEMEM_KERNEL }
  m.store m.freememList 0 0

/-- `kalloc`.  The kernel maps the memory below `FREEMEM_KERNEL_STOP`; the store
to a page above it faults. -/
def kalloc (m : Memory) : Option (ℕ × Memory) :=
  let page := m.freememList
  if m.next m.freememList = 0 then
    let m := { m with freememList := m.freememList + PAGE_SIZE }
    if m.freememList < FREEMEM_KERNEL_STOP then
      let m := m.store m.freememList 0 0
      some (page, m.clear page)
    else none
  else
    let m := { m with freememList := m.next m.freememList }
    some (page, m.clear page)

def kfree (m : Memory) (baseAddr : ℕ) : Memory :=
  if baseAddr < FREEMEM_KERNEL then m
  else
    let m := m.store baseAddr 0 m.freememList
    { m with freememList := baseAddr }

variable {m m' : Memory} {page p q : ℕ} {i : Fin 512} {v : ℕ}

lemma store_of_ne (hq : q ≠ page) : (m.store page i v).mem q = m.mem q :=
  Function.update_of_ne hq _ _

lemma store_self : (m.store page i v).mem page = Function.update (m.mem page) i v :=
  Function.update_self ..

lemma next_store_zero : (m.store page 0 v).next = Function.update m.next page v := by
  funext q
  rcases eq_or_ne q page with rfl | hq
  · rw [next, store_self, Function.update_self, Function.update_self]
  · rw [next, store_of_ne hq, Function.update_of_ne hq]
    rfl

lemma clear_of_ne (hq : q ≠ page) : (m.clear page).mem q = m.mem q := Function.update_of_ne hq _ _

lemma clear_self : (m.clear page).mem page = fun _ => 0 := Function.update_self ..

lemma clear_eq_self (h : m.mem page = fun _ => 0) : m.clear page = m := by
  rw [clear, ← h, Function.update_eq_self]

/-! ## The free list -/

/-- A page: an aligned address in the memory that the allocator serves. -/
def IsPage (p : ℕ) : Prop := p % PAGE_SIZE = 0 ∧ FREEMEM_KERNEL ≤ p

/-- The free list is the pages `l` and its end `e`, all of them different; no page
of it is above the end. -/
structure FreeList (m : Memory) (l : List ℕ) (e : ℕ) : Prop where
  chain : FreeChain m.next 0 m.freememList l e
  nodup : (l ++ [e]).Nodup
  isPage : ∀ p ∈ l ++ [e], IsPage p
  le_end : ∀ p ∈ l, p < e

/-- A page is free when it is on the list, or not below the end of the list. -/
def Free (l : List ℕ) (e p : ℕ) : Prop := p ∈ l ∨ e ≤ p

lemma free_of_mem {l : List ℕ} {e : ℕ} (h : p ∈ l ++ [e]) : Free l e p := by
  rcases List.mem_append.1 h with h | h
  · exact Or.inl h
  · exact Or.inr (List.mem_singleton.1 h).ge

lemma isPage_add (h : IsPage p) : IsPage (p + PAGE_SIZE) := by
  simp only [IsPage, PAGE_SIZE] at h ⊢
  omega

/-- Two pages are at least a page apart. -/
lemma IsPage.add_le (hp : IsPage p) (hq : IsPage q) (hlt : p < q) : p + PAGE_SIZE ≤ q := by
  simp only [IsPage, PAGE_SIZE] at hp hq ⊢
  omega

theorem freeList_initKernelFreemem (m : Memory) :
    m.initKernelFreemem.FreeList [] FREEMEM_KERNEL where
  chain := by
    refine ⟨rfl, ?_⟩
    rw [initKernelFreemem, next_store_zero, Function.update_self]
  nodup := List.nodup_singleton _
  isPage := by
    rintro p hp
    rw [List.nil_append, List.mem_singleton] at hp
    subst hp
    exact ⟨by decide, le_rfl⟩
  le_end := by simp

section Spec

variable {l : List ℕ} {e : ℕ}

/-- What `kalloc` does: it takes a page off the list, clears it, and changes no page
that is not free. -/
theorem FreeList.kalloc (h : m.FreeList l e) (ha : m.kalloc = some (p, m')) :
    ∃ l' e', m'.FreeList l' e' ∧ IsPage p ∧ Free l e p ∧ m'.mem p = (fun _ => 0) ∧
      (∀ q, IsPage q → (Free l' e' q ↔ Free l e q ∧ q ≠ p)) ∧
      (∀ q, (IsPage q → ¬ Free l e q) → m'.mem q = m.mem q) ∧ e ≤ e' ∧ p < e' ∧
      e' ≤ e + PAGE_SIZE ∧ (e < FREEMEM_KERNEL_STOP → e' < FREEMEM_KERNEL_STOP) := by
  have hhead : m.freememList ∈ l ++ [e] := h.chain.head_mem
  have hpage : IsPage m.freememList := h.isPage _ hhead
  simp only [Memory.kalloc] at ha
  split at ha
  · -- the list is its end alone: the page above becomes the end
    rename_i hnull
    obtain ⟨rfl, rfl⟩ := h.chain.eq_nil hnull
    split at ha
    · rename_i hlt
      simp only [Option.some.injEq, Prod.mk.injEq] at ha
      obtain ⟨rfl, rfl⟩ := ha
      have hne : m.freememList + PAGE_SIZE ≠ m.freememList := by simp [PAGE_SIZE]
      refine ⟨[], m.freememList + PAGE_SIZE, ⟨⟨rfl, ?_⟩, List.nodup_singleton _, ?_, by simp⟩, hpage,
        Or.inr le_rfl, clear_self, ?_, ?_, Nat.le_add_right _ _, by simp [PAGE_SIZE], le_rfl,
        fun _ => hlt⟩
      · show (Memory.clear _ _).mem _ 0 = 0
        rw [clear_of_ne hne, store_self, Function.update_self]
      · intro q hq
        rw [List.nil_append, List.mem_singleton] at hq
        exact hq ▸ isPage_add hpage
      · intro q hq
        simp only [Free, List.not_mem_nil, false_or]
        constructor
        · intro hle
          have : 0 < PAGE_SIZE := by decide
          exact ⟨by omega, by omega⟩
        · rintro ⟨hle, hne'⟩
          exact hpage.add_le hq (lt_of_le_of_ne hle (Ne.symm hne'))
      · intro q hq
        have hq₁ : q ≠ m.freememList := fun heq => hq (heq ▸ hpage) (Or.inr (heq ▸ le_rfl))
        have hq₂ : q ≠ m.freememList + PAGE_SIZE := fun heq =>
          hq (heq ▸ isPage_add hpage) (Or.inr (heq ▸ Nat.le_add_right _ _))
        rw [clear_of_ne hq₁, store_of_ne hq₂]
    · simp at ha
  · -- the first page of the list is taken
    rename_i hne
    obtain ⟨l', rfl, hl'⟩ := h.chain.eq_cons hne
    simp only [Option.some.injEq, Prod.mk.injEq] at ha
    obtain ⟨rfl, rfl⟩ := ha
    have hnd := h.nodup
    rw [List.cons_append, List.nodup_cons] at hnd
    have hlt : m.freememList < e := h.le_end _ List.mem_cons_self
    refine ⟨l', e, ⟨?_, hnd.2, ?_, ?_⟩, hpage, Or.inl List.mem_cons_self, clear_self, ?_, ?_, le_rfl,
      hlt, Nat.le_add_right _ _, id⟩
    · refine hl'.congr fun q hq => ?_
      show (Memory.clear _ _).mem q 0 = _
      have hq' : q ≠ m.freememList := fun heq => hnd.1 (heq ▸ hq)
      rw [clear_of_ne hq']
      rfl
    · exact fun q hq => h.isPage q (List.mem_cons_of_mem _ hq)
    · exact fun q hq => h.le_end q (List.mem_cons_of_mem _ hq)
    · intro q _
      simp only [Free, List.mem_cons]
      constructor
      · rintro (hq | hq)
        · exact ⟨Or.inl (Or.inr hq), fun heq => hnd.1 (heq ▸ List.mem_append_left _ hq)⟩
        · exact ⟨Or.inr hq, by omega⟩
      · rintro ⟨(rfl | hq) | hq, hne'⟩
        · exact absurd rfl hne'
        · exact Or.inl hq
        · exact Or.inr hq
    · intro q hq
      exact clear_of_ne fun heq => hq (heq ▸ hpage) (Or.inl (heq ▸ List.mem_cons_self))

/-- `kalloc` only fails when the list is its end alone and the page above it is not
mapped. -/
lemma FreeList.kalloc_eq_none (h : m.FreeList l e) (ha : m.kalloc = none) :
    l = [] ∧ FREEMEM_KERNEL_STOP ≤ e + PAGE_SIZE := by
  simp only [Memory.kalloc] at ha
  split at ha
  · rename_i hnull
    obtain ⟨rfl, rfl⟩ := h.chain.eq_nil hnull
    split at ha
    · simp at ha
    · rename_i hlt
      exact ⟨rfl, not_lt.1 hlt⟩
  · simp at ha

/-- Every page below the end that is not on the list can be freed: it is the first
page of the list then, and no other page changes. -/
theorem FreeList.kfree (h : m.FreeList l e) (hp : IsPage p) (hfree : ¬ Free l e p) :
    (m.kfree p).FreeList (p :: l) e ∧ (∀ q, q ≠ p → (m.kfree p).mem q = m.mem q) ∧
      ∀ q, Free (p :: l) e q ↔ Free l e q ∨ q = p := by
  have hkfree : m.kfree p = { m.store p 0 m.freememList with freememList := p } := by
    rw [Memory.kfree, if_neg (not_lt.2 hp.2)]
  have hmem : p ∉ l ++ [e] := fun hp' => hfree (free_of_mem hp')
  have hhead : IsPage m.freememList := h.isPage _ h.chain.head_mem
  rw [hkfree]
  refine ⟨⟨?_, ?_, ?_, ?_⟩, fun q hq => store_of_ne hq, fun q => ?_⟩
  · show FreeChain (m.store p 0 m.freememList).next 0 p (p :: l) e
    rw [next_store_zero]
    refine h.chain.push ?_ hmem
    have := hhead.2
    simp only [FREEMEM_KERNEL] at this
    omega
  · exact List.nodup_cons.2 ⟨hmem, h.nodup⟩
  · rintro q (_ | ⟨_, hq⟩)
    · exact hp
    · exact h.isPage q hq
  · rintro q (_ | ⟨_, hq⟩)
    · exact not_le.1 fun hle => hfree (Or.inr hle)
    · exact h.le_end q hq
  · simp only [Free, List.mem_cons]
    tauto

/-- The free list only reads word 0 of the pages that are free. -/
lemma FreeList.congr (h : m.FreeList l e) (hlist : m'.freememList = m.freememList)
    (hmem : ∀ q, IsPage q → Free l e q → m'.mem q 0 = m.mem q 0) : m'.FreeList l e where
  chain := by
    rw [hlist]
    exact h.chain.congr fun q hq => hmem q (h.isPage q hq) (free_of_mem hq)
  nodup := h.nodup
  isPage := h.isPage
  le_end := h.le_end

end Spec

end Memory

end Mm
end UcasKernel
