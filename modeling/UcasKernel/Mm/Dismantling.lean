/-
Which tables `free_pagetable` and `free_pgdir` give back, and in which order.

The two functions once more, with a log of the tables they touch and of those they free.  A
part of the tables is freed by touching it, and the table above it, and freeing each of its
tables; parts that have no table in common are freed one after the other, so that nothing is
touched once it is free.
-/
import UcasKernel.Lib.Logged
import UcasKernel.Mm.Mapping
import UcasKernel.Mm.TeardownRuns
import Mathlib.Data.Set.BooleanAlgebra
import Mathlib.Order.CompletePartialOrder

namespace UcasKernel
namespace Mm

open Memory

/-- A table is read or written, or freed. -/
inductive TableEvent
  | access (table : ℕ)
  | free (table : ℕ)
deriving DecidableEq

/-- The table of an event. -/
def TableEvent.table : TableEvent → ℕ
  | .access table => table
  | .free table => table

/-- A computation with the tables it touches and frees. -/
abbrev TableLog (α : Type) : Type := Logged TableEvent α

/-- A word of a table is read or written. -/
def touch (table : ℕ) : TableLog Unit := .tell (.access table) (some ())

namespace State

/-- The body of the innermost loop of `free_pagetable`. -/
def freeLeafL (pgdir : ℕ) (vpn2 vpn1 : Fin 512) (pte : ℕ) (s : State) (vpn0 : Fin 512) :
    TableLog State := do
  touch pte
  if s.mem pte vpn0 ≠ 0 then do
    let s ← .of (s.freePageWithUva (getUvaFromVpns vpn2 vpn1 vpn0) pgdir)
    touch pte
    pure { s with toMemory := s.store pte vpn0 0 }
  else pure s

/-- `kfree` of a table. -/
def kfreeL (s : State) (table : ℕ) : TableLog State :=
  .tell (.free table) (some { s with toMemory := s.kfree table })

/-- The body of the loop over a second-level table. -/
def freeTableL (pgdir : ℕ) (vpn2 : Fin 512) (pmd : ℕ) (s : State) (vpn1 : Fin 512) :
    TableLog State := do
  touch pmd
  if s.mem pmd vpn1 ≠ 0 then do
    touch pmd
    let pte := s.tableOf pmd vpn1
    let s ← (List.finRange 512).foldlM (freeLeafL pgdir vpn2 vpn1 pte) s
    s.kfreeL pte
  else pure s

/-- The body of the loop over the page directory. -/
def freeMidL (pgdir : ℕ) (s : State) (vpn2 : Fin 512) : TableLog State := do
  touch pgdir
  if s.mem pgdir vpn2 ≠ 0 ∧ vpn2 ≠ KERNEL_VA_VPN2 ∧ vpn2 ≠ IO_REMAP_VA_VPN2 then do
    touch pgdir
    let pmd := s.tableOf pgdir vpn2
    let s ← (List.finRange 512).foldlM (freeTableL pgdir vpn2 pmd) s
    touch pmd
    { s with toMemory := s.clear pmd }.kfreeL pmd
  else pure s

/-- `free_pagetable`. -/
def freePagetableL (s : State) (pgdir : ℕ) : TableLog State :=
  (List.finRange 512).foldlM (freeMidL pgdir) s

/-- `free_pagetable`, then `free_pgdir`. -/
def teardownL (s : State) (pgdir : ℕ) : TableLog State := do
  let s ← s.freePagetableL pgdir
  touch pgdir
  { s with toMemory := s.clear pgdir }.kfreeL pgdir

/-! ## Without the log -/

section Result

open Logged

variable (s : State) (pgdir : ℕ)

lemma result_touch_bind {table : ℕ} (x : TableLog State) :
    (touch table >>= fun _ => x).result = x.result := by
  rw [result_bind]
  rfl

lemma result_freeLeafL (vpn2 vpn1 : Fin 512) (pte : ℕ) (vpn0 : Fin 512) :
    (freeLeafL pgdir vpn2 vpn1 pte s vpn0).result = freeLeaf pgdir vpn2 vpn1 pte s vpn0 := by
  rw [freeLeafL, freeLeaf, result_touch_bind]
  split
  · exact result_bind_congr (result_of _) fun _ => rfl
  · rfl

lemma result_freeTableL (vpn2 : Fin 512) (pmd : ℕ) (vpn1 : Fin 512) :
    (freeTableL pgdir vpn2 pmd s vpn1).result = freeTable pgdir vpn2 pmd s vpn1 := by
  rw [freeTableL, freeTable, result_touch_bind]
  split
  · rw [result_touch_bind]
    refine result_bind_congr (result_foldlM (fun s v0 => ?_) _ _) fun _ => rfl
    exact result_freeLeafL s pgdir vpn2 vpn1 _ v0
  · rfl

lemma result_freeMidL (vpn2 : Fin 512) :
    (freeMidL pgdir s vpn2).result = freeMid pgdir s vpn2 := by
  rw [freeMidL, freeMid, result_touch_bind]
  split
  · rw [result_touch_bind]
    refine result_bind_congr (result_foldlM (fun s v1 => ?_) _ _) fun _ => rfl
    exact result_freeTableL s pgdir vpn2 _ v1
  · rfl

lemma result_freePagetableL : (s.freePagetableL pgdir).result = s.freePagetable pgdir :=
  result_foldlM (fun s v2 => result_freeMidL s pgdir v2) _ _

/-- The log changes nothing. -/
theorem result_teardownL : (s.teardownL pgdir).result =
    (s.freePagetable pgdir).map fun t => { t with toMemory := t.freePgdir pgdir } := by
  rw [teardownL, result_bind, result_freePagetableL]
  cases s.freePagetable pgdir <;> rfl

end Result

/-! ## Parts of the tables -/

/-- The tables that a log frees, in order. -/
def freed (log : List TableEvent) : List ℕ :=
  log.filterMap fun
    | .access _ => none
    | .free table => some table

lemma mem_freed {log : List TableEvent} {f : ℕ} : f ∈ freed log ↔ .free f ∈ log := by
  rw [freed, List.mem_filterMap]
  constructor
  · rintro ⟨ev, hev, heq⟩
    cases ev with
    | access table => cases heq
    | free table =>
      cases heq
      exact hev
  · exact fun h => ⟨_, h, rfl⟩

/-- What comes after the end of a table is not about that table. -/
def Later (ev ev' : TableEvent) : Prop := ∀ f, ev = .free f → ev'.table ≠ f

/-- A computation tears the words `W` and the records of the addresses `Q` down: it touches
tables of `A` only, frees those of `C`, each once, and puts them in front of the free list. -/
structure Dismantles (d : ℕ) (A C : Set ℕ) (W : Set (ℕ × Fin 512)) (Q : Set Vpns) (s : State)
    (x : TableLog State) (t : State) : Prop extends Torn d W Q s t where
  result : x.result = some t
  order : x.log.Pairwise Later
  place : ∀ ev ∈ x.log, ev.table ∈ A
  frees : ∀ f, .free f ∈ x.log ↔ f ∈ C
  list : ∀ l e, s.FreeList l e → (∀ w ∈ W, IsPage w.1 ∧ ¬ Free l e w.1) →
    t.FreeList ((freed x.log).reverse ++ l) e

section Dismantles

variable {s t u s₀ : State} {d f e : ℕ} {A A' C C' : Set ℕ} {W W' : Set (ℕ × Fin 512)}
  {Q Q' : Set Vpns} {x : TableLog State}

namespace Dismantles

lemma mono (h : Dismantles d A C W Q s x t) (hA : A ⊆ A') (hW : W ⊆ W') (hQ : Q ⊆ Q') :
    Dismantles d A' C W' Q' s x t where
  toTorn := h.toTorn.mono hW hQ
  result := h.result
  order := h.order
  place := fun ev hev => hA (h.place ev hev)
  frees := h.frees
  list := fun l e hl hpages => h.list l e hl fun w hw => hpages w (hW hw)

lemma pure (hb : ∃ q, s.Book q) : Dismantles d A ∅ W Q s (pure s) s where
  toTorn := Torn.refl hb
  result := rfl
  order := List.Pairwise.nil
  place := fun _ h => absurd h List.not_mem_nil
  frees := fun _ => iff_of_false List.not_mem_nil id
  list := fun _ _ h _ => h

lemma touch_bind {table : ℕ} (h : Dismantles d A C W Q s x t) (ht : table ∈ A) :
    Dismantles d A C W Q s (touch table >>= fun _ => x) t where
  toTorn := h.toTorn
  result := (result_touch_bind x).trans h.result
  order := List.pairwise_cons.2 ⟨fun _ _ _ heq => (by cases heq), h.order⟩
  place := by
    intro ev hev
    rcases List.mem_cons.1 hev with rfl | hev
    · exact ht
    · exact h.place ev hev
  frees := by
    intro f
    rw [← h.frees f]
    exact List.mem_cons.trans (or_iff_right (by simp))
  list := h.list

/-- One part after another, which touches nothing of the first. -/
lemma bind {g : State → TableLog State} (h : Dismantles d A C W Q s x t)
    (h' : Dismantles d A' C' W' Q' t (g t) u) (hA : Disjoint C A') (hW : ∀ w ∈ W', w.1 ∉ C) :
    Dismantles d (A ∪ A') (C ∪ C') (W ∪ W') (Q ∪ Q') s (x >>= g) u := by
  have hlog : (x >>= g).log = x.log ++ (g t).log := Logged.log_bind h.result g
  refine ⟨(h.toTorn.mono Set.subset_union_left Set.subset_union_left).trans
    (h'.toTorn.mono Set.subset_union_right Set.subset_union_right), ?_, ?_, fun ev hev => ?_,
    fun f => ?_, fun l e hl hpages => ?_⟩
  · rw [Logged.result_bind, h.result]
    exact h'.result
  · rw [hlog]
    refine List.pairwise_append.2 ⟨h.order, h'.order, fun ev hev ev' hev' f heq => ?_⟩
    rintro rfl
    exact Set.disjoint_left.1 hA ((h.frees _).1 (heq ▸ hev)) (h'.place ev' hev')
  · rw [hlog] at hev
    exact (List.mem_append.1 hev).imp (h.place ev) (h'.place ev)
  · rw [hlog, List.mem_append, h.frees, h'.frees]
    rfl
  · have h₁ := h.list l e hl fun w hw => hpages w (.inl hw)
    have h₂ := h'.list _ e h₁ fun w hw => by
      obtain ⟨hpage, hfree⟩ := hpages w (.inr hw)
      refine ⟨hpage, ?_⟩
      rintro (hmem | hle)
      · rcases List.mem_append.1 hmem with hmem | hmem
        · exact hW w hw ((h.frees _).1 (mem_freed.1 (List.mem_reverse.1 hmem)))
        · exact hfree (.inl hmem)
      · exact hfree (.inr hle)
    rw [hlog, freed, List.filterMap_append, List.reverse_append, List.append_assoc]
    exact h₂

/-- A table is freed. -/
lemma kfreeL (hb : ∃ q, s.Book q) :
    Dismantles d {f} {f} {w | w.1 = f} Q s (s.kfreeL f) { s with toMemory := s.kfree f } where
  toTorn := (Torn.refl hb).memory fun g i hg => by rw [kfree_of_ne hg]
  result := rfl
  order := List.pairwise_singleton _ _
  place := by
    intro ev hev
    rw [List.mem_singleton.1 hev]
    rfl
  frees := by
    intro g
    rw [Set.mem_singleton_iff]
    exact List.mem_singleton.trans (by simp)
  list := by
    intro l e hl hpages
    obtain ⟨hpage, hfree⟩ := hpages (f, 0) rfl
    exact (hl.kfree hpage hfree).1

/-- The records do not depend on the memory. -/
lemma book_of_memory {m : Memory} (hb : ∃ q, s.Book q) :
    ∃ q, State.Book { s with toMemory := m } q := by
  obtain ⟨q, hb⟩ := hb
  exact ⟨q, hb.memory _⟩

/-- Words of tables in use are written before. -/
lemma of_write {m : Memory} (h : Dismantles d A C W Q { s with toMemory := m } x t)
    (hb : ∃ q, s.Book q) (hm : ∀ f i, (f, i) ∉ W → m.mem f i = s.mem f i)
    (hlist : m.freememList = s.freememList) : Dismantles d A C W Q s x t where
  toTorn := ((Torn.refl hb).memory hm).trans h.toTorn
  result := h.result
  order := h.order
  place := h.place
  frees := h.frees
  list := by
    intro l e hl hpages
    refine h.list l e (hl.congr hlist fun g hg hfree => hm g 0 fun hw => ?_) hpages
    exact (hpages _ hw).2 hfree

/-- The record of an address is freed. -/
lemma freePage {q : Queue → List Pfn} {p : Vpns} (hb : s.Book q)
    (hrec : s.HasRecord (uvaOf p) d) :
    ∃ t, Dismantles d ∅ ∅ ∅ {p} s (.of (s.freePageWithUva (uvaOf p) d)) t := by
  obtain ⟨t, ht, htorn⟩ := hb.freePageWithUva_torn hrec
  obtain ⟨-, -, hmem, -⟩ := hb.freePageWith_drops (fun _ => hb.find _) ht
  refine ⟨t, htorn, ht, List.Pairwise.nil, fun _ h => absurd h List.not_mem_nil,
    fun _ => iff_of_false List.not_mem_nil id, fun l e hl _ => ?_⟩
  show t.toMemory.FreeList _ _
  rw [hmem]
  exact hl

end Dismantles

/-- The words of `W` are as they were, and the addresses of `Q` have their records still. -/
structure Agrees (d : ℕ) (W : Set (ℕ × Fin 512)) (Q : Set Vpns) (s₀ s : State) : Prop where
  mem : ∀ f i, (f, i) ∈ W → s.mem f i = s₀.mem f i
  records : ∀ p ∈ Q, s₀.HasRecord (uvaOf p) d → s.HasRecord (uvaOf p) d

lemma Agrees.torn (h : Agrees d W Q s₀ s) (ht : Torn d W' Q' s t) (hW : Disjoint W' W)
    (hQ : Disjoint Q' Q) : Agrees d W Q s₀ t where
  mem := fun f i hw => (ht.mem f i fun hw' => Set.disjoint_left.1 hW hw' hw).trans (h.mem f i hw)
  records := fun p hp hrec =>
    ht.records p (fun hp' => Set.disjoint_left.1 hQ hp' hp) (h.records p hp hrec)

/-- The rounds of a loop tear parts down that have nothing in common: a round needs its own
words and records, those of the others do not concern it. -/
lemma foldlM_dismantles {ι : Type*} {g : State → ι → TableLog State} (s₀ : State)
    (need words : ι → Set (ℕ × Fin 512)) (uvas : ι → Set Vpns) (touches parts : ι → Set ℕ)
    (hround : ∀ j s, (∃ q, s.Book q) → Agrees d (need j) (uvas j) s₀ s →
      ∃ t, Dismantles d (touches j) (parts j) (words j) (uvas j) s (g s j) t)
    (hneed : ∀ j k, j ≠ k → Disjoint (words j) (need k))
    (huvas : ∀ j k, j ≠ k → Disjoint (uvas j) (uvas k))
    (htouches : ∀ j k, j ≠ k → Disjoint (parts j) (touches k))
    (hwords : ∀ j k, j ≠ k → ∀ w ∈ words k, w.1 ∉ parts j) {l : List ι} (hl : l.Nodup)
    (hb : ∃ q, s.Book q) (h : ∀ j ∈ l, Agrees d (need j) (uvas j) s₀ s) :
    ∃ t, Dismantles d {f | ∃ j ∈ l, f ∈ touches j} {f | ∃ j ∈ l, f ∈ parts j}
      {w | ∃ j ∈ l, w ∈ words j} {p | ∃ j ∈ l, p ∈ uvas j} s (l.foldlM g s) t := by
  induction l generalizing s with
  | nil =>
    refine ⟨s, ?_⟩
    have hnone : {f : ℕ | ∃ j ∈ ([] : List ι), f ∈ parts j} = ∅ := by
      ext f
      simp
    rw [hnone]
    exact Dismantles.pure hb
  | cons j l ih =>
    rw [List.nodup_cons] at hl
    have hne : ∀ k ∈ l, j ≠ k := by
      rintro k hk rfl
      exact hl.1 hk
    obtain ⟨t, ht⟩ := hround j s hb (h j List.mem_cons_self)
    obtain ⟨u, hu⟩ := ih hl.2 ht.book fun k hk =>
      (h k (List.mem_cons_of_mem _ hk)).torn ht.toTorn (hneed j k (hne k hk)) (huvas j k (hne k hk))
    have hunion : ∀ {α : Type} (c : ι → Set α),
        {a | ∃ k ∈ j :: l, a ∈ c k} = c j ∪ {a | ∃ k ∈ l, a ∈ c k} := by
      intro α c
      ext a
      simp only [List.mem_cons, Set.mem_ofPred_eq, Set.mem_union]
      constructor
      · rintro ⟨k, rfl | hk, ha⟩
        · exact .inl ha
        · exact .inr ⟨k, hk, ha⟩
      · rintro (ha | ⟨k, hk, ha⟩)
        · exact ⟨j, .inl rfl, ha⟩
        · exact ⟨k, .inr hk, ha⟩
    refine ⟨u, ?_⟩
    rw [hunion, hunion, hunion, hunion, List.foldlM_cons]
    refine ht.bind hu ?_ ?_
    · rw [Set.disjoint_left]
      rintro f hf ⟨k, hk, hfk⟩
      exact Set.disjoint_left.1 (htouches j k (hne k hk)) hf hfk
    · rintro w ⟨k, hk, hw⟩
      exact hwords j k (hne k hk) w hw

/-! ## The loops -/

section Loops

variable {y z : ℕ} {v2 v1 v0 : Fin 512}

lemma LeafReady.agrees (h : LeafReady d v2 v1 y v0 s₀) (ha : Agrees d W Q s₀ s) (hw : (y, v0) ∈ W)
    (hp : (v2, v1, v0) ∈ Q) : LeafReady d v2 v1 y v0 s := by
  intro hz
  rw [ha.mem y v0 hw] at hz
  exact ha.records _ hp (h hz)

lemma freeLeafL_dismantles (hb : ∃ q, s.Book q) (h : LeafReady d v2 v1 y v0 s) :
    ∃ t, Dismantles d {y} ∅ {(y, v0)} {(v2, v1, v0)} s (freeLeafL d v2 v1 y s v0) t := by
  rw [freeLeafL]
  split_ifs with hz
  · obtain ⟨q, hb⟩ := hb
    obtain ⟨t, ht⟩ := Dismantles.freePage hb (h hz)
    have hwrite : Dismantles d {y} ∅ {(y, v0)} ∅ t
        (touch y >>= fun _ => Pure.pure { t with toMemory := t.store y v0 0 })
        { t with toMemory := t.store y v0 0 } := by
      refine Dismantles.of_write (m := t.store y v0 0) ?_ ht.book (fun f i hf => ?_) rfl
      · refine Dismantles.touch_bind (Dismantles.pure ?_) rfl
        exact Dismantles.book_of_memory ht.book
      · rcases eq_or_ne f y with rfl | hne
        · rw [store_self, Function.update_of_ne]
          rintro rfl
          exact hf rfl
        · rw [store_of_ne hne]
    have hboth := ht.bind (g := fun s => touch y >>= fun _ =>
      Pure.pure { s with toMemory := s.store y v0 0 }) hwrite (Set.empty_disjoint _)
      fun w _ => Set.notMem_empty _
    rw [Set.empty_union, Set.empty_union, Set.empty_union, Set.union_empty] at hboth
    exact ⟨_, hboth.touch_bind rfl⟩
  · exact ⟨s, (Dismantles.pure hb).touch_bind rfl⟩

/-- The table at an entry of a second-level table. -/
def TableAtEntry (s : State) (z : ℕ) (v1 : Fin 512) : Set ℕ :=
  {f | s.mem z v1 ≠ 0 ∧ f = s.tableOf z v1}

/-- The entries of that table have records. -/
def EntryReady (d : ℕ) (v2 : Fin 512) (z : ℕ) (v1 : Fin 512) (s : State) : Prop :=
  ∀ y ∈ s.TableAtEntry z v1, y ≠ z ∧ ∀ v0, LeafReady d v2 v1 y v0 s

lemma freeTableL_dismantles (hb : ∃ q, s.Book q) (h : EntryReady d v2 z v1 s) :
    ∃ t, Dismantles d ({z} ∪ s.TableAtEntry z v1) (s.TableAtEntry z v1)
      {w | w.1 ∈ s.TableAtEntry z v1} {p | p.1 = v2 ∧ p.2.1 = v1} s (freeTableL d v2 z s v1) t := by
  rw [freeTableL]
  generalize hall : List.finRange 512 = l
  have hl : l.Nodup := hall ▸ List.nodup_finRange 512
  split_ifs with hz
  swap
  · have hnone : s.TableAtEntry z v1 = ∅ := by
      ext f
      exact iff_of_false (fun hf => hz hf.1) id
    rw [hnone]
    exact ⟨s, (Dismantles.pure hb).touch_bind (.inl rfl)⟩
  obtain ⟨y, hy⟩ : ∃ y, s.tableOf z v1 = y := ⟨_, rfl⟩
  have hC : s.TableAtEntry z v1 = {y} := by
    ext f
    rw [TableAtEntry, hy]
    exact and_iff_right hz
  obtain ⟨hyz, hleaf⟩ := h y (by rw [hC]; rfl)
  rw [hC, hy]
  obtain ⟨t, ht⟩ := foldlM_dismantles (g := freeLeafL d v2 v1 y) s (fun v0 => {(y, v0)})
    (fun v0 => {(y, v0)}) (fun v0 => {(v2, v1, v0)}) (fun _ => {y}) (fun _ => ∅)
    (fun v0 s' hb' ha => freeLeafL_dismantles hb' ((hleaf v0).agrees ha rfl rfl))
    (fun j k hne => Set.disjoint_singleton.2 fun heq => hne (Prod.ext_iff.1 heq).2)
    (fun j k hne => Set.disjoint_singleton.2 fun heq =>
      hne (Prod.ext_iff.1 (Prod.ext_iff.1 heq).2).2)
    (fun _ _ _ => Set.empty_disjoint _) (fun _ _ _ _ _ => Set.notMem_empty _) hl hb
    fun _ _ => ⟨fun _ _ _ => rfl, fun _ _ => id⟩
  have hnone : {f : ℕ | ∃ j ∈ l, f ∈ (∅ : Set ℕ)} = ∅ := by
    ext f
    simp
  rw [hnone] at ht
  have hboth := ht.bind (g := fun s => s.kfreeL y) (Dismantles.kfreeL (Q := ∅) ht.book)
    (Set.empty_disjoint _) fun w _ => Set.notMem_empty _
  rw [Set.empty_union] at hboth
  refine ⟨_, ((hboth.mono ?_ ?_ ?_).touch_bind (.inl rfl)).touch_bind (.inl rfl)⟩
  · rintro f (⟨-, -, hf⟩ | hf)
    · exact .inr hf
    · exact .inr hf
  · rintro w (⟨j, -, hw⟩ | hw)
    · rw [Set.mem_singleton_iff.1 hw]
      exact rfl
    · exact hw
  · rintro p (⟨j, -, hp⟩ | hp)
    · rw [Set.mem_singleton_iff.1 hp]
      exact ⟨rfl, rfl⟩
    · cases hp

lemma Agrees.tableAtEntry (ha : Agrees d W Q s₀ s) (hw : (z, v1) ∈ W) :
    s.TableAtEntry z v1 = s₀.TableAtEntry z v1 := by
  have heq := ha.mem z v1 hw
  rw [TableAtEntry, TableAtEntry, heq, tableOf_congr heq]

lemma EntryReady.agrees (h : EntryReady d v2 z v1 s₀) (ha : Agrees d W Q s₀ s) (hz : (z, v1) ∈ W)
    (hw : ∀ w : ℕ × Fin 512, w.1 ∈ s₀.TableAtEntry z v1 → w ∈ W) (hp : ∀ v0, (v2, v1, v0) ∈ Q) :
    EntryReady d v2 z v1 s := by
  intro y hy
  rw [ha.tableAtEntry hz] at hy
  exact ⟨(h y hy).1, fun v0 => ((h y hy).2 v0).agrees ha (hw (y, v0) hy) (hp v0)⟩

/-- The tables at and below an entry of a directory. -/
def TablesAtEntry (s : State) (d : ℕ) (v2 : Fin 512) : Set ℕ :=
  {f | (s.mem d v2 ≠ 0 ∧ Own v2) ∧
    (f = s.tableOf d v2 ∨ ∃ v1, f ∈ s.TableAtEntry (s.tableOf d v2) v1)}

/-- The tables below the entry are different ones, and their entries have records. -/
def SubtreeReady (d : ℕ) (v2 : Fin 512) (s : State) : Prop :=
  s.mem d v2 ≠ 0 → Own v2 → (∀ v1, EntryReady d v2 (s.tableOf d v2) v1 s) ∧
    ∀ j k, j ≠ k → Disjoint (s.TableAtEntry (s.tableOf d v2) j) (s.TableAtEntry (s.tableOf d v2) k)

lemma freeMidL_dismantles (hb : ∃ q, s.Book q) (h : SubtreeReady d v2 s) :
    ∃ t, Dismantles d ({d} ∪ s.TablesAtEntry d v2) (s.TablesAtEntry d v2)
      {w | w.1 ∈ s.TablesAtEntry d v2} {p | p.1 = v2} s (freeMidL d s v2) t := by
  rw [freeMidL]
  generalize hall : List.finRange 512 = l
  have hl : l.Nodup := hall ▸ List.nodup_finRange 512
  have hmem : ∀ j, j ∈ l := fun j => hall ▸ List.mem_finRange j
  split_ifs with hz
  swap
  · have hnone : s.TablesAtEntry d v2 = ∅ := by
      ext f
      exact iff_of_false (fun hf => hz hf.1) id
    rw [hnone]
    exact ⟨s, (Dismantles.pure hb).touch_bind (.inl rfl)⟩
  obtain ⟨hready, happart⟩ := h hz.1 hz.2
  obtain ⟨z, hzdef⟩ : ∃ z, s.tableOf d v2 = z := ⟨_, rfl⟩
  rw [hzdef] at hready happart ⊢
  have hC : s.TablesAtEntry d v2 = {f | ∃ j ∈ l, f ∈ s.TableAtEntry z j} ∪ {z} := by
    ext f
    rw [TablesAtEntry, hzdef]
    constructor
    · rintro ⟨-, rfl | ⟨j, hj⟩⟩
      · exact .inr rfl
      · exact .inl ⟨j, hmem j, hj⟩
    · rintro (⟨j, -, hj⟩ | rfl)
      · exact ⟨hz, .inr ⟨j, hj⟩⟩
      · exact ⟨hz, .inl rfl⟩
  have hzT : ∀ j, z ∉ s.TableAtEntry z j := fun j hj => (hready j z hj).1 rfl
  obtain ⟨t, ht⟩ := foldlM_dismantles (g := freeTableL d v2 z) s
    (fun j => {w | w = (z, j) ∨ w.1 ∈ s.TableAtEntry z j}) (fun j => {w | w.1 ∈ s.TableAtEntry z j})
    (fun j => {p | p.1 = v2 ∧ p.2.1 = j}) (fun j => {z} ∪ s.TableAtEntry z j) (s.TableAtEntry z)
    (fun j s' hb' ha => by
      have hentry := (hready j).agrees ha (.inl rfl) (fun _ => .inr) fun _ => ⟨rfl, rfl⟩
      have hround := freeTableL_dismantles hb' hentry
      rwa [ha.tableAtEntry (.inl rfl)] at hround)
    (fun j k hne => Set.disjoint_left.2 fun w hw hw' => by
      rcases hw' with rfl | hw'
      · exact hzT j hw
      · exact Set.disjoint_left.1 (happart j k hne) hw hw')
    (fun j k hne => Set.disjoint_left.2 fun p hp hp' => hne (hp.2.symm.trans hp'.2))
    (fun j k hne => Set.disjoint_left.2 fun f hf hf' => by
      rcases hf' with rfl | hf'
      · exact hzT j hf
      · exact Set.disjoint_left.1 (happart j k hne) hf hf')
    (fun j k hne w hw hw' => Set.disjoint_left.1 (happart j k hne) hw' hw) hl hb
    fun _ _ => ⟨fun _ _ _ => rfl, fun _ _ => id⟩
  -- the table itself
  have hself : Dismantles d {z} {z} {w | w.1 = z} ∅ t
      (touch z >>= fun _ => { t with toMemory := t.clear z }.kfreeL z)
      { t with toMemory := (t.clear z).kfree z } := by
    refine Dismantles.of_write (m := t.clear z) ?_ ht.book (fun f i hf => ?_) rfl
    · exact (Dismantles.kfreeL (Dismantles.book_of_memory ht.book)).touch_bind rfl
    · rw [clear_of_ne hf]
  have hboth := ht.bind
    (g := fun s => touch z >>= fun _ => { s with toMemory := s.clear z }.kfreeL z)
    hself (Set.disjoint_singleton_right.2 fun ⟨j, _, hj⟩ => hzT j hj) (by
      rintro w hw ⟨j, -, hj⟩
      exact hzT j (hw ▸ hj))
  rw [← hC] at hboth
  refine ⟨_, ((hboth.mono ?_ ?_ ?_).touch_bind (.inl rfl)).touch_bind (.inl rfl)⟩
  · rintro f (⟨j, hj, rfl | hf⟩ | hf)
    · exact .inr (hC ▸ .inr rfl)
    · exact .inr (hC ▸ .inl ⟨j, hj, hf⟩)
    · exact .inr (hC ▸ .inr hf)
  · rintro w (⟨j, hj, hw⟩ | hw)
    · exact hC ▸ .inl ⟨j, hj, hw⟩
    · exact hC ▸ .inr hw
  · rintro p (⟨j, -, hp⟩ | hp)
    · exact hp.1
    · cases hp

lemma SubtreeReady.agrees (h : SubtreeReady d v2 s₀) (ha : Agrees d W Q s₀ s) (hd : (d, v2) ∈ W)
    (hw : ∀ w : ℕ × Fin 512, w.1 ∈ s₀.TablesAtEntry d v2 → w ∈ W)
    (hp : ∀ p : Vpns, p.1 = v2 → p ∈ Q) :
    SubtreeReady d v2 s ∧ s.TablesAtEntry d v2 = s₀.TablesAtEntry d v2 := by
  have heq := ha.mem d v2 hd
  have hof := tableOf_congr heq
  have htables : ∀ j, s.mem d v2 ≠ 0 → Own v2 →
      s.TableAtEntry (s.tableOf d v2) j = s₀.TableAtEntry (s₀.tableOf d v2) j := by
    intro j hz ho
    rw [heq] at hz
    rw [hof]
    exact ha.tableAtEntry (hw (s₀.tableOf d v2, j) ⟨⟨hz, ho⟩, .inl rfl⟩)
  refine ⟨fun hz ho => ?_, ?_⟩
  · have hz₀ := hz
    rw [heq] at hz₀
    obtain ⟨hready, happart⟩ := h hz₀ ho
    refine ⟨fun v1 => ?_, fun j k hne => ?_⟩
    · rw [hof]
      exact (hready v1).agrees ha (hw (s₀.tableOf d v2, v1) ⟨⟨hz₀, ho⟩, .inl rfl⟩)
        (fun w hmem => hw w ⟨⟨hz₀, ho⟩, .inr ⟨v1, hmem⟩⟩) fun v0 => hp _ rfl
    · rw [htables j hz ho, htables k hz ho]
      exact happart j k hne
  · ext f
    constructor
    · rintro ⟨⟨hz, ho⟩, hf⟩
      refine ⟨⟨heq ▸ hz, ho⟩, hf.imp (fun hf => hf.trans hof) fun ⟨j, hj⟩ => ⟨j, ?_⟩⟩
      rwa [htables j hz ho] at hj
    · rintro ⟨⟨hz, ho⟩, hf⟩
      have hz' : s.mem d v2 ≠ 0 := by rwa [heq]
      refine ⟨⟨hz', ho⟩, hf.imp (fun hf => hf.trans hof.symm) fun ⟨j, hj⟩ => ⟨j, ?_⟩⟩
      rwa [htables j hz' ho]

/-- The tables below a directory. -/
def TablesBelow (s : State) (d : ℕ) : Set ℕ := {f | ∃ v2, f ∈ s.TablesAtEntry d v2}

/-- `free_pagetable` and `free_pgdir` of a directory whose tables are different ones. -/
lemma teardownL_dismantles (hb : ∃ q, s.Book q) (hready : ∀ v2, SubtreeReady d v2 s)
    (happart : ∀ j k, j ≠ k → Disjoint (s.TablesAtEntry d j) (s.TablesAtEntry d k))
    (hd : d ∉ s.TablesBelow d) :
    ∃ t, s.freePagetable d = some t ∧
      Dismantles d (s.TablesBelow d ∪ {d}) (s.TablesBelow d ∪ {d}) {w | w.1 ∈ s.TablesBelow d ∪ {d}}
        Set.univ s (s.teardownL d) { t with toMemory := t.freePgdir d } := by
  rw [← result_freePagetableL, teardownL, freePagetableL]
  generalize hall : List.finRange 512 = l
  have hl : l.Nodup := hall ▸ List.nodup_finRange 512
  have hmem : ∀ j, j ∈ l := fun j => hall ▸ List.mem_finRange j
  have hdT : ∀ j, d ∉ s.TablesAtEntry d j := fun j hj => hd ⟨j, hj⟩
  obtain ⟨t, ht⟩ := foldlM_dismantles (g := freeMidL d) s
    (fun j => {w | w = (d, j) ∨ w.1 ∈ s.TablesAtEntry d j})
    (fun j => {w | w.1 ∈ s.TablesAtEntry d j})
    (fun j => {p | p.1 = j}) (fun j => {d} ∪ s.TablesAtEntry d j) (s.TablesAtEntry d)
    (fun j s' hb' ha => by
      obtain ⟨hsub, heq⟩ := (hready j).agrees ha (.inl rfl) (fun _ => .inr) fun _ => id
      have hround := freeMidL_dismantles hb' hsub
      rwa [heq] at hround)
    (fun j k hne => Set.disjoint_left.2 fun w hw hw' => by
      rcases hw' with rfl | hw'
      · exact hdT j hw
      · exact Set.disjoint_left.1 (happart j k hne) hw hw')
    (fun j k hne => Set.disjoint_left.2 fun p hp hp' => hne (hp.symm.trans hp'))
    (fun j k hne => Set.disjoint_left.2 fun f hf hf' => by
      rcases hf' with rfl | hf'
      · exact hdT j hf
      · exact Set.disjoint_left.1 (happart j k hne) hf hf')
    (fun j k hne w hw hw' => Set.disjoint_left.1 (happart j k hne) hw' hw) hl hb
    fun _ _ => ⟨fun _ _ _ => rfl, fun _ _ => id⟩
  have hC : {f | ∃ j ∈ l, f ∈ s.TablesAtEntry d j} = s.TablesBelow d := by
    ext f
    exact ⟨fun ⟨j, _, hj⟩ => ⟨j, hj⟩, fun ⟨j, hj⟩ => ⟨j, hmem j, hj⟩⟩
  rw [hC] at ht
  -- the directory itself
  have hself : Dismantles d {d} {d} {w | w.1 = d} ∅ t
      (touch d >>= fun _ => { t with toMemory := t.clear d }.kfreeL d)
      { t with toMemory := t.freePgdir d } := by
    refine Dismantles.of_write (m := t.clear d) ?_ ht.book (fun f i hf => ?_) rfl
    · exact (Dismantles.kfreeL (Dismantles.book_of_memory ht.book)).touch_bind rfl
    · rw [clear_of_ne hf]
  have hboth := ht.bind
    (g := fun s => touch d >>= fun _ => { s with toMemory := s.clear d }.kfreeL d)
    hself (Set.disjoint_singleton_right.2 hd) fun w (hw : w.1 = d) hw' => hd (hw ▸ hw')
  refine ⟨t, ht.result, hboth.mono ?_ ?_ (Set.subset_univ _)⟩
  · rintro f (⟨j, -, rfl | hf⟩ | hf)
    · exact .inr rfl
    · exact .inl ⟨j, hf⟩
    · exact .inr hf
  · rintro w (⟨j, -, hw⟩ | hw)
    · exact .inl ⟨j, hw⟩
    · exact .inr hw

end Loops

end Dismantles

/-! ## A tree of tables -/

section Trees

variable {s : State} {q : Queue → List Pfn} {l : List ℕ} {d e f : ℕ} {v2 v1 : Fin 512}

/-- Every table of the directory but those of the user half is one of the two that all
directories share. -/
def SharesUpper (s : State) (d : ℕ) : Prop := ∀ i, ¬ UserEntry i → Own i → s.mem d i = 0

lemma tableAt_one (hz : s.mem d v2 ≠ 0) : s.tableAt d [v2] = some (s.tableOf d v2) := by
  rw [tableAt, if_neg hz]
  rfl

lemma mem_tableAtEntry (hz : s.mem d v2 ≠ 0) :
    f ∈ s.TableAtEntry (s.tableOf d v2) v1 ↔ s.tableAt d [v2, v1] = some f := by
  rw [tableAt, if_neg hz, tableAt]
  split
  · rename_i hzero
    exact iff_of_false (fun hf => hf.1 hzero) (by simp)
  · rename_i hne
    rw [tableAt, Option.some.injEq]
    exact ⟨fun hf => hf.2.symm, fun hf => ⟨hne, hf.symm⟩⟩

/-- The tables below an entry are those at the ends of the paths that begin with it. -/
lemma mem_tablesAtEntry (hup : s.SharesUpper d) :
    f ∈ s.TablesAtEntry d v2 ↔
      ∃ path, UserPath (v2 :: path) ∧ s.tableAt d (v2 :: path) = some f := by
  constructor
  · rintro ⟨⟨hz, ho⟩, hf⟩
    have huser : UserEntry v2 := by
      by_contra hnot
      exact hz (hup v2 hnot ho)
    rcases hf with hf | ⟨v1, hv1⟩
    · refine ⟨[], ⟨by simp, by simpa using huser⟩, ?_⟩
      rw [hf]
      exact tableAt_one hz
    · exact ⟨[v1], userPath_pair huser v1, (mem_tableAtEntry hz).1 hv1⟩
  · rintro ⟨path, hpath, hf⟩
    have ho : Own v2 := (hpath.2 v2 rfl).own
    have hz : s.mem d v2 ≠ 0 := by
      intro hz
      rw [tableAt, if_pos hz] at hf
      cases hf
    refine ⟨⟨hz, ho⟩, ?_⟩
    cases path with
    | nil =>
      rw [tableAt_one hz] at hf
      exact .inl (Option.some.inj hf).symm
    | cons v1 path =>
      have hnil : path = [] := by
        have hlen := hpath.1
        simp only [List.length_cons] at hlen
        exact List.length_eq_zero_iff.1 (by omega)
      subst hnil
      exact .inr ⟨v1, (mem_tableAtEntry hz).2 hf⟩

/-- The tables below the directory are those at the ends of the paths, but for itself. -/
lemma mem_tablesBelow (hup : s.SharesUpper d) :
    f ∈ s.TablesBelow d ∪ {d} ↔ ∃ path, UserPath path ∧ s.tableAt d path = some f := by
  constructor
  · rintro (⟨v2, hv2⟩ | hf)
    · obtain ⟨path, hpath, hf⟩ := (mem_tablesAtEntry hup).1 hv2
      exact ⟨_, hpath, hf⟩
    · exact ⟨[], ⟨by simp, by simp⟩, congrArg some hf.symm⟩
  · rintro ⟨path, hpath, hf⟩
    cases path with
    | nil => exact .inr (Option.some.inj hf).symm
    | cons v2 path => exact .inl ⟨v2, (mem_tablesAtEntry hup).2 ⟨path, hpath, hf⟩⟩

/-- Tearing the tables of a directory down frees every one of them once, the directory last,
and touches none after that; all other pages keep their words. -/
theorem teardown_tables_once (h : Tree s.toMemory d l e) (hb : s.Book q)
    (hpage : ∀ path t, UserPath path → s.tableAt d path = some t → IsPage t)
    (hup : s.SharesUpper d)
    (hrec : ∀ p : Vpns, UserEntry p.1 → s.leaf d p ≠ 0 → s.HasRecord (uvaOf p) d) :
    ∃ t, s.freePagetable d = some t ∧
      (s.teardownL d).result = some { t with toMemory := t.freePgdir d } ∧
      (s.teardownL d).log.Pairwise Later ∧
      (∀ f, .free f ∈ (s.teardownL d).log ↔ ∃ path, UserPath path ∧ s.tableAt d path = some f) ∧
      (t.freePgdir d).FreeList ((freed (s.teardownL d).log).reverse ++ l) e ∧
      ∀ f, (∀ path, UserPath path → s.tableAt d path ≠ some f) →
        (t.freePgdir d).mem f = s.mem f := by
  have huser : ∀ v2, s.mem d v2 ≠ 0 → Own v2 → UserEntry v2 := by
    intro v2 hz ho
    by_contra hnot
    exact hz (hup v2 hnot ho)
  have hready : ∀ v2, SubtreeReady d v2 s := by
    intro v2 hz ho
    have hu := huser v2 hz ho
    have hone : UserPath [v2] := ⟨by simp, by simpa using hu⟩
    refine ⟨fun v1 y hy => ⟨?_, fun v0 hz' => ?_⟩,
      fun j k hne => Set.disjoint_left.2 fun y hy hy' => ?_⟩
    · intro hyz
      have ht := (mem_tableAtEntry hz).1 hy
      rw [hyz] at ht
      have heq := h.inj _ _ _ (userPath_pair hu v1) hone ht (tableAt_one hz)
      simp at heq
    · refine hrec (v2, v1, v0) hu ?_
      rw [leaf_eq_tableAt, (mem_tableAtEntry hz).1 hy]
      exact hz'
    · have heq := h.inj _ _ _ (userPath_pair hu j) (userPath_pair hu k) ((mem_tableAtEntry hz).1 hy)
        ((mem_tableAtEntry hz).1 hy')
      simp only [List.cons.injEq, and_true, true_and] at heq
      exact hne heq
  have happart : ∀ j k, j ≠ k → Disjoint (s.TablesAtEntry d j) (s.TablesAtEntry d k) := by
    refine fun j k hne => Set.disjoint_left.2 fun y hy hy' => ?_
    obtain ⟨path, hpath, ht⟩ := (mem_tablesAtEntry hup).1 hy
    obtain ⟨path', hpath', ht'⟩ := (mem_tablesAtEntry hup).1 hy'
    exact hne (List.cons.inj (h.inj _ _ _ hpath hpath' ht ht')).1
  have hd : d ∉ s.TablesBelow d := by
    rintro ⟨v2, hv2⟩
    obtain ⟨path, hpath, ht⟩ := (mem_tablesAtEntry hup).1 hv2
    cases h.inj _ [] _ hpath ⟨by simp, by simp⟩ ht rfl
  obtain ⟨t, ht, hdis⟩ := teardownL_dismantles ⟨q, hb⟩ hready happart hd
  refine ⟨t, ht, hdis.result, hdis.order, fun f => (hdis.frees f).trans (mem_tablesBelow hup), ?_,
    fun f hf => ?_⟩
  · refine hdis.list l e h.list fun w hw => ?_
    obtain ⟨path, hpath, hw⟩ := (mem_tablesBelow hup).1 hw
    exact ⟨hpage path _ hpath hw, h.inUse path _ hpath hw (hpage path _ hpath hw)⟩
  · funext i
    refine hdis.mem f i fun hw => ?_
    obtain ⟨path, hpath, hw⟩ := (mem_tablesBelow hup).1 hw
    exact hf path hpath hw

end Trees

end State

namespace Sharing

/-- A process with a page of its own and a shared page is torn down. -/
theorem teardown_tables_once_two : ∃ x t l e,
    Trace.run step (boot ⟨fun _ _ => 0, 0⟩ 1 1 (fun _ _ => 0) 100)
      [.newPgdir, .handlePageFault 0x10123 FREEMEM_KERNEL true, .shmPageGet 42 FREEMEM_KERNEL] =
        some x ∧
      x.state.freePagetable FREEMEM_KERNEL = some t ∧
      (x.state.teardownL FREEMEM_KERNEL).log.Pairwise State.Later ∧
      (t.freePgdir FREEMEM_KERNEL).FreeList
        ((State.freed (x.state.teardownL FREEMEM_KERNEL).log).reverse ++ l) e := by
  have hrun : (Trace.run step (boot ⟨fun _ _ => 0, 0⟩ 1 1 (fun _ _ => 0) 100)
      [.newPgdir, .handlePageFault 0x10123 FREEMEM_KERNEL true, .shmPageGet 42 FREEMEM_KERNEL]).map
      (fun x => decide (FREEMEM_KERNEL ∈ x.spaces ∧
        ∀ i : Fin 512, 256 ≤ i.val → Own i → x.state.mem FREEMEM_KERNEL i = 0)) = some true := by
    decide +kernel
  obtain ⟨x, hx, hdec⟩ := Option.map_eq_some_iff.1 hrun
  obtain ⟨hmem, hupper⟩ := of_decide_eq_true hdec
  have htidy : x.TidyInv := by
    refine (Trace.always_of_invariant (fun _ _ _ hx ht hs => TidyInv.step hx ht hs)
      (tidyInv_boot _ 1 1 _ 100) ?_).last hx
    refine (Trace.stepsMeet_of_checkSteps (C := fun x ev => match ev with
      | .newPgdir => true
      | .shmPageGet key _ => decide (x.state.findShare key = none)
      | .handlePageFault stval _ _ => decide (Own (vpn2 stval) ∧ stval < 2 ^ 39)
      | _ => false) (by decide +kernel)).mono fun x ev hev => ?_
    cases ev <;> simp_all [Tidy]
  obtain ⟨role, e, q, h, hr⟩ := htidy
  have hdir := h.spaces.role_dir hmem
  obtain ⟨l, htree⟩ := h.spaces.tables.tree hdir
  obtain ⟨t, ht, -, horder, -, hlist, -⟩ := State.teardown_tables_once htree h.book
    (fun path f hp hf => h.spaces.tables.isPage f (by
      rcases h.spaces.tables.role_tableAt hdir hp hf with ⟨-, hf⟩ | ⟨i, -, hf⟩ |
        ⟨i, y, j, -, -, hf⟩ <;> simp [hf]))
    (fun i hi ho => hupper i (not_lt.1 hi) ho)
    fun p hp hne => by
      obtain ⟨r, hused, huva, hpgdir, -⟩ := hr.leaf _ hmem p hp.own hne
      exact ⟨r, hused, huva, hpgdir⟩
  exact ⟨x, t, l, e, hx, ht, horder, hlist⟩

end Sharing

end Mm
end UcasKernel
