/-
Tearing an address space down.

`free_pagetable` computes the address of every entry of the third level from its indices,
and `free_page_with_uva` asserts that a record has that address and the directory.  So an
address space can be torn down when every entry has such a record.  A part of the tables
that is torn down loses its pages and its records; the parts that are left have theirs,
as no page is in two of them.
-/
import UcasKernel.Mm.SharedRuns

namespace UcasKernel
namespace Mm

open Links (appendTo removeFrom)
open Memory

namespace State

variable {s t u : State} {q : Queue → List Pfn} {r : Pfn} {d x f kva pgdir e : ℕ}
  {v2 v1 v0 : Fin 512} {role : ℕ → Role} {p : Vpns} {F F' : Set (ℕ × Fin 512)} {Q Q' : Set Vpns}

/-! ## Freeing a record -/

/-- A record in use is that of the address. -/
def HasRecord (s : State) (uva pgdir : ℕ) : Prop :=
  ∃ r, (s.pages r).pageId ≠ 0 ∧ (s.pages r).uva = uva ∧ (s.pages r).pgdir = pgdir

/-- A record that is in use is found on one of the queues. -/
lemma Book.findPageWithUva_eq_some {uva : ℕ} (hb : s.Book q) (h : s.HasRecord uva d) :
    ∃ queue r, s.findPageWithUva uva d queue = some (some r) := by
  obtain ⟨r, hused, huva, hpgdir⟩ := h
  obtain ⟨g, hmem⟩ := (hb.used r).1 hused
  have hfound : ((q g).find? fun page =>
      (s.pages page).uva = uva ∧ (s.pages page).pgdir = d).isSome :=
    List.find?_isSome.2 ⟨r, hmem, decide_eq_true ⟨huva, hpgdir⟩⟩
  obtain ⟨r', hr'⟩ := Option.isSome_iff_exists.1 hfound
  exact ⟨g, r', (hb.find _).trans (congrArg some hr')⟩

/-- A record that is in use can be freed. -/
lemma Book.freePageWith_isSome {g : Pfn → Bool} {findPage : Queue → Option (Option Pfn)}
    (hb : s.Book q) (hfind : ∀ h, findPage h = some ((q h).find? g))
    (hr : (s.pages r).pageId ≠ 0) (hp : g r = true) : ∃ t, s.freePageWith findPage = some t := by
  have hdrop : ∀ {h : Queue} {r : Pfn}, r ∈ q h → ∃ t, s.dropPage r = some t := by
    intro h r hmem
    obtain ⟨L, hL, -⟩ := hb.repr.delete hmem
    simp only [State.dropPage, listDeleteEntry, resetPageInfo, setPage, hL, Option.map_some,
      Option.bind_eq_bind, Option.bind_some]
    exact ⟨_, rfl⟩
  obtain ⟨h, hmem⟩ := (hb.used r).1 hr
  simp only [State.freePageWith, hfind, Option.bind_eq_bind, Option.bind_some]
  cases hpresent : (q .presentPagesQueue).find? g with
  | some r' =>
    obtain ⟨t, ht⟩ := hdrop (List.mem_of_find?_eq_some hpresent)
    simp only [ht, Option.bind_some]
    exact ⟨_, rfl⟩
  | none =>
    have hswapped : r ∈ q .swappedPagesQueue := by
      cases h with
      | presentPagesQueue => exact absurd hp (List.find?_eq_none.1 hpresent r hmem)
      | swappedPagesQueue => exact hmem
    obtain ⟨r', hr'⟩ : ∃ r', (q .swappedPagesQueue).find? g = some r' :=
      Option.isSome_iff_exists.1 (List.find?_isSome.2 ⟨r, hswapped, hp⟩)
    simp only [hr', Option.bind_some]
    exact hdrop (List.mem_of_find?_eq_some hr')

/-- The record that is freed, and the others. -/
lemma Book.freePageWith_pages {g : Pfn → Bool} {findPage : Queue → Option (Option Pfn)}
    (hb : s.Book q) (hfind : ∀ h, findPage h = some ((q h).find? g))
    (hs : s.freePageWith findPage = some t) :
    ∃ r, (s.pages r).pageId ≠ 0 ∧ g r = true ∧ (t.pages r).pageId = 0 ∧
      ∀ r', r' ≠ r → t.pages r' = s.pages r' := by
  obtain ⟨h, r, L, hr, -, rfl, -⟩ := hb.freePageWith hfind hs
  refine ⟨r, (hb.used r).2 ⟨h, List.mem_of_find?_eq_some hr⟩, List.find?_some hr, ?_, fun r' hr' => ?_⟩
  · simp only [Function.update_self]
  · simp only [Function.update_of_ne hr']

/-- Records of the directory have been freed, and no others. -/
structure Freed (pgdir : ℕ) (s t : State) : Prop where
  book : ∃ q, t.Book q
  sharePages : t.sharePages = s.sharePages
  pages : ∀ r, (t.pages r).pageId ≠ 0 → t.pages r = s.pages r
  other : ∀ r, (s.pages r).pgdir ≠ pgdir → t.pages r = s.pages r

lemma Freed.freePageWithUva {uva : ℕ} (h : Freed pgdir s t)
    (ht : t.freePageWithUva uva pgdir = some u) : Freed pgdir s u := by
  obtain ⟨⟨q, hb⟩, hshare, hpages, hother⟩ := h
  obtain ⟨q', hdrops, -, hshare', -⟩ := hb.freePageWith_drops (fun _ => hb.find _) ht
  obtain ⟨r, hused, hfound, hzero, hkeep⟩ := hb.freePageWith_pages (fun _ => hb.find _) ht
  refine ⟨⟨q', hdrops.book⟩, hshare'.trans hshare, fun r' hr' => ?_, fun r' hr' => ?_⟩
  · have hne : r' ≠ r := by
      rintro rfl
      exact hr' hzero
    rw [hkeep r' hne] at hr' ⊢
    exact hpages r' hr'
  · have hne : r' ≠ r := by
      rintro rfl
      rw [← hpages r' hused] at hr'
      exact hr' (of_decide_eq_true hfound).2
    rw [hkeep r' hne]
    exact hother r' hr'

lemma Freed.refl (hb : ∃ q, s.Book q) : Freed pgdir s s :=
  ⟨hb, rfl, fun _ _ => rfl, fun _ _ => rfl⟩

lemma Freed.memory {m : Memory} (h : Freed pgdir s t) : Freed pgdir s { t with toMemory := m } where
  book := by
    obtain ⟨q, hb⟩ := h.book
    exact ⟨q, hb.memory _⟩
  sharePages := h.sharePages
  pages := h.pages
  other := h.other

lemma Freed.trans (h : Freed pgdir s t) (h' : Freed pgdir t u) : Freed pgdir s u where
  book := h'.book
  sharePages := h'.sharePages.trans h.sharePages
  pages := by
    intro r hr
    have heq := h'.pages r hr
    rw [heq] at hr
    exact heq.trans (h.pages r hr)
  other := by
    intro r hr
    have heq := h.other r hr
    rw [← heq] at hr
    exact (h'.other r hr).trans heq

lemma freePagetable_freed (hb : s.Book q) (hs : s.freePagetable pgdir = some t) : Freed pgdir s t :=
  freePagetable_rule (I := Freed pgdir s) (fun _ _ h => h.memory)
    (fun _ _ _ h ht => h.freePageWithUva ht) (Freed.refl ⟨q, hb⟩) hs

/-- The indices of an address are those that it was computed from. -/
lemma uvaOf_inj {p p' : Vpns} (h : uvaOf p = uvaOf p') : p = p' := by
  rw [← vpns_uvaOf (p := p), h, vpns_uvaOf]

/-! ## Parts of the tables -/

/-- What tearing a part of the tables down leaves: the words but those of `F`, and the records
of the addresses but those of `Q`. -/
structure Torn (d : ℕ) (F : Set (ℕ × Fin 512)) (Q : Set Vpns) (s t : State) : Prop where
  book : ∃ q, t.Book q
  mem : ∀ f i, (f, i) ∉ F → t.mem f i = s.mem f i
  records : ∀ p, p ∉ Q → s.HasRecord (uvaOf p) d → t.HasRecord (uvaOf p) d

lemma Torn.refl (hb : ∃ q, s.Book q) : Torn d F Q s s := ⟨hb, fun _ _ _ => rfl, fun _ _ => id⟩

lemma Torn.mono (h : Torn d F' Q' s t) (hF : F' ⊆ F) (hQ : Q' ⊆ Q) : Torn d F Q s t where
  book := h.book
  mem := fun f i hf => h.mem f i fun hf' => hf (hF hf')
  records := fun p hp => h.records p fun hp' => hp (hQ hp')

lemma Torn.trans (h : Torn d F Q s t) (h' : Torn d F Q t u) : Torn d F Q s u where
  book := h'.book
  mem := fun f i hf => (h'.mem f i hf).trans (h.mem f i hf)
  records := fun p hp hrec => h'.records p hp (h.records p hp hrec)

/-- Then words of `F` are written. -/
lemma Torn.memory {m : Memory} (h : Torn d F Q s t)
    (hm : ∀ f i, (f, i) ∉ F → m.mem f i = t.mem f i) :
    Torn d F Q s { t with toMemory := m } where
  book := by
    obtain ⟨q, hb⟩ := h.book
    exact ⟨q, hb.memory _⟩
  mem := fun f i hf => (hm f i hf).trans (h.mem f i hf)
  records := h.records

lemma Torn.tableOf (h : Torn d F Q s t) {i : Fin 512} (hf : (f, i) ∉ F) :
    t.tableOf f i = s.tableOf f i := tableOf_congr (h.mem f i hf)

lemma Book.freePageWithUva_torn (hb : s.Book q) (hrec : s.HasRecord (uvaOf p) d) :
    ∃ t, s.freePageWithUva (uvaOf p) d = some t ∧ Torn d ∅ {p} s t := by
  obtain ⟨r, hr, huva, hpgdir⟩ := hrec
  obtain ⟨t, ht⟩ := hb.freePageWith_isSome
    (g := fun page => (s.pages page).uva = uvaOf p ∧ (s.pages page).pgdir = d) (fun _ => hb.find _)
    hr (decide_eq_true ⟨huva, hpgdir⟩)
  obtain ⟨h, r', L, hr', -, rfl, hbook⟩ := hb.freePageWith (fun _ => hb.find _) ht
  refine ⟨_, ht, ?_⟩
  constructor
  · exact ⟨_, hbook⟩
  · exact fun _ _ _ => rfl
  · rintro p' hp' ⟨r₁, hr₁, huva₁, hpgdir₁⟩
    have hfound := List.find?_some hr'
    rw [decide_eq_true_eq] at hfound
    have hne : r₁ ≠ r' := by
      rintro rfl
      exact hp' (uvaOf_inj (huva₁.symm.trans hfound.1))
    refine ⟨r₁, ?_⟩
    simp only [Function.update_of_ne hne]
    exact ⟨hr₁, huva₁, hpgdir₁⟩

/-- The rounds of a loop tear parts down that have nothing in common: `ready` is what a round
needs, and the rounds of the others keep it. -/
lemma foldlM_torn {ι : Type*} {g : State → ι → Option State} (ready : ι → State → Prop)
    (words : ι → Set (ℕ × Fin 512)) (uvas : ι → Set Vpns) (hF : ∀ j, words j ⊆ F)
    (hQ : ∀ j, uvas j ⊆ Q)
    (hround : ∀ j s, (∃ q, s.Book q) → ready j s →
      ∃ t, g s j = some t ∧ Torn d (words j) (uvas j) s t)
    (hkeep : ∀ j k s t, j ≠ k → ready k s → Torn d (words j) (uvas j) s t → ready k t) {l : List ι}
    (hl : l.Nodup) (hb : ∃ q, s.Book q) (h : ∀ j ∈ l, ready j s) :
    ∃ t, l.foldlM g s = some t ∧ Torn d F Q s t := by
  have hstep : ∀ j l t, (Torn d F Q s t ∧ (j :: l).Nodup ∧ ∀ k ∈ j :: l, ready k t) →
      ∃ u, g t j = some u ∧ Torn d F Q s u ∧ l.Nodup ∧ ∀ k ∈ l, ready k u := by
    rintro j l t ⟨htorn, hl, hready⟩
    rw [List.nodup_cons] at hl
    obtain ⟨u, hu, htorn'⟩ := hround j t htorn.book (hready j List.mem_cons_self)
    refine ⟨u, hu, htorn.trans (htorn'.mono (hF j) (hQ j)), hl.2, fun k hk => ?_⟩
    refine hkeep j k t u ?_ (hready k (List.mem_cons_of_mem _ hk)) htorn'
    rintro rfl
    exact hl.1 hk
  obtain ⟨t, ht, htorn, -⟩ := Trace.foldlM_total_rest
    (P := fun l t => Torn d F Q s t ∧ l.Nodup ∧ ∀ j ∈ l, ready j t) hstep ⟨Torn.refl hb, hl, h⟩
  exact ⟨t, ht, htorn⟩

/-! ## The loops -/

/-- The entry of a third-level table has a record, or is zero. -/
def LeafReady (d : ℕ) (v2 v1 : Fin 512) (x : ℕ) (v0 : Fin 512) (s : State) : Prop :=
  s.mem x v0 ≠ 0 → s.HasRecord (uvaOf (v2, v1, v0)) d

/-- The entry of a second-level table leads to a table whose entries have records. -/
def TableReady (role : ℕ → Role) (d : ℕ) (v2 : Fin 512) (x : ℕ) (v1 : Fin 512) (s : State) : Prop :=
  s.mem x v1 ≠ 0 → role (s.tableOf x v1) = .table x v1 ∧
    ∀ v0, LeafReady d v2 v1 (s.tableOf x v1) v0 s

/-- The entry of a directory leads to a table with such entries. -/
def MidReady (role : ℕ → Role) (d : ℕ) (v2 : Fin 512) (s : State) : Prop :=
  s.mem d v2 ≠ 0 → Own v2 → role (s.tableOf d v2) = .mid d v2 ∧
    ∀ v1, TableReady role d v2 (s.tableOf d v2) v1 s

/-- The words of the table at an entry of a second-level table. -/
def TableWords (role : ℕ → Role) (x : ℕ) (v1 : Fin 512) : Set (ℕ × Fin 512) :=
  {w | role w.1 = .table x v1}

/-- The words of the tables at an entry of a directory. -/
def MidWords (role : ℕ → Role) (d : ℕ) (v2 : Fin 512) : Set (ℕ × Fin 512) :=
  {w | role w.1 = .mid d v2 ∨ ∃ x v1, role x = .mid d v2 ∧ role w.1 = .table x v1}

lemma kfree_of_ne {m : Memory} (hf : f ≠ x) : (m.kfree x).mem f = m.mem f := by
  rw [Memory.kfree]
  split_ifs
  · rfl
  · exact store_of_ne hf

lemma freeLeaf_torn (hb : ∃ q, s.Book q) (h : LeafReady d v2 v1 x v0 s) :
    ∃ t, freeLeaf d v2 v1 x s v0 = some t ∧ Torn d {(x, v0)} {(v2, v1, v0)} s t := by
  rw [freeLeaf]
  split_ifs with hz
  · obtain ⟨q, hb⟩ := hb
    obtain ⟨t, ht, htorn⟩ := hb.freePageWithUva_torn (h hz)
    have hfree : s.freePageWithUva (getUvaFromVpns v2 v1 v0) d = some t := ht
    rw [hfree]
    refine ⟨_, rfl, (htorn.mono (Set.empty_subset _) subset_rfl).memory fun f i hf => ?_⟩
    rcases eq_or_ne f x with rfl | hne
    · rw [store_self, Function.update_of_ne]
      rintro rfl
      exact hf rfl
    · rw [store_of_ne hne]
  · exact ⟨s, rfl, Torn.refl hb⟩

/-- What is torn down elsewhere leaves an entry of the third level ready. -/
lemma LeafReady.torn (h : LeafReady d v2 v1 x v0 s) (htorn : Torn d F Q s t) (hx : (x, v0) ∉ F)
    (hp : (v2, v1, v0) ∉ Q) : LeafReady d v2 v1 x v0 t := by
  intro hz
  rw [htorn.mem x v0 hx] at hz
  exact htorn.records _ hp (h hz)

lemma TableReady.torn (h : TableReady role d v2 x v1 s) (htorn : Torn d F Q s t)
    (hx : (x, v1) ∉ F) (hF : ∀ f i, role f = .table x v1 → (f, i) ∉ F)
    (hQ : ∀ v0, (v2, v1, v0) ∉ Q) : TableReady role d v2 x v1 t := by
  intro hz
  rw [htorn.mem x v1 hx] at hz
  rw [htorn.tableOf hx]
  obtain ⟨hrole, hleaf⟩ := h hz
  exact ⟨hrole, fun v0 => (hleaf v0).torn htorn (hF _ v0 hrole) (hQ v0)⟩

lemma MidReady.torn (h : MidReady role d v2 s) (htorn : Torn d F Q s t) (hd : (d, v2) ∉ F)
    (hF : ∀ f i, (f, i) ∈ MidWords role d v2 → (f, i) ∉ F) (hQ : ∀ p : Vpns, p.1 = v2 → p ∉ Q) :
    MidReady role d v2 t := by
  intro hz ho
  rw [htorn.mem d v2 hd] at hz
  rw [htorn.tableOf hd]
  obtain ⟨hrole, htable⟩ := h hz ho
  refine ⟨hrole, fun v1 => (htable v1).torn htorn (hF _ v1 (Or.inl hrole)) (fun f i hf => ?_)
    fun v0 => hQ _ rfl⟩
  exact hF f i (Or.inr ⟨_, v1, hrole, hf⟩)

/-- The entries of a table are different words. -/
lemma LeafReady.other {j k : Fin 512} (hne : j ≠ k) (h : LeafReady d v2 v1 x k s)
    (htorn : Torn d {(x, j)} {(v2, v1, j)} s t) : LeafReady d v2 v1 x k t := by
  refine h.torn htorn (fun heq => hne (Prod.ext_iff.1 heq).2.symm) fun heq => hne ?_
  exact (Prod.ext_iff.1 (Prod.ext_iff.1 heq).2).2.symm

/-- The tables below a table have different places. -/
lemma TableReady.other {j k : Fin 512} (hrole : role x = .mid d v2) (hne : j ≠ k)
    (h : TableReady role d v2 x k s)
    (htorn : Torn d (TableWords role x j) {p | p.1 = v2 ∧ p.2.1 = j} s t) :
    TableReady role d v2 x k t := by
  refine h.torn htorn (fun hf => ?_) (fun f i hf hf' => ?_) fun v0 hp => hne hp.2.symm
  · have hf : role x = .table x j := hf
    rw [hrole] at hf
    cases hf
  · have hf' : role f = .table x j := hf'
    rw [hf, Role.table.injEq] at hf'
    exact hne hf'.2.symm

/-- What is below an entry of the directory is below no other. -/
lemma midWords_disjoint {j k : Fin 512} {w : ℕ × Fin 512} (hne : j ≠ k)
    (hw : w ∈ MidWords role d k) : w ∉ MidWords role d j := by
  intro hw'
  rcases hw with hf | ⟨x, v1, hx, hf⟩ <;> rcases hw' with hf' | ⟨x', v1', hx', hf'⟩ <;>
    simp only [hf, reduceCtorEq, Role.mid.injEq, Role.table.injEq] at hf'
  · exact hne hf'.2.symm
  · obtain ⟨rfl, -⟩ := hf'
    rw [hx, Role.mid.injEq] at hx'
    exact hne hx'.2.symm

lemma dir_notMem_midWords {j : Fin 512} (hd : role d = .dir) (i : Fin 512) :
    (d, i) ∉ MidWords role d j := by
  rintro (hf | ⟨x, v1, -, hf⟩) <;> simp [hd] at hf

lemma MidReady.other {j k : Fin 512} (hd : role d = .dir) (hne : j ≠ k) (h : MidReady role d k s)
    (htorn : Torn d (MidWords role d j) {p | p.1 = j} s t) : MidReady role d k t :=
  h.torn htorn (dir_notMem_midWords hd k) (fun _ _ => midWords_disjoint hne)
    fun _ hp hp' => hne (hp'.symm.trans hp)

/-- A third-level table is torn down and freed. -/
lemma freeTable_torn (hb : ∃ q, s.Book q) (h : TableReady role d v2 x v1 s) :
    ∃ t, freeTable d v2 x s v1 = some t ∧
      Torn d (TableWords role x v1) {p | p.1 = v2 ∧ p.2.1 = v1} s t := by
  rw [freeTable]
  generalize hall : List.finRange 512 = l
  have hl : l.Nodup := hall ▸ List.nodup_finRange 512
  split_ifs with hz
  · obtain ⟨hrole, hleaf⟩ := h hz
    obtain ⟨y, hy⟩ : ∃ y, s.tableOf x v1 = y := ⟨_, rfl⟩
    rw [hy] at hrole hleaf ⊢
    obtain ⟨t, ht, htorn⟩ := foldlM_torn (F := TableWords role x v1)
      (Q := {p | p.1 = v2 ∧ p.2.1 = v1}) (LeafReady d v2 v1 y) (fun v0 => {(y, v0)})
      (fun v0 => {(v2, v1, v0)}) (fun v0 => Set.singleton_subset_iff.2 hrole)
      (fun v0 => Set.singleton_subset_iff.2 ⟨rfl, rfl⟩) (fun v0 s => freeLeaf_torn)
      (fun _ _ _ _ => LeafReady.other) hl hb
      (fun v0 _ => hleaf v0)
    simp only [ht, Option.bind_eq_bind, Option.bind_some]
    refine ⟨_, rfl, htorn.memory fun f i hf => ?_⟩
    rw [kfree_of_ne]
    rintro rfl
    exact hf hrole
  · exact ⟨s, rfl, Torn.refl hb⟩

/-- A second-level table is torn down and freed. -/
lemma freeMid_torn (hb : ∃ q, s.Book q) (h : MidReady role d v2 s) :
    ∃ t, freeMid d s v2 = some t ∧ Torn d (MidWords role d v2) {p | p.1 = v2} s t := by
  rw [freeMid]
  generalize hall : List.finRange 512 = l
  have hl : l.Nodup := hall ▸ List.nodup_finRange 512
  split_ifs with hz
  · obtain ⟨hrole, htable⟩ := h hz.1 hz.2
    obtain ⟨x, hx⟩ : ∃ x, s.tableOf d v2 = x := ⟨_, rfl⟩
    rw [hx] at hrole htable ⊢
    obtain ⟨t, ht, htorn⟩ := foldlM_torn (F := MidWords role d v2) (Q := {p | p.1 = v2})
      (TableReady role d v2 x) (TableWords role x) (fun v1 => {p | p.1 = v2 ∧ p.2.1 = v1})
      (fun v1 w hw => Or.inr ⟨x, v1, hrole, hw⟩) (fun v1 p hp => hp.1) (fun v1 s => freeTable_torn)
      (fun _ _ _ _ => TableReady.other hrole) hl hb (fun v1 _ => htable v1)
    simp only [ht, Option.bind_eq_bind, Option.bind_some]
    refine ⟨_, rfl, htorn.memory fun f i hf => ?_⟩
    have hne : f ≠ x := by
      rintro rfl
      exact hf (Or.inl hrole)
    rw [kfree_of_ne hne, clear_of_ne hne]
  · exact ⟨s, rfl, Torn.refl hb⟩

/-- What `free_pagetable` needs at the entries of the directory. -/
lemma midReady (h : Tables s.toMemory role e) (hd : role d = .dir)
    (hrec : ∀ p : Vpns, Own p.1 → s.leaf d p ≠ 0 → s.HasRecord (uvaOf p) d) (v2 : Fin 512) :
    MidReady role d v2 s := by
  intro hz ho
  have hmid : role (s.tableOf d v2) = .mid d v2 :=
    h.role_tableOf (by rw [hd, Role.child, if_pos ho]) hz
  refine ⟨hmid, fun v1 hz' => ⟨h.role_tableOf (by rw [hmid]; rfl) hz', fun v0 hz'' => ?_⟩⟩
  refine hrec (v2, v1, v0) ho ?_
  rw [leaf, if_neg hz, if_neg hz']
  exact hz''

/-- An address space all of whose entries have records can be torn down. -/
theorem freePagetable_isSome (hb : s.Book q) (h : Tables s.toMemory role e) (hd : role d = .dir)
    (hrec : ∀ p : Vpns, Own p.1 → s.leaf d p ≠ 0 → s.HasRecord (uvaOf p) d) :
    ∃ t, s.freePagetable d = some t := by
  obtain ⟨t, ht, -⟩ := foldlM_torn (F := Set.univ) (Q := Set.univ) (MidReady role d)
    (MidWords role d) (fun v2 => {p | p.1 = v2}) (fun _ => Set.subset_univ _)
    (fun _ => Set.subset_univ _) (fun v2 s => freeMid_torn) (fun _ _ _ _ => MidReady.other hd)
    (List.nodup_finRange 512) ⟨q, hb⟩ fun v2 _ => midReady h hd hrec v2
  exact ⟨t, ht⟩

/-! ## No record is left -/

/-- The address has one record at most. -/
def OneRecord (s : State) (uva pgdir : ℕ) : Prop :=
  ∀ r r', (s.pages r).pageId ≠ 0 → (s.pages r').pageId ≠ 0 →
    (s.pages r).uva = uva ∧ (s.pages r).pgdir = pgdir →
      (s.pages r').uva = uva ∧ (s.pages r').pgdir = pgdir → r = r'

section Gone

variable {uva : ℕ}

lemma Freed.oneRecord (h : Freed pgdir s t) (hone : s.OneRecord uva d) : t.OneRecord uva d := by
  intro r r' hr hr' hat hat'
  have heq := h.pages r hr
  have heq' := h.pages r' hr'
  rw [heq] at hr hat
  rw [heq'] at hr' hat'
  exact hone r r' hr hr' hat hat'

lemma Freed.not_hasRecord (h : Freed pgdir s t) (hno : ¬ s.HasRecord uva d) :
    ¬ t.HasRecord uva d := by
  rintro ⟨r, hr, hat⟩
  have heq := h.pages r hr
  rw [heq] at hr hat
  exact hno ⟨r, hr, hat⟩

lemma Book.freePageWithUva_gone (hb : s.Book q) (hone : s.OneRecord uva d)
    (hs : s.freePageWithUva uva d = some t) : ¬ t.HasRecord uva d := by
  obtain ⟨r, hused, hfound, hzero, hkeep⟩ := hb.freePageWith_pages (fun _ => hb.find _) hs
  rintro ⟨r', hr', hat⟩
  have hne : r' ≠ r := by
    rintro rfl
    exact hr' hzero
  rw [hkeep r' hne] at hr' hat
  exact hne (hone r' r hr' hused hat (of_decide_eq_true hfound))

/-- The round of `i`: the rounds before it have left what it needs. -/
lemma foldlM_torn_at {ι : Type*} {g : State → ι → Option State} (ready : ι → State → Prop)
    (words : ι → Set (ℕ × Fin 512)) (uvas : ι → Set Vpns)
    (hround : ∀ j s, (∃ q, s.Book q) → ready j s →
      ∃ t, g s j = some t ∧ Torn d (words j) (uvas j) s t)
    (hkeep : ∀ j k s t, j ≠ k → ready k s → Torn d (words j) (uvas j) s t → ready k t) {l : List ι}
    (hl : l.Nodup) (hb : ∃ q, s.Book q) (h : ∀ j ∈ l, ready j s) {i : ι} (hi : i ∈ l)
    (hs : l.foldlM g s = some t) :
    ∃ (l₁ l₂ : List ι) (u v : State), l₁.foldlM g s = some u ∧ (∃ q, u.Book q) ∧ ready i u ∧
      g u i = some v ∧ l₂.foldlM g v = some t := by
  obtain ⟨l₁, l₂, rfl⟩ := List.append_of_mem hi
  rw [List.foldlM_append, Option.bind_eq_bind, Option.bind_eq_some_iff] at hs
  obtain ⟨u, hu, hs⟩ := hs
  rw [List.foldlM_cons, Option.bind_eq_bind, Option.bind_eq_some_iff] at hs
  obtain ⟨v, hv, hs⟩ := hs
  obtain ⟨hbook, -, hready⟩ := Trace.foldlM_invariant_rest
    (P := fun l s => (∃ q, State.Book s q) ∧ (l ++ i :: l₂).Nodup ∧ ∀ j ∈ l ++ i :: l₂, ready j s)
    (fun j l s t ⟨hb, hl, hready⟩ ht => by
      rw [List.cons_append, List.nodup_cons] at hl
      obtain ⟨t', ht', htorn⟩ := hround j s hb (hready j List.mem_cons_self)
      obtain rfl := Option.some.inj (ht'.symm.trans ht)
      refine ⟨htorn.book, hl.2, fun k hk => hkeep j k s t' ?_ (hready k (List.mem_cons_of_mem _ hk))
        htorn⟩
      rintro rfl
      exact hl.1 hk) ⟨hb, hl, h⟩ hu
  exact ⟨l₁, l₂, u, v, hu, hbook, hready i List.mem_cons_self, hv, hs⟩

lemma freeLeaf_freed (hb : ∃ q, s.Book q) (hs : freeLeaf d v2 v1 x s v0 = some t) : Freed d s t :=
  freeLeaf_rule (I := Freed d s) (fun _ _ h => h.memory) (fun _ _ _ h ht => h.freePageWithUva ht)
    (Freed.refl hb) hs

lemma freeTable_freed (hb : ∃ q, s.Book q) (hs : freeTable d v2 x s v1 = some t) : Freed d s t :=
  freeTable_rule (I := Freed d s) (fun _ _ h => h.memory) (fun _ _ _ h ht => h.freePageWithUva ht)
    (Freed.refl hb) hs

lemma freeMid_freed (hb : ∃ q, s.Book q) (hs : freeMid d s v2 = some t) : Freed d s t :=
  freeMid_rule (I := Freed d s) (fun _ _ h => h.memory) (fun _ _ _ h ht => h.freePageWithUva ht)
    (Freed.refl hb) hs

lemma foldlM_freed {ι : Type*} {g : State → ι → Option State} {l : List ι}
    (hround : ∀ s i t, (∃ q, State.Book s q) → g s i = some t → Freed d s t)
    (hb : ∃ q, s.Book q) (hs : l.foldlM g s = some t) : Freed d s t :=
  Trace.foldlM_invariant (fun s' i t' h hi => h.trans (hround s' i t' h.book hi)) (Freed.refl hb) hs

/-- A third-level table is torn down with the records of its pages. -/
lemma freeTable_gone (hb : ∃ q, s.Book q) (h : TableReady role d v2 x v1 s) (hz : s.mem x v1 ≠ 0)
    (hz' : s.mem (s.tableOf x v1) v0 ≠ 0) (hone : s.OneRecord (uvaOf (v2, v1, v0)) d)
    (hs : freeTable d v2 x s v1 = some t) : ¬ t.HasRecord (uvaOf (v2, v1, v0)) d := by
  obtain ⟨-, hleaf⟩ := h hz
  simp only [freeTable, if_pos hz, Option.bind_eq_bind, Option.bind_eq_some_iff,
    Option.some.injEq] at hs
  obtain ⟨w, hw, rfl⟩ := hs
  obtain ⟨y, hy⟩ : ∃ y, s.tableOf x v1 = y := ⟨_, rfl⟩
  rw [hy] at hw hleaf hz'
  obtain ⟨l₁, l₂, u, v, hu, hbu, ⟨-, hword⟩, hv, hrest⟩ := foldlM_torn_at
    (fun k s => LeafReady d v2 v1 y k s ∧ (k = v0 → s.mem y v0 ≠ 0)) (fun k => {(y, k)})
    (fun k => {(v2, v1, k)}) (fun k s hb h => freeLeaf_torn hb h.1)
    (fun j k s t hne h htorn => ⟨h.1.other hne htorn, fun heq => by
      rw [htorn.mem y v0 fun hmem => hne ?_]
      · exact h.2 heq
      · exact (Prod.ext_iff.1 hmem).2.symm.trans heq.symm⟩)
    (List.nodup_finRange 512) hb (fun k _ => ⟨hleaf k, fun _ => hz'⟩) (List.mem_finRange v0) hw
  have hleaves : ∀ {s : State} {l t}, (∃ q, s.Book q) →
      List.foldlM (freeLeaf d v2 v1 y) s l = some t → Freed d s t := fun hb =>
    foldlM_freed (fun _ _ _ => freeLeaf_freed) hb
  have hfreed := hleaves hb hu
  simp only [freeLeaf, if_pos (hword rfl), Option.bind_eq_bind, Option.bind_eq_some_iff,
    Option.some.injEq] at hv
  obtain ⟨w', hw', rfl⟩ := hv
  obtain ⟨qu, hbu⟩ := hbu
  have hgone : ¬ w'.HasRecord (uvaOf (v2, v1, v0)) d :=
    hbu.freePageWithUva_gone (hfreed.oneRecord hone) hw'
  have hbook := (Freed.refl ⟨qu, hbu⟩ |>.freePageWithUva hw').memory (m := w'.store y v0 0) |>.book
  exact (hleaves hbook hrest).memory.not_hasRecord hgone

/-- What is below other entries of the directory is not read on the way to the entry of the third
level. -/
lemma MidReady.leaf_other {p : Vpns} {j : Fin 512} (hd : role d = .dir) (hne : j ≠ p.1)
    (ho : Own p.1) (h : MidReady role d p.1 s) (hleaf : s.leaf d p ≠ 0)
    (htorn : Torn d (MidWords role d j) Q s t) : t.leaf d p = s.leaf d p := by
  obtain ⟨hz₁, hz₂⟩ := Tables.walk_of_leaf_ne hleaf
  obtain ⟨hmid, htable⟩ := h hz₁ ho
  obtain ⟨hrole, -⟩ := htable p.2.1 hz₂
  have e₁ : t.mem d p.1 = s.mem d p.1 := htorn.mem _ _ (dir_notMem_midWords hd _)
  have e₂ : t.mem (s.tableOf d p.1) p.2.1 = s.mem (s.tableOf d p.1) p.2.1 :=
    htorn.mem _ _ (midWords_disjoint hne (Or.inl hmid))
  have e₃ : t.mem (s.tableOf (s.tableOf d p.1) p.2.1) p.2.2 =
      s.mem (s.tableOf (s.tableOf d p.1) p.2.1) p.2.2 :=
    htorn.mem _ _ (midWords_disjoint hne (Or.inr ⟨_, _, hmid, hrole⟩))
  rw [leaf, leaf, e₁, tableOf_congr e₁, e₂, tableOf_congr e₂, e₃]

/-- A second-level table is torn down with the records of the pages below it. -/
lemma freeMid_gone {p : Vpns} (hb : ∃ q, s.Book q) (h : MidReady role d p.1 s) (ho : Own p.1)
    (hne : s.leaf d p ≠ 0) (hone : s.OneRecord (uvaOf p) d) (hs : freeMid d s p.1 = some t) :
    ¬ t.HasRecord (uvaOf p) d := by
  obtain ⟨hz₁, hz₂⟩ := Tables.walk_of_leaf_ne hne
  rw [leaf_eq hne] at hne
  obtain ⟨hmid, htable⟩ := h hz₁ ho
  rw [freeMid, if_pos ⟨hz₁, ho⟩] at hs
  simp only [Option.bind_eq_bind, Option.bind_eq_some_iff, Option.some.injEq] at hs
  obtain ⟨w, hw, rfl⟩ := hs
  obtain ⟨x, hx⟩ : ∃ x, s.tableOf d p.1 = x := ⟨_, rfl⟩
  rw [hx] at hmid htable hw hz₂ hne
  have hkeep : ∀ j k s t, j ≠ k → TableReady role d p.1 x k s ∧
      (k = p.2.1 → s.mem x p.2.1 ≠ 0 ∧ s.mem (s.tableOf x p.2.1) p.2.2 ≠ 0) →
      Torn d (TableWords role x j) {p' | p'.1 = p.1 ∧ p'.2.1 = j} s t →
      TableReady role d p.1 x k t ∧
        (k = p.2.1 → t.mem x p.2.1 ≠ 0 ∧ t.mem (t.tableOf x p.2.1) p.2.2 ≠ 0) := by
    rintro j k s t hjk ⟨hready, hword⟩ htorn
    refine ⟨hready.other hmid hjk htorn, ?_⟩
    rintro rfl
    obtain ⟨hz, hz'⟩ := hword rfl
    have e₁ : t.mem x p.2.1 = s.mem x p.2.1 := htorn.mem _ _ fun hmem => by
      have hrole : role x = .table x j := hmem
      rw [hmid] at hrole
      cases hrole
    have e₂ : t.mem (s.tableOf x p.2.1) p.2.2 = s.mem (s.tableOf x p.2.1) p.2.2 :=
      htorn.mem _ _ fun hmem => by
        have hrole : role (s.tableOf x p.2.1) = .table x j := hmem
        rw [(hready hz).1, Role.table.injEq] at hrole
        exact hjk hrole.2.symm
    rw [e₁, tableOf_congr e₁, e₂]
    exact ⟨hz, hz'⟩
  obtain ⟨l₁, l₂, u, v, hu, hbu, ⟨hready, hword⟩, hv, hrest⟩ := foldlM_torn_at
    (fun k s => TableReady role d p.1 x k s ∧
      (k = p.2.1 → s.mem x p.2.1 ≠ 0 ∧ s.mem (s.tableOf x p.2.1) p.2.2 ≠ 0))
    (TableWords role x) (fun k => {p' | p'.1 = p.1 ∧ p'.2.1 = k})
    (fun k s hb h => freeTable_torn hb h.1) hkeep (List.nodup_finRange 512) hb
    (fun k _ => ⟨htable k, fun _ => ⟨hz₂, hne⟩⟩) (List.mem_finRange p.2.1) hw
  have htables : ∀ {s : State} {l t}, (∃ q, s.Book q) →
      List.foldlM (freeTable d p.1 x) s l = some t → Freed d s t := fun hb =>
    foldlM_freed (fun _ _ _ => freeTable_freed) hb
  obtain ⟨hz, hz'⟩ := hword rfl
  have hgone := freeTable_gone hbu hready hz hz' ((htables hb hu).oneRecord hone) hv
  exact (htables (freeTable_freed hbu hv).book hrest).memory.not_hasRecord hgone

/-- `free_pagetable` frees the record of every page that is mapped. -/
theorem freePagetable_gone {p : Vpns} (hb : s.Book q) (h : Tables s.toMemory role e)
    (hd : role d = .dir) (hrec : ∀ p : Vpns, Own p.1 → s.leaf d p ≠ 0 → s.HasRecord (uvaOf p) d)
    (ho : Own p.1) (hne : s.leaf d p ≠ 0) (hone : s.OneRecord (uvaOf p) d)
    (hs : s.freePagetable d = some t) : ¬ t.HasRecord (uvaOf p) d := by
  have hkeep : ∀ j k s t, j ≠ k → MidReady role d k s ∧ (k = p.1 → s.leaf d p ≠ 0) →
      Torn d (MidWords role d j) {p | p.1 = j} s t →
      MidReady role d k t ∧ (k = p.1 → t.leaf d p ≠ 0) := by
    rintro j k s t hjk ⟨hready, hleaf⟩ htorn
    refine ⟨hready.other hd hjk htorn, ?_⟩
    rintro rfl
    rw [hready.leaf_other hd hjk ho (hleaf rfl) htorn]
    exact hleaf rfl
  obtain ⟨l₁, l₂, u, v, hu, hbu, ⟨hready, hleaf⟩, hv, hrest⟩ := foldlM_torn_at
    (fun k s => MidReady role d k s ∧ (k = p.1 → s.leaf d p ≠ 0)) (MidWords role d)
    (fun k => {p | p.1 = k}) (fun k s hb h => freeMid_torn hb h.1) hkeep (List.nodup_finRange 512)
    ⟨q, hb⟩ (fun k _ => ⟨midReady h hd hrec k, fun _ => hne⟩) (List.mem_finRange p.1) hs
  have hmids : ∀ {s : State} {l t}, (∃ q, s.Book q) → List.foldlM (freeMid d) s l = some t →
      Freed d s t := fun hb => foldlM_freed (fun _ _ _ => freeMid_freed) hb
  have hgone := freeMid_gone hbu hready ho (hleaf rfl) ((hmids ⟨q, hb⟩ hu).oneRecord hone) hv
  exact (hmids (freeMid_freed hbu hv).book hrest).not_hasRecord hgone

end Gone

end State

end Mm
end UcasKernel
