/-
`map_uva_to_kva` as an operation on the page tables of one directory.

The tables of the user half hang below the page directory like a tree: a path of indices
leads to a table, no two paths to the same one, and the allocator serves none of them.  The
call may put new tables at the ends of two paths and sets one word of a table of the third
level; every other address keeps its translation.
-/
import UcasKernel.Mm.Spaces

namespace UcasKernel
namespace Mm

namespace Memory

/-- The table at the end of a path of indices. -/
def tableAt (m : Memory) : ℕ → List (Fin 512) → Option ℕ
  | table, [] => some table
  | table, i :: path =>
    if m.mem table i = 0 then none else m.tableAt (m.tableOf table i) path

end Memory

/-- The entry of a page directory is one of the user half. -/
def UserEntry (i : Fin 512) : Prop := i.val < 256

/-- The paths to the tables of the user half. -/
def UserPath (path : List (Fin 512)) : Prop := path.length ≤ 2 ∧ ∀ i ∈ path.head?, UserEntry i

/-- The entry does not map a page: none of the bits for access is set. -/
def NonLeaf (pte : ℕ) : Prop := pte &&& (PAGE_READ ||| PAGE_WRITE ||| PAGE_EXEC) = 0

/-- A page that the allocator does not serve, or has handed out. -/
def InUse (l : List ℕ) (e f : ℕ) : Prop := Memory.IsPage f → ¬ Memory.Free l e f

/-- The tables of the user half of a page directory form a tree; `l` and `e` are the free
list. -/
structure Tree (m : Memory) (pgdir : ℕ) (l : List ℕ) (e : ℕ) : Prop where
  list : m.FreeList l e
  below : e < FREEMEM_KERNEL_STOP
  aligned : pgdir % PAGE_SIZE = 0
  inUse : ∀ path t, UserPath path → m.tableAt pgdir path = some t → InUse l e t
  inj : ∀ path path' t, UserPath path → UserPath path' → m.tableAt pgdir path = some t →
    m.tableAt pgdir path' = some t → path = path'
  nonLeaf : ∀ path i t, UserPath (path ++ [i]) → m.tableAt pgdir path = some t →
    NonLeaf (m.mem t i)

open Memory

section Paths

variable {m m' : Memory} {f i : ℕ} {p : List (Fin 512)}

lemma tableAt_append (m : Memory) (f : ℕ) (p q : List (Fin 512)) :
    m.tableAt f (p ++ q) = (m.tableAt f p).bind fun t => m.tableAt t q := by
  induction p generalizing f with
  | nil => rfl
  | cons j p ih =>
    simp only [List.cons_append, tableAt]
    split
    · rfl
    · exact ih _

lemma tableAt_concat {t : ℕ} (hp : m.tableAt f p = some t) (i : Fin 512) :
    m.tableAt f (p ++ [i]) = if m.mem t i = 0 then none else some (m.tableOf t i) := by
  rw [tableAt_append, hp]
  rfl

lemma UserPath.initial {q : List (Fin 512)} (hq : UserPath q) (h : p <+: q) : UserPath p := by
  obtain ⟨r, rfl⟩ := h
  obtain ⟨hlen, hhead⟩ := hq
  refine ⟨by rw [List.length_append] at hlen; omega, ?_⟩
  cases p with
  | nil => simp
  | cons j p => exact hhead

lemma UserPath.of_append {i : Fin 512} (h : UserPath (p ++ [i])) : UserPath p :=
  h.initial (List.prefix_append ..)

lemma UserPath.length_lt {i : Fin 512} (h : UserPath (p ++ [i])) : p.length < 2 := by
  have hlen := h.1
  rw [List.length_append, List.length_singleton] at hlen
  omega

lemma userPath_pair {a : Fin 512} (ha : UserEntry a) (b : Fin 512) : UserPath [a, b] :=
  ⟨le_rfl, by simpa using ha⟩

/-- The entry of the third level at the end of a path of two indices. -/
lemma leaf_eq_tableAt (m : Memory) (pgdir : ℕ) (q : Vpns) :
    m.leaf pgdir q = ((m.tableAt pgdir [q.1, q.2.1]).map fun t => m.mem t q.2.2).getD 0 := by
  simp only [leaf, tableAt]
  split
  · rfl
  split <;> rfl

end Paths

lemma nonLeaf_entry {f : ℕ} (hf : IsFrame f) : NonLeaf (entry f PAGE_PRESENT) := by
  obtain ⟨n, hn, -, -, he⟩ := entry_eq hf (show PAGE_PRESENT < 2 ^ 10 by decide)
  have hlow : (n * 2 ^ 10 + PAGE_PRESENT) % 2 ^ 4 = 1 := by
    simp only [PAGE_PRESENT]
    omega
  rw [NonLeaf, he]
  calc (n * 2 ^ 10 + PAGE_PRESENT) &&& (PAGE_READ ||| PAGE_WRITE ||| PAGE_EXEC)
      = (n * 2 ^ 10 + PAGE_PRESENT) &&& (2 ^ 4 - 1) &&& 14 := by
        rw [Nat.and_assoc]
        rfl
    _ = 0 := by
        rw [Nat.and_two_pow_sub_one_eq_mod, hlow]
        rfl

/-! ## `kalloc` -/

/-- Besides the page that it hands out, `kalloc` changes one word: where the list was its end
alone, that of the page above, which becomes the end. -/
lemma kalloc_mem {m m' : Memory} {p : ℕ} (hk : m.kalloc = some (p, m')) :
    p = m.freememList ∧ ∀ g j, g ≠ p →
      m'.mem g j = m.mem g j ∨ j = 0 ∧ g = m'.freememList := by
  simp only [Memory.kalloc] at hk
  split at hk
  · split at hk
    · cases hk
      refine ⟨rfl, fun g j hg => ?_⟩
      rw [clear_of_ne hg]
      rcases eq_or_ne g (m.freememList + PAGE_SIZE) with rfl | hne
      · rcases eq_or_ne j 0 with rfl | hj
        · exact .inr ⟨rfl, rfl⟩
        · rw [store_self, Function.update_of_ne hj]
          exact .inl rfl
      · rw [store_of_ne hne]
        exact .inl rfl
    · cases hk
  · cases hk
    refine ⟨rfl, fun g j hg => .inl ?_⟩
    rw [clear_of_ne hg]

/-! ## One table -/

section Trees

variable {m m' : Memory} {pgdir f t e kva uva : ℕ} {l : List ℕ} {p q : List (Fin 512)}
  {i : Fin 512}

/-- A walk reads one word of each table above the one it comes to. -/
lemma tableAt_congr (hmem : ∀ r g j, r ++ [j] <+: q → m.tableAt pgdir r = some g →
    m'.mem g j = m.mem g j) : m'.tableAt pgdir q = m.tableAt pgdir q := by
  induction q generalizing pgdir with
  | nil => rfl
  | cons j q ih =>
    have heq : m'.mem pgdir j = m.mem pgdir j := hmem [] pgdir j (by simp) rfl
    simp only [tableAt, heq, tableOf_congr heq]
    split
    · rfl
    rename_i hne
    refine ih fun r g k hr hg => hmem (j :: r) g k ?_ ?_
    · rw [List.cons_append]
      exact List.cons_prefix_cons.2 ⟨rfl, hr⟩
    · rw [tableAt, if_neg hne]
      exact hg

namespace Tree

/-- A word of a table of the third level leads nowhere. -/
lemma store (h : Tree m pgdir l e) (hp : UserPath p) (hlen : p.length = 2)
    (ht : m.tableAt pgdir p = some t) (i : Fin 512) (v : ℕ) :
    Tree (m.store t i v) pgdir l e ∧
      ∀ q, UserPath q → (m.store t i v).tableAt pgdir q = m.tableAt pgdir q := by
  have hsame : ∀ q, UserPath q → (m.store t i v).tableAt pgdir q = m.tableAt pgdir q := by
    intro q hq
    refine tableAt_congr fun r g j hr hg => ?_
    have huser := hq.initial hr
    have hne : g ≠ t := by
      rintro rfl
      have hlt := huser.length_lt
      rw [h.inj r p g huser.of_append hp hg ht] at hlt
      omega
    rw [store_of_ne hne]
  refine ⟨⟨h.list.congr rfl fun g hg hfree => ?_, h.below, h.aligned, fun q g hq hg => ?_,
    fun q q' g hq hq' hg hg' => ?_, fun q j g hq hg => ?_⟩, hsame⟩
  · rw [store_of_ne]
    rintro rfl
    exact h.inUse p g hp ht hg hfree
  · rw [hsame q hq] at hg
    exact h.inUse q g hq hg
  · rw [hsame q hq] at hg
    rw [hsame q' hq'] at hg'
    exact h.inj q q' g hq hq' hg hg'
  · rw [hsame q hq.of_append] at hg
    rw [store_of_ne]
    · exact h.nonLeaf q j g hq hg
    rintro rfl
    have hlt := hq.length_lt
    rw [h.inj q p g hq.of_append hp hg ht] at hlt
    omega

/-- The place of a table is free only for a table of its own. -/
lemma newTable_isSome (h : Tree m pgdir l e) (hroom : e + PAGE_SIZE < FREEMEM_KERNEL_STOP) :
    ∃ m', m.newTable f i = some m' := by
  rcases hk : m.kalloc with _ | ⟨p, m'⟩
  · have := (h.list.kalloc_eq_none hk).2
    omega
  · simp only [Memory.newTable, hk]
    split
    · exact ⟨_, rfl⟩
    · exact ⟨_, rfl⟩

end Tree

/-- What a new table leaves behind: its page `t` was free and is empty, the entry leads to it,
and of the other words only the link of a new end of the free list may have changed. -/
structure Fresh (m m' : Memory) (f t : ℕ) (i : Fin 512) (l l' : List ℕ) (e e' : ℕ) : Prop where
  list : m'.FreeList l' e'
  below : e < FREEMEM_KERNEL_STOP → e' < FREEMEM_KERNEL_STOP
  le : e' ≤ e + PAGE_SIZE
  page : IsPage t ∧ Free l e t ∧ ¬ Free l' e' t
  head : t = m.freememList
  entry : m'.mem f i ≠ 0 ∧ NonLeaf (m'.mem f i) ∧ m'.tableOf f i = t
  empty : ∀ j, m'.mem t j = 0
  used : ∀ g j, InUse l e g → (g, j) ≠ (f, i) → m'.mem g j = m.mem g j
  keeps : ∀ g, InUse l e g → InUse l' e' g
  frame : ∀ g j, g ≠ t → (g, j) ≠ (f, i) → m'.mem g j = m.mem g j ∨ j = 0 ∧ g = m'.freememList

lemma Fresh.of_newTable (h : m.FreeList l e) (hbelow : e < FREEMEM_KERNEL_STOP) (hf : InUse l e f)
    (hzero : m.mem f i = 0) (hn : m.newTable f i = some m') :
    ∃ t l' e', Fresh m m' f t i l l' e e' := by
  rw [Memory.newTable, if_pos hzero] at hn
  obtain ⟨⟨t, m₁⟩, hk, hn⟩ := Option.bind_eq_some_iff.1 hn
  obtain ⟨hhead, hframe⟩ := kalloc_mem hk
  obtain ⟨l', e', hlist, hpage, hfree, htzero, hiff, hmem, -, -, hle, hstop⟩ := h.kalloc hk
  have hft : f ≠ t := by
    rintro rfl
    exact hf hpage hfree
  have htframe : IsFrame t ∧ t ≠ KERNEL_VM_OFFSET := by
    have hlt : t < FREEMEM_KERNEL_STOP := by
      have hlt' := hstop hbelow
      rcases hfree with hl | hl
      · have := h.le_end t hl
        omega
      · have hnot := fun hfree' => ((hiff t hpage).1 hfree').2 rfl
        have : ¬ e' ≤ t := fun hle' => hnot (.inr hle')
        omega
    obtain ⟨halign, hlow⟩ := hpage
    simp only [FREEMEM_KERNEL, FREEMEM_KERNEL_STOP, KERNEL_VM_OFFSET] at hlow hlt ⊢
    exact ⟨⟨halign, .inr ⟨by simp only [KERNEL_VM_OFFSET]; omega, by omega⟩⟩, by omega⟩
  have hentry : (m₁.store f i (Mm.entry t PAGE_PRESENT)).mem f i = Mm.entry t PAGE_PRESENT := by
    rw [store_self, Function.update_self]
  have htable : (m₁.store f i (Mm.entry t PAGE_PRESENT)).tableOf f i = t := by
    rw [Memory.tableOf, hentry]
    exact frameOf_entry htframe.1 (by decide)
  -- the table is cleared once more
  have hm' : m' = m₁.store f i (Mm.entry t PAGE_PRESENT) := by
    rw [← clear_eq_self (show (m₁.store f i (Mm.entry t PAGE_PRESENT)).mem t = fun _ => 0 by
      rw [store_of_ne hft.symm, htzero])]
    conv_rhs => arg 2; rw [← htable]
    exact (Option.some.inj hn).symm
  have hkeeps : ∀ g, InUse l e g → InUse l' e' g := fun g hg hgp hgfree =>
    hg hgp ((hiff g hgp).1 hgfree).1
  refine ⟨t, l', e', ?_, hstop, hle, ⟨hpage, hfree, fun hfree' => ((hiff t hpage).1 hfree').2 rfl⟩,
    hhead, ?_, fun j => ?_, fun g j hg hne => ?_, hkeeps, fun g j hgt hne => ?_⟩
  · rw [hm']
    refine hlist.congr rfl fun g hg hgfree => ?_
    rw [store_of_ne]
    rintro rfl
    exact hkeeps g hf hg hgfree
  · rw [hm', hentry]
    exact ⟨entry_ne_zero htframe.1 (by decide) htframe.2, nonLeaf_entry htframe.1, htable⟩
  · rw [hm', store_of_ne hft.symm, htzero]
  · rw [hm', ← hmem g hg]
    rcases eq_or_ne g f with rfl | hgf
    · rw [store_self, Function.update_of_ne fun hj => hne (by rw [hj])]
    · rw [store_of_ne hgf]
  · rw [hm']
    rcases eq_or_ne g f with rfl | hgf
    · rw [store_self, Function.update_of_ne fun hj => hne (by rw [hj])]
      exact hframe g j hgt
    · rw [store_of_ne hgf]
      exact hframe g j hgt

namespace Tree

variable {l' : List ℕ} {e' : ℕ}

/-- A new table hangs at the end of its path, and all other paths lead where they led. -/
lemma fresh (h : Tree m pgdir l e) (hp : UserPath (p ++ [i])) (hf : m.tableAt pgdir p = some f)
    (hzero : m.mem f i = 0) (hn : Fresh m m' f t i l l' e e') :
    Tree m' pgdir l' e' ∧ m'.tableAt pgdir (p ++ [i]) = some t ∧
      m.tableAt pgdir (p ++ [i]) = none ∧
      ∀ q, UserPath q → q ≠ p ++ [i] → m'.tableAt pgdir q = m.tableAt pgdir q := by
  have hnone : m.tableAt pgdir (p ++ [i]) = none := by
    rw [tableAt_concat hf, if_pos hzero]
  -- no walk reads the new entry but those along the path
  have hcongr : ∀ q, UserPath q → ¬ p ++ [i] <+: q → m'.tableAt pgdir q = m.tableAt pgdir q := by
    refine fun q hq hnot => tableAt_congr fun r g j hr hg => ?_
    have huser := hq.initial hr
    refine hn.used g j (h.inUse r g huser.of_append hg) fun heq => hnot ?_
    obtain ⟨rfl, rfl⟩ := Prod.mk.inj heq
    rwa [h.inj p r g hp.of_append huser.of_append hf hg]
  have hhere : m'.tableAt pgdir (p ++ [i]) = some t := by
    have hfm' : m'.tableAt pgdir p = some f := by
      rw [hcongr p hp.of_append fun hpre => ?_, hf]
      have := hpre.length_le
      rw [List.length_append, List.length_singleton] at this
      omega
    rw [tableAt_concat hfm', if_neg hn.entry.1, hn.entry.2.2]
  have hothers : ∀ q, UserPath q → q ≠ p ++ [i] → m'.tableAt pgdir q = m.tableAt pgdir q := by
    intro q hq hne
    by_cases hpre : p ++ [i] <+: q
    · obtain ⟨r, rfl⟩ := hpre
      rw [tableAt_append m' pgdir (p ++ [i]) r, tableAt_append m pgdir (p ++ [i]) r, hhere, hnone]
      cases r with
      | nil => exact absurd (List.append_nil _) hne
      | cons j r => exact if_pos (hn.empty j)
    · exact hcongr q hq hpre
  obtain ⟨hpage, hfree, hused⟩ := hn.page
  have htnew : ∀ g, InUse l e g → g ≠ t := by
    rintro g hg rfl
    exact hg hpage hfree
  refine ⟨⟨hn.list, hn.below h.below, h.aligned, fun q g hq hg => ?_,
    fun q q' g hq hq' hg hg' => ?_, fun q j g hq hg => ?_⟩, hhere, hnone, hothers⟩
  · by_cases hqp : q = p ++ [i]
    · subst hqp
      obtain rfl := Option.some.inj (hhere.symm.trans hg)
      exact fun _ => hused
    · rw [hothers q hq hqp] at hg
      exact hn.keeps g (h.inUse q g hq hg)
  · by_cases hqp : q = p ++ [i]
    · by_cases hqp' : q' = p ++ [i]
      · rw [hqp, hqp']
      · subst hqp
        rw [hothers q' hq' hqp'] at hg'
        exact absurd (Option.some.inj (hg.symm.trans hhere)) (htnew g (h.inUse q' g hq' hg'))
    · rw [hothers q hq hqp] at hg
      by_cases hqp' : q' = p ++ [i]
      · subst hqp'
        exact absurd (Option.some.inj (hg'.symm.trans hhere)) (htnew g (h.inUse q g hq hg))
      · rw [hothers q' hq' hqp'] at hg'
        exact h.inj q q' g hq hq' hg hg'
  · by_cases hqp : q = p ++ [i]
    · subst hqp
      obtain rfl := Option.some.inj (hhere.symm.trans hg)
      rw [hn.empty j]
      rfl
    · rw [hothers q hq.of_append hqp] at hg
      by_cases hgj : (g, j) = (f, i)
      · obtain ⟨rfl, rfl⟩ := Prod.mk.inj hgj
        exact hn.entry.2.1
      · rw [hn.used g j (h.inUse q g hq.of_append hg) hgj]
        exact h.nonLeaf q j g hq hg

end Tree

/-- A new table is empty, so no entry of the third level changes. -/
lemma Tree.leaf_fresh {l' : List ℕ} {e' : ℕ} (h : Tree m pgdir l e) (hp : UserPath (p ++ [i]))
    (hf : m.tableAt pgdir p = some f) (hzero : m.mem f i = 0) (hn : Fresh m m' f t i l l' e e')
    {q : Vpns} (hq : UserEntry q.1) : m'.leaf pgdir q = m.leaf pgdir q := by
  obtain ⟨-, hhere, hnone, hothers⟩ := h.fresh hp hf hzero hn
  have huser := userPath_pair hq q.2.1
  rw [leaf_eq_tableAt, leaf_eq_tableAt]
  by_cases hqp : [q.1, q.2.1] = p ++ [i]
  · rw [hqp, hhere, hnone]
    exact hn.empty _
  rw [hothers _ huser hqp]
  cases hg : m.tableAt pgdir [q.1, q.2.1] with
  | none => rfl
  | some g =>
    have hne : (g, q.2.2) ≠ (f, i) := by
      intro heq
      obtain ⟨rfl, -⟩ := Prod.mk.inj heq
      have hlt := hp.length_lt
      rw [← h.inj _ p g huser hp.of_append hg hf] at hlt
      exact absurd hlt (by simp)
    exact hn.used g _ (h.inUse _ g huser hg) hne

/-- A word of a table of the third level is the entry of one address. -/
lemma Tree.leaf_store (h : Tree m pgdir l e) {q : Vpns} (hq : UserEntry q.1)
    (ht : m.tableAt pgdir [q.1, q.2.1] = some t) (v : ℕ) :
    (m.store t q.2.2 v).leaf pgdir q = v ∧
      ∀ q' : Vpns, UserEntry q'.1 → q' ≠ q →
        (m.store t q.2.2 v).leaf pgdir q' = m.leaf pgdir q' := by
  have huser := userPath_pair hq q.2.1
  obtain ⟨-, hsame⟩ := h.store huser rfl ht q.2.2 v
  constructor
  · rw [leaf_eq_tableAt, hsame _ huser, ht, Option.map_some, Option.getD_some, store_self,
      Function.update_self]
  intro q' hq' hne
  have huser' := userPath_pair hq' q'.2.1
  rw [leaf_eq_tableAt, leaf_eq_tableAt, hsame _ huser']
  cases hg : m.tableAt pgdir [q'.1, q'.2.1] with
  | none => rfl
  | some g =>
    show (m.store t q.2.2 v).mem g q'.2.2 = m.mem g q'.2.2
    rcases eq_or_ne g t with rfl | hgt
    · have hpath := h.inj _ _ g huser' huser hg ht
      simp only [List.cons.injEq, and_true] at hpath
      rw [store_self, Function.update_of_ne fun hlast =>
        hne (Prod.ext hpath.1 (Prod.ext hpath.2 hlast))]
    · rw [store_of_ne hgt]

/-! ## The walk of the call -/

/-- The tables along a path are there; those of `new` were taken for it. -/
structure Opened (m m' : Memory) (pgdir : ℕ) (path : List (Fin 512)) (new : List ℕ)
    (l l' : List ℕ) (e e' : ℕ) : Prop where
  tree : Tree m' pgdir l' e'
  le : e' ≤ e + PAGE_SIZE * new.length
  length : new.length ≤ path.length
  leaf : ∀ q : Vpns, UserEntry q.1 → m'.leaf pgdir q = m.leaf pgdir q
  taken : ∀ t ∈ new, IsPage t ∧ Free l e t ∧ ¬ Free l' e' t
  keeps : ∀ g, InUse l e g → InUse l' e' g
  others : ∀ q, UserPath q → ¬ q <+: path → m'.tableAt pgdir q = m.tableAt pgdir q
  walked : ∀ q g, q <+: path → m'.tableAt pgdir q = some g → g ∈ new ∨ m.tableAt pgdir q = some g
  frame : ∀ g j, g ∉ new → (∀ q, q <+: path → m.tableAt pgdir q ≠ some g) →
    m'.mem g j = m.mem g j ∨ j = 0 ∧ g = m'.freememList

namespace Opened

variable {path : List (Fin 512)} {new l₁ : List ℕ} {m₁ : Memory} {e₁ : ℕ}

lemma nil (h : Tree m pgdir l e) : Opened m m pgdir [] [] l l e e :=
  ⟨h, Nat.le_add_right _ _, le_rfl, fun _ _ => rfl, by simp, fun _ hg => hg,
    fun _ _ _ => rfl, fun _ _ _ hg => .inr hg, fun _ _ _ _ => .inl rfl⟩

/-- One level more. -/
lemma snoc (h : Opened m m₁ pgdir path new l l₁ e e₁) (hu : UserPath (path ++ [i]))
    (hf : m₁.tableAt pgdir path = some f) (hn : m₁.newTable f i = some m') :
    m'.tableAt pgdir (path ++ [i]) = some (m'.tableOf f i) ∧
      ∃ new' l' e', Opened m m' pgdir (path ++ [i]) new' l l' e e' := by
  have hprefix : ∀ q : List (Fin 512), q <+: path ++ [i] → q = path ++ [i] ∨ q <+: path :=
    fun q hq => List.prefix_concat_iff.1 hq
  have hlast : ¬ path ++ [i] <+: path := fun hpre => by
    have := hpre.length_le
    rw [List.length_append, List.length_singleton] at this
    omega
  have hlen : (path ++ [i]).length = path.length + 1 := by simp
  by_cases hzero : m₁.mem f i = 0
  swap
  · -- the table is there
    rw [Memory.newTable, if_neg hzero] at hn
    cases hn
    refine ⟨by rw [tableAt_concat hf, if_neg hzero], new, l₁, e₁, h.tree, h.le,
      h.length.trans (by omega), h.leaf, h.taken, h.keeps,
      fun q hq hnot => h.others q hq fun hpre => hnot (hpre.trans (List.prefix_append ..)),
      fun q g hq hg => ?_, fun g j hg hout => h.frame g j hg fun q hq =>
        hout q (hq.trans (List.prefix_append ..))⟩
    · rcases hprefix q hq with rfl | hq
      · rw [h.others _ hu hlast] at hg
        exact .inr hg
      · exact h.walked q g hq hg
  obtain ⟨t, l', e', hfresh⟩ :=
    Fresh.of_newTable h.tree.list h.tree.below (h.tree.inUse path f hu.of_append hf) hzero hn
  obtain ⟨htree, hhere, -, hothers⟩ := h.tree.fresh hu hf hzero hfresh
  obtain ⟨hpage, hfree, hused⟩ := hfresh.page
  refine ⟨by rw [hhere, hfresh.entry.2.2], t :: new, l', e', htree, ?_, ?_, fun q hq => ?_,
    fun g hg => ?_, fun g hg => hfresh.keeps g (h.keeps g hg), fun q hq hnot => ?_,
    fun q g hq hg => ?_, fun g j hg hout => ?_⟩
  · have h₁ := h.le
    have h₂ := hfresh.le
    rw [List.length_cons, Nat.mul_succ]
    omega
  · have := h.length
    rw [List.length_cons, hlen]
    omega
  · rw [h.tree.leaf_fresh hu hf hzero hfresh hq, h.leaf q hq]
  · rcases List.mem_cons.1 hg with rfl | hg
    · refine ⟨hpage, ?_, hused⟩
      by_contra hnot
      exact h.keeps g (fun _ => hnot) hpage hfree
    · obtain ⟨hgp, hgf, hgu⟩ := h.taken g hg
      exact ⟨hgp, hgf, hfresh.keeps g (fun _ => hgu) hgp⟩
  · rw [hothers q hq fun heq => hnot (heq ▸ List.prefix_rfl),
      h.others q hq fun hpre => hnot (hpre.trans (List.prefix_append ..))]
  · rcases hprefix q hq with rfl | hpre
    · exact .inl (List.mem_cons.2 (.inl (Option.some.inj (hg.symm.trans hhere))))
    · rw [hothers q (hu.initial hq) fun heq => hlast (heq ▸ hpre)] at hg
      exact (h.walked q g hpre hg).imp_left (List.mem_cons_of_mem _)
  · obtain ⟨hgt, hgnew⟩ := not_or.1 fun hor => hg (List.mem_cons.2 hor)
    have hgf : (g, j) ≠ (f, i) := by
      intro heq
      obtain ⟨rfl, -⟩ := Prod.mk.inj heq
      exact (h.walked path g List.prefix_rfl hf).elim hgnew (hout path (List.prefix_append ..))
    rcases hfresh.frame g j hgt hgf with heq | hend
    · rw [heq]
      refine (h.frame g j hgnew fun q hq => hout q (hq.trans (List.prefix_append ..))).imp_right ?_
      -- the end that an earlier step set is the page taken now
      exact fun hend => absurd (hend.2.trans hfresh.head.symm) hgt
    · exact .inr hend

end Opened

lemma userEntry_vpn2 (hu : uva < 2 ^ 38) : UserEntry (vpn2 uva) := by
  obtain ⟨h2, -, -⟩ := vpns_val uva
  rw [UserEntry, h2]
  omega

namespace Tree

/-- What the call does to the tables. -/
lemma mapUvaToKva (h : Tree m pgdir l e) (hu : uva < 2 ^ 38)
    (hm : m.mapUvaToKva uva kva pgdir = some m') :
    ∃ (new l' : List ℕ) (e' : ℕ), Tree m' pgdir l' e' ∧ new.length ≤ 2 ∧
      (∀ t ∈ new, IsPage t ∧ Free l e t ∧ ¬ Free l' e' t) ∧
      m'.leaf pgdir (vpns uva) =
        entry kva (PAGE_PRESENT ||| PAGE_READ ||| PAGE_WRITE ||| PAGE_EXEC ||| PAGE_USER) ∧
      (∀ q : Vpns, UserEntry q.1 → q ≠ vpns uva → m'.leaf pgdir q = m.leaf pgdir q) ∧
      ∀ g j, g ∉ new → (∀ path, path <+: [vpn2 uva, vpn1 uva] → m.tableAt pgdir path ≠ some g) →
        m'.mem g j = m.mem g j ∨ j = 0 ∧ g = m'.freememList := by
  have hentry := userEntry_vpn2 hu
  simp only [Memory.mapUvaToKva, Option.bind_eq_bind, Option.bind_eq_some_iff,
    Option.some.injEq] at hm
  obtain ⟨m₁, hm₁, m₂, hm₂, rfl⟩ := hm
  have huser₂ := userPath_pair hentry (vpn1 uva)
  have huser₁ : UserPath ([] ++ [vpn2 uva]) := huser₂.initial (List.prefix_append _ [vpn1 uva])
  obtain ⟨ht₁, new₁, l₁, e₁, h₁⟩ := (Opened.nil h).snoc huser₁ rfl hm₁
  obtain ⟨ht₂, new, l', e', h₂⟩ := h₁.snoc huser₂ ht₁ hm₂
  obtain ⟨t, ht⟩ : ∃ t, m₂.tableOf (m₁.tableOf pgdir (vpn2 uva)) (vpn1 uva) = t := ⟨_, rfl⟩
  rw [ht] at ht₂ ⊢
  obtain ⟨hleaf, hother⟩ := h₂.tree.leaf_store (q := vpns uva) hentry ht₂
    (setAttribute (setPfn (kva2pa kva >>> 12))
      (PAGE_PRESENT ||| PAGE_READ ||| PAGE_WRITE ||| PAGE_EXEC ||| PAGE_USER))
  refine ⟨new, l', e', (h₂.tree.store huser₂ rfl ht₂ _ _).1, h₂.length, h₂.taken, hleaf,
    fun q hq hne => (hother q hq hne).trans (h₂.leaf q hq), fun g j hg hout => ?_⟩
  have hgt : g ≠ t := by
    rintro rfl
    exact (h₂.walked _ g List.prefix_rfl ht₂).elim hg (hout _ List.prefix_rfl)
  rw [store_of_ne hgt]
  exact h₂.frame g j hg hout

lemma mapUvaToKva_isSome (h : Tree m pgdir l e) (hu : uva < 2 ^ 38)
    (hroom : e + 2 * PAGE_SIZE < FREEMEM_KERNEL_STOP) :
    ∃ m', m.mapUvaToKva uva kva pgdir = some m' := by
  have huser₂ := userPath_pair (userEntry_vpn2 hu) (vpn1 uva)
  have huser₁ : UserPath ([] ++ [vpn2 uva]) := huser₂.initial (List.prefix_append _ [vpn1 uva])
  obtain ⟨m₁, hm₁⟩ := h.newTable_isSome (f := pgdir) (i := vpn2 uva) (by omega)
  obtain ⟨ht₁, new₁, l₁, e₁, h₁⟩ := (Opened.nil h).snoc huser₁ rfl hm₁
  have hle := h₁.le
  have hlen := h₁.length
  simp only [List.nil_append, List.length_singleton] at hlen
  obtain ⟨m₂, hm₂⟩ := h₁.tree.newTable_isSome (f := m₁.tableOf pgdir (vpn2 uva)) (i := vpn1 uva) (by
    simp only [PAGE_SIZE] at hle hroom ⊢
    have : 4096 * new₁.length ≤ 4096 * 1 := Nat.mul_le_mul_left _ hlen
    omega)
  simp only [Memory.mapUvaToKva, hm₁, hm₂, Option.bind_eq_bind, Option.bind_some]
  exact ⟨_, rfl⟩

end Tree

/-- Where there are two pages left, the call returns.  It maps the page of `uva` to the frame,
leaves the translation of every other address of the user half, and leaves a tree; of the
memory it changes only the tables it walks, the at most two pages it takes, and, where the free
list came to its end, the link of the page that is the end now. -/
theorem mapUvaToKva_law (h : Tree m pgdir l e) (hu : uva < 2 ^ 38) (hkva : kva % PAGE_SIZE = 0)
    (hmap : KERNEL_VM_OFFSET ≤ kva ∧ kva < 2 ^ 64) :
    (e + 2 * PAGE_SIZE < FREEMEM_KERNEL_STOP → ∃ m', m.mapUvaToKva uva kva pgdir = some m') ∧
    ∀ m', m.mapUvaToKva uva kva pgdir = some m' →
      (∀ v < 2 ^ 38, m'.getKvaOfUva v pgdir =
        if v / PAGE_SIZE = uva / PAGE_SIZE then kva + v % PAGE_SIZE else m.getKvaOfUva v pgdir) ∧
      ∃ (new l' : List ℕ) (e' : ℕ), Tree m' pgdir l' e' ∧ new.length ≤ 2 ∧
        (∀ t ∈ new, IsPage t ∧ Free l e t ∧ ¬ Free l' e' t) ∧
        ∀ g j, g ∉ new → (∀ path, path <+: [vpn2 uva, vpn1 uva] → m.tableAt pgdir path ≠ some g) →
          m'.mem g j = m.mem g j ∨ j = 0 ∧ g = m'.freememList := by
  refine ⟨h.mapUvaToKva_isSome hu, fun m' hm => ?_⟩
  obtain ⟨new, l', e', htree, hlen, htaken, hleaf, hother, hframe⟩ := h.mapUvaToKva hu hm
  refine ⟨fun v hv => ?_, new, l', e', htree, hlen, htaken, hframe⟩
  split
  · rename_i hpage
    rw [← (vpns_eq_iff hu hv).2 hpage] at hleaf
    have hframe : IsFrame kva := ⟨hkva, .inr hmap⟩
    obtain ⟨n, -, -, -, he⟩ := entry_eq hframe
      (show PAGE_PRESENT ||| PAGE_READ ||| PAGE_WRITE ||| PAGE_EXEC ||| PAGE_USER < 2 ^ 10 by
        decide)
    refine getKvaOfUva_of_entry hleaf hframe ?_ (by decide)
    rw [he]
    exact Nat.ne_of_gt (Nat.lt_of_lt_of_le (by decide) (Nat.le_add_left _ _))
  · rename_i hpage
    have hsame := hother (vpns v) (userEntry_vpn2 hv) fun heq => hpage ((vpns_eq_iff hu hv).1 heq)
    rw [getKvaOfUva_eq, getKvaOfUva_eq, hsame]

end Trees

/-! ## The directories of all processes -/

section Directories

variable {m : Memory} {role : ℕ → Role} {e d t : ℕ} {path : List (Fin 512)}

lemma UserEntry.own {i : Fin 512} (h : UserEntry i) : Own i := by
  have hk : (KERNEL_VA_VPN2 : ℕ) = 257 := rfl
  have hio : (IO_REMAP_VA_VPN2 : ℕ) = 384 := rfl
  rw [UserEntry] at h
  constructor <;> rw [ne_eq, Fin.ext_iff] <;> omega

/-- The table at the end of a path has the role of that place. -/
lemma Tables.role_tableAt (h : Tables m role e) (hd : role d = .dir) (hp : UserPath path)
    (ht : m.tableAt d path = some t) :
    (path = [] ∧ role t = .dir) ∨ (∃ i, path = [i] ∧ role t = .mid d i) ∨
      ∃ i x j, path = [i, j] ∧ role x = .mid d i ∧ role t = .table x j := by
  cases path with
  | nil =>
    cases ht
    exact .inl ⟨rfl, hd⟩
  | cons i path =>
    have hown : Own i := (hp.2 i rfl).own
    rw [tableAt] at ht
    split at ht
    · cases ht
    rename_i hi
    have hmid : role (m.tableOf d i) = .mid d i :=
      h.role_tableOf (by rw [hd, Role.child, if_pos hown]) hi
    cases path with
    | nil =>
      rw [tableAt, Option.some.injEq] at ht
      exact .inr (.inl ⟨i, rfl, ht ▸ hmid⟩)
    | cons j path =>
      rw [tableAt] at ht
      split at ht
      · cases ht
      rename_i hj
      have hnil : path = [] := by
        have hlen := hp.1
        simp only [List.length_cons] at hlen
        exact List.length_eq_zero_iff.1 (by omega)
      subst hnil
      rw [tableAt, Option.some.injEq] at ht
      exact .inr (.inr ⟨i, _, j, rfl, hmid, ht ▸ h.role_tableOf (by rw [hmid]; rfl) hj⟩)

/-- The tables of every process form a tree. -/
theorem Tables.tree (h : Tables m role e) (hd : role d = .dir) : ∃ l, Tree m d l e := by
  obtain ⟨l, hl, hfree⟩ := h.list
  refine ⟨l, hl, h.below, (h.isPage d (by simp [hd])).1, fun path t hp ht hpage => ?_,
    fun path path' t hp hp' ht ht' => ?_, fun path i t hp ht => ?_⟩
  · rw [← hfree t hpage]
    rcases h.role_tableAt hd hp ht with ⟨-, hr⟩ | ⟨i, -, hr⟩ | ⟨i, x, j, -, -, hr⟩ <;> simp [hr]
  · rcases h.role_tableAt hd hp ht with ⟨rfl, hr⟩ | ⟨i, rfl, hr⟩ | ⟨i, x, j, rfl, hx, hr⟩ <;>
      rcases h.role_tableAt hd hp' ht' with ⟨rfl, hr'⟩ | ⟨i', rfl, hr'⟩ |
        ⟨i', x', j', rfl, hx', hr'⟩ <;>
      simp only [hr, Role.mid.injEq, Role.table.injEq, reduceCtorEq] at hr'
    · rfl
    · rw [hr'.2]
    · obtain ⟨rfl, rfl⟩ := hr'
      rw [hx, Role.mid.injEq] at hx'
      rw [hx'.2]
  · obtain ⟨c, hc⟩ : ∃ c, (role t).child t i = some c := by
      have hlen := hp.length_lt
      rcases h.role_tableAt hd hp.of_append ht with ⟨rfl, hr⟩ | ⟨j, -, hr⟩ | ⟨j, x, k, rfl, -, -⟩
      · exact ⟨_, by rw [hr, Role.child, if_pos (hp.2 i rfl).own]⟩
      · exact ⟨_, by rw [hr]; rfl⟩
      · exact absurd hlen (by simp)
    rcases h.entries t i c hc with hz | ⟨y, hy, hr⟩
    · rw [hz]
      rfl
    · rw [hy]
      exact nonLeaf_entry (h.isFrame_child hc hr)

end Directories

/-! ## An empty directory at the end of the free memory list -/

/-- A page directory without entries below the end of the free list, on memory that was not
cleared. -/
def dirtyMemory : Memory where
  mem := fun f i => if f = FREEMEM_KERNEL + 3 * PAGE_SIZE ∧ i = 0 then 7 else 0
  freememList := FREEMEM_KERNEL + PAGE_SIZE

lemma dirtyMemory_pgdir (i : Fin 512) : dirtyMemory.mem FREEMEM_KERNEL i = 0 := by
  show (if FREEMEM_KERNEL = FREEMEM_KERNEL + 3 * PAGE_SIZE ∧ i = 0 then 7 else 0) = 0
  refine if_neg ?_
  rintro ⟨heq, -⟩
  exact absurd heq (by decide)

lemma tableAt_dirtyMemory {path : List (Fin 512)} {t : ℕ}
    (ht : dirtyMemory.tableAt FREEMEM_KERNEL path = some t) : path = [] ∧ t = FREEMEM_KERNEL := by
  cases path with
  | nil => exact ⟨rfl, (Option.some.inj ht).symm⟩
  | cons i path =>
    rw [tableAt, if_pos (dirtyMemory_pgdir i)] at ht
    cases ht

lemma tree_dirtyMemory : Tree dirtyMemory FREEMEM_KERNEL [] (FREEMEM_KERNEL + PAGE_SIZE) := by
  refine ⟨⟨⟨rfl, by decide⟩, List.nodup_singleton _, fun p hp => ?_, by simp⟩, by decide, by decide,
    fun path t _ ht => ?_, fun path path' t _ _ ht ht' => ?_, fun path i t _ ht => ?_⟩
  · rw [List.nil_append, List.mem_singleton] at hp
    subst hp
    exact ⟨by decide, by decide⟩
  · obtain ⟨-, rfl⟩ := tableAt_dirtyMemory ht
    rintro - (hmem | hle)
    · cases hmem
    · exact absurd hle (by decide)
  · rw [(tableAt_dirtyMemory ht).1, (tableAt_dirtyMemory ht').1]
  · obtain ⟨-, rfl⟩ := tableAt_dirtyMemory ht
    rw [dirtyMemory_pgdir]
    rfl

/-- The first frame mapped at address 0. -/
theorem mapUvaToKva_law_dirty :
    ∃ m', dirtyMemory.mapUvaToKva 0 KERNEL_VM_OFFSET FREEMEM_KERNEL = some m' ∧
      m'.getKvaOfUva 5 FREEMEM_KERNEL = KERNEL_VM_OFFSET + 5 := by
  have hlaw := @mapUvaToKva_law _ _ _ KERNEL_VM_OFFSET 0 _ tree_dirtyMemory (by decide) (by decide)
    (by decide)
  obtain ⟨m', hm'⟩ := hlaw.1 (by decide)
  exact ⟨m', hm', (hlaw.2 m' hm').1 5 (by decide)⟩

/-- The two tables come from the end of the free list, and the page above them, which no walk
comes to and which stays free, changes. -/
theorem mapUvaToKva_changes_end :
    ∃ m', dirtyMemory.mapUvaToKva 0 KERNEL_VM_OFFSET FREEMEM_KERNEL = some m' ∧
      m'.freememList = FREEMEM_KERNEL + 3 * PAGE_SIZE ∧
      m'.mem m'.freememList 0 ≠ dirtyMemory.mem m'.freememList 0 ∧
      ∀ path, dirtyMemory.tableAt FREEMEM_KERNEL path ≠ some m'.freememList := by
  have hrun : ((dirtyMemory.mapUvaToKva 0 KERNEL_VM_OFFSET FREEMEM_KERNEL).map fun m' =>
      (m'.freememList, m'.mem (FREEMEM_KERNEL + 3 * PAGE_SIZE) 0)) =
        some (FREEMEM_KERNEL + 3 * PAGE_SIZE, 0) := by
    decide +kernel
  obtain ⟨m', hm', hend⟩ := Option.map_eq_some_iff.1 hrun
  obtain ⟨hlist, hword⟩ := Prod.mk.inj hend
  refine ⟨m', hm', hlist, ?_, fun path hpath => ?_⟩
  · rw [hlist, hword]
    decide
  · rw [(tableAt_dirtyMemory hpath).2] at hlist
    exact absurd hlist (by decide)

end Mm
end UcasKernel
