/-
The page tables of all the processes in one memory.

A role is given to every page: it is free, a page directory, a table, a page of a
process, or the kernel's.  A table's role names the table above it and the index there,
so no two entries lead to one table.  `Tables` says that the roles fit the free list
and the entries of the tables; there is one lemma for each thing that happens to a
page, and each says what becomes of the entries of the third level.
-/
import UcasKernel.Mm.Entries

namespace UcasKernel
namespace Mm

/-- What a page is used for. -/
inductive Role
  | free
  | kernel
  | dir
  /-- The second-level table at an entry of a page directory. -/
  | mid (pgdir : ℕ) (vpn2 : Fin 512)
  /-- The third-level table at an entry of a second-level table. -/
  | table (pmd : ℕ) (vpn1 : Fin 512)
  | page
deriving DecidableEq

namespace Role

/-- The role of the table at the entry `i` of the page `f`. -/
def child (f : ℕ) (i : Fin 512) : Role → Option Role
  | .dir => if Own i then some (.mid f i) else none
  | .mid _ _ => some (.table f i)
  | _ => none

variable {r c : Role} {f g : ℕ} {i j : Fin 512}

lemma child_ne (h : r.child f i = some c) :
    c ≠ .free ∧ c ≠ .kernel ∧ c ≠ .dir ∧ c ≠ .page := by
  cases r <;> simp only [child, Option.ite_none_right_eq_some, Option.some.injEq,
    reduceCtorEq] at h
  · obtain ⟨-, rfl⟩ := h
    simp
  · subst h
    simp

/-- A page with tables below it is a directory or a second-level table. -/
lemma ne_of_child (h : r.child f i = some c) :
    r ≠ .free ∧ r ≠ .kernel ∧ r ≠ .page := by
  cases r <;> simp [child] at h ⊢

end Role

namespace Memory

/-- The entry of the third level that a walk comes to, or zero. -/
def leaf (m : Memory) (pgdir : ℕ) (p : Vpns) : ℕ :=
  if m.mem pgdir p.1 = 0 then 0
  else if m.mem (m.tableOf pgdir p.1) p.2.1 = 0 then 0
  else m.mem (m.tableOf (m.tableOf pgdir p.1) p.2.1) p.2.2

variable {m m' : Memory} {uva pgdir : ℕ}

lemma tableOf_congr {f : ℕ} {i : Fin 512} (h : m'.mem f i = m.mem f i) :
    m'.tableOf f i = m.tableOf f i := by
  rw [tableOf, tableOf, h]

/-- The word that a complete walk reads. -/
lemma leaf_eq {p : Vpns} (h : m.leaf pgdir p ≠ 0) :
    m.leaf pgdir p = m.mem (m.tableOf (m.tableOf pgdir p.1) p.2.1) p.2.2 := by
  simp only [leaf] at h ⊢
  split_ifs at h ⊢ with h₁ h₂ <;> simp_all

lemma getPteOfUva_eq : m.getPteOfUva uva pgdir = if m.leaf pgdir (vpns uva) = 0 then none
    else some (m.tableOf (m.tableOf pgdir (vpn2 uva)) (vpn1 uva), vpn0 uva) := by
  simp only [getPteOfUva, leaf, vpns]
  by_cases h₁ : m.mem pgdir (vpn2 uva) = 0
  · simp [h₁]
  · by_cases h₂ : m.mem (m.tableOf pgdir (vpn2 uva)) (vpn1 uva) = 0
    · simp [h₁, h₂]
    · simp [h₁, h₂]

/-- The walk ends early exactly where no page is mapped. -/
lemma getPteOfUva_eq_none :
    m.getPteOfUva uva pgdir = none ↔ m.leaf pgdir (vpns uva) = 0 := by
  rw [getPteOfUva_eq]
  split_ifs with h <;> simp [h]

lemma getKvaOfUva_eq : m.getKvaOfUva uva pgdir = if m.leaf pgdir (vpns uva) = 0 then 0
    else pa2kva (getPa (m.leaf pgdir (vpns uva)) ||| uva &&& 2 ^ 12 - 1) := by
  rw [getKvaOfUva, getPteOfUva_eq]
  split_ifs with h
  · rfl
  · rw [leaf_eq h]
    rfl

lemma modifyPte_eq {f : ℕ → ℕ} : m.modifyPte uva pgdir f = if m.leaf pgdir (vpns uva) = 0 then none
    else some (m.store (m.tableOf (m.tableOf pgdir (vpn2 uva)) (vpn1 uva)) (vpn0 uva)
      (f (m.leaf pgdir (vpns uva)))) := by
  rw [modifyPte, getPteOfUva_eq]
  split_ifs with h
  · rfl
  · rw [leaf_eq h]
    rfl

end Memory

open Memory

/-- The roles fit the memory; `e` is the first page that was never handed out. -/
structure Tables (m : Memory) (role : ℕ → Role) (e : ℕ) : Prop where
  list : ∃ l, m.FreeList l e ∧ ∀ f, IsPage f → (role f = .free ↔ Free l e f)
  below : e < FREEMEM_KERNEL_STOP
  /-- All but the pages that `kalloc` serves is the kernel's. -/
  isPage : ∀ f, role f ≠ .kernel → IsPage f
  /-- A table that may have one below it has an entry for it or a zero. -/
  entries : ∀ f i c, (role f).child f i = some c →
    m.mem f i = 0 ∨ ∃ y, m.mem f i = entry y PAGE_PRESENT ∧ role y = c

namespace Tables

variable {m m' : Memory} {role role' : ℕ → Role} {e f g d p kva uva pgdir v : ℕ} {i j : Fin 512}
  {c r : Role} {q : Vpns}

lemma lt_stop (h : Tables m role e) (hp : IsPage f) (hf : role f ≠ .free) :
    f < FREEMEM_KERNEL_STOP := by
  obtain ⟨l, hlist, hfree⟩ := h.list
  have hlt : ¬ e ≤ f := fun hle => hf ((hfree f hp).2 (Or.inr hle))
  have := h.below
  omega

/-- A page that is in use fits an entry. -/
lemma isFrame (h : Tables m role e) (hk : role f ≠ .kernel) (hf : role f ≠ .free) :
    IsFrame f ∧ KERNEL_VM_OFFSET < f := by
  have hp := h.isPage f hk
  have hlt := h.lt_stop hp hf
  obtain ⟨halign, hle⟩ := hp
  simp only [FREEMEM_KERNEL, FREEMEM_KERNEL_STOP, KERNEL_VM_OFFSET] at hle hlt ⊢
  exact ⟨⟨halign, Or.inr ⟨by simp only [KERNEL_VM_OFFSET]; omega, by omega⟩⟩, by omega⟩

lemma isFrame_child (h : Tables m role e) (hc : (role f).child f i = some c) (hg : role g = c) :
    IsFrame g := by
  obtain ⟨hfree, hk, -, -⟩ := Role.child_ne hc
  exact (h.isFrame (hg ▸ hk) (hg ▸ hfree)).1

/-- Where an entry of a table leads. -/
lemma role_tableOf (h : Tables m role e) (hc : (role f).child f i = some c) (hne : m.mem f i ≠ 0) :
    role (m.tableOf f i) = c := by
  obtain hz | ⟨y, hy, hrole⟩ := h.entries f i c hc
  · exact absurd hz hne
  · have : m.tableOf f i = y := by
      rw [Memory.tableOf, hy]
      exact frameOf_entry (h.isFrame_child hc hrole) (by decide)
    rw [this, hrole]

/-! ## What the tables do not read -/

/-- The tables read the first words of the free pages, and the entries that lead to tables. -/
lemma congr (h : Tables m role e) (hlist : m'.freememList = m.freememList)
    (hfree : ∀ f, role f = .free → m'.mem f 0 = m.mem f 0)
    (hent : ∀ f i c, (role f).child f i = some c → m'.mem f i = m.mem f i) : Tables m' role e where
  list := by
    obtain ⟨l, hl, hiff⟩ := h.list
    exact ⟨l, hl.congr hlist fun q hq hqfree => hfree q ((hiff q hq).2 hqfree), hiff⟩
  below := h.below
  isPage := h.isPage
  entries := fun f i c hc => by rw [hent f i c hc]; exact h.entries f i c hc

/-- A page that is not free may get a word that fits its role. -/
lemma store (h : Tables m role e) (hf : role f ≠ .free)
    (hv : ∀ c, (role f).child f i = some c → v = 0 ∨ ∃ y, v = entry y PAGE_PRESENT ∧ role y = c) :
    Tables (m.store f i v) role e where
  list := by
    obtain ⟨l, hl, hiff⟩ := h.list
    refine ⟨l, hl.congr rfl fun q hq hqfree => ?_, hiff⟩
    rw [store_of_ne fun heq => hf (by rw [← heq]; exact (hiff q hq).2 hqfree)]
  below := h.below
  isPage := h.isPage
  entries := by
    intro g j c hc
    rcases eq_or_ne g f with rfl | hg
    · rw [store_self]
      rcases eq_or_ne j i with rfl | hj
      · rw [Function.update_self]
        exact hv c hc
      · rw [Function.update_of_ne hj]
        exact h.entries g j c hc
    · rw [store_of_ne hg]
      exact h.entries g j c hc

/-- A walk whose three words are the same comes to the same entry. -/
lemma leaf_congr (h : Tables m role e) (hd : role d = .dir) (hq : Own q.1)
    (hmem : ∀ f i, (f = d ∧ i = q.1) ∨ (role f = .mid d q.1 ∧ i = q.2.1) ∨
      (∃ x, role x = .mid d q.1 ∧ role f = .table x q.2.1 ∧ i = q.2.2) →
      m'.mem f i = m.mem f i) : m'.leaf d q = m.leaf d q := by
  have hcd : (role d).child d q.1 = some (.mid d q.1) := by rw [hd, Role.child, if_pos hq]
  have h₁ := hmem d q.1 (Or.inl ⟨rfl, rfl⟩)
  simp only [leaf, h₁, tableOf_congr h₁]
  by_cases hz₁ : m.mem d q.1 = 0
  · rw [if_pos hz₁, if_pos hz₁]
  have hx : role (m.tableOf d q.1) = .mid d q.1 := h.role_tableOf hcd hz₁
  have h₂ := hmem _ q.2.1 (Or.inr (Or.inl ⟨hx, rfl⟩))
  rw [if_neg hz₁, if_neg hz₁, h₂, tableOf_congr h₂]
  by_cases hz₂ : m.mem (m.tableOf d q.1) q.2.1 = 0
  · rw [if_pos hz₂, if_pos hz₂]
  have hcx : (role (m.tableOf d q.1)).child (m.tableOf d q.1) q.2.1 =
      some (.table (m.tableOf d q.1) q.2.1) := by rw [hx]; rfl
  rw [if_neg hz₂, if_neg hz₂]
  exact hmem _ q.2.2 (Or.inr (Or.inr ⟨_, hx, h.role_tableOf hcx hz₂, rfl⟩))

/-! ## Pages come and go -/

/-- `kalloc` hands out a free page, which may get any role. -/
lemma kalloc (h : Tables m role e) (hr : r ≠ .free) (hk : m.kalloc = some (p, m')) :
    ∃ e', Tables m' (Function.update role p r) e' ∧ e' ≤ e + PAGE_SIZE ∧ IsPage p ∧
      role p = .free ∧ m'.mem p = (fun _ => 0) ∧ ∀ f, role f ≠ .free → m'.mem f = m.mem f := by
  obtain ⟨l, hl, hiff⟩ := h.list
  obtain ⟨l', e', hl', hp, hfree, hzero, hiff', hmem, -, -, hle, hstop⟩ := hl.kalloc hk
  have hrole : role p = .free := (hiff p hp).2 hfree
  have hmem' : ∀ f, role f ≠ .free → m'.mem f = m.mem f := fun f hf =>
    hmem f fun hfp hff => hf ((hiff f hfp).2 hff)
  refine ⟨e', ⟨⟨l', hl', fun f hf => ?_⟩, hstop h.below, fun f hf => ?_, fun f i c hc => ?_⟩, hle, hp,
    hrole, hzero, hmem'⟩
  · rcases eq_or_ne f p with rfl | hne
    · simp [hr, hiff' f hf]
    · rw [Function.update_of_ne hne, hiff f hf, hiff' f hf, and_iff_left hne]
  · rcases eq_or_ne f p with rfl | hne
    · exact hp
    · exact h.isPage f (by rwa [Function.update_of_ne hne] at hf)
  · rcases eq_or_ne f p with rfl | hne
    · rw [hzero]
      exact Or.inl rfl
    · rw [Function.update_of_ne hne] at hc
      rw [hmem' f (Role.ne_of_child hc).1]
      refine (h.entries f i c hc).imp_right fun ⟨y, hy, hrole'⟩ => ⟨y, hy, ?_⟩
      -- the page was free, so no table had an entry for it
      have hyp : y ≠ p := fun heq => (Role.child_ne hc).1 (by rw [← hrole', heq, hrole])
      rw [Function.update_of_ne hyp, hrole']

lemma kalloc_isSome (h : Tables m role e) (hroom : e + PAGE_SIZE < FREEMEM_KERNEL_STOP) :
    ∃ p m', m.kalloc = some (p, m') := by
  obtain ⟨l, hl, -⟩ := h.list
  rcases hk : m.kalloc with _ | ⟨p, m'⟩
  · have := (hl.kalloc_eq_none hk).2
    omega
  · exact ⟨p, m', rfl⟩

/-- A page to which no entry leads may be given up. -/
lemma kfree (h : Tables m role e) (hf : role f ≠ .free) (hp : IsPage f)
    (hr : ∀ g i c, (role g).child g i = some c → g ≠ f → c ≠ role f) :
    Tables (m.kfree f) (Function.update role f .free) e ∧
      ∀ g, g ≠ f → (m.kfree f).mem g = m.mem g := by
  obtain ⟨l, hl, hiff⟩ := h.list
  obtain ⟨hl', hmem, hiff'⟩ := hl.kfree hp fun hfree => hf ((hiff f hp).2 hfree)
  refine ⟨⟨⟨_, hl', fun g hg => ?_⟩, h.below, fun g hg => ?_, fun g i c hc => ?_⟩, hmem⟩
  · rw [hiff' g, ← hiff g hg]
    rcases eq_or_ne g f with rfl | hne
    · simp
    · simp [hne]
  · rcases eq_or_ne g f with rfl | hne
    · exact hp
    · exact h.isPage g (by rwa [Function.update_of_ne hne] at hg)
  · rcases eq_or_ne g f with rfl | hne
    · simp [Role.child] at hc
    · rw [Function.update_of_ne hne] at hc
      rw [hmem g hne]
      refine (h.entries g i c hc).imp_right fun ⟨y, hy, hrole⟩ => ⟨y, hy, ?_⟩
      have hyf : y ≠ f := fun heq => hr g i c hc hne (by rw [← hrole, heq])
      rw [Function.update_of_ne hyf, hrole]

/-- A page to which no entry leads may become the kernel's. -/
lemma toKernel (h : Tables m role e) (hf : role f ≠ .free)
    (hr : ∀ g i c, (role g).child g i = some c → g ≠ f → c ≠ role f) :
    Tables m (Function.update role f .kernel) e where
  list := by
    obtain ⟨l, hl, hiff⟩ := h.list
    refine ⟨l, hl, fun g hg => ?_⟩
    rw [← hiff g hg]
    rcases eq_or_ne g f with rfl | hne
    · simp [hf]
    · rw [Function.update_of_ne hne]
  below := h.below
  isPage := by
    intro g hg
    rcases eq_or_ne g f with rfl | hne
    · simp at hg
    · exact h.isPage g (by rwa [Function.update_of_ne hne] at hg)
  entries := by
    intro g i c hc
    rcases eq_or_ne g f with rfl | hne
    · simp [Role.child] at hc
    · rw [Function.update_of_ne hne] at hc
      refine (h.entries g i c hc).imp_right fun ⟨y, hy, hrole⟩ => ⟨y, hy, ?_⟩
      have hyf : y ≠ f := fun heq => hr g i c hc hne (by rw [← hrole, heq])
      rw [Function.update_of_ne hyf, hrole]

/-! ## New tables -/

/-- More pages are tables; nothing else has changed. -/
structure Grows (role role' : ℕ → Role) : Prop where
  keep : ∀ f, role f ≠ .free → role' f = role f
  new : ∀ f, role f = .free → role' f ≠ .free → ∃ g i, ∃ r : Role, r.child g i = some (role' f)

lemma Grows.refl (role : ℕ → Role) : Grows role role := ⟨fun _ _ => rfl, fun _ h h' => absurd h h'⟩

lemma Grows.trans {role'' : ℕ → Role} (h : Grows role role') (h' : Grows role' role'') :
    Grows role role'' where
  keep := fun f hf => by
    rw [h'.keep f (by rwa [h.keep f hf]), h.keep f hf]
  new := by
    intro f hf hf''
    by_cases hf' : role' f = .free
    · exact h'.new f hf' hf''
    · rw [h'.keep f hf']
      exact h.new f hf hf'

lemma Grows.eq_of_not_child (h : Grows role role') (hr : ∀ g i, ∀ x : Role, x.child g i ≠ some r)
    (hf : role' f = r) (hfree : r ≠ .free) : role f = r := by
  by_cases hf' : role f = .free
  · obtain ⟨g, i, x, hx⟩ := h.new f hf' (by rwa [hf])
    exact absurd (hf ▸ hx) (hr g i x)
  · rw [← h.keep f hf', hf]

lemma Grows.dir (h : Grows role role') (hf : role' f = .dir) : role f = .dir :=
  h.eq_of_not_child (fun _ _ _ hc => (Role.child_ne hc).2.2.1 rfl) hf (by simp)

lemma Grows.page (h : Grows role role') (hf : role' f = .page) : role f = .page :=
  h.eq_of_not_child (fun _ _ _ hc => (Role.child_ne hc).2.2.2 rfl) hf (by simp)

lemma newTable_isSome (h : Tables m role e) (hroom : e + PAGE_SIZE < FREEMEM_KERNEL_STOP) :
    ∃ m', m.newTable f i = some m' := by
  obtain ⟨p, m', hk⟩ := h.kalloc_isSome hroom
  simp only [Memory.newTable, hk]
  split_ifs with hz
  · exact ⟨_, rfl⟩
  · exact ⟨_, rfl⟩

/-- An entry that may lead to a table leads to one afterwards; a new table is empty. -/
lemma newTable (h : Tables m role e) (hc : (role f).child f i = some c)
    (hn : m.newTable f i = some m') :
    ∃ role' e', Tables m' role' e' ∧ Grows role role' ∧ e' ≤ e + PAGE_SIZE ∧
      m'.mem f i ≠ 0 ∧ (m.mem f i = 0 → role (m'.tableOf f i) = .free ∧
        ∀ j, m'.mem (m'.tableOf f i) j = 0) ∧
      ∀ g j, role g ≠ .free → (g = f → j = i → m.mem f i ≠ 0) → m'.mem g j = m.mem g j := by
  simp only [Memory.newTable] at hn
  split_ifs at hn with hz
  · simp only [Option.bind_eq_bind, Option.bind_eq_some_iff, Option.some.injEq] at hn
    obtain ⟨⟨p, m₁⟩, hk, rfl⟩ := hn
    have hcne := Role.child_ne hc
    have hfne := Role.ne_of_child hc
    obtain ⟨e', h₁, hle, hp, hpfree, hzero, hmem⟩ := h.kalloc hcne.1 hk
    have hpf : f ≠ p := fun heq => hfne.1 (heq ▸ hpfree)
    -- the entry leads to the page that was handed out
    have hrole : Function.update role p c p = c := Function.update_self ..
    have hframe := h₁.isFrame (by rw [hrole]; exact hcne.2.1) (by rw [hrole]; exact hcne.1)
    have h₂ : Tables (m₁.store f i (entry p PAGE_PRESENT)) (Function.update role p c) e' := by
      refine h₁.store (by rw [Function.update_of_ne hpf]; exact hfne.1) fun c' hc' => ?_
      rw [Function.update_of_ne hpf, hc, Option.some.injEq] at hc'
      exact Or.inr ⟨p, rfl, hc' ▸ hrole⟩
    have hentry : (m₁.store f i (entry p PAGE_PRESENT)).mem f i = entry p PAGE_PRESENT := by
      rw [store_self, Function.update_self]
    have htable : (m₁.store f i (entry p PAGE_PRESENT)).tableOf f i = p := by
      rw [Memory.tableOf, hentry]
      exact frameOf_entry hframe.1 (by decide)
    have hpzero : (m₁.store f i (entry p PAGE_PRESENT)).mem p = fun _ => 0 := by
      rw [store_of_ne hpf.symm, hzero]
    have hclear : (m₁.store f i (entry p PAGE_PRESENT)).clear
        ((m₁.store f i (entry p PAGE_PRESENT)).tableOf f i) =
          m₁.store f i (entry p PAGE_PRESENT) := by
      rw [htable, clear_eq_self hpzero]
    have hgrows : Grows role (Function.update role p c) := by
      refine ⟨fun g hg => ?_, fun g hg hg' => ?_⟩
      · exact Function.update_of_ne (fun heq : g = p => hg (heq ▸ hpfree)) _ _
      rcases eq_or_ne g p with rfl | hne
      · exact ⟨f, i, role f, by rw [hrole, hc]⟩
      · exact absurd hg (by rwa [Function.update_of_ne hne] at hg')
    rw [show setAttribute (setPfn (kva2pa p >>> 12)) PAGE_PRESENT = entry p PAGE_PRESENT from rfl,
      hclear]
    refine ⟨_, e', h₂, hgrows, hle, ?_, fun _ => ?_, fun g j hg hgj => ?_⟩
    · rw [hentry]
      exact entry_ne_zero hframe.1 (by decide) hframe.2.ne'
    · rw [htable]
      exact ⟨hpfree, fun j => by rw [hpzero]⟩
    · rcases eq_or_ne g f with rfl | hne
      · have hji : j ≠ i := fun hji => hgj rfl hji hz
        rw [store_self, Function.update_of_ne hji, hmem g hg]
      · rw [store_of_ne hne, hmem g hg]
  · rw [Option.some.injEq] at hn
    subst hn
    exact ⟨role, e, h, Grows.refl role, Nat.le_add_right _ _, hz, fun hz' => absurd hz' hz,
      fun _ _ _ _ => rfl⟩

/-- A new table is empty, so no entry of the third level changes. -/
lemma leaf_newTable (h : Tables m role e) (hc : (role f).child f i = some c) (hd : role d = .dir)
    (ho : Own q.1) (hne : m'.mem f i ≠ 0)
    (hzero : m.mem f i = 0 → ∀ j, m'.mem (m'.tableOf f i) j = 0)
    (hmem : ∀ g j, role g ≠ .free → (g = f → j = i → m.mem f i ≠ 0) → m'.mem g j = m.mem g j) :
    m'.leaf d q = m.leaf d q := by
  have hcd : (role d).child d q.1 = some (.mid d q.1) := by rw [hd, Role.child, if_pos ho]
  by_cases h₁ : d = f ∧ q.1 = i ∧ m.mem f i = 0
  · obtain ⟨rfl, rfl, hz⟩ := h₁
    simp only [leaf, hz, if_neg hne, hzero hz, if_true]
  have e₁ : m'.mem d q.1 = m.mem d q.1 :=
    hmem d q.1 (by simp [hd]) fun hdf hqi hz => h₁ ⟨hdf, hqi, hz⟩
  simp only [leaf, e₁, tableOf_congr e₁]
  by_cases hz₁ : m.mem d q.1 = 0
  · rw [if_pos hz₁, if_pos hz₁]
  rw [if_neg hz₁, if_neg hz₁]
  have hx : role (m.tableOf d q.1) = .mid d q.1 := h.role_tableOf hcd hz₁
  by_cases h₂ : m.tableOf d q.1 = f ∧ q.2.1 = i ∧ m.mem f i = 0
  · obtain ⟨hxf, rfl, hz⟩ := h₂
    rw [hxf, if_neg hne, if_pos hz, hzero hz]
  have e₂ : m'.mem (m.tableOf d q.1) q.2.1 = m.mem (m.tableOf d q.1) q.2.1 :=
    hmem _ _ (by simp [hx]) fun hxf hqi hz => h₂ ⟨hxf, hqi, hz⟩
  rw [e₂, tableOf_congr e₂]
  by_cases hz₂ : m.mem (m.tableOf d q.1) q.2.1 = 0
  · rw [if_pos hz₂, if_pos hz₂]
  rw [if_neg hz₂, if_neg hz₂]
  have hcx : (role (m.tableOf d q.1)).child (m.tableOf d q.1) q.2.1 =
      some (.table (m.tableOf d q.1) q.2.1) := by rw [hx]; rfl
  have ht := h.role_tableOf hcx hz₂
  -- a third-level table has no tables below it
  refine hmem _ _ (by simp [ht]) fun htf => ?_
  rw [← htf, ht] at hc
  simp [Role.child] at hc

/-! ## The entries of the third level -/

/-- The page directory of an address space, and the tables below its own entries. -/
def Belongs (role : ℕ → Role) (d f : ℕ) : Prop :=
  f = d ∨ (∃ i, role f = .mid d i) ∨ ∃ x i j, role x = .mid d i ∧ role f = .table x j

/-- A word is stored where a complete walk ends: that entry changes and no other. -/
lemma storeLeaf (h : Tables m role e) (hd : role d = .dir) (ho : Own q.1) (hz₁ : m.mem d q.1 ≠ 0)
    (hz₂ : m.mem (m.tableOf d q.1) q.2.1 ≠ 0) (v : ℕ) :
    ∃ x t, m.tableOf d q.1 = x ∧ m.tableOf x q.2.1 = t ∧ role x = .mid d q.1 ∧
      role t = .table x q.2.1 ∧ Tables (m.store t q.2.2 v) role e ∧
      (m.store t q.2.2 v).leaf d q = v ∧
      ∀ d' q', role d' = .dir → Own q'.1 → (d', q') ≠ (d, q) →
        (m.store t q.2.2 v).leaf d' q' = m.leaf d' q' := by
  have hcd : (role d).child d q.1 = some (.mid d q.1) := by rw [hd, Role.child, if_pos ho]
  have hx : role (m.tableOf d q.1) = .mid d q.1 := h.role_tableOf hcd hz₁
  have hcx : (role (m.tableOf d q.1)).child (m.tableOf d q.1) q.2.1 =
      some (.table (m.tableOf d q.1) q.2.1) := by rw [hx]; rfl
  have ht := h.role_tableOf hcx hz₂
  obtain ⟨x, hxdef⟩ : ∃ x, m.tableOf d q.1 = x := ⟨_, rfl⟩
  rw [hxdef] at hx hz₂ ht
  obtain ⟨t, htdef⟩ : ∃ t, m.tableOf x q.2.1 = t := ⟨_, rfl⟩
  rw [htdef] at ht
  have hdt : d ≠ t := fun heq => by rw [← heq, hd] at ht; simp at ht
  have hxt : x ≠ t := fun heq => by rw [← heq, hx] at ht; simp at ht
  refine ⟨x, t, hxdef, htdef, hx, ht, h.store (by rw [ht]; simp) fun c hc => ?_, ?_,
    fun d' q' hd' ho' hne => ?_⟩
  · rw [ht] at hc
    simp [Role.child] at hc
  · have e₁ : (m.store t q.2.2 v).mem d q.1 = m.mem d q.1 := by rw [store_of_ne hdt]
    have e₂ : (m.store t q.2.2 v).mem x q.2.1 = m.mem x q.2.1 := by rw [store_of_ne hxt]
    rw [leaf, e₁, if_neg hz₁, tableOf_congr e₁, hxdef, e₂, if_neg hz₂, tableOf_congr e₂, htdef,
      store_self, Function.update_self]
  · refine h.leaf_congr hd' ho' fun f i hslot => ?_
    rcases eq_or_ne f t with rfl | hft
    · rcases hslot with ⟨rfl, -⟩ | ⟨hmid, -⟩ | ⟨y, hy, htab, rfl⟩
      · rw [hd'] at ht
        simp at ht
      · rw [hmid] at ht
        simp at ht
      · -- the walk to that table is the walk of its role
        rw [ht, Role.table.injEq] at htab
        obtain ⟨rfl, hq₂⟩ := htab
        rw [hx, Role.mid.injEq] at hy
        obtain ⟨rfl, hq₁⟩ := hy
        have hq₃ : q'.2.2 ≠ q.2.2 := fun hq₃ => hne
          (Prod.ext rfl (Prod.ext hq₁.symm (Prod.ext hq₂.symm hq₃)))
        rw [store_self, Function.update_of_ne hq₃]
    · rw [store_of_ne hft]

/-- The walk is complete where an entry of the third level is not zero. -/
lemma walk_of_leaf_ne (hne : m.leaf d q ≠ 0) :
    m.mem d q.1 ≠ 0 ∧ m.mem (m.tableOf d q.1) q.2.1 ≠ 0 := by
  simp only [leaf] at hne
  split_ifs at hne with h₁ h₂
  · exact absurd rfl hne
  · exact absurd rfl hne
  · exact ⟨h₁, h₂⟩

/-- `*pte = g(*pte)` changes one entry of the third level, and no page but a table. -/
lemma modifyPte {g : ℕ → ℕ} (h : Tables m role e) (hd : role pgdir = .dir) (ho : Own (vpn2 uva))
    (hm : m.modifyPte uva pgdir g = some m') :
    m.leaf pgdir (vpns uva) ≠ 0 ∧ Tables m' role e ∧
      m'.leaf pgdir (vpns uva) = g (m.leaf pgdir (vpns uva)) ∧
      (∀ d q, role d = .dir → Own q.1 → (d, q) ≠ (pgdir, vpns uva) → m'.leaf d q = m.leaf d q) ∧
      ∀ f, (∀ x i, role f ≠ .table x i) → m'.mem f = m.mem f := by
  rw [modifyPte_eq] at hm
  split_ifs at hm with hne
  rw [Option.some.injEq] at hm
  obtain ⟨hz₁, hz₂⟩ := walk_of_leaf_ne hne
  obtain ⟨x, t, hx, ht, -, htrole, htables, hself, hother⟩ :=
    h.storeLeaf (q := vpns uva) hd ho hz₁ hz₂ (g (m.leaf pgdir (vpns uva)))
  rw [vpns_fst] at hx
  rw [vpns_snd_fst] at ht
  rw [hx, ht] at hm
  subst hm
  refine ⟨hne, htables, hself, hother, fun f hf => store_of_ne ?_⟩
  rintro rfl
  exact hf _ _ htrole

/-- The tables that a walk comes to. -/
def OnWalk (m : Memory) (pgdir : ℕ) (p : Vpns) (f : ℕ) : Prop :=
  f = pgdir ∨ m.mem pgdir p.1 ≠ 0 ∧ (f = m.tableOf pgdir p.1 ∨
    m.mem (m.tableOf pgdir p.1) p.2.1 ≠ 0 ∧ f = m.tableOf (m.tableOf pgdir p.1) p.2.1)

/-- They are tables of the address space. -/
lemma OnWalk.role_cases (h : Tables m role e) (hd : role d = .dir) (ho : Own q.1)
    (hf : OnWalk m d q f) :
    role f = .dir ∨ (∃ g i, role f = .mid g i) ∨ ∃ g i, role f = .table g i := by
  have hcd : (role d).child d q.1 = some (.mid d q.1) := by rw [hd, Role.child, if_pos ho]
  rcases hf with heq | ⟨hz₁, heq | ⟨hz₂, heq⟩⟩
  · exact Or.inl (heq ▸ hd)
  · exact Or.inr (Or.inl ⟨d, q.1, by rw [heq, h.role_tableOf hcd hz₁]⟩)
  · have hx := h.role_tableOf hcd hz₁
    have hcx : (role (m.tableOf d q.1)).child (m.tableOf d q.1) q.2.1 =
        some (.table (m.tableOf d q.1) q.2.1) := by rw [hx]; rfl
    exact Or.inr (Or.inr ⟨_, _, by rw [heq, h.role_tableOf hcx hz₂]⟩)

/-- `map_uva_to_kva` sets one entry of the third level; new tables apart, it changes
nothing but the tables of the walk, and one entry of the page directory. -/
lemma mapUvaToKva_walk (h : Tables m role e) (hd : role pgdir = .dir) (ho : Own (vpn2 uva))
    (hm : m.mapUvaToKva uva kva pgdir = some m') :
    ∃ role' e', Tables m' role' e' ∧ Grows role role' ∧ e' ≤ e + 2 * PAGE_SIZE ∧
      m'.leaf pgdir (vpns uva) =
        entry kva (PAGE_PRESENT ||| PAGE_READ ||| PAGE_WRITE ||| PAGE_EXEC ||| PAGE_USER) ∧
      (∀ d q, role d = .dir → Own q.1 → (d, q) ≠ (pgdir, vpns uva) → m'.leaf d q = m.leaf d q) ∧
      (∀ f, role f ≠ .free → ¬ OnWalk m pgdir (vpns uva) f → m'.mem f = m.mem f) ∧
      (∀ i, i ≠ vpn2 uva → m'.mem pgdir i = m.mem pgdir i) ∧
      ∀ f, role f ≠ .free → OnWalk m' pgdir (vpns uva) f → OnWalk m pgdir (vpns uva) f := by
  simp only [Memory.mapUvaToKva, Option.bind_eq_bind, Option.bind_eq_some_iff,
    Option.some.injEq] at hm
  obtain ⟨m₁, hm₁, m₂, hm₂, rfl⟩ := hm
  have hcd : (role pgdir).child pgdir (vpn2 uva) = some (.mid pgdir (vpn2 uva)) := by
    rw [hd, Role.child, if_pos ho]
  obtain ⟨role₁, e₁, h₁, hg₁, hle₁, hne₁, hnew₁, hmem₁⟩ := h.newTable hcd hm₁
  have hd₁ : role₁ pgdir = .dir := by rw [hg₁.keep _ (by simp [hd]), hd]
  have hcd₁ : (role₁ pgdir).child pgdir (vpn2 uva) = some (.mid pgdir (vpn2 uva)) := by
    rw [hd₁, Role.child, if_pos ho]
  obtain ⟨x, hxdef⟩ : ∃ x, m₁.tableOf pgdir (vpn2 uva) = x := ⟨_, rfl⟩
  have hx := h₁.role_tableOf hcd₁ hne₁
  rw [hxdef] at hm₂ hx ⊢
  have hcx : (role₁ x).child x (vpn1 uva) = some (.table x (vpn1 uva)) := by rw [hx]; rfl
  obtain ⟨role₂, e₂, h₂, hg₂, hle₂, hne₂, hnew₂, hmem₂⟩ := h₁.newTable hcx hm₂
  -- the second step leaves the entry of the page directory alone
  have hxd : x ≠ pgdir := fun heq => by
    rw [heq, hd₁] at hx
    simp at hx
  have hent : m₂.mem pgdir (vpn2 uva) = m₁.mem pgdir (vpn2 uva) :=
    hmem₂ _ _ (by simp [hd₁]) fun heq => absurd heq.symm hxd
  have hd₂ : role₂ pgdir = .dir := by rw [hg₂.keep _ (by simp [hd₁]), hd₁]
  have hg := hg₁.trans hg₂
  obtain ⟨x', t, hx', htdef, hrx, hrt, h', hleaf, hother⟩ := h₂.storeLeaf (q := vpns uva) hd₂ ho
    (by rw [vpns_fst, hent]; exact hne₁)
    (by rw [vpns_fst, vpns_snd_fst, tableOf_congr hent, hxdef]; exact hne₂)
    (setAttribute (setPfn (kva2pa kva >>> 12))
      (PAGE_PRESENT ||| PAGE_READ ||| PAGE_WRITE ||| PAGE_EXEC ||| PAGE_USER))
  rw [vpns_fst, tableOf_congr hent, hxdef] at hx'
  rw [← hx', vpns_snd_fst] at htdef hrt
  rw [vpns_snd_snd] at h' hleaf hother
  rw [htdef]
  have htd : pgdir ≠ t := by
    rintro rfl
    simp [hd₂] at hrt
  -- the tables of the walk are new or were there before
  have hnew : ∀ f, role f ≠ .free → ¬ OnWalk m pgdir (vpns uva) f → f ≠ pgdir ∧ f ≠ x ∧ f ≠ t := by
    intro f hf hw
    have hf₁ : role₁ f ≠ .free := by rwa [hg₁.keep f hf]
    refine ⟨fun heq => hw (Or.inl heq), fun heq => ?_, fun heq => ?_⟩
    · have hx₀ : m.mem pgdir (vpn2 uva) = 0 := by
        by_contra hz
        have hsame := hmem₁ pgdir (vpn2 uva) (by simp [hd]) fun _ _ => hz
        exact hw (Or.inr ⟨hz, Or.inl (by rw [heq, ← hxdef, tableOf_congr hsame, vpns_fst])⟩)
      have hfree := (hnew₁ hx₀).1
      rw [hxdef, ← heq] at hfree
      exact hf hfree
    · by_cases hz₂ : m₁.mem x (vpn1 uva) = 0
      · have hfree := (hnew₂ hz₂).1
        rw [htdef, ← heq] at hfree
        exact hf₁ hfree
      · by_cases hz₁ : m.mem pgdir (vpn2 uva) = 0
        · rw [← hxdef] at hz₂
          exact hz₂ ((hnew₁ hz₁).2 _)
        · have hd₁' := hmem₁ pgdir (vpn2 uva) (by simp [hd]) fun _ _ => hz₁
          have hxm : m.tableOf pgdir (vpn2 uva) = x := by rw [← hxdef, tableOf_congr hd₁']
          have hxrole := h.role_tableOf hcd hz₁
          have hx₁' := hmem₁ x (vpn1 uva) (by rw [← hxm, hxrole]; simp) fun heq => absurd heq hxd
          have hx₂' := hmem₂ x (vpn1 uva) (by simp [hx]) fun _ _ => hz₂
          refine hw (Or.inr ⟨hz₁, Or.inr ?_⟩)
          rw [vpns_fst, vpns_snd_fst, hxm]
          exact ⟨by rwa [← hx₁'], by rw [heq, ← htdef, tableOf_congr (hx₂'.trans hx₁')]⟩
  refine ⟨role₂, e₂, h', hg, by omega, hleaf, fun d q hdd hoq hne => ?_, fun f hf hw => ?_,
    fun i hi => ?_, fun f hf hw => ?_⟩
  · have hdd₁ : role₁ d = .dir := by rw [hg₁.keep _ (by simp [hdd]), hdd]
    have hdd₂ : role₂ d = .dir := by rw [hg₂.keep _ (by simp [hdd₁]), hdd₁]
    rw [hother d q hdd₂ hoq hne, h₁.leaf_newTable hcx hdd₁ hoq hne₂ (fun hz => (hnew₂ hz).2) hmem₂,
      h.leaf_newTable hcd hdd hoq hne₁ (fun hz => (hnew₁ hz).2) hmem₁]
  · have hf₁ : role₁ f ≠ .free := by rwa [hg₁.keep f hf]
    obtain ⟨hfd, hfx, hft⟩ := hnew f hf hw
    rw [store_of_ne hft]
    funext j
    rw [hmem₂ f j hf₁ fun heq => absurd heq hfx, hmem₁ f j hf fun heq => absurd heq hfd]
  · rw [store_of_ne htd, hmem₂ pgdir i (by simp [hd₁]) fun heq => absurd heq.symm hxd,
      hmem₁ pgdir i (by simp [hd]) fun _ heq => absurd heq hi]
  · -- the walk afterwards comes to these tables
    by_contra hno
    obtain ⟨hfd, hfx, hft⟩ := hnew f hf hno
    have hxt : x ≠ t := fun heq => by
      rw [← heq, hg₂.keep x (by simp [hx]), hx] at hrt
      simp at hrt
    have hdir := (store_of_ne (m := m₂) (i := vpn0 uva) (v := setAttribute
      (setPfn (kva2pa kva >>> 12))
      (PAGE_PRESENT ||| PAGE_READ ||| PAGE_WRITE ||| PAGE_EXEC ||| PAGE_USER)) htd)
    have hmid := (store_of_ne (m := m₂) (i := vpn0 uva) (v := setAttribute
      (setPfn (kva2pa kva >>> 12))
      (PAGE_PRESENT ||| PAGE_READ ||| PAGE_WRITE ||| PAGE_EXEC ||| PAGE_USER)) hxt)
    have hent' := (congrFun hdir (vpn2 uva)).trans hent
    rcases hw with heq | ⟨-, heq | ⟨-, heq⟩⟩
    · exact hfd heq
    · rw [vpns_fst, tableOf_congr hent', hxdef] at heq
      exact hfx heq
    · rw [vpns_fst, vpns_snd_fst, tableOf_congr hent', hxdef, tableOf_congr (congrFun hmid _),
        htdef] at heq
      exact hft heq

/-- The same without the tables of the walk afterwards. -/
lemma mapUvaToKva (h : Tables m role e) (hd : role pgdir = .dir) (ho : Own (vpn2 uva))
    (hm : m.mapUvaToKva uva kva pgdir = some m') :
    ∃ role' e', Tables m' role' e' ∧ Grows role role' ∧ e' ≤ e + 2 * PAGE_SIZE ∧
      m'.leaf pgdir (vpns uva) =
        entry kva (PAGE_PRESENT ||| PAGE_READ ||| PAGE_WRITE ||| PAGE_EXEC ||| PAGE_USER) ∧
      (∀ d q, role d = .dir → Own q.1 → (d, q) ≠ (pgdir, vpns uva) → m'.leaf d q = m.leaf d q) ∧
      (∀ f, role f ≠ .free → ¬ OnWalk m pgdir (vpns uva) f → m'.mem f = m.mem f) ∧
      ∀ i, i ≠ vpn2 uva → m'.mem pgdir i = m.mem pgdir i := by
  obtain ⟨role', e', ht, hg, hle, hself, hother, hmem, hdir, -⟩ := h.mapUvaToKva_walk hd ho hm
  exact ⟨role', e', ht, hg, hle, hself, hother, hmem, hdir⟩

lemma mapUvaToKva_isSome (h : Tables m role e) (hd : role pgdir = .dir) (ho : Own (vpn2 uva))
    (hroom : e + 2 * PAGE_SIZE < FREEMEM_KERNEL_STOP) :
    ∃ m', m.mapUvaToKva uva kva pgdir = some m' := by
  have hcd : (role pgdir).child pgdir (vpn2 uva) = some (.mid pgdir (vpn2 uva)) := by
    rw [hd, Role.child, if_pos ho]
  obtain ⟨m₁, hm₁⟩ := h.newTable_isSome (f := pgdir) (i := vpn2 uva) (by omega)
  obtain ⟨role₁, e₁, h₁, -, hle₁, -⟩ := h.newTable hcd hm₁
  obtain ⟨m₂, hm₂⟩ := h₁.newTable_isSome (f := m₁.tableOf pgdir (vpn2 uva)) (i := vpn1 uva)
    (by omega)
  simp only [Memory.mapUvaToKva, hm₁, hm₂, Option.bind_eq_bind, Option.bind_some]
  exact ⟨_, rfl⟩

end Tables

end Mm
end UcasKernel
