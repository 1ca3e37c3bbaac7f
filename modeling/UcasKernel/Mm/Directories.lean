/-
The page directories of the processes, and what happens to their tables.

`Directories` says which pages are the page directories in use, and that the directory
that all others copy has none of the entries that a process may have.  What the entries of
the third level map is left open: there is one lemma for each thing that the memory manager
does to pages and tables, and each says which of these entries change.
-/
import Mathlib.Data.Finset.Insert
import UcasKernel.Mm.Tables

namespace UcasKernel
namespace Mm

/-- The attributes that `map_uva_to_kva` sets. -/
def PAGE_ALL : ℕ := PAGE_PRESENT ||| PAGE_READ ||| PAGE_WRITE ||| PAGE_EXEC ||| PAGE_USER

/-- All entries of the third level but one are the same. -/
def SameBut (spaces : Finset ℕ) (d₀ : ℕ) (q₀ : Vpns) (m m' : Memory) : Prop :=
  ∀ d ∈ spaces, ∀ q : Vpns, Own q.1 → (d, q) ≠ (d₀, q₀) → m'.leaf d q = m.leaf d q

/-- All entries of the third level are the same. -/
def SameLeaves (spaces : Finset ℕ) (m m' : Memory) : Prop :=
  ∀ d ∈ spaces, ∀ q : Vpns, Own q.1 → m'.leaf d q = m.leaf d q

/-- The page directories are `spaces`. -/
structure Directories (m : Memory) (spaces : Finset ℕ) (role : ℕ → Role) (e : ℕ) : Prop where
  tables : Tables m role e
  dir : ∀ d, d ∈ spaces ↔ role d = .dir
  /-- The directory that is copied has none of the entries that a process may have. -/
  kernel : ∀ i, Own i → m.mem PGDIR_VA i = 0

open Memory

variable {m m' : Memory} {spaces : Finset ℕ} {role role' : ℕ → Role} {e f p kva uva pgdir : ℕ}
  {i : Fin 512} {q : Vpns} {r : Role}

/-- A page that is not free keeps its role when a free one gets another. -/
lemma update_of_not_free (hp : role p = .free) (hf : role f ≠ .free) :
    Function.update role p r f = role f := by
  refine Function.update_of_ne ?_ _ _
  rintro rfl
  exact hf hp

namespace Tables

/-- The entries of the third level are read in tables only. -/
lemma leaf_of_mem {d : ℕ} (h : Tables m role e) (hd : role d = .dir) (hq : Own q.1)
    (hmem : ∀ f, role f ≠ .free → role f ≠ .page → role f ≠ .kernel → m'.mem f = m.mem f) :
    m'.leaf d q = m.leaf d q := by
  refine h.leaf_congr hd hq fun f i hf => ?_
  rw [hmem f]
  all_goals rcases hf with ⟨rfl, -⟩ | ⟨hf, -⟩ | ⟨x, -, hf, -⟩
  all_goals simp_all

lemma role_pgdirVa (h : Tables m role e) : role PGDIR_VA = .kernel := by
  by_contra hne
  exact absurd (h.isPage _ hne).2 (by decide)

/-- An entry of a page directory that is not the process's own is read by no walk. -/
lemma storeShared (h : Tables m role e) (hd : role pgdir = .dir) (hi : ¬ Own i) (v : ℕ) :
    Tables (m.store pgdir i v) role e ∧
      ∀ d q, role d = .dir → Own q.1 → (m.store pgdir i v).leaf d q = m.leaf d q := by
  refine ⟨h.store (by simp [hd]) fun c hc => ?_, fun d q hd' hq => ?_⟩
  · rw [hd, Role.child, if_neg hi] at hc
    cases hc
  refine h.leaf_congr hd' hq fun f j hf => ?_
  rcases eq_or_ne f pgdir with rfl | hne
  · rcases hf with ⟨-, rfl⟩ | ⟨hf, -⟩ | ⟨x, -, hf, -⟩
    · rw [store_self, Function.update_of_ne fun heq : q.1 = i => hi (heq ▸ hq)]
    · simp [hd] at hf
    · simp [hd] at hf
  · rw [store_of_ne hne]

/-- `share_pgtable` copies entries that are not the process's own. -/
lemma sharePgtable (h : Tables m role e) (hd : role pgdir = .dir)
    (hk : ∀ i, Own i → m.mem PGDIR_VA i = 0) :
    Tables (m.sharePgtable pgdir PGDIR_VA) role e ∧
      (∀ d q, role d = .dir → Own q.1 → (m.sharePgtable pgdir PGDIR_VA).leaf d q = m.leaf d q) ∧
      ∀ f, f ≠ pgdir → (m.sharePgtable pgdir PGDIR_VA).mem f = m.mem f := by
  have hne : PGDIR_VA ≠ pgdir := by
    rintro rfl
    simpa [hd] using h.role_pgdirVa
  rw [Memory.sharePgtable]
  generalize List.finRange 512 = l
  induction l generalizing m with
  | nil => exact ⟨h, fun _ _ _ _ => rfl, fun _ _ => rfl⟩
  | cons i l ih =>
    rw [List.foldl_cons]
    split_ifs with hz
    · obtain ⟨h₁, hleaf₁⟩ := h.storeShared hd (fun hi => hz (hk i hi)) (m.mem PGDIR_VA i)
      obtain ⟨h₂, hleaf₂, hmem₂⟩ := ih h₁ fun j hj => by rw [store_of_ne hne, hk j hj]
      refine ⟨h₂, fun d q hd' hq => ?_, fun f hf => ?_⟩
      · rw [hleaf₂ d q hd' hq, hleaf₁ d q hd' hq]
      · rw [hmem₂ f hf, store_of_ne hf]
    · exact ih h hk

end Tables

namespace Directories

variable (h : Directories m spaces role e)
include h

lemma role_dir {d : ℕ} (hd : d ∈ spaces) : role d = .dir := (h.dir d).1 hd

/-- Where no table changes, no entry of the third level does. -/
lemma sameLeaves
    (hmem : ∀ f, role f ≠ .free → role f ≠ .page → role f ≠ .kernel → m'.mem f = m.mem f) :
    SameLeaves spaces m m' :=
  fun _ hd _ hq => h.tables.leaf_of_mem (h.role_dir hd) hq hmem

/-! ## Pages -/

/-- The kernel takes a page, for itself or for a process. -/
lemma kalloc (hr : r ≠ .free) (hdir : r ≠ .dir) (hk : m.kalloc = some (p, m')) :
    ∃ e', Directories m' spaces (Function.update role p r) e' ∧ role p = .free ∧
      m'.mem p = (fun _ => 0) ∧ (∀ f, role f ≠ .free → m'.mem f = m.mem f) ∧
      SameLeaves spaces m m' ∧ e' ≤ e + PAGE_SIZE := by
  obtain ⟨e', ht, hle, -, hfree, hzero, hmem⟩ := h.tables.kalloc hr hk
  refine ⟨e', ⟨ht, fun d => ?_, fun i hi => ?_⟩, hfree, hzero, hmem,
    h.sameLeaves fun f hf _ _ => hmem f hf, hle⟩
  · rw [h.dir]
    rcases eq_or_ne d p with rfl | hne
    · simp [hfree, hdir]
    · rw [Function.update_of_ne hne]
  · rw [hmem _ (by simp [h.tables.role_pgdirVa])]
    exact h.kernel i hi

/-- The page of a new page directory, which maps nothing. -/
lemma newPgdir (hk : m.kalloc = some (p, m')) :
    ∃ e', Directories m' (insert p spaces) (Function.update role p .dir) e' ∧ role p = .free ∧
      (∀ q, m'.leaf p q = 0) ∧ (∀ f, role f ≠ .free → m'.mem f = m.mem f) ∧
      SameLeaves spaces m m' ∧ e' ≤ e + PAGE_SIZE := by
  obtain ⟨e', ht, hle, -, hfree, hzero, hmem⟩ := h.tables.kalloc (r := .dir) (by simp) hk
  refine ⟨e', ⟨ht, fun d => ?_, fun i hi => ?_⟩, hfree, fun q => ?_, hmem,
    h.sameLeaves fun f hf _ _ => hmem f hf, hle⟩
  · rw [Finset.mem_insert, h.dir]
    rcases eq_or_ne d p with rfl | hne
    · simp
    · simp [hne]
  · rw [hmem _ (by simp [h.tables.role_pgdirVa])]
    exact h.kernel i hi
  · rw [Memory.leaf, hzero, if_pos rfl]

lemma sharePgtable (hd : pgdir ∈ spaces) :
    Directories (m.sharePgtable pgdir PGDIR_VA) spaces role e ∧
      SameLeaves spaces m (m.sharePgtable pgdir PGDIR_VA) ∧
      ∀ f, f ≠ pgdir → (m.sharePgtable pgdir PGDIR_VA).mem f = m.mem f := by
  obtain ⟨htables, hleaf, hmem⟩ := h.tables.sharePgtable (h.role_dir hd) h.kernel
  refine ⟨⟨htables, h.dir, fun i hi => ?_⟩, fun d hd q => hleaf d q (h.role_dir hd), hmem⟩
  rw [hmem PGDIR_VA]
  · exact h.kernel i hi
  · rintro rfl
    simpa [h.role_dir hd] using h.tables.role_pgdirVa

/-- A page of a process is written, or one of the kernel that is not the directory that is
copied. -/
lemma write (hf : role f = .page ∨ role f = .kernel ∧ f ≠ PGDIR_VA)
    (hlist : m'.freememList = m.freememList) (hmem : ∀ g, g ≠ f → m'.mem g = m.mem g) :
    Directories m' spaces role e ∧ SameLeaves spaces m m' := by
  have hother : ∀ g, role g ≠ .page → role g ≠ .kernel → m'.mem g = m.mem g := by
    intro g hg hg'
    refine hmem g ?_
    rintro rfl
    exact (hf.imp_right And.left).elim hg hg'
  refine ⟨⟨h.tables.congr hlist (fun g hg => ?_) fun g i c hc => ?_, h.dir, fun i hi => ?_⟩,
    h.sameLeaves fun g _ => hother g⟩
  · rw [hother g (by simp [hg]) (by simp [hg])]
  · obtain ⟨-, hk, hp⟩ := Role.ne_of_child hc
    rw [hother g hp hk]
  · rw [hmem]
    · exact h.kernel i hi
    · rintro rfl
      rcases hf with hf | hf
      · simp [h.tables.role_pgdirVa] at hf
      · exact hf.2 rfl

/-- A page of a process becomes free. -/
lemma kfree (hf : role f = .page) :
    Directories (m.kfree f) spaces (Function.update role f .free) e ∧
      SameLeaves spaces m (m.kfree f) ∧ ∀ g, g ≠ f → (m.kfree f).mem g = m.mem g := by
  obtain ⟨ht, hmem⟩ := h.tables.kfree (f := f) (by simp [hf]) (h.tables.isPage f (by simp [hf]))
    fun g i c hc _ => by
      rw [hf]
      exact (Role.child_ne hc).2.2.2
  have hne : ∀ g, role g ≠ .page → g ≠ f := by
    rintro g hg rfl
    exact hg hf
  refine ⟨⟨ht, fun d => ?_, fun i hi => ?_⟩, h.sameLeaves fun g _ hg _ => hmem g (hne g hg), hmem⟩
  · rw [h.dir]
    rcases eq_or_ne d f with rfl | hdf
    · simp [hf]
    · rw [Function.update_of_ne hdf]
  · rw [hmem _ (hne _ (by simp [h.tables.role_pgdirVa]))]
    exact h.kernel i hi

/-! ## Entries -/

/-- `map_uva_to_kva` sets one entry; the walk comes to tables only. -/
lemma mapUvaToKva (hd : pgdir ∈ spaces) (ho : Own (vpn2 uva))
    (hm : m.mapUvaToKva uva kva pgdir = some m') :
    ∃ role' e', Directories m' spaces role' e' ∧ Tables.Grows role role' ∧
      m'.leaf pgdir (vpns uva) = entry kva PAGE_ALL ∧ SameBut spaces pgdir (vpns uva) m m' ∧
      (∀ f, role f = .page ∨ role f = .kernel → m'.mem f = m.mem f) ∧ e' ≤ e + 2 * PAGE_SIZE := by
  have hdir := h.role_dir hd
  obtain ⟨role', e', ht, hgrows, hle, hself, hother, hmem, -⟩ := h.tables.mapUvaToKva hdir ho hm
  have hkeep : ∀ f, role f = .page ∨ role f = .kernel → m'.mem f = m.mem f := by
    intro f hf
    refine hmem f (by rcases hf with hf | hf <;> simp [hf]) fun hwalk => ?_
    rcases hwalk.role_cases h.tables hdir ho with hr | ⟨g, i, hr⟩ | ⟨g, i, hr⟩ <;> simp [hr] at hf
  refine ⟨role', e', ⟨ht, fun d => ?_, fun i hi => ?_⟩, hgrows, hself,
    fun d hd q => hother d q (h.role_dir hd), hkeep, hle⟩
  · rw [h.dir]
    exact ⟨fun hd => by rw [hgrows.keep d (by simp [hd]), hd], hgrows.dir⟩
  · rw [hkeep _ (Or.inr h.tables.role_pgdirVa)]
    exact h.kernel i hi

/-- A change of one entry. -/
lemma modifyPte {g : ℕ → ℕ} (hd : pgdir ∈ spaces) (ho : Own (vpn2 uva))
    (hm : m.modifyPte uva pgdir g = some m') :
    m.leaf pgdir (vpns uva) ≠ 0 ∧ Directories m' spaces role e ∧
      m'.leaf pgdir (vpns uva) = g (m.leaf pgdir (vpns uva)) ∧
      SameBut spaces pgdir (vpns uva) m m' ∧ ∀ f, role f = .page → m'.mem f = m.mem f := by
  obtain ⟨hne, ht, hself, hother, hmem⟩ := h.tables.modifyPte (h.role_dir hd) ho hm
  refine ⟨hne, ⟨ht, h.dir, fun i hi => ?_⟩, hself, fun d hd q => hother d q (h.role_dir hd),
    fun f hf => hmem f (by simp [hf])⟩
  rw [hmem _ (by simp [h.tables.role_pgdirVa])]
  exact h.kernel i hi

end Directories

end Mm
end UcasKernel
