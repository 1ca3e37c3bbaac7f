/-
The end of an address space.

`free_pagetable` frees the third-level tables of a directory and then the second-level
ones, and `free_pgdir` frees the directory.  A table is freed through the entry that its
role names, so it is freed once; the pages of the other address spaces do not change.
-/
import UcasKernel.Mm.Spaces

namespace UcasKernel
namespace Mm

open Memory

/-- Some pages of `C` have become free; the others, and their words, are the same. -/
structure Frees (C : Set ℕ) (m m' : Memory) (role role' : ℕ → Role) : Prop where
  role : ∀ f, role' f = role f ∨ f ∈ C ∧ role' f = .free
  mem : ∀ f, f ∉ C → m'.mem f = m.mem f

/-- An entry that is zero or leads to a table with the role `c`. -/
def LeadsTo (m : Memory) (role : ℕ → Role) (f : ℕ) (i : Fin 512) (c : Role) : Prop :=
  m.mem f i = 0 ∨ ∃ y, m.mem f i = entry y PAGE_PRESENT ∧ role y = c

variable {m m' : Memory} {role role' : ℕ → Role} {e f d x t pgdir : ℕ} {i j : Fin 512} {r c : Role}
  {C : Set ℕ}

namespace Frees

lemma refl (C : Set ℕ) (m : Memory) (role : ℕ → Role) : Frees C m m role role :=
  ⟨fun _ => Or.inl rfl, fun _ _ => rfl⟩

/-- A page that is not free had its role before. -/
lemma role_eq (h : Frees C m m' role role') (hf : role' f = r) (hr : r ≠ .free) : role f = r := by
  rcases h.role f with heq | ⟨-, hfree⟩
  · rw [← heq, hf]
  · exact absurd (hf ▸ hfree) hr

lemma role_of_notMem (h : Frees C m m' role role') (hf : f ∉ C) : role' f = role f :=
  (h.role f).resolve_right fun hfree => hf hfree.1

end Frees

namespace Tables

/-- The page to which an entry leads. -/
lemma role_of_leadsTo (h : Tables m role e) (hl : LeadsTo m role f i c) (hk : c ≠ .kernel)
    (hfree : c ≠ .free) (hne : m.mem f i ≠ 0) : role (m.tableOf f i) = c := by
  obtain ⟨y, hy, hrole⟩ := hl.resolve_left hne
  have hframe := (h.isFrame (f := y) (hrole ▸ hk) (hrole ▸ hfree)).1
  have : m.tableOf f i = y := by
    rw [Memory.tableOf, hy]
    exact frameOf_entry hframe (by decide)
  rw [this, hrole]

/-- A change of the words of a page without tables below it. -/
lemma write (h : Tables m role e) (hfree : role f ≠ .free) (hchild : ∀ i, (role f).child f i = none)
    (hlist : m'.freememList = m.freememList) (hmem : ∀ g, g ≠ f → m'.mem g = m.mem g) :
    Tables m' role e := by
  refine h.congr hlist (fun g hg => ?_) fun g i c hc => ?_
  · rw [hmem g fun heq => hfree (heq ▸ hg)]
  · rw [hmem g]
    rintro rfl
    rw [hchild i] at hc
    cases hc

/-- No entry leads to a table when the page that its role names has no tables below it. -/
lemma orphan_mid (hd : role d ≠ .dir) {g : ℕ} (hc : (role g).child g j = some c) : c ≠ .mid d i := by
  rintro rfl
  cases hg : role g <;> rw [hg] at hc <;>
    simp only [Role.child, Option.ite_none_right_eq_some, Option.some.injEq, reduceCtorEq,
      Role.mid.injEq] at hc
  obtain ⟨-, rfl, -⟩ := hc
  exact hd hg

lemma orphan_table (hx : ∀ d k, role x ≠ .mid d k) {g : ℕ} (hc : (role g).child g j = some c) :
    c ≠ .table x i := by
  rintro rfl
  cases hg : role g <;> rw [hg] at hc <;>
    simp only [Role.child, Option.ite_none_right_eq_some, Option.some.injEq, reduceCtorEq, and_false,
      Role.table.injEq] at hc
  obtain ⟨rfl, -⟩ := hc
  exact hx _ _ hg

end Tables

namespace State

variable {s u : State} {q : Queue → List Pfn}

/-- `free_pagetable` takes records off the queues. -/
lemma Book.freePagetable_drops (hb : s.Book q) (h : s.freePagetable pgdir = some u) :
    (∃ q', Drops s u q q') ∧ u.sharePages = s.sharePages := by
  refine freePagetable_rule (I := fun u => (∃ q', Drops s u q q') ∧ u.sharePages = s.sharePages)
    ?_ ?_ ⟨⟨q, Drops.refl hb⟩, rfl⟩ h
  · rintro v m ⟨⟨q', hdrops⟩, hshare⟩
    exact ⟨⟨q', hdrops.congr m _⟩, hshare⟩
  · rintro v uva t ⟨⟨q', hdrops⟩, hshare⟩ ht
    obtain ⟨q'', hdrops', -, hsame, -⟩ :=
      hdrops.book.freePageWith_drops (fun _ => hdrops.book.find _) ht
    exact ⟨⟨q'', hdrops.trans hdrops'⟩, hsame.trans hshare⟩

/-- `shm_page_dt` clears the entry of the address, and then the slot that has the frame loses a
reference or becomes free. -/
lemma Book.shmPageDt_cases {t : State} {addr : ℕ} (hb : s.Book q)
    (hs : s.shmPageDt addr pgdir = some t) :
    ∃ m q', s.modifyPte addr pgdir (fun _ => 0) = some m ∧ t.toMemory = m ∧ Drops s t q q' ∧
      ((s.findShareKva (s.getKvaOfUva addr pgdir &&& PAGE_MASK) = none ∧
          t = { s with toMemory := m }) ∨
        ∃ i ref, s.findShareKva (s.getKvaOfUva addr pgdir &&& PAGE_MASK) = some i ∧
          (s.sharePages i).ref = ref + 1 ∧ ref < 2 ^ 31 ∧
          if ref = 0 then t.sharePages = Function.update s.sharePages i ⟨0, 0, 0⟩ ∧
            ∀ r ∈ q' .presentPagesQueue, (s.pages r).kva = (s.sharePages i).kva →
              ∃ r' ∈ q .presentPagesQueue, r' ≠ r ∧ (s.pages r').kva = (s.sharePages i).kva
          else t = { s with
            toMemory := m
            sharePages := Function.update s.sharePages i { s.sharePages i with ref := ref } }) := by
  simp only [shmPageDt, Option.bind_eq_bind, Option.bind_eq_some_iff] at hs
  obtain ⟨m, hm, hs⟩ := hs
  obtain ⟨s₁, hs₁⟩ : ∃ s₁, { s with toMemory := m } = s₁ := ⟨_, rfl⟩
  have hdrops₁ : ∀ p, Drops s { s₁ with sharePages := p } q q := fun p =>
    hs₁ ▸ (Drops.refl hb).congr m p
  have hfind : s₁.findShareKva (s.getKvaOfUva addr pgdir &&& PAGE_MASK) =
      s.findShareKva (s.getKvaOfUva addr pgdir &&& PAGE_MASK) := hs₁ ▸ rfl
  have hslots : s₁.sharePages = s.sharePages := hs₁ ▸ rfl
  have hpages : s₁.pages = s.pages := hs₁ ▸ rfl
  have hmem : s₁.toMemory = m := hs₁ ▸ rfl
  rw [hs₁, hfind] at hs
  refine ⟨m, ?_⟩
  cases hslot : s.findShareKva (s.getKvaOfUva addr pgdir &&& PAGE_MASK) with
  | none =>
    rw [hslot] at hs
    obtain rfl := Option.some.inj hs
    exact ⟨q, hm, hmem, hdrops₁ _, Or.inl ⟨rfl, hs₁.symm⟩⟩
  | some i =>
    simp only [hslot, Option.bind_eq_some_iff] at hs
    obtain ⟨ref, hadd, hs⟩ := hs
    have href : (s.sharePages i).ref = ref + 1 := by
      have := addInt_eq_some hadd
      omega
    split_ifs at hs with hzero
    · simp only [Option.bind_eq_some_iff, Option.some.injEq] at hs
      obtain ⟨u, hu, rfl⟩ := hs
      have hdrops₂ : ∀ v w, Drops s ((s₁.setSharePage i v).setSharePage i w) q q := fun _ _ =>
        hdrops₁ _
      obtain ⟨q', hdrops', hmem', hshare, htwin⟩ :=
        (hdrops₂ _ _).book.freePageWith_drops (fun _ => (hdrops₂ _ _).book.find _) hu
      refine ⟨q', hm, hmem'.trans hmem, ((hdrops₂ _ _).trans hdrops').congr _ _, Or.inr
        ⟨i, ref, rfl, href, addInt_lt hadd, ?_⟩⟩
      have hu : u.sharePages = Function.update s.sharePages i ⟨(s.sharePages i).kva, 0, 0⟩ := by
        rw [hshare]
        simp only [setSharePage, Function.update_self, Function.update_idem, hslots, hzero]
      rw [if_pos hzero, setSharePage, hu, Function.update_self, Function.update_idem]
      simp only [decide_eq_true_eq, setSharePage, Function.update_self, hpages, hslots] at htwin
      exact ⟨rfl, htwin⟩
    · rw [Option.some.injEq] at hs
      subst hs
      refine ⟨q, hm, hmem, hdrops₁ _, Or.inr
        ⟨i, ref, rfl, href, addInt_lt hadd, ?_⟩⟩
      rw [if_neg hzero, ← hs₁]
      rfl

/-- The entries of a third-level table are cleared. -/
lemma freeLeaf_tables {v2 v1 : Fin 512} {l : List (Fin 512)} (hb : s.Book q)
    (h : Tables s.toMemory role e) (ht : role t = .table x j)
    (hs : l.foldlM (freeLeaf pgdir v2 v1 t) s = some u) :
    (∃ q', u.Book q') ∧ Tables u.toMemory role e ∧ ∀ g, g ≠ t → u.mem g = s.mem g := by
  refine Trace.foldlM_invariant (P := fun u => (∃ q', State.Book u q') ∧
    Tables u.toMemory role e ∧ ∀ g, g ≠ t → u.mem g = s.mem g) ?_ ⟨⟨q, hb⟩, h, fun _ _ => rfl⟩ hs
  rintro s' v0 u' ⟨⟨q', hb'⟩, h', hmem⟩ hu
  simp only [freeLeaf] at hu
  split_ifs at hu with hz
  · simp only [Option.bind_eq_bind, Option.bind_eq_some_iff, Option.some.injEq] at hu
    obtain ⟨w, hw, rfl⟩ := hu
    obtain ⟨q₁, ⟨hb₁, -, -, -, -⟩, hwm, -⟩ := hb'.freePageWith_drops (fun _ => hb'.find _) hw
    have hstore : ∀ g, g ≠ t → (w.store t v0 0).mem g = s'.mem g := fun g hg => by
      rw [store_of_ne hg, hwm]
    refine ⟨⟨q₁, hb₁.memory _⟩, ?_, fun g hg => ?_⟩
    · refine h'.write (f := t) (by simp [ht]) (fun i => by simp [ht, Role.child]) ?_ hstore
      show w.freememList = _
      rw [hwm]
    · rw [← hmem g hg]
      exact hstore g hg
  · rw [Option.some.injEq] at hu
    exact hu ▸ ⟨⟨q', hb'⟩, h', hmem⟩

/-- While what is below the table `x` is freed: the entries of `l` are left. -/
structure Freeing (C : Set ℕ) (m : Memory) (role : ℕ → Role) (e x : ℕ) (r : Role)
    (l : List (Fin 512)) (u : State) : Prop where
  book : ∃ q, u.Book q
  nodup : l.Nodup
  tables : ∃ role', Tables u.toMemory role' e ∧ Frees C m u.toMemory role role' ∧
    ∀ j ∈ l, ∀ c, r.child x j = some c → LeadsTo u.toMemory role' x j c

/-- The tables below a second-level table. -/
def TablesOf (role : ℕ → Role) (x : ℕ) : Set ℕ := {f | ∃ j, role f = .table x j}

/-- The pages of the tables below a directory. -/
def Below (role : ℕ → Role) (d : ℕ) : Set ℕ :=
  {f | (∃ i, role f = .mid d i) ∨ ∃ x i j, role x = .mid d i ∧ role f = .table x j}

/-- A table is freed when its second-level table is not one any more. -/
lemma freeTable_round {v2 : Fin 512} {l : List (Fin 512)} (hx : role x = .kernel)
    (h : Freeing (TablesOf role x) m role e x (.mid d i) (j :: l) s)
    (hs : freeTable pgdir v2 x s j = some u) :
    Freeing (TablesOf role x) m role e x (.mid d i) l u := by
  obtain ⟨⟨q, hb⟩, hnodup, role', h', hfrees, hent⟩ := h
  rw [List.nodup_cons] at hnodup
  have hrest : ∀ k ∈ l, ∀ c, Role.child x k (.mid d i) = some c → LeadsTo s.toMemory role' x k c :=
    fun k hk => hent k (List.mem_cons_of_mem _ hk)
  simp only [freeTable] at hs
  split_ifs at hs with hz
  · simp only [Option.bind_eq_bind, Option.bind_eq_some_iff, Option.some.injEq] at hs
    obtain ⟨w, hw, rfl⟩ := hs
    have ht := h'.role_of_leadsTo (hent j List.mem_cons_self _ rfl) (by simp) (by simp) hz
    have hx' : role' x = .kernel := by
      rw [hfrees.role_of_notMem, hx]
      rintro ⟨k, hk⟩
      simp [hx] at hk
    obtain ⟨t, htdef⟩ : ∃ t, s.tableOf x j = t := ⟨_, rfl⟩
    rw [htdef] at hw ht ⊢
    obtain ⟨⟨q₁, hb₁⟩, hw', hmem⟩ := freeLeaf_tables hb h' ht hw
    obtain ⟨hfree, hmem'⟩ := hw'.kfree (f := t) (by simp [ht]) (hw'.isPage t (by simp [ht]))
      fun g i c hc _ => by
        rw [ht]
        exact Tables.orphan_table (by simp [hx']) hc
    have hsame : ∀ g, g ≠ t → (w.kfree t).mem g = s.mem g := fun g hg => by
      rw [hmem' g hg, hmem g hg]
    have htC : t ∈ TablesOf role x := ⟨j, hfrees.role_eq ht (by simp)⟩
    have hxt : x ≠ t := by
      rintro rfl
      simp [ht] at hx'
    refine ⟨⟨q₁, hb₁.memory _⟩, hnodup.2, _, hfree,
      ⟨fun f => ?_, fun f hf => ?_⟩, fun k hk c hc => ?_⟩
    · rcases eq_or_ne f t with rfl | hne
      · exact Or.inr ⟨htC, Function.update_self ..⟩
      · rw [Function.update_of_ne hne]
        exact hfrees.role f
    · rw [hsame f fun heq => hf (heq ▸ htC), hfrees.mem f hf]
    · -- the other entries lead to other tables
      rw [LeadsTo, hsame x hxt]
      refine (hrest k hk c hc).imp_right fun hy => ?_
      obtain ⟨y, hy, hrole⟩ := hy
      refine ⟨y, hy, ?_⟩
      rw [Function.update_of_ne, hrole]
      rintro rfl
      rw [ht] at hrole
      obtain rfl : Role.table x k = c := Option.some.inj hc
      rw [Role.table.injEq] at hrole
      exact hnodup.1 (hrole.2 ▸ hk)
  · rw [Option.some.injEq] at hs
    subst hs
    exact ⟨⟨q, hb⟩, hnodup.2, role', h', hfrees, hrest⟩

/-- A second-level table and what is below it are freed when their directory is not one any
more. -/
lemma freeMid_round {l : List (Fin 512)} (hd : role d = .kernel)
    (h : Freeing (Below role d) m role e d .dir (i :: l) s) (hs : freeMid d s i = some u) :
    Freeing (Below role d) m role e d .dir l u := by
  obtain ⟨⟨q, hb⟩, hnodup, role', h', hfrees, hent⟩ := h
  rw [List.nodup_cons] at hnodup
  have hrest : ∀ k ∈ l, ∀ c, Role.child d k .dir = some c → LeadsTo s.toMemory role' d k c :=
    fun k hk => hent k (List.mem_cons_of_mem _ hk)
  have hd' : role' d = .kernel := by
    rw [hfrees.role_of_notMem, hd]
    rintro (⟨k, hk⟩ | ⟨x, k, j, -, hk⟩) <;> simp [hd] at hk
  simp only [freeMid] at hs
  split_ifs at hs with hz
  · simp only [Option.bind_eq_bind, Option.bind_eq_some_iff, Option.some.injEq] at hs
    obtain ⟨w, hw, rfl⟩ := hs
    have hx := h'.role_of_leadsTo (hent i List.mem_cons_self _ (if_pos hz.2)) (by simp) (by simp) hz.1
    obtain ⟨x, hxdef⟩ : ∃ x, s.tableOf d i = x := ⟨_, rfl⟩
    rw [hxdef] at hw hx ⊢
    have hxB : role x = .mid d i := hfrees.role_eq hx (by simp)
    have hxd : d ≠ x := by
      rintro rfl
      simp [hx] at hd'
    -- the directory leads to the table no more
    have h₁ := h'.toKernel (f := x) (by simp [hx]) fun g k c hc _ => by
      rw [hx]
      exact Tables.orphan_mid (by simp [hd']) hc
    obtain ⟨role₁, hrole₁⟩ : ∃ role₁, Function.update role' x .kernel = role₁ := ⟨_, rfl⟩
    have hx₁ : role₁ x = .kernel := by rw [← hrole₁, Function.update_self]
    have hne₁ : ∀ f, f ≠ x → role₁ f = role' f := fun f hf => by
      rw [← hrole₁, Function.update_of_ne hf]
    rw [hrole₁] at h₁
    have hent₁ : ∀ j ∈ List.finRange 512, ∀ c, Role.child x j (.mid d i) = some c →
        LeadsTo s.toMemory role₁ x j c := by
      intro j _ c hc
      refine (h'.entries x j c (by rw [hx]; exact hc)).imp_right fun hy => ?_
      obtain ⟨y, hy, hrole⟩ := hy
      refine ⟨y, hy, ?_⟩
      rw [hne₁ y, hrole]
      rintro rfl
      obtain rfl : Role.table y j = c := Option.some.inj hc
      simp [hx] at hrole
    obtain ⟨⟨q₁, hb₁⟩, -, role₂, h₂, hfrees₂, -⟩ := Trace.foldlM_invariant_rest
      (P := Freeing (TablesOf role₁ x) s.toMemory role₁ e x (.mid d i))
      (fun _ _ _ _ h => freeTable_round hx₁ h)
      ⟨⟨q, hb⟩, List.nodup_finRange 512, role₁, h₁, Frees.refl _ _ _, hent₁⟩ hw
    have hx₂ : role₂ x = .kernel := by
      rw [hfrees₂.role_of_notMem, hx₁]
      rintro ⟨k, hk⟩
      simp [hx₁] at hk
    have hclear : ∀ g, g ≠ x → (w.clear x).mem g = w.mem g := fun g hg => clear_of_ne hg
    have h₃ : Tables (w.clear x) role₂ e :=
      h₂.write (f := x) (by simp [hx₂]) (fun k => by simp [hx₂, Role.child]) rfl hclear
    obtain ⟨h₄, hmem₄⟩ := h₃.kfree (f := x) (by simp [hx₂]) (h'.isPage x (by simp [hx]))
      fun g k c hc _ => by
        rw [hx₂]
        exact (Role.child_ne hc).2.1
    -- what was below the table was below the directory
    have hsub : ∀ f ∈ TablesOf role₁ x, f ∈ Below role d := by
      rintro f ⟨j, hj⟩
      have hfx : f ≠ x := by
        rintro rfl
        simp [hx₁] at hj
      rw [hne₁ f hfx] at hj
      exact Or.inr ⟨x, i, j, hxB, hfrees.role_eq hj (by simp)⟩
    have hsame : ∀ g, g ≠ x → g ∉ TablesOf role₁ x → ((w.clear x).kfree x).mem g = s.mem g :=
      fun g hg hg' => by rw [hmem₄ g hg, hclear g hg, hfrees₂.mem g hg']
    have hdT : d ∉ TablesOf role₁ x := by
      rintro ⟨j, hj⟩
      simp [hne₁ d hxd, hd'] at hj
    refine ⟨⟨q₁, hb₁.memory _⟩, hnodup.2, _, h₄,
      ⟨fun f => ?_, fun f hf => ?_⟩, fun k hk c hc => ?_⟩
    · rcases eq_or_ne f x with rfl | hne
      · exact Or.inr ⟨Or.inl ⟨i, hxB⟩, Function.update_self ..⟩
      · rw [Function.update_of_ne hne]
        rcases hfrees₂.role f with heq | ⟨hfT, hfree⟩
        · rw [heq, hne₁ f hne]
          exact hfrees.role f
        · exact Or.inr ⟨hsub f hfT, hfree⟩
    · have hfx : f ≠ x := by
        rintro rfl
        exact hf (Or.inl ⟨i, hxB⟩)
      rw [hsame f hfx fun hfT => hf (hsub f hfT), hfrees.mem f hf]
    · rw [LeadsTo, hsame d hxd hdT]
      refine (hrest k hk c hc).imp_right fun hy => ?_
      obtain ⟨y, hy, hy'⟩ := hy
      refine ⟨y, hy, ?_⟩
      rw [Role.child, Option.ite_none_right_eq_some, Option.some.injEq] at hc
      obtain ⟨-, rfl⟩ := hc
      have hyx : y ≠ x := by
        rintro rfl
        rw [hx, Role.mid.injEq] at hy'
        exact hnodup.1 (hy'.2 ▸ hk)
      rw [Function.update_of_ne hyx, hfrees₂.role_of_notMem, hne₁ y hyx, hy']
      rintro ⟨j, hj⟩
      simp [hne₁ y hyx, hy'] at hj
  · rw [Option.some.injEq] at hs
    subst hs
    exact ⟨⟨q, hb⟩, hnodup.2, role', h', hfrees, hrest⟩

/-- `free_pagetable`, then `free_pgdir`. -/
lemma freePgdir_tables (hb : s.Book q) (h : Tables s.toMemory role e) (hdir : role d = .dir)
    (hs : s.freePagetable d = some u) :
    (∃ q', u.Book q') ∧ ∃ role', Tables (u.freePgdir d) role' e ∧ role' d = .free ∧
      Frees {f | Tables.Belongs role d f} s.toMemory (u.freePgdir d) role role' := by
  have h₁ := h.toKernel (f := d) (by simp [hdir]) fun g i c hc _ => by
    rw [hdir]
    exact (Role.child_ne hc).2.2.1
  obtain ⟨role₁, hrole₁⟩ : ∃ role₁, Function.update role d .kernel = role₁ := ⟨_, rfl⟩
  have hd₁ : role₁ d = .kernel := by rw [← hrole₁, Function.update_self]
  have hne₁ : ∀ f, f ≠ d → role₁ f = role f := fun f hf => by
    rw [← hrole₁, Function.update_of_ne hf]
  rw [hrole₁] at h₁
  have hent : ∀ i ∈ List.finRange 512, ∀ c, Role.child d i .dir = some c →
      LeadsTo s.toMemory role₁ d i c := by
    intro i _ c hc
    refine (h.entries d i c (by rw [hdir]; exact hc)).imp_right fun hy => ?_
    obtain ⟨y, hy, hrole⟩ := hy
    refine ⟨y, hy, ?_⟩
    rw [hne₁ y, hrole]
    rintro rfl
    exact (Role.child_ne hc).2.2.1 (hrole ▸ hdir)
  obtain ⟨hbook, -, role₂, h₂, hfrees, -⟩ := Trace.foldlM_invariant_rest
    (P := Freeing (Below role₁ d) s.toMemory role₁ e d .dir) (fun _ _ _ _ h => freeMid_round hd₁ h)
    ⟨⟨q, hb⟩, List.nodup_finRange 512, role₁, h₁, Frees.refl _ _ _, hent⟩ hs
  have hd₂ : role₂ d = .kernel := by
    rw [hfrees.role_of_notMem, hd₁]
    rintro (⟨i, hi⟩ | ⟨x, i, j, -, hi⟩) <;> simp [hd₁] at hi
  have hclear : ∀ g, g ≠ d → (u.clear d).mem g = u.mem g := fun g hg => clear_of_ne hg
  have h₃ : Tables (u.clear d) role₂ e :=
    h₂.write (f := d) (by simp [hd₂]) (fun i => by simp [hd₂, Role.child]) rfl hclear
  obtain ⟨h₄, hmem₄⟩ := h₃.kfree (f := d) (by simp [hd₂]) (h.isPage d (by simp [hdir]))
    fun g i c hc _ => by
      rw [hd₂]
      exact (Role.child_ne hc).2.1
  have hbelow : ∀ f ∈ Below role₁ d, Tables.Belongs role d f := by
    have hof : ∀ f r, role₁ f = r → r ≠ .kernel → role f = r := fun f r hf hr => by
      rw [← hne₁ f, hf]
      rintro rfl
      exact hr (hf ▸ hd₁)
    rintro f (⟨i, hi⟩ | ⟨x, i, j, hx, hj⟩)
    · exact Or.inr (Or.inl ⟨i, hof f _ hi (by simp)⟩)
    · exact Or.inr (Or.inr ⟨x, i, j, hof x _ hx (by simp), hof f _ hj (by simp)⟩)
  refine ⟨hbook, _, h₄, Function.update_self .., fun f => ?_, fun f hf => ?_⟩
  · rcases eq_or_ne f d with rfl | hne
    · exact Or.inr ⟨Or.inl rfl, Function.update_self ..⟩
    · rw [Function.update_of_ne hne, ← hne₁ f hne]
      exact (hfrees.role f).imp_right fun hf => ⟨hbelow f hf.1, hf.2⟩
  · have hfd : f ≠ d := fun heq => hf (Or.inl heq)
    rw [Memory.freePgdir, hmem₄ f hfd, hclear f hfd, hfrees.mem f fun hB => hf (hbelow f hB)]

end State

/-- No walk from another directory comes to a page of this one. -/
lemma Tables.leaf_of_frees {d' : ℕ} {p : Vpns} (h : Tables m role e) (hd : role d = .dir)
    (hd' : role d' = .dir) (hne : d' ≠ d) (hp : Own p.1)
    (hfrees : Frees {f | Tables.Belongs role d f} m m' role role') : m'.leaf d' p = m.leaf d' p := by
  refine h.leaf_congr hd' hp fun f k hf => ?_
  rw [hfrees.mem f]
  rintro (rfl | ⟨i, hi⟩ | ⟨x, i, j, hx, hi⟩)
  · rcases hf with ⟨rfl, -⟩ | ⟨hf, -⟩ | ⟨y, -, hf, -⟩
    · exact hne rfl
    · simp [hd] at hf
    · simp [hd] at hf
  · rcases hf with ⟨rfl, -⟩ | ⟨hf, -⟩ | ⟨y, -, hf, -⟩
    · simp [hd'] at hi
    · rw [hi, Role.mid.injEq] at hf
      exact hne hf.1.symm
    · simp [hi] at hf
  · rcases hf with ⟨rfl, -⟩ | ⟨hf, -⟩ | ⟨y, hy, hf, -⟩
    · simp [hd'] at hi
    · simp [hi] at hf
    · rw [hi, Role.table.injEq] at hf
      rw [← hf.1, hx, Role.mid.injEq] at hy
      exact hne hy.1.symm

/-- The pages of processes and of the kernel belong to no directory. -/
lemma Stays.of_frees (hd : role d = .dir)
    (hfrees : Frees {f | Tables.Belongs role d f} m m' role role') : Stays role role' := by
  intro f hf
  refine hfrees.role_of_notMem ?_
  rintro (rfl | ⟨i, hi⟩ | ⟨x, i, j, -, hi⟩)
  · simp [hd] at hf
  · simp [hi] at hf
  · simp [hi] at hf

/-- The directories that are left. -/
lemma Frees.dir_iff {d' : ℕ} (hfrees : Frees {f | Tables.Belongs role d f} m m' role role')
    (hfree : role' d = .free) : role' d' = .dir ↔ d' ≠ d ∧ role d' = .dir := by
  constructor
  · intro hf
    refine ⟨?_, hfrees.role_eq hf (by simp)⟩
    rintro rfl
    simp [hfree] at hf
  · rintro ⟨hne, hf⟩
    rw [hfrees.role_of_notMem, hf]
    rintro (heq | ⟨i, hi⟩ | ⟨x, i, j, -, hi⟩)
    · exact hne heq
    · simp [hf] at hi
    · simp [hf] at hi

/-- The directory that is copied belongs to none. -/
lemma Tables.mem_pgdirVa_of_frees (h : Tables m role e) (hd : role d = .dir)
    (hfrees : Frees {f | Tables.Belongs role d f} m m' role role') :
    m'.mem PGDIR_VA = m.mem PGDIR_VA := by
  have hrole := h.role_pgdirVa
  refine hfrees.mem PGDIR_VA ?_
  rintro (heq | ⟨i, hi⟩ | ⟨x, i, j, -, hi⟩)
  · simp [heq, hd] at hrole
  · simp [hrole] at hi
  · simp [hrole] at hi

/-- The other directories, when the pages of one of them become free. -/
lemma Directories.of_frees {spaces : Finset ℕ} (h : Directories m spaces role e) (hd : d ∈ spaces)
    (ht : Tables m' role' e) (hfree : role' d = .free)
    (hfrees : Frees {f | Tables.Belongs role d f} m m' role role') :
    Directories m' (spaces.erase d) role' e ∧ SameLeaves (spaces.erase d) m m' ∧
      ∀ f, role f = .page → m'.mem f = m.mem f := by
  have hdir := h.role_dir hd
  refine ⟨⟨ht, fun f => ?_, fun i hi => ?_⟩, fun d' hd' p hp => ?_, fun f hf => hfrees.mem f ?_⟩
  · rw [Finset.mem_erase, h.dir, hfrees.dir_iff hfree]
  · rw [h.tables.mem_pgdirVa_of_frees hdir hfrees]
    exact h.kernel i hi
  · obtain ⟨hne, hmem⟩ := Finset.mem_erase.1 hd'
    exact h.tables.leaf_of_frees hdir (h.role_dir hmem) hne hp hfrees
  · rintro (rfl | ⟨i, hi⟩ | ⟨x, i, j, -, hi⟩)
    · simp [hdir] at hf
    · simp [hi] at hf
    · simp [hi] at hf

/-- The other address spaces, when the pages of one of them become free. -/
lemma Spaces.of_frees {A : Prop} {spaces : Finset ℕ} (h : Spaces A m spaces role e) (hd : d ∈ spaces)
    (ht : Tables m' role' e) (hfree : role' d = .free)
    (hfrees : Frees {f | Tables.Belongs role d f} m m' role role') :
    Spaces A m' (spaces.erase d) role' e ∧ Stays role role' ∧ SameLeaves (spaces.erase d) m m' := by
  have hstays := Stays.of_frees (h.role_dir hd) hfrees
  obtain ⟨hdirs, hleaf, -⟩ := h.directories.of_frees hd ht hfree hfrees
  exact ⟨h.of_sameLeaves hdirs (fun f => hstays.page) (Finset.erase_subset _ _) hleaf, hstays, hleaf⟩

end Mm
end UcasKernel
