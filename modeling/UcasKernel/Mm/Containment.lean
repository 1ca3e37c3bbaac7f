/-
What a page fault leaves alone.

`handle_page_fault` takes the fault address from the process, and walks the page directory
of the process with it.  Two entries of the directory are the kernel's: behind them the walk
takes entries for 2 MB of the kernel's memory for pointers to tables, and the handler stores
into the kernel.  Behind the other entries it changes free pages and tables of the process
alone.
-/
import UcasKernel.Mm.Faults
import UcasKernel.Mm.Mapping

namespace UcasKernel
namespace Mm

open Memory

/-! ## The law -/

/-- A table of the process's own half of the addresses. -/
def OwnTable (m : Memory) (pgdir f : ℕ) : Prop := ∃ q : Vpns, Own q.1 ∧ Tables.OnWalk m pgdir q f

/-- A fault of the process with the page directory `pgdir` changes what was free and tables of its
own. -/
structure FaultContained (s : State) (maxPresentPfn stval pgdir : ℕ) (store : Bool) : Prop where
  /-- The record for `swap_in` is not `NULL`. -/
  record : s.getKvaOfUva (stval &&& PAGE_MASK) pgdir ≠ 0 →
    s.findPageWithUva (stval &&& PAGE_MASK) pgdir .swappedPagesQueue ≠ some none
  /-- The kernel's memory, and the pages that were handed out. -/
  inUse : ∀ t, s.handlePageFault maxPresentPfn stval pgdir store = some t →
    ∀ l e, s.FreeList l e → ∀ f, InUse l e f → ¬ OwnTable s.toMemory pgdir f → t.mem f = s.mem f
  /-- The entries of the directory that are the kernel's. -/
  entries : ∀ t, s.handlePageFault maxPresentPfn stval pgdir store = some t →
    ∀ i, ¬ Own i → t.mem pgdir i = s.mem pgdir i
  /-- The card and the shared pages. -/
  rest : ∀ t, s.handlePageFault maxPresentPfn stval pgdir store = some t →
    t.sd = s.sd ∧ t.diskSectorsStartid = s.diskSectorsStartid ∧ t.sharePages = s.sharePages

/-! ## The walk -/

namespace Tables

variable {m m' : Memory} {role : ℕ → Role} {e f uva pgdir : ℕ} {q : Vpns}

/-- The walk reads the directory, and then a table if the directory has one. -/
lemma onWalk_congr (hdir : m'.mem pgdir q.1 = m.mem pgdir q.1)
    (hmid : m.mem pgdir q.1 ≠ 0 →
      m'.mem (m.tableOf pgdir q.1) q.2.1 = m.mem (m.tableOf pgdir q.1) q.2.1) :
    OnWalk m' pgdir q f ↔ OnWalk m pgdir q f := by
  unfold OnWalk
  rw [hdir, tableOf_congr hdir]
  by_cases hz : m.mem pgdir q.1 = 0
  · simp only [hz, ne_eq, not_true_eq_false, false_and, or_false]
  · rw [hmid hz, tableOf_congr (hmid hz)]

/-- What changes free pages only leaves the walk alone. -/
lemma onWalk_of_mem (h : Tables m role e) (hd : role pgdir = .dir) (ho : Own q.1)
    (hmem : ∀ g, role g ≠ .free → m'.mem g = m.mem g) :
    OnWalk m' pgdir q f ↔ OnWalk m pgdir q f := by
  have hcd : (role pgdir).child pgdir q.1 = some (.mid pgdir q.1) := by
    rw [hd, Role.child, if_pos ho]
  refine onWalk_congr (congrFun (hmem pgdir (by simp [hd])) _) fun hz => ?_
  exact congrFun (hmem _ (by rw [h.role_tableOf hcd hz]; simp)) _

/-- A change of one entry of the third level is a change of a table of the walk. -/
lemma modifyPte_walk {g : ℕ → ℕ} (h : Tables m role e) (hd : role pgdir = .dir)
    (ho : Own (vpn2 uva)) (hm : m.modifyPte uva pgdir g = some m') :
    (∀ f, ¬ OnWalk m pgdir (vpns uva) f → m'.mem f = m.mem f) ∧
      ∀ f, OnWalk m' pgdir (vpns uva) f ↔ OnWalk m pgdir (vpns uva) f := by
  obtain ⟨hne, -, -, -, hmem⟩ := h.modifyPte hd ho hm
  obtain ⟨hz₁, hz₂⟩ := walk_of_leaf_ne hne
  have hcd : (role pgdir).child pgdir (vpn2 uva) = some (.mid pgdir (vpn2 uva)) := by
    rw [hd, Role.child, if_pos ho]
  rw [modifyPte_eq, if_neg hne, Option.some.injEq] at hm
  refine ⟨fun f hf => ?_, fun f => onWalk_congr ?_ fun _ => ?_⟩
  · rw [← hm]
    refine store_of_ne fun heq => hf ?_
    unfold OnWalk
    rw [vpns_fst] at hz₁ hz₂ ⊢
    rw [vpns_snd_fst] at hz₂ ⊢
    exact Or.inr ⟨hz₁, Or.inr ⟨hz₂, heq⟩⟩
  · exact congrFun (hmem pgdir (by simp [hd])) _
  · exact congrFun (hmem _ (by rw [vpns_fst, h.role_tableOf hcd hz₁]; simp)) _

end Tables

/-! ## Faults of a process -/

section Contained

variable {m m' : Memory} {spaces : Finset ℕ} {role : ℕ → Role} {e f kva uva pgdir stval : ℕ}
  {A : Prop} {s t u : State} {q : Queue → List Pfn}

/-- Tables of the process are pages of the allocator. -/
lemma OwnTable.isPage (hf : OwnTable m pgdir f) (h : Tables m role e) (hd : role pgdir = .dir) :
    IsPage f := by
  obtain ⟨q, ho, hw⟩ := hf
  refine h.isPage f ?_
  rcases hw.role_cases h hd ho with hr | ⟨g, i, hr⟩ | ⟨g, i, hr⟩ <;> simp [hr]

/-- What a fault may change: free pages, and the tables of the walk of its address. -/
structure Contained (spaces : Finset ℕ) (pgdir uva : ℕ) (role : ℕ → Role) (s t : State) : Prop where
  tables : ∃ role' e', Tables t.toMemory role' e' ∧ ∀ d ∈ spaces, role' d = .dir
  mem : ∀ f, role f ≠ .free → ¬ Tables.OnWalk s.toMemory pgdir (vpns uva) f → t.mem f = s.mem f
  walk : ∀ f, role f ≠ .free → Tables.OnWalk t.toMemory pgdir (vpns uva) f →
    Tables.OnWalk s.toMemory pgdir (vpns uva) f
  dir : ∀ i, i ≠ vpn2 uva → t.mem pgdir i = s.mem pgdir i
  rest : t.sd = s.sd ∧ t.diskSectorsStartid = s.diskSectorsStartid ∧ t.sharePages = s.sharePages

/-- An allocation puts new tables at the end of the walk, and sets its entry. -/
lemma Spaces.allocPageHelper_contained (h : Spaces A s.toMemory spaces role e) (hb : s.Book q)
    (hd : pgdir ∈ spaces) (ho : Own (vpn2 uva))
    (hs : s.allocPageHelper MAX_PRESENT_PFN uva pgdir = some (kva, t)) :
    Contained spaces pgdir uva role s t := by
  obtain ⟨m, m', r, L, hk, hm, rfl, -⟩ := hb.allocPageHelper_spec hs
  obtain ⟨e₁, ht₁, -, -, hfree, -, hmem₁⟩ := h.tables.kalloc (r := .page) (by simp) hk
  have hkeep : ∀ g, role g ≠ .free → Function.update role kva .page g = role g := by
    intro g hg
    refine Function.update_of_ne ?_ _ _
    rintro rfl
    exact hg hfree
  have hdirs : ∀ d ∈ spaces, Function.update role kva .page d = .dir := by
    intro d hd
    rw [hkeep d (by simp [h.role_dir hd]), h.role_dir hd]
  obtain ⟨role₂, e₂, ht₂, hg, -, -, -, hmem₂, hdir₂, hwalk₂⟩ :=
    ht₁.mapUvaToKva_walk (hdirs pgdir hd) ho hm
  have hwalk₁ : ∀ f, Tables.OnWalk m pgdir (vpns uva) f ↔
      Tables.OnWalk s.toMemory pgdir (vpns uva) f := fun f =>
    h.tables.onWalk_of_mem (h.role_dir hd) ho hmem₁
  refine ⟨⟨role₂, e₂, ht₂, fun d hd => ?_⟩, fun f hf hw => ?_, fun f hf hw => ?_, fun i hi => ?_,
    rfl, rfl, rfl⟩
  · rw [hg.keep d (by simp [hdirs d hd]), hdirs d hd]
  · exact (hmem₂ f (by rwa [hkeep f hf]) fun hw' => hw ((hwalk₁ f).1 hw')).trans (hmem₁ f hf)
  · exact (hwalk₁ f).1 (hwalk₂ f (by rwa [hkeep f hf]) hw)
  · exact (hdir₂ i hi).trans (congrFun (hmem₁ pgdir (by simp [h.role_dir hd])) i)

lemma Contained.modifyPte {g : ℕ → ℕ} (h : Contained spaces pgdir uva role s t)
    (hd : pgdir ∈ spaces) (ho : Own (vpn2 uva)) (hm : t.modifyPte uva pgdir g = some m) :
    Contained spaces pgdir uva role s { t with toMemory := m } := by
  obtain ⟨role', e', ht, hdirs⟩ := h.tables
  obtain ⟨-, ht', -, -, hmem⟩ := ht.modifyPte (hdirs pgdir hd) ho hm
  obtain ⟨hmem', hwalk⟩ := ht.modifyPte_walk (hdirs pgdir hd) ho hm
  refine ⟨⟨role', e', ht', hdirs⟩, fun f hf hw => ?_, fun f hf hw => ?_, fun i hi => ?_, h.rest⟩
  · exact (hmem' f fun hw' => hw (h.walk f hf hw')).trans (h.mem f hf hw)
  · exact h.walk f hf ((hwalk f).1 hw)
  · exact (congrFun (hmem pgdir (by simp [hdirs pgdir hd])) i).trans (h.dir i hi)

/-- A fault on a page that is not mapped. -/
lemma Spaces.handlePageFault_contained {store : Bool} (h : Spaces A s.toMemory spaces role e)
    (hb : s.Book q) (hq : q .swappedPagesQueue = []) (hd : pgdir ∈ spaces)
    (ho : Own (vpn2 (stval &&& PAGE_MASK)))
    (hs : s.handlePageFault MAX_PRESENT_PFN stval pgdir store = some t) :
    Contained spaces pgdir (stval &&& PAGE_MASK) role s t := by
  simp only [State.handlePageFault, Option.bind_eq_bind, Option.bind_eq_some_iff] at hs
  obtain ⟨u, hu, m, hm, hs⟩ := hs
  obtain ⟨-, kva, halloc⟩ := hb.bringIn_spec hq hu
  have h₁ := (h.allocPageHelper_contained hb hd ho halloc).modifyPte hd ho hm
  split_ifs at hs with hstore
  · simp only [Option.bind_eq_some_iff, Option.some.injEq] at hs
    obtain ⟨m', hm', rfl⟩ := hs
    exact h₁.modifyPte hd ho hm'
  · rw [Option.some.injEq] at hs
    exact hs ▸ h₁

end Contained

namespace Sharing

variable {x : Sharing} {A : Prop} {role : ℕ → Role} {e pgdir stval : ℕ} {q : Queue → List Pfn}

lemma Inv.faultContained_iff {store : Bool} (h : x.Inv A role e q) (hd : pgdir ∈ x.spaces)
    (ho : Own (vpn2 stval)) : FaultContained x.state MAX_PRESENT_PFN stval pgdir store ↔
      x.state.getKvaOfUva (stval &&& PAGE_MASK) pgdir = 0 := by
  have ho' : Own (vpn2 (stval &&& PAGE_MASK)) := by rwa [vpn2_and_pageMask]
  constructor
  · intro hlaw
    by_contra hne
    refine hlaw.record hne ?_
    rw [State.findPageWithUva, h.book.find, h.swapped]
    rfl
  · intro hz
    have hc : ∀ t, x.state.handlePageFault MAX_PRESENT_PFN stval pgdir store = some t →
        Contained x.spaces pgdir (stval &&& PAGE_MASK) role x.state t := fun t =>
      h.spaces.handlePageFault_contained h.book h.swapped hd ho'
    refine ⟨fun hne => absurd hz hne, fun t ht l e' hl f huse hown => ?_, fun t ht i hi => ?_,
      fun t ht => (hc t ht).rest⟩
    · obtain ⟨l', hl', hrole⟩ := h.spaces.tables.list
      obtain ⟨rfl, rfl⟩ := hl.chain.unique hl'.chain
      have hf : role f ≠ .free := by
        intro hfree
        have hp := h.spaces.tables.isPage f (by simp [hfree])
        exact huse hp ((hrole f hp).1 hfree)
      exact (hc t ht).mem f hf fun hw => hown ⟨_, ho', hw⟩
    · refine (hc t ht).dir i ?_
      rintro rfl
      exact hi ho'

/-- In every run in which no process passes or touches an address of the kernel or of a device, a
fault behind the other entries of the page directory is contained exactly when no page is mapped at
its address. -/
theorem fault_contained_iff (m : Memory) (kernel io : ℕ) (sd : ℕ → Fin 64 → ℕ) (startid : ℤ)
    (es : List ShareEvent) (hes : ∀ ev ∈ es, ev.UserAddress) :
    Trace.Always step (fun x => ∀ pgdir ∈ x.spaces, ∀ stval, Own (vpn2 stval) → ∀ store,
      FaultContained x.state MAX_PRESENT_PFN stval pgdir store ↔
        x.state.getKvaOfUva (stval &&& PAGE_MASK) pgdir = 0)
      (boot m kernel io sd startid) es :=
  (always_inv True m kernel io sd startid fun ev hev => ⟨hes ev hev, Or.inl trivial⟩).mono
    fun _ ⟨_, _, _, h⟩ _ hd _ ho _ => h.faultContained_iff hd ho

/-- The first touch of the page below the stack page of a new process. -/
theorem fault_contained_iff_first : ∃ x,
    Trace.run step (boot ⟨fun _ _ => 0, 0⟩ 1 1 (fun _ _ => 0) 100)
      [.newPgdir, .allocPageHelper 0x20000 FREEMEM_KERNEL] = some x ∧
      (x.state.handlePageFault MAX_PRESENT_PFN 0x1f008 FREEMEM_KERNEL true).isSome ∧
      FaultContained x.state MAX_PRESENT_PFN 0x1f008 FREEMEM_KERNEL true := by
  have hrun : (Trace.run step (boot ⟨fun _ _ => 0, 0⟩ 1 1 (fun _ _ => 0) 100)
      [.newPgdir, .allocPageHelper 0x20000 FREEMEM_KERNEL]).map (fun x =>
        (decide (FREEMEM_KERNEL ∈ x.spaces),
          (x.state.handlePageFault MAX_PRESENT_PFN 0x1f008 FREEMEM_KERNEL true).isSome,
          decide (x.state.getKvaOfUva (0x1f008 &&& PAGE_MASK) FREEMEM_KERNEL = 0))) =
        some (true, true, true) := by
    decide +kernel
  obtain ⟨x, hx, hval⟩ := Option.map_eq_some_iff.1 hrun
  simp only [Prod.mk.injEq, decide_eq_true_eq] at hval
  obtain ⟨hd, hret, hz⟩ := hval
  have hlaw := (fault_contained_iff ⟨fun _ _ => 0, 0⟩ 1 1 (fun _ _ => 0) 100 _ fun ev hev => by
    simp only [List.mem_cons, List.not_mem_nil, or_false] at hev
    rcases hev with rfl | rfl <;> simp [ShareEvent.UserAddress, own_vpn2]).last hx
  exact ⟨x, hx, hret, (hlaw FREEMEM_KERNEL hd 0x1f008 (by decide) true).2 hz⟩

/-- The memory with a table of the kernel, which maps its first 2 MB. -/
def kernelMemory : Memory where
  mem := fun p i => if p = 0xffffffc051001000 ∧ i = 0x80 then
    entry 0xffffffc050000000 (PAGE_PRESENT ||| PAGE_READ ||| PAGE_WRITE ||| PAGE_EXEC) else 0
  freememList := 0

/-- A process touches an address of the kernel, and the handler stores an entry there. -/
theorem fault_writes_kernel : ∃ x,
    Trace.run step (boot kernelMemory (entry 0xffffffc051001000 PAGE_PRESENT) 1 (fun _ _ => 0) 100)
      [.newPgdir, .sharePgtable FREEMEM_KERNEL] = some x ∧ FREEMEM_KERNEL ∈ x.spaces ∧
      ¬ FaultContained x.state MAX_PRESENT_PFN 0xffffffc050000000 FREEMEM_KERNEL true := by
  have hrun : (Trace.run step
      (boot kernelMemory (entry 0xffffffc051001000 PAGE_PRESENT) 1 (fun _ _ => 0) 100)
      [.newPgdir, .sharePgtable FREEMEM_KERNEL]).map (fun x =>
        (decide (FREEMEM_KERNEL ∈ x.spaces), x.state.mem 0xffffffc050000000 0,
          (x.state.handlePageFault MAX_PRESENT_PFN 0xffffffc050000000 FREEMEM_KERNEL true).map
            fun t => decide (t.mem 0xffffffc050000000 0 = 0))) = some (true, 0, some false) := by
    decide +kernel
  obtain ⟨x, hx, hval⟩ := Option.map_eq_some_iff.1 hrun
  simp only [Prod.mk.injEq, decide_eq_true_eq] at hval
  obtain ⟨hd, hbefore, hafter⟩ := hval
  obtain ⟨t, ht, hne⟩ := Option.map_eq_some_iff.1 hafter
  refine ⟨x, hx, hd, fun hlaw => of_decide_eq_false hne ?_⟩
  obtain ⟨role, e, q, h⟩ := (always_inv True kernelMemory (entry 0xffffffc051001000 PAGE_PRESENT) 1
    (fun _ _ => 0) 100 fun ev hev => by
      simp only [List.mem_cons, List.not_mem_nil, or_false] at hev
      rcases hev with rfl | rfl <;> simp [ShareEvent.UserAddress]).last hx
  obtain ⟨l, hl, -⟩ := h.spaces.tables.list
  -- the page is below those that the allocator serves
  have hkernel : ¬ IsPage 0xffffffc050000000 := fun hp => absurd hp.2 (by decide)
  have hsame := hlaw.inUse t ht l e hl _ (fun hp => absurd hp hkernel)
    fun hown => hkernel (hown.isPage h.spaces.tables (h.spaces.role_dir hd))
  rw [hsame]
  exact hbefore

end Sharing

end Mm
end UcasKernel
