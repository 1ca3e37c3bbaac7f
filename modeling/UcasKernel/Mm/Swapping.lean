/-
What swapping keeps, and what it does not.

In every run of the memory manager no frame is that of two pages, none of a page is free or
a table, and a page that has been swapped out comes back with the words that it had.  It
does not come back with the attributes that it had: `swap_in` maps the page as a new one.
-/
import UcasKernel.Mm.Private

namespace UcasKernel
namespace Mm

open Memory

/-- The event writes to the page, or ends its process. -/
def PrivateEvent.Writes (a : UserPage) : PrivateEvent → Prop
  | store uva pgdir _ => (pgdir, vpns uva) = a
  | exit pgdir => pgdir = a.1
  | _ => False

namespace PrivateRun

/-- The entry of the third level of a page. -/
def pte (x : PrivateRun) (a : UserPage) : ℕ := x.state.leaf a.1 a.2

/-- The page is in the tables of a process, with `_PAGE_PRESENT`. -/
def In (x : PrivateRun) (a : UserPage) : Prop :=
  a.1 ∈ x.spaces ∧ Own a.2.1 ∧ Present (x.pte a)

/-- The page is in the tables of a process, without `_PAGE_PRESENT`. -/
def Out (x : PrivateRun) (a : UserPage) : Prop :=
  a.1 ∈ x.spaces ∧ Own a.2.1 ∧ x.pte a ≠ 0 ∧ ¬ Present (x.pte a)

instance (x : PrivateRun) (a : UserPage) : Decidable (x.In a) :=
  inferInstanceAs (Decidable (_ ∧ _ ∧ _))

instance (x : PrivateRun) (a : UserPage) : Decidable (x.Out a) :=
  inferInstanceAs (Decidable (_ ∧ _ ∧ _ ∧ _))

/-- The tables of a process map the page to the frame. -/
def Maps (x : PrivateRun) (a : UserPage) (f : ℕ) : Prop := x.In a ∧ frameOf (x.pte a) = f

/-- The frames of the pages are isolated. -/
structure Isolated (x : PrivateRun) : Prop where
  one : ∀ a b f, x.Maps a f → x.Maps b f → a = b
  /-- The tables of the kernel are below the pages of the allocator. -/
  isPage : ∀ a f, x.Maps a f → IsPage f
  notFree : ∃ l e, x.state.FreeList l e ∧ ∀ a f, x.Maps a f → ¬ Free l e f
  /-- Neither a page directory nor a table behind an entry of one. -/
  notTable : ∀ a f, x.Maps a f → ∀ pgdir ∈ x.spaces, ∀ p : Vpns, Own p.1 →
    ¬ Tables.OnWalk x.state.toMemory pgdir p f

variable {x y z : PrivateRun} {w : UserPage → Place} {a : UserPage} {P f : ℕ}
  {e e' : PrivateEvent} {es : List PrivateEvent}

/-! ## Frames -/

lemma Inv.maps_iff (h : x.Inv w) : x.Maps a f ↔ w a = .frame f := by
  obtain ⟨role, e, q, h⟩ := h
  constructor
  · rintro ⟨⟨hd, ho, hp⟩, rfl⟩
    exact (h.placed.present_iff hd ho).1 hp
  · intro hw
    obtain ⟨hd, ho⟩ := h.placed.mapped a (by simp [hw])
    obtain ⟨hf, bits, hbits, hodd, heq⟩ : role f = .page ∧ ∃ bits < 2 ^ 10, bits % 2 = 1 ∧
        x.state.leaf a.1 a.2 = entry f bits := by
      have hfits := h.placed.fits a hd ho
      rwa [hw] at hfits
    obtain ⟨hframe, -⟩ := h.placed.tables.isFrame (f := f) (by simp [hf]) (by simp [hf])
    refine ⟨⟨hd, ho, ?_⟩, by rw [pte, heq, frameOf_entry hframe hbits]⟩
    rw [pte, heq, present_entry hframe hbits, hodd]

lemma Inv.isolated (h : x.Inv w) : x.Isolated := by
  have hmaps := fun a f => h.maps_iff (a := a) (f := f)
  obtain ⟨role, e, q, h⟩ := h
  have hpage : ∀ a f, x.Maps a f → role f = .page := fun a f ha =>
    h.placed.role_frame ((hmaps a f).1 ha)
  refine ⟨fun a b f ha hb => ?_, fun a f ha => ?_, ?_, fun a f ha d hd p hp hf => ?_⟩
  · exact h.placed.frames a b f ((hmaps a f).1 ha) ((hmaps b f).1 hb)
  · exact h.placed.tables.isPage f (by simp [hpage a f ha])
  · obtain ⟨l, hlist, hfree⟩ := h.placed.tables.list
    refine ⟨l, e, hlist, fun a f ha hf => ?_⟩
    have hrole := (hfree f (h.placed.tables.isPage f (by simp [hpage a f ha]))).2 hf
    rw [hpage a f ha] at hrole
    cases hrole
  · rcases hf.role_cases h.placed.tables (h.placed.role_dir hd) hp with hr | ⟨g, i, hr⟩ | ⟨g, i, hr⟩
    all_goals
      rw [hpage a f ha] at hr
      cases hr

/-- In every state of every run the frames of the pages are isolated. -/
theorem frames_isolated (P : ℕ) (m : Memory) (kernel io : ℕ) (sd : ℕ → Fin 64 → ℕ)
    (startid : ℕ) (es : List PrivateEvent) :
    Trace.Always (step P) Isolated (boot m kernel io sd startid) es := by
  intro pre post _ x hrun
  obtain ⟨w, hx⟩ := Inv.of_reachable ⟨pre, hrun⟩
  exact hx.isolated

/-! ## Contents -/

/-- The processes see the words of the frame of a page that has one. -/
lemma Inv.contents_of_maps (h : x.Inv w) (ha : x.Maps a f) :
    x.contents w a = some (x.state.mem f) := by
  rw [contents, h.maps_iff.1 ha]
  rfl

/-- The events that do not write to a page keep its words. -/
lemma Inv.apply_of_not_writes (h : x.Inv w) (hs : x.step P e = some y) (he : ¬ e.Writes a)
    (ha : x.contents w a ≠ none) : e.apply (x.contents w) a = x.contents w a := by
  rw [PrivateRun.step, Option.ite_none_right_eq_some] at hs
  obtain ⟨⟨hd, hok⟩, -⟩ := hs
  cases e with
  | allocPageHelper uva pgdir =>
    obtain ⟨-, hlt, hpte⟩ := hok
    have hne : a ≠ (pgdir, vpns uva) := by
      rintro rfl
      exact ha (contents_eq_none_iff.2 (h.eq_unmapped (hd pgdir rfl) hlt hpte))
    exact Function.update_of_ne hne _ _
  | handlePageFault stval pgdir store =>
    simp only [PrivateEvent.apply]
    split_ifs with hnone
    · have hne : a ≠ (pgdir, vpns stval) := by
        rintro rfl
        exact ha hnone
      exact Function.update_of_ne hne _ _
    · rfl
  | exit pgdir => exact if_neg fun heq => he heq.symm
  | store uva pgdir v => exact Function.update_of_ne (fun heq => he heq.symm) _ _
  | newPgdir | sharePgtable _ | kalloc | setAttribute _ _ _ | unsetAttribute _ _ _ | swapOut
  | swapIn _ | swapInAllPages _ => rfl

lemma Inv.contents_run (h : x.Inv w) (hrun : Trace.run (PrivateRun.step P) x es = some y)
    (hes : ∀ e ∈ es, ¬ e.Writes a) (ha : x.contents w a ≠ none) :
    ∃ w', y.Inv w' ∧ y.contents w' a = x.contents w a := by
  induction es generalizing x w with
  | nil =>
    obtain rfl := Option.some.inj hrun
    exact ⟨w, h, rfl⟩
  | cons e es ih =>
    obtain ⟨t, ht, hrun⟩ := Trace.run_cons_eq_some.1 hrun
    obtain ⟨w₁, h₁, hc₁, -⟩ := h.step ht
    have hkeep : t.contents w₁ a = x.contents w a := by
      rw [hc₁, h.apply_of_not_writes ht (hes e (by simp)) ha]
    obtain ⟨w', h', hc'⟩ := ih h₁ hrun (fun e' he' => hes e' (by simp [he'])) (by rwa [hkeep])
    exact ⟨w', h', hc'.trans hkeep⟩

/-- From any state of any run on, the words in the frame of a page stay the same until the
page is written to, in whatever frames it is in between. -/
theorem swapping_keeps_contents (P : ℕ) (m : Memory) (kernel io : ℕ) (sd : ℕ → Fin 64 → ℕ)
    (startid : ℕ) {x y : PrivateRun} {es : List PrivateEvent} {a : UserPage} {f f' : ℕ}
    (hx : Trace.Reachable (step P) (boot m kernel io sd startid) x)
    (hrun : Trace.run (step P) x es = some y) (hes : ∀ e ∈ es, ¬ e.Writes a)
    (hf : x.Maps a f) (hf' : y.Maps a f') : y.state.mem f' = x.state.mem f := by
  obtain ⟨w, h⟩ := Inv.of_reachable hx
  have hc := h.contents_of_maps hf
  obtain ⟨w', h', hc'⟩ := h.contents_run hrun hes (by simp [hc])
  rw [h'.contents_of_maps hf', hc] at hc'
  exact Option.some.inj hc'

/-- A page makes room for another one, which is written to, and comes back. -/
theorem swapping_keeps_contents_store : ∃ x y : PrivateRun, ∃ f f',
    x.Maps (FREEMEM_KERNEL, vpns 0x10000) f ∧ y.Maps (FREEMEM_KERNEL, vpns 0x10000) f' ∧
      f' ≠ f ∧ y.state.mem f' = x.state.mem f := by
  have hrun : ((Trace.run (step 1) (boot ⟨fun _ _ => 0, 0⟩ 1 1 (fun _ _ => 0) 100)
      [.newPgdir, .allocPageHelper 0x10000 FREEMEM_KERNEL, .store 0x10008 FREEMEM_KERNEL 42]).bind
      fun x => (Trace.run (step 1) x [.allocPageHelper 0x11000 FREEMEM_KERNEL,
        .store 0x11008 FREEMEM_KERNEL 7, .handlePageFault 0x10000 FREEMEM_KERNEL false]).map
        fun y => (decide (x.In (FREEMEM_KERNEL, vpns 0x10000)),
          decide (y.In (FREEMEM_KERNEL, vpns 0x10000)),
          decide (frameOf (y.pte (FREEMEM_KERNEL, vpns 0x10000)) =
            frameOf (x.pte (FREEMEM_KERNEL, vpns 0x10000))))) = some (true, true, false) := by
    decide +kernel
  obtain ⟨x, hx, hrun⟩ := Option.bind_eq_some_iff.1 hrun
  obtain ⟨y, hy, hval⟩ := Option.map_eq_some_iff.1 hrun
  simp only [Prod.mk.injEq, decide_eq_true_eq, decide_eq_false_iff_not] at hval
  obtain ⟨hin, hin', hne⟩ := hval
  refine ⟨x, y, _, _, ⟨hin, rfl⟩, ⟨hin', rfl⟩, hne,
    swapping_keeps_contents 1 _ 1 1 _ 100 ⟨_, hx⟩ hy (fun e he => ?_) ⟨hin, rfl⟩ ⟨hin', rfl⟩⟩
  simp only [List.mem_cons, List.not_mem_nil, or_false] at he
  rcases he with rfl | rfl | rfl
  · exact id
  · exact fun heq => absurd (congrArg (fun a : UserPage => a.2.2.2) heq) (by decide)
  · exact id

/-! ## Attributes -/

/-- A step swaps the page out, it is out during a run, and a step brings it in. -/
def RoundTrip (P : ℕ) (a : UserPage) (x z : PrivateRun) : Prop :=
  ∃ e y es y' e', x.In a ∧ x.step P e = some y ∧ Trace.Always (step P) (Out · a) y es ∧
    Trace.run (step P) y es = some y' ∧ y'.step P e' = some z ∧ z.In a

lemma Inv.card_of_out (h : x.Inv w) (ha : x.Out a) : ∃ k, w a = .card k := by
  have hmaps := fun f => h.maps_iff (a := a) (f := f)
  obtain ⟨role, e, q, h⟩ := h
  obtain ⟨hd, ho, hne, hp⟩ := ha
  cases hw : w a with
  | unmapped => exact absurd ((h.placed.leaf_eq_zero_iff hd ho).2 hw) hne
  | frame f => exact absurd ((hmaps f).2 hw).1.2.2 hp
  | card k => exact ⟨k, rfl⟩

/-- A page that a step brings in has the attributes of a new one. -/
lemma Inv.pte_of_brought (h : x.Inv w) (hs : x.step P e = some y) (ha : x.Out a) (ha' : y.In a) :
    y.pte a &&& PAGE_ALL = PAGE_ALL := by
  obtain ⟨k, hk⟩ := h.card_of_out ha
  obtain ⟨w', h', -, hbrought⟩ := h.step hs
  exact hbrought a k _ hk (h'.maps_iff.1 ⟨ha', rfl⟩)

/-- A page that is swapped out and in in a run keeps its attributes exactly when it had all
those that `map_uva_to_kva` sets. -/
theorem swapping_keeps_attributes_iff (P : ℕ) (m : Memory) (kernel io : ℕ) (sd : ℕ → Fin 64 → ℕ)
    (startid : ℕ) {x z : PrivateRun} {a : UserPage}
    (hx : Trace.Reachable (step P) (boot m kernel io sd startid) x) (h : RoundTrip P a x z) :
    z.pte a &&& PAGE_ALL = x.pte a &&& PAGE_ALL ↔ x.pte a &&& PAGE_ALL = PAGE_ALL := by
  obtain ⟨e, y, es, y', e', -, hy, hout, hrun, hz, hin⟩ := h
  obtain ⟨w, hw⟩ := Inv.of_reachable hx
  obtain ⟨w₁, h₁, -⟩ := hw.step hy
  obtain ⟨w₂, h₂, -⟩ := h₁.run hrun
  rw [h₂.pte_of_brought hz (hout.last hrun) hin]
  exact eq_comm

/-- A round trip with nothing in between, and the attributes at its ends. -/
lemma exists_roundTrip {x₀ : PrivateRun} {b b' : ℕ}
    (h : ((Trace.run (step P) x₀ es).bind fun x => (x.step P e).bind fun y =>
      (y.step P e').map fun z => (decide (x.In a), decide (y.Out a), decide (z.In a),
        x.pte a &&& PAGE_ALL, z.pte a &&& PAGE_ALL)) = some (true, true, true, b, b')) :
    ∃ x z, Trace.Reachable (step P) x₀ x ∧ RoundTrip P a x z ∧ x.pte a &&& PAGE_ALL = b ∧
      z.pte a &&& PAGE_ALL = b' := by
  obtain ⟨x, hx, h⟩ := Option.bind_eq_some_iff.1 h
  obtain ⟨y, hy, h⟩ := Option.bind_eq_some_iff.1 h
  obtain ⟨z, hz, h⟩ := Option.map_eq_some_iff.1 h
  simp only [Prod.mk.injEq, decide_eq_true_eq] at h
  obtain ⟨hin, hout, hin', hb, hb'⟩ := h
  refine ⟨x, z, ⟨es, hx⟩, ⟨e, y, [], y, e', hin, hy, fun pre post heq t ht => ?_, rfl, hz, hin'⟩,
    hb, hb'⟩
  obtain ⟨rfl, -⟩ := List.append_eq_nil_iff.1 heq.symm
  obtain rfl := Option.some.inj ht
  exact hout

/-- A page with all attributes makes room for another one, and comes back. -/
theorem swapping_keeps_attributes_iff_all : ∃ x z,
    RoundTrip 1 (FREEMEM_KERNEL, vpns 0x10000) x z ∧
      z.pte (FREEMEM_KERNEL, vpns 0x10000) &&& PAGE_ALL =
        x.pte (FREEMEM_KERNEL, vpns 0x10000) &&& PAGE_ALL := by
  have hrun : ((Trace.run (step 1) (boot ⟨fun _ _ => 0, 0⟩ 1 1 (fun _ _ => 0) 100)
      [.newPgdir, .allocPageHelper 0x10000 FREEMEM_KERNEL]).bind fun x =>
      (x.step 1 (.allocPageHelper 0x11000 FREEMEM_KERNEL)).bind fun y =>
        (y.step 1 (.handlePageFault 0x10000 FREEMEM_KERNEL false)).map fun z =>
          (decide (x.In (FREEMEM_KERNEL, vpns 0x10000)),
            decide (y.Out (FREEMEM_KERNEL, vpns 0x10000)),
            decide (z.In (FREEMEM_KERNEL, vpns 0x10000)),
            x.pte (FREEMEM_KERNEL, vpns 0x10000) &&& PAGE_ALL,
            z.pte (FREEMEM_KERNEL, vpns 0x10000) &&& PAGE_ALL)) =
      some (true, true, true, PAGE_ALL, PAGE_ALL) := by
    decide +kernel
  obtain ⟨x, z, hx, htrip, hb, -⟩ := exists_roundTrip hrun
  exact ⟨x, z, htrip, (swapping_keeps_attributes_iff 1 _ 1 1 _ 100 hx htrip).2 hb⟩

/-- The stack of a process, which `init_pcb_context` has made not executable, makes room for
another page, and comes back executable. -/
theorem swapped_stack_executable : ∃ x z, Trace.Reachable (step 1)
      (boot ⟨fun _ _ => 0, 0⟩ 1 1 (fun _ _ => 0) 100) x ∧
    RoundTrip 1 (FREEMEM_KERNEL, vpns 0xf0000f000) x z ∧
    x.pte (FREEMEM_KERNEL, vpns 0xf0000f000) &&& PAGE_ALL = PAGE_ALL - PAGE_EXEC ∧
    z.pte (FREEMEM_KERNEL, vpns 0xf0000f000) &&& PAGE_ALL = PAGE_ALL := by
  have hrun : ((Trace.run (step 1) (boot ⟨fun _ _ => 0, 0⟩ 1 1 (fun _ _ => 0) 100)
      [.newPgdir, .allocPageHelper 0xf0000f000 FREEMEM_KERNEL,
        .unsetAttribute 0xf0000f000 FREEMEM_KERNEL PAGE_EXEC]).bind fun x =>
      (x.step 1 (.allocPageHelper 0x10000 FREEMEM_KERNEL)).bind fun y =>
        (y.step 1 (.handlePageFault 0xf0000f000 FREEMEM_KERNEL false)).map fun z =>
          (decide (x.In (FREEMEM_KERNEL, vpns 0xf0000f000)),
            decide (y.Out (FREEMEM_KERNEL, vpns 0xf0000f000)),
            decide (z.In (FREEMEM_KERNEL, vpns 0xf0000f000)),
            x.pte (FREEMEM_KERNEL, vpns 0xf0000f000) &&& PAGE_ALL,
            z.pte (FREEMEM_KERNEL, vpns 0xf0000f000) &&& PAGE_ALL)) =
      some (true, true, true, PAGE_ALL - PAGE_EXEC, PAGE_ALL) := by
    decide +kernel
  exact exists_roundTrip hrun

end PrivateRun

end Mm
end UcasKernel
