/-
What a process leaves behind.

The runs start processes with `create_pcb` and threads with `do_thread_create`; in between the
processes fault, share pages and end, in any order.  Every page that `kalloc` hands out is
recorded with the process on whose behalf it was.  `do_exit` and `do_kill` give the tables back,
but nothing gives a kernel stack back, so no process leaves the free list as it should.
-/
import UcasKernel.Exec.Arguments
import UcasKernel.Mm.SharedRuns

namespace UcasKernel
namespace Exec

open Mm Memory
open Sched (Pcb)

/-! ## The runs -/

/-- The pages that were handed out in between. -/
def Taken (m m' : Memory) : Set ℕ :=
  {f | IsPage f ∧ (∃ l e, m.FreeList l e ∧ Free l e f) ∧ ∃ l e, m'.FreeList l e ∧ ¬ Free l e f}

/-- The memory manager; `handed pgdir` are the pages that were handed out on behalf of the process
with that page directory. -/
structure Lifetime where
  memory : Sharing
  handed : ℕ → Set ℕ

/-- In `createPcb` and `doThreadCreate` the memory manager is that of the run; the other fields of
the system are as may be. -/
inductive LifeEvent
  | createPcb (s : System) (name : List UInt8)
  | doThreadCreate (s : System) (mainThread : Pcb) (startRoutine arg : ℕ)
  | call (ev : ShareEvent)

/-- No address is one of the kernel or of a device, the sizes of the files are of type `int`, and
a process has no more threads than there are PCBs. -/
def LifeEvent.Proper : LifeEvent → Prop
  | .createPcb s _ => ∀ k, -2 ^ 31 ≤ (s.info.tasks k).filesz
  | .doThreadCreate s p _ _ => 0 ≤ s.kernel.threads (s.kernel.pid p) ∧
      s.kernel.threads (s.kernel.pid p) < NUM_MAX_TASK
  | .call ev => ev.UserAddress

namespace Lifetime

/-- What was handed out meanwhile was for the process. -/
def grant (x : Lifetime) (pgdir : Option ℕ) (y : Sharing) : Lifetime where
  memory := y
  handed := fun d =>
    if pgdir = some d then x.handed d ∪ Taken x.memory.state.toMemory y.state.toMemory
    else x.handed d

/-- A new process has what was handed out for it. -/
def start (x : Lifetime) (pgdir : ℕ) (s : State) : Lifetime where
  memory := { x.memory.next s with spaces := insert pgdir x.memory.spaces }
  handed := Function.update x.handed pgdir (Taken x.memory.state.toMemory s.toMemory)

def step (x : Lifetime) : LifeEvent → Option Lifetime
  | .createPcb s name =>
    (System.createPcb { s with mm := x.memory.state } name).map fun
      | (none, _) => x
      | (some i, t) => x.start (t.kernel.pgdir (.slot i)) t.mm
  | .doThreadCreate s p startRoutine arg =>
    if s.kernel.pgdir p ∈ x.memory.spaces then
      (System.doThreadCreate { s with mm := x.memory.state } p startRoutine arg).map fun (_, t) =>
        x.grant (some (s.kernel.pgdir p)) (x.memory.next t.mm)
    else none
  -- processes come from `create_pcb` only
  | .call .newPgdir => none
  | .call ev => (x.memory.step ev).map (x.grant ev.pgdir)

/-- After boot there is no process. -/
def boot (m : Memory) (kernel io : ℕ) (sd : ℕ → Fin 64 → ℕ) (startid : ℤ) : Lifetime :=
  ⟨Sharing.boot m kernel io sd startid, fun _ => ∅⟩

end Lifetime

/-! ## The law -/

/-- The page is on the free list exactly once. -/
def FreeOnce (m : Memory) (f : ℕ) : Prop :=
  ∃ l e, FreeChain m.next 0 m.freememList l e ∧ (l ++ [e]).count f = 1

/-- The page is shared, and a process that is left maps it. -/
def Attached (y : Sharing) (f : ℕ) : Prop :=
  (∃ i, (y.state.sharePages i).kva = f) ∧
    ∃ d ∈ y.spaces, ∃ uva, y.state.getPteOfUva uva d ≠ none ∧ y.state.getKvaOfUva uva d = f

/-- What was handed out on behalf of the process is free again, shared pages that are still attached
apart. -/
def Conserved (x y : Lifetime) (pgdir : ℕ) : Prop :=
  ∀ f ∈ x.handed pgdir, ¬ Attached y.memory f → FreeOnce y.memory.state.toMemory f

/-! ## The invariant -/

namespace Lifetime

variable {x y : Lifetime} {role role' : ℕ → Role} {e e' : ℕ} {q q' : Queue → List Pfn}
  {s t : System} {pgdir : ℕ}

/-- Every process has a kernel stack. -/
structure Inv (x : Lifetime) (role : ℕ → Role) (e : ℕ) (q : Queue → List Pfn) : Prop where
  memory : x.memory.Inv True role e q
  stack : ∀ d ∈ x.memory.spaces, ∃ k ∈ x.handed d, IsPage k ∧ role k = .kernel

/-- The memory manager as `create_pcb` and `do_thread_create` take and leave it. -/
lemma Inv.managed (h : x.Inv role e q) : Managed True x.memory.spaces x.memory.state role e q :=
  ⟨h.memory.spaces, h.memory.book, h.memory.swapped⟩

lemma inv_of_managed {spaces : Finset ℕ} (h : x.Inv role e q)
    (hm : Managed True spaces t.mm role' e' q') (hext : Extends x.memory.state t.mm role role') :
    Sharing.Inv True { x.memory.next t.mm with spaces := spaces } role' e' q' where
  spaces := hm.spaces
  book := hm.book
  swapped := hm.swapped
  kvas := by
    intro i
    show (t.mm.sharePages i).kva = 0 ∨ role' (t.mm.sharePages i).kva = .page
    rw [hext.slots]
    exact (h.memory.kvas i).imp_right fun hpage => by rw [hext.keep _ (by simp [hpage]), hpage]
  keyed := fun hA => absurd trivial hA

/-- A page that became the kernel's was handed out. -/
lemma mem_taken {m m' : Memory} {f : ℕ} (h : Tables m role e) (h' : Tables m' role' e')
    (hf : role f = .free) (hf' : role' f = .kernel) : f ∈ Taken m m' := by
  have hp := h.isPage f (by simp [hf])
  obtain ⟨l, hl, hiff⟩ := h.list
  obtain ⟨l', hl', hiff'⟩ := h'.list
  refine ⟨hp, ⟨l, e, hl, (hiff f hp).1 hf⟩, l', e', hl', fun hfree => ?_⟩
  rw [(hiff' f hp).2 hfree] at hf'
  cases hf'

/-- The kernel stacks stay where they are. -/
lemma Inv.grant {z : Sharing} {d : Option ℕ} (h : x.Inv role e q) (hz : z.Inv True role' e' q')
    (hstays : Stays role role') (hsub : z.spaces ⊆ x.memory.spaces) :
    (x.grant d z).Inv role' e' q' where
  memory := hz
  stack := by
    intro d' hd'
    obtain ⟨k, hk, hp, hrole⟩ := h.stack d' (hsub hd')
    refine ⟨k, ?_, hp, by rw [hstays k (Or.inr hrole), hrole]⟩
    show k ∈ if d = some d' then _ else _
    split_ifs
    · exact Or.inl hk
    · exact hk

/-- A new process has a kernel stack as well. -/
lemma Inv.start {u : State} {k : ℕ} (h : x.Inv role e q)
    (hz : Sharing.Inv True { x.memory.next u with spaces := insert pgdir x.memory.spaces }
      role' e' q')
    (hstays : Stays role role') (hk : k ∈ Taken x.memory.state.toMemory u.toMemory) (hp : IsPage k)
    (hrole : role' k = .kernel) : (x.start pgdir u).Inv role' e' q' where
  memory := hz
  stack := by
    intro d hd
    rcases eq_or_ne d pgdir with rfl | hne
    · refine ⟨k, ?_, hp, hrole⟩
      show k ∈ Function.update x.handed d (Taken _ _) d
      rwa [Function.update_self]
    · obtain ⟨k', hk', hp', hrole'⟩ := h.stack d (Finset.mem_of_mem_insert_of_ne hd hne)
      refine ⟨k', ?_, hp', by rw [hstays k' (Or.inr hrole'), hrole']⟩
      show k' ∈ Function.update x.handed pgdir (Taken _ _) d
      rwa [Function.update_of_ne hne]

lemma Inv.createPcb {name : List UInt8} (h : x.Inv role e q)
    (hs : ∀ k, -2 ^ 31 ≤ (s.info.tasks k).filesz) (hy : x.step (.createPcb s name) = some y) :
    ∃ role' e' q', y.Inv role' e' q' ∧ Stays role role' := by
  obtain ⟨⟨i, t⟩, ht, rfl⟩ := Option.map_eq_some_iff.1 hy
  cases i with
  | none => exact ⟨role, e, q, h, Stays.refl role⟩
  | some i =>
    have hm : Managed True x.memory.spaces ({ s with mm := x.memory.state } : System).mm role e q :=
      h.managed
    obtain ⟨-, -, role', e', q', f, k, hstacks, hext, hfree⟩ := System.createPcb_hasStacks hm hs ht
    have htables := hstacks.managed.spaces.tables
    have hstays := Stays.of_keep hext.keep
    exact ⟨role', e', q', h.start (inv_of_managed h hstacks.managed hext) hstays
      (mem_taken h.memory.spaces.tables htables hfree hstacks.kernel) hstacks.isPage hstacks.kernel,
      hstays⟩

lemma Inv.doThreadCreate {p : Pcb} {startRoutine arg : ℕ} (h : x.Inv role e q)
    (hs : (LifeEvent.doThreadCreate s p startRoutine arg).Proper)
    (hy : x.step (.doThreadCreate s p startRoutine arg) = some y) :
    ∃ role' e' q', y.Inv role' e' q' ∧ Stays role role' := by
  rw [step, Option.ite_none_right_eq_some, Option.map_eq_some_iff] at hy
  obtain ⟨hd, ⟨tid, t⟩, ht, rfl⟩ := hy
  have hm : Managed True x.memory.spaces ({ s with mm := x.memory.state } : System).mm role e q :=
    h.managed
  obtain ⟨role', e', q', hm', hext⟩ := System.doThreadCreate_managed hm hd hs.1 hs.2 ht
  have hstays := Stays.of_keep hext.keep
  exact ⟨role', e', q', h.grant (inv_of_managed h hm' hext) hstays subset_rfl, hstays⟩

/-- Only `create_pcb` makes page directories. -/
lemma spaces_subset {z w : Sharing} {ev : ShareEvent} (hev : ev ≠ .newPgdir)
    (hz : z.call ev = some w) : w.spaces ⊆ z.spaces := by
  cases ev with
  | newPgdir => exact absurd rfl hev
  | exit pgdir =>
    simp only [Sharing.call, Option.map_eq_some_iff] at hz
    obtain ⟨s, -, rfl⟩ := hz
    exact Finset.erase_subset _ _
  | sharePgtable pgdir =>
    rw [Sharing.call, Option.some.injEq] at hz
    generalize z.state.sharePgtable pgdir PGDIR_VA = m at hz
    exact hz ▸ subset_rfl
  | shmPageGet key pgdir =>
    obtain ⟨⟨uva, s⟩, -, rfl⟩ := Option.map_eq_some_iff.1 hz
    show ((z.next s).record key pgdir uva).spaces ⊆ z.spaces
    unfold Sharing.record
    split_ifs <;> exact subset_rfl
  | _ =>
    obtain ⟨s, -, rfl⟩ := Option.map_eq_some_iff.1 hz
    exact subset_rfl

lemma Inv.call {ev : ShareEvent} (h : x.Inv role e q) (hu : ev.UserAddress)
    (hy : x.step (.call ev) = some y) :
    ∃ role' e' q', y.Inv role' e' q' ∧ Stays role role' := by
  by_cases hev : ev = .newPgdir
  · subst hev
    cases hy
  · have hstep : x.step (.call ev) = (x.memory.step ev).map (x.grant ev.pgdir) := by
      cases ev with
      | newPgdir => exact absurd rfl hev
      | _ => rfl
    rw [hstep, Option.map_eq_some_iff] at hy
    obtain ⟨z, hz, rfl⟩ := hy
    obtain ⟨role', e', q', h', hstays⟩ := h.memory.step hu (Or.inl trivial) hz
    rw [Sharing.step, Option.ite_none_right_eq_some] at hz
    exact ⟨role', e', q', h.grant h' hstays (spaces_subset hev hz.2), hstays⟩

lemma Inv.step {ev : LifeEvent} (h : x.Inv role e q) (hev : ev.Proper) (hy : x.step ev = some y) :
    ∃ role' e' q', y.Inv role' e' q' ∧ Stays role role' := by
  cases ev with
  | createPcb s name => exact h.createPcb hev hy
  | doThreadCreate s p startRoutine arg => exact h.doThreadCreate hev hy
  | call ev => exact h.call hev hy

lemma inv_boot (m : Memory) (kernel io : ℕ) (sd : ℕ → Fin 64 → ℕ) (startid : ℤ) :
    ∃ role q, (boot m kernel io sd startid).Inv role FREEMEM_KERNEL q := by
  obtain ⟨role, q, h⟩ := Sharing.inv_boot True m kernel io sd startid
  exact ⟨role, q, h, fun d hd => by cases hd⟩

/-! ## Runs -/

/-- The kernel's pages are not free. -/
lemma not_freeOnce {m : Memory} {f : ℕ} (h : Tables m role e) (hp : IsPage f)
    (hf : role f = .kernel) : ¬ FreeOnce m f := by
  rintro ⟨l, e', hchain, hcount⟩
  obtain ⟨l', hl', hiff⟩ := h.list
  obtain ⟨rfl, rfl⟩ := hchain.unique hl'.chain
  have hmem : f ∈ l ++ [e'] := List.count_pos_iff.1 (by omega)
  rw [(hiff f hp).2 (free_of_mem hmem)] at hf
  cases hf

/-- The kernel stack of a process is not given back. -/
lemma Inv.not_conserved {ev : LifeEvent} (h : x.Inv role e q) (hev : ev.Proper)
    (hy : x.step ev = some y) (hd : pgdir ∈ x.memory.spaces) : ¬ Conserved x y pgdir := by
  intro hcons
  obtain ⟨role', e', q', h', hstays⟩ := h.step hev hy
  obtain ⟨k, hk, hp, hrole⟩ := h.stack pgdir hd
  have hrole' : role' k = .kernel := by rw [hstays k (Or.inr hrole), hrole]
  refine not_freeOnce h'.memory.spaces.tables hp hrole' (hcons k hk ?_)
  rintro ⟨⟨i, hi⟩, -⟩
  rcases h'.memory.kvas i with hzero | hpage
  · rw [← hi, hzero] at hp
    exact absurd hp.2 (by decide)
  · rw [hi, hrole'] at hpage
    cases hpage

lemma always_inv (m : Memory) (kernel io : ℕ) (sd : ℕ → Fin 64 → ℕ) (startid : ℤ)
    {es : List LifeEvent} (hes : ∀ ev ∈ es, ev.Proper) :
    Trace.Always Lifetime.step (fun x => ∃ role e q, x.Inv role e q)
      (boot m kernel io sd startid) es := by
  have hC : Trace.StepsMeet Lifetime.step (fun _ ev => ev.Proper) (boot m kernel io sd startid)
      es := fun pre ev post heq _ _ => hes ev (by rw [heq]; simp)
  obtain ⟨role, q, hboot⟩ := inv_boot m kernel io sd startid
  refine Trace.always_of_invariant (C := fun _ ev => ev.Proper) ?_ ⟨role, _, q, hboot⟩ hC
  rintro x ev y ⟨role, e, q, h⟩ hev hy
  obtain ⟨role', e', q', h', -⟩ := h.step hev hy
  exact ⟨role', e', q', h'⟩

/-- In every run in which no process passes or touches an address of the kernel or of a device, no
process that ends leaves the free list as it should. -/
theorem never_conserved (m : Memory) (kernel io : ℕ) (sd : ℕ → Fin 64 → ℕ) (startid : ℤ)
    (es : List LifeEvent) (hes : ∀ ev ∈ es, ev.Proper) :
    Trace.Always Lifetime.step (fun x => ∀ ev, ev.Proper → ∀ y, x.step ev = some y →
      ∀ pgdir ∈ x.memory.spaces, pgdir ∉ y.memory.spaces → ¬ Conserved x y pgdir)
      (boot m kernel io sd startid) es :=
  (always_inv m kernel io sd startid hes).mono fun _ ⟨_, _, _, h⟩ _ hev _ hy _ hd _ =>
    h.not_conserved hev hy hd

/-- A task runs, and exits. -/
theorem never_conserved_exit : ∃ x y,
    Trace.run Lifetime.step (boot ⟨fun _ _ => 0, 0⟩ 1 1 (fun _ _ => 0) 100)
      [.createPcb System.bootPage [115, 104]] = some x ∧
      x.step (.call (.exit FREEMEM_KERNEL)) = some y ∧ FREEMEM_KERNEL ∈ x.memory.spaces ∧
      ¬ Conserved x y FREEMEM_KERNEL := by
  have hrun : ((Trace.run Lifetime.step (boot ⟨fun _ _ => 0, 0⟩ 1 1 (fun _ _ => 0) 100)
      [.createPcb System.bootPage [115, 104]]).bind fun x =>
        (x.step (.call (.exit FREEMEM_KERNEL))).map fun y =>
          (decide (FREEMEM_KERNEL ∈ x.memory.spaces), decide (FREEMEM_KERNEL ∈ y.memory.spaces))) =
        some (true, false) := by
    decide +kernel
  obtain ⟨x, hx, hval⟩ := Option.bind_eq_some_iff.1 hrun
  obtain ⟨y, hy, hval⟩ := Option.map_eq_some_iff.1 hval
  simp only [Prod.mk.injEq, decide_eq_true_eq, decide_eq_false_iff_not] at hval
  have hlaw := (never_conserved ⟨fun _ _ => 0, 0⟩ 1 1 (fun _ _ => 0) 100 _ fun ev hev => by
    obtain rfl := List.mem_singleton.1 hev
    exact System.bootPage_filesz).last hx
  exact ⟨x, y, hx, hy, hval.1, hlaw (.call (.exit FREEMEM_KERNEL)) trivial y hy _ hval.1 hval.2⟩

/-- A task touches a page, and is killed: its kernel stack stays in use. -/
theorem exit_keeps_stack : ∃ x y,
    Trace.run Lifetime.step (boot ⟨fun _ _ => 0, 0⟩ 1 1 (fun _ _ => 0) 100)
      [.createPcb System.bootPage [115, 104],
        .call (.handlePageFault 0x20008 FREEMEM_KERNEL true)] = some x ∧
      x.step (.call (.exit FREEMEM_KERNEL)) = some y ∧ FREEMEM_KERNEL ∈ x.memory.spaces ∧
      FREEMEM_KERNEL ∉ y.memory.spaces ∧ ¬ Conserved x y FREEMEM_KERNEL := by
  have hrun : ((Trace.run Lifetime.step (boot ⟨fun _ _ => 0, 0⟩ 1 1 (fun _ _ => 0) 100)
      [.createPcb System.bootPage [115, 104],
        .call (.handlePageFault 0x20008 FREEMEM_KERNEL true)]).bind fun x =>
        (x.step (.call (.exit FREEMEM_KERNEL))).map fun y =>
          (decide (FREEMEM_KERNEL ∈ x.memory.spaces), decide (FREEMEM_KERNEL ∈ y.memory.spaces))) =
        some (true, false) := by
    decide +kernel
  obtain ⟨x, hx, hval⟩ := Option.bind_eq_some_iff.1 hrun
  obtain ⟨y, hy, hval⟩ := Option.map_eq_some_iff.1 hval
  simp only [Prod.mk.injEq, decide_eq_true_eq, decide_eq_false_iff_not] at hval
  have hes : ∀ ev ∈ [LifeEvent.createPcb System.bootPage [115, 104],
      .call (.handlePageFault 0x20008 FREEMEM_KERNEL true)], ev.Proper := by
    intro ev hev
    simp only [List.mem_cons, List.not_mem_nil, or_false] at hev
    rcases hev with rfl | rfl
    · exact System.bootPage_filesz
    · exact own_vpn2 (by decide)
  obtain ⟨role, e, q, h⟩ := (always_inv ⟨fun _ _ => 0, 0⟩ 1 1 (fun _ _ => 0) 100 hes).last hx
  exact ⟨x, y, hx, hy, hval.1, hval.2,
    h.not_conserved (show LifeEvent.Proper (.call (.exit FREEMEM_KERNEL)) from trivial) hy hval.1⟩

end Lifetime

end Exec
end UcasKernel
