/-
Runs of the memory manager without shared pages, and what the processes see of them.

A run is any sequence of what happens to the address spaces: new ones and their ends,
allocations, changes of attributes, page faults, stores, and pages that are swapped out and
in.  To a process its pages are words at addresses, and `apply` says what an event does to
these: swapping does nothing.  Every run of the memory manager is such a run, wherever the
words of a page are.
-/
import UcasKernel.Mm.Moves
import UcasKernel.Mm.PageRuns

namespace UcasKernel
namespace Mm

/-- The memory manager with the page directories of the processes. -/
structure PrivateRun where
  state : State
  spaces : Finset ℕ

inductive PrivateEvent
  /-- The page directory of `create_pcb`. -/
  | newPgdir
  | sharePgtable (pgdir : ℕ)
  /-- A kernel stack. -/
  | kalloc
  | allocPageHelper (uva pgdir : ℕ)
  | setAttribute (uva pgdir bits : ℕ)
  /-- As for a stack page, which loses `_PAGE_EXEC`. -/
  | unsetAttribute (uva pgdir bits : ℕ)
  | handlePageFault (stval pgdir : ℕ) (store : Bool)
  | swapOut
  | swapIn (page : Pfn)
  | swapInAllPages (pgdir : ℕ)
  /-- `free_pagetable` and `free_pgdir` of `do_exit` and `do_kill`. -/
  | exit (pgdir : ℕ)
  /-- A process stores a word. -/
  | store (uva pgdir v : ℕ)

namespace PrivateEvent

/-- The page directory of the process that the event is about. -/
def pgdir : PrivateEvent → Option ℕ
  | sharePgtable pgdir => some pgdir
  | allocPageHelper _ pgdir => some pgdir
  | setAttribute _ pgdir _ => some pgdir
  | unsetAttribute _ pgdir _ => some pgdir
  | handlePageFault _ pgdir _ => some pgdir
  | exit pgdir => some pgdir
  | store _ pgdir _ => some pgdir
  | _ => none

/-- A page that is allocated is one of the user half that is not mapped, attributes other than
`_PAGE_PRESENT` are changed, faults are in the user half, and `swap_in` is called for records that
are swapped out. -/
def Allowed (s : State) : PrivateEvent → Prop
  | allocPageHelper uva pgdir =>
    uva % PAGE_SIZE = 0 ∧ uva < 2 ^ 38 ∧ s.getPteOfUva uva pgdir = none
  | setAttribute uva _ bits => uva < 2 ^ 38 ∧ bits < 2 ^ 10 ∧ bits % 2 = 0
  | unsetAttribute uva _ bits => uva < 2 ^ 38 ∧ bits < 2 ^ 10 ∧ bits % 2 = 0
  | handlePageFault stval _ _ => stval < 2 ^ 38
  | swapIn page => s.onQueue .swappedPagesQueue page = true
  | _ => True

instance (s : State) : (e : PrivateEvent) → Decidable (e.Allowed s)
  | allocPageHelper _ _ => inferInstanceAs (Decidable (_ ∧ _ ∧ _))
  | setAttribute _ _ _ => inferInstanceAs (Decidable (_ ∧ _ ∧ _))
  | unsetAttribute _ _ _ => inferInstanceAs (Decidable (_ ∧ _ ∧ _))
  | handlePageFault _ _ _ => inferInstanceAs (Decidable (_ < _))
  | swapIn _ => inferInstanceAs (Decidable (_ = true))
  | newPgdir | sharePgtable _ | kalloc | swapOut | swapInAllPages _ | exit _ | store _ _ _ =>
    inferInstanceAs (Decidable True)

end PrivateEvent

namespace PrivateRun

/-- The event in a run; `MAX_PRESENT_PFN` is a parameter. -/
def call (P : ℕ) (x : PrivateRun) : PrivateEvent → Option PrivateRun
  | .newPgdir => x.state.kalloc.map fun (p, m) => ⟨{ x.state with toMemory := m }, insert p x.spaces⟩
  | .sharePgtable pgdir =>
    some { x with state := { x.state with toMemory := x.state.sharePgtable pgdir PGDIR_VA } }
  | .kalloc => x.state.kalloc.map fun (_, m) => { x with state := { x.state with toMemory := m } }
  | .allocPageHelper uva pgdir =>
    (x.state.allocPageHelper P uva pgdir).map fun (_, s) => { x with state := s }
  | .setAttribute uva pgdir bits =>
    (x.state.modifyPte uva pgdir fun pte => Mm.setAttribute pte bits).map fun m =>
      { x with state := { x.state with toMemory := m } }
  | .unsetAttribute uva pgdir bits =>
    (x.state.modifyPte uva pgdir fun pte => Mm.unsetAttribute pte bits).map fun m =>
      { x with state := { x.state with toMemory := m } }
  | .handlePageFault stval pgdir store =>
    (x.state.handlePageFault P stval pgdir store).map fun s => { x with state := s }
  | .swapOut => x.state.swapOut.map fun s => { x with state := s }
  | .swapIn page => (x.state.swapIn page).map fun s => { x with state := s }
  | .swapInAllPages pgdir => (x.state.swapInAllPages P pgdir).map fun s => { x with state := s }
  | .exit pgdir => (x.state.freePagetable pgdir).map fun s =>
    ⟨{ s with toMemory := s.freePgdir pgdir }, x.spaces.erase pgdir⟩
  | .store uva pgdir v => (x.state.storeUser uva pgdir v).map fun s => { x with state := s }

def step (P : ℕ) (x : PrivateRun) (e : PrivateEvent) : Option PrivateRun :=
  if (∀ pgdir ∈ e.pgdir, pgdir ∈ x.spaces) ∧ e.Allowed x.state then x.call P e else none

/-- The memory manager after boot, before the first process. -/
def boot (m : Memory) (kernel io : ℕ) (sd : ℕ → Fin 64 → ℕ) (startid : ℕ) : PrivateRun where
  state := State.boot (Sharing.kernelPgdir m kernel io).initKernelFreemem sd startid
  spaces := ∅

end PrivateRun

/-! ## What the processes see -/

/-- The words of the pages of all address spaces. -/
abbrev Contents := UserPage → Option (Fin 512 → ℕ)

/-- What an event does to the pages of the processes: a page that is allocated or touched for the
first time holds zeros, a store changes a word, and the pages of a process go with it. -/
def PrivateEvent.apply (c : Contents) : PrivateEvent → Contents
  | .allocPageHelper uva pgdir => Function.update c (pgdir, vpns uva) (some fun _ => 0)
  | .handlePageFault stval pgdir _ =>
    if c (pgdir, vpns stval) = none then
      Function.update c (pgdir, vpns stval) (some fun _ => 0)
    else c
  | .exit pgdir => fun a => if a.1 = pgdir then none else c a
  | .store uva pgdir v => Function.update c (pgdir, vpns uva)
      ((c (pgdir, vpns uva)).map fun page => Function.update page (Fin.ofNat 512 (uva / 8)) v)
  | _ => c

namespace PrivateRun

open Memory

/-- The words of a page, wherever they are. -/
def contents (x : PrivateRun) (w : UserPage → Place) : Contents := fun a => x.state.seen (w a)

/-- The invariant of the runs: the pages have their places, and records. -/
def Inv (x : PrivateRun) (w : UserPage → Place) : Prop :=
  ∃ role e q, Paged x.state x.spaces role e q w ∅

variable {x y : PrivateRun} {w : UserPage → Place} {P : ℕ} {e : PrivateEvent}

lemma inv_boot (m : Memory) (kernel io : ℕ) (sd : ℕ → Fin 64 → ℕ) (startid : ℕ) :
    (boot m kernel io sd startid).Inv fun _ => .unmapped := by
  obtain ⟨role, q, h⟩ := Sharing.inv_boot False m kernel io sd startid
  refine ⟨role, FREEMEM_KERNEL, fun _ => [], ⟨⟨h.spaces.tables, h.spaces.dir, h.spaces.kernel,
    fun a ha => ?_, fun a b f ha => ?_, fun a ha => ?_⟩, State.book_boot _ sd startid, ?_, ?_, ?_,
    fun a ha => ?_, ?_, Int.natCast_nonneg startid, fun a k ha => ?_⟩⟩
  · cases ha
  · cases ha
  · exact absurd rfl ha
  · simp
  · simp
  · simp
  · exact absurd rfl ha
  · simp
  · cases ha

/-- The processes see nothing of a page that is nowhere. -/
lemma contents_eq_none_iff {a : UserPage} : x.contents w a = none ↔ w a = .unmapped := by
  rw [contents]
  cases w a <;> simp [State.seen]

/-- `get_pte_of_uva` finds no entry of a page that is nowhere only. -/
lemma Inv.eq_unmapped {uva pgdir : ℕ} (h : x.Inv w) (hd : pgdir ∈ x.spaces) (hlt : uva < 2 ^ 38)
    (hpte : x.state.getPteOfUva uva pgdir = none) : w (pgdir, vpns uva) = .unmapped := by
  obtain ⟨role, e, q, h⟩ := h
  rw [← h.placed.leaf_eq_zero_iff (a := (pgdir, vpns uva)) hd (own_vpn2 hlt)]
  exact getPteOfUva_eq_none.1 hpte

/-- An event does to the pages what it does to what the processes see of them. -/
lemma Inv.step (h : x.Inv w) (hs : x.step P e = some y) :
    ∃ w', y.Inv w' ∧ y.contents w' = e.apply (x.contents w) ∧ Brought w w' y.state.toMemory := by
  obtain ⟨role, e', q, h⟩ := h
  rw [PrivateRun.step, Option.ite_none_right_eq_some] at hs
  obtain ⟨⟨hd, hok⟩, hs⟩ := hs
  cases e with
  | newPgdir =>
    obtain ⟨⟨p, m⟩, hk, rfl⟩ := Option.map_eq_some_iff.1 hs
    obtain ⟨e₁, hp, -, hmem⟩ := h.placed.newPgdir hk
    exact ⟨w, ⟨_, e₁, q, h.of_memory hp⟩,
      funext (h.seen_of_mem fun f hf => hmem f (by simp [hf])), Brought.refl w _⟩
  | sharePgtable pgdir =>
    obtain rfl := Option.some.inj hs
    obtain ⟨hp, hmem⟩ := h.placed.sharePgtable (hd pgdir rfl)
    exact ⟨w, ⟨_, _, q, h.of_memory hp⟩, funext (h.seen_of_mem hmem), Brought.refl w _⟩
  | kalloc =>
    obtain ⟨⟨p, m⟩, hk, rfl⟩ := Option.map_eq_some_iff.1 hs
    obtain ⟨e₁, hp, -, -, hmem⟩ := h.placed.kalloc (r := .kernel) (by simp) (by simp) hk
    exact ⟨w, ⟨_, e₁, q, h.of_memory hp⟩,
      funext (h.seen_of_mem fun f hf => hmem f (by simp [hf])), Brought.refl w _⟩
  | allocPageHelper uva pgdir =>
    obtain ⟨⟨kva, s⟩, ht, rfl⟩ := Option.map_eq_some_iff.1 hs
    obtain ⟨halign, hlt, hpte⟩ := hok
    have hw := Inv.eq_unmapped ⟨role, e', q, h⟩ (hd pgdir rfl) hlt hpte
    obtain ⟨role', e₁, q', w', h', hseen, hbrought⟩ := h.allocPageHelper (hd pgdir rfl)
      (own_vpn2 hlt) (uvaOf_vpns_iff.2 ⟨halign, by omega⟩) hw ht
    exact ⟨w', ⟨role', e₁, q', h'⟩, funext hseen, hbrought⟩
  | setAttribute uva pgdir bits =>
    obtain ⟨m, hm, rfl⟩ := Option.map_eq_some_iff.1 hs
    obtain ⟨hlt, hbits, heven⟩ := hok
    obtain ⟨h', hseen, -⟩ := h.setAttribute (hd pgdir rfl) (own_vpn2 hlt) hbits heven hm
    exact ⟨w, ⟨role, e', q, h'⟩, funext hseen, Brought.refl w _⟩
  | unsetAttribute uva pgdir bits =>
    obtain ⟨m, hm, rfl⟩ := Option.map_eq_some_iff.1 hs
    obtain ⟨hlt, hbits, heven⟩ := hok
    obtain ⟨hp, -, -, hmem⟩ := h.placed.modifyAttributes (hd pgdir rfl) (own_vpn2 hlt)
      (fun _ _ => exists_unsetAttribute_even hbits heven) hm
    exact ⟨w, ⟨role, e', q, h.of_memory hp⟩, funext (h.seen_of_mem hmem), Brought.refl w _⟩
  | handlePageFault stval pgdir store =>
    obtain ⟨s, ht, rfl⟩ := Option.map_eq_some_iff.1 hs
    simp only [PrivateEvent.Allowed] at hok
    obtain ⟨role', e₁, q', w', h', hseen, hbrought⟩ := h.handlePageFault (hd pgdir rfl) hok ht
    refine ⟨w', ⟨role', e₁, q', h'⟩, funext fun b => (hseen b).trans ?_, hbrought⟩
    simp only [PrivateEvent.apply, contents_eq_none_iff]
    split_ifs
    · rfl
    · rfl
  | swapOut =>
    obtain ⟨s, ht, rfl⟩ := Option.map_eq_some_iff.1 hs
    obtain ⟨role', q', w', h', hseen, hframe, -⟩ := h.swapOut ht
    refine ⟨w', ⟨role', e', q', h'⟩, funext hseen, fun b k f hk hf => ?_⟩
    rw [hframe b f hf] at hk
    cases hk
  | swapIn page =>
    obtain ⟨s, ht, rfl⟩ := Option.map_eq_some_iff.1 hs
    obtain ⟨role', e₁, kva, h', hseen, hself, -⟩ := h.swapIn (h.book.onQueue_iff.1 hok) ht
    refine ⟨_, ⟨role', e₁, _, h'⟩, funext hseen, fun b k f hk hf => ?_⟩
    rcases eq_or_ne b (x.state.pages page).userPage with rfl | hne
    · show s.leaf (x.state.pages page).pgdir (vpns (x.state.pages page).uva) &&& PAGE_ALL = PAGE_ALL
      rw [hself]
      exact entry_and_all kva
    · rw [Function.update_of_ne hne, hk] at hf
      cases hf
  | swapInAllPages pgdir =>
    obtain ⟨s, ht, rfl⟩ := Option.map_eq_some_iff.1 hs
    obtain ⟨role', e₁, q', w', h', hseen, hbrought⟩ := h.swapInAllPages ht
    exact ⟨w', ⟨role', e₁, q', h'⟩, funext hseen, hbrought⟩
  | exit pgdir =>
    simp only [call, Option.map_eq_some_iff] at hs
    obtain ⟨s, ht, rfl⟩ := hs
    obtain ⟨role', q', h', hseen⟩ := h.exit (hd pgdir rfl) ht
    refine ⟨_, ⟨role', e', q', h'⟩, funext hseen, fun b k f hk hf => ?_⟩
    beta_reduce at hf
    split_ifs at hf
    rw [hk] at hf
    cases hf
  | store uva pgdir v =>
    obtain ⟨s, ht, rfl⟩ := Option.map_eq_some_iff.1 hs
    obtain ⟨h', hseen⟩ := h.storeUser (hd pgdir rfl) ht
    exact ⟨w, ⟨role, e', q, h'⟩, funext hseen, Brought.refl w _⟩

/-- A run does to the pages what its events do to what the processes see of them. -/
lemma Inv.run {es : List PrivateEvent} (h : x.Inv w)
    (hrun : Trace.run (PrivateRun.step P) x es = some y) :
    ∃ w', y.Inv w' ∧ y.contents w' = es.foldl PrivateEvent.apply (x.contents w) := by
  induction es generalizing x w with
  | nil =>
    obtain rfl := Option.some.inj hrun
    exact ⟨w, h, rfl⟩
  | cons e es ih =>
    obtain ⟨t, ht, hrun⟩ := Trace.run_cons_eq_some.1 hrun
    obtain ⟨w₁, h₁, hc₁, -⟩ := h.step ht
    obtain ⟨w', h', hc'⟩ := ih h₁ hrun
    exact ⟨w', h', by rw [hc', hc₁, List.foldl_cons]⟩

lemma Inv.of_reachable {m : Memory} {kernel io startid : ℕ} {sd : ℕ → Fin 64 → ℕ}
    (h : Trace.Reachable (PrivateRun.step P) (boot m kernel io sd startid) x) : ∃ w, x.Inv w := by
  obtain ⟨es, hrun⟩ := h
  obtain ⟨w, hx, -⟩ := (inv_boot m kernel io sd startid).run hrun
  exact ⟨w, hx⟩

end PrivateRun

/-- The memory manager refines the words that the processes see: in every run from boot, the
pages have places, and the words there are those of the run of `apply`. -/
theorem PrivateRun.refines (P : ℕ) (m : Memory) (kernel io : ℕ) (sd : ℕ → Fin 64 → ℕ)
    (startid : ℕ) (es : List PrivateEvent) {x : PrivateRun}
    (hrun : Trace.run (PrivateRun.step P) (boot m kernel io sd startid) es = some x) :
    ∃ w, x.Inv w ∧ x.contents w = es.foldl PrivateEvent.apply fun _ => none :=
  (inv_boot m kernel io sd startid).run hrun

end Mm
end UcasKernel
