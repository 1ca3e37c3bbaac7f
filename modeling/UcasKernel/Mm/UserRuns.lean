/-
Runs of the processes and of the memory manager.

An instruction of a process reads or writes a word of its address space.  If the hardware cannot
translate the address, `handle_page_fault` is called and the instruction is made again.  Beside
it the memory manager allocates, swaps and frees pages at any time.  What the processes read in
such a run is what they read from memories of their own, for which there are no pages at all.
-/
import UcasKernel.Mm.Swapping
import UcasKernel.Mm.UserMode

namespace UcasKernel
namespace Mm

open Sv39 (Access)
open Memory (wordOf)
open Trace

/-- An event of the memory manager, or an instruction of a process. -/
inductive UserEvent
  | kernel (e : PrivateEvent)
  | access (pgdir va : ℕ) (a : Access) (v : ℕ)

namespace PrivateRun

/-- The hardware makes the access. -/
def perform (x : PrivateRun) (pgdir va : ℕ) (a : Access) (v : ℕ) :
    Option (PrivateRun × List ℕ) :=
  (x.state.perform pgdir va a v).map fun (m, vs) =>
    ({ x with state := { x.state with toMemory := m } }, vs)

/-- An instruction, which is made again after a page fault. -/
def access (P : ℕ) (x : PrivateRun) (pgdir va : ℕ) (a : Access) (v : ℕ) :
    Option (PrivateRun × List ℕ) :=
  match x.perform pgdir va a v with
  | some y => some y
  | none => do
    let y ← x.step P (.handlePageFault va pgdir (a = .store))
    y.perform pgdir va a v

end PrivateRun

/-- The memory manager, and the words that the processes have read. -/
structure UserRun where
  manager : PrivateRun
  loaded : List ℕ

/-- An event in a run.  The words of a process are at aligned addresses of the user half. -/
def UserRun.step (P : ℕ) (x : UserRun) : UserEvent → Option UserRun
  | .kernel e => (x.manager.step P e).map fun y => { x with manager := y }
  | .access pgdir va a v =>
    if pgdir ∈ x.manager.spaces ∧ va < 2 ^ 38 ∧ va % 8 = 0 then
      (x.manager.access P pgdir va a v).map fun (y, vs) => ⟨y, x.loaded ++ vs⟩
    else none

/-! ## Memories without pages -/

/-- The words of the processes, and what they have read. -/
structure Processes where
  words : UserPage → Fin 512 → ℕ
  loaded : List ℕ

namespace Processes

/-- A word of a process is stored. -/
def store (x : Processes) (pgdir va v : ℕ) : Processes :=
  { x with
    words := Function.update x.words (pgdir, vpns va)
      (Function.update (x.words (pgdir, vpns va)) (wordOf va) v) }

/-- A process reads and writes its words; when it ends they are zero again.  What else the
memory manager does is nothing. -/
def step (x : Processes) : UserEvent → Processes
  | .kernel (.exit pgdir) => { x with words := fun a => if a.1 = pgdir then 0 else x.words a }
  | .kernel (.store va pgdir v) => x.store pgdir va v
  | .access pgdir va .store v => x.store pgdir va v
  | .access pgdir va _ _ => { x with loaded := x.loaded ++ [x.words (pgdir, vpns va) (wordOf va)] }
  | _ => x

/-- All words are zero, and nothing has been read. -/
def init : Processes := ⟨0, []⟩

end Processes

/-- The words that the pages hold; a page that is not there yet holds zeros. -/
def Shows (c : Contents) (words : UserPage → Fin 512 → ℕ) : Prop :=
  ∀ a, (c a).getD 0 = words a

variable {x y : PrivateRun} {w w' : UserPage → Place} {P pgdir va v : ℕ} {a : Access}
  {e : PrivateEvent} {s s' : Processes} {vs : List ℕ}

namespace PrivateRun

/-- A word that is stored is that of a page. -/
lemma Inv.exists_page_of_store (h : x.Inv w) (hs : x.step P (.store va pgdir v) = some y) :
    ∃ page, x.contents w (pgdir, vpns va) = some page := by
  rw [PrivateRun.step, Option.ite_none_right_eq_some] at hs
  obtain ⟨⟨hd, -⟩, hs⟩ := hs
  obtain ⟨t, ht, -⟩ := Option.map_eq_some_iff.1 hs
  obtain ⟨-, ho, hp, -⟩ := State.storeUser_eq_some ht
  have hin : x.In (pgdir, vpns va) := ⟨hd pgdir rfl, ho, hp⟩
  have hw := h.maps_iff.1 ⟨hin, rfl⟩
  rw [contents, hw]
  exact ⟨_, rfl⟩

/-- What an event of the memory manager does to the words. -/
lemma Inv.shows (h : x.Inv w) (hs : x.step P e = some y)
    (hc : Shows (x.contents w) s.words) :
    Shows (e.apply (x.contents w)) (s.step (.kernel e)).words := by
  have hstep := hs
  rw [PrivateRun.step, Option.ite_none_right_eq_some] at hs
  obtain ⟨⟨hd, hok⟩, hs⟩ := hs
  intro b
  cases e with
  | allocPageHelper uva pgdir =>
    obtain ⟨-, hlt, hpte⟩ := hok
    have hnone : x.contents w (pgdir, vpns uva) = none :=
      contents_eq_none_iff.2 (h.eq_unmapped (hd pgdir rfl) hlt hpte)
    rcases eq_or_ne b (pgdir, vpns uva) with rfl | hne
    · have hb := hc (pgdir, vpns uva)
      rw [hnone] at hb
      simp only [PrivateEvent.apply, Function.update_self]
      exact hb
    · simp only [PrivateEvent.apply, Function.update_of_ne hne]
      exact hc b
  | handlePageFault stval pgdir store =>
    simp only [PrivateEvent.apply]
    split_ifs with hnone
    · rcases eq_or_ne b (pgdir, vpns stval) with rfl | hne
      · have hb := hc (pgdir, vpns stval)
        rw [hnone] at hb
        rw [Function.update_self]
        exact hb
      · rw [Function.update_of_ne hne]
        exact hc b
    · exact hc b
  | exit pgdir =>
    simp only [PrivateEvent.apply, Processes.step]
    split_ifs with hb
    · rfl
    · exact hc b
  | store uva pgdir v =>
    simp only [PrivateEvent.apply, Processes.step, Processes.store]
    rcases eq_or_ne b (pgdir, vpns uva) with rfl | hne
    · rw [Function.update_self, Function.update_self, ← hc]
      obtain ⟨page, hpage⟩ := h.exists_page_of_store hstep
      rw [hpage]
      rfl
    · rw [Function.update_of_ne hne, Function.update_of_ne hne]
      exact hc b
  | newPgdir | sharePgtable _ | kalloc | setAttribute _ _ _ | unsetAttribute _ _ _ | swapOut
  | swapIn _ | swapInAllPages _ => exact hc b

/-- What an access of the hardware does to the words, and what it reads. -/
lemma Inv.perform (h : x.Inv w) (hd : pgdir ∈ x.spaces) (hva : va < 2 ^ 38)
    (hp : x.perform pgdir va a v = some (y, vs)) (hc : Shows (x.contents w) s.words) :
    y.Inv w ∧ Shows (y.contents w) (s.step (.access pgdir va a v)).words ∧
      (s.step (.access pgdir va a v)).loaded = s.loaded ++ vs := by
  obtain ⟨role, e, q, h⟩ := h
  rw [PrivateRun.perform, Option.map_eq_some_iff] at hp
  obtain ⟨⟨m, vs⟩, hm, heq⟩ := hp
  simp only [Prod.mk.injEq] at heq
  obtain ⟨rfl, rfl⟩ := heq
  obtain ⟨page, hpage, h', hseen, rfl⟩ := h.perform hd hva hm
  have hword : s.words (pgdir, vpns va) = page := by
    rw [← hc (pgdir, vpns va), contents, hpage]
    rfl
  refine ⟨⟨role, e, q, h'⟩, fun b => ?_, ?_⟩
  · rw [contents, hseen]
    cases a with
    | store =>
      rw [if_pos rfl]
      simp only [Processes.step, Processes.store, hword]
      rcases eq_or_ne b (pgdir, vpns va) with rfl | hne
      · rw [Function.update_self, Function.update_self]
        rfl
      · rw [Function.update_of_ne hne, Function.update_of_ne hne]
        exact hc b
    | fetch => exact hc b
    | load => exact hc b
  · cases a with
    | store => simp [Processes.step, Processes.store]
    | fetch => simp [Processes.step, hword]
    | load => simp [Processes.step, hword]

end PrivateRun

/-- The processes see the memory manager as memories of their own. -/
def UserRun.Sees (x : UserRun) (s : Processes) : Prop :=
  ∃ w, x.manager.Inv w ∧ Shows (x.manager.contents w) s.words ∧ x.loaded = s.loaded

lemma UserRun.Sees.step {x y : UserRun} {e : UserEvent} (h : x.Sees s)
    (hs : x.step P e = some y) : y.Sees (s.step e) := by
  obtain ⟨w, hx, hc, hl⟩ := h
  cases e with
  | kernel e =>
    obtain ⟨m, hm, rfl⟩ := Option.map_eq_some_iff.1 hs
    obtain ⟨w', hy, hc', -⟩ := hx.step hm
    refine ⟨w', hy, ?_, ?_⟩
    · rw [hc']
      exact hx.shows hm hc
    · cases e <;> exact hl
  | access pgdir va a v =>
    simp only [UserRun.step, Option.ite_none_right_eq_some] at hs
    obtain ⟨⟨hd, hva, -⟩, hs⟩ := hs
    obtain ⟨⟨m, vs⟩, hm, rfl⟩ := Option.map_eq_some_iff.1 hs
    rw [PrivateRun.access] at hm
    cases hp : x.manager.perform pgdir va a v with
    | some r =>
      rw [hp] at hm
      obtain rfl := Option.some.inj hm
      obtain ⟨hy, hc', hl'⟩ := hx.perform hd hva hp hc
      exact ⟨w, hy, hc', by rw [hl', ← hl]⟩
    | none =>
      rw [hp] at hm
      obtain ⟨z, hz, hm⟩ := Option.bind_eq_some_iff.1 hm
      -- a fault changes none of the words
      obtain ⟨w', hz', hcz, -⟩ := hx.step hz
      have hcz' : Shows (z.contents w') s.words := by
        rw [hcz]
        exact hx.shows hz hc
      have hspaces : z.spaces = x.manager.spaces := by
        rw [PrivateRun.step, Option.ite_none_right_eq_some] at hz
        obtain ⟨-, hz⟩ := hz
        obtain ⟨t, -, rfl⟩ := Option.map_eq_some_iff.1 hz
        rfl
      obtain ⟨hy, hc', hl'⟩ := hz'.perform (by rwa [hspaces]) hva hm hcz'
      exact ⟨w', hy, hc', by rw [hl', ← hl]⟩

lemma UserRun.Sees.run {x y : UserRun} {es : List UserEvent} (h : x.Sees s)
    (hrun : Trace.run (UserRun.step P) x es = some y) : y.Sees (es.foldl Processes.step s) := by
  induction es generalizing x s with
  | nil =>
    obtain rfl := Option.some.inj hrun
    exact h
  | cons e es ih =>
    obtain ⟨z, hz, hrun⟩ := run_cons_eq_some.1 hrun
    exact ih (h.step hz) hrun

lemma UserRun.sees_boot (m : Memory) (kernel io : ℕ) (sd : ℕ → Fin 64 → ℕ) (startid : ℕ) :
    UserRun.Sees ⟨.boot m kernel io sd startid, []⟩ .init :=
  ⟨_, PrivateRun.inv_boot m kernel io sd startid, fun _ => rfl, rfl⟩

/-- The processes read what they would read from memories of their own. -/
theorem UserRun.reads_own (P : ℕ) (m : Memory) (kernel io : ℕ) (sd : ℕ → Fin 64 → ℕ)
    (startid : ℕ) (es : List UserEvent) {x : UserRun}
    (hrun : run (UserRun.step P) ⟨.boot m kernel io sd startid, []⟩ es = some x) :
    x.loaded = (es.foldl Processes.step .init).loaded := by
  obtain ⟨w, -, -, hl⟩ := (sees_boot m kernel io sd startid).run hrun
  exact hl

/-- Two pages of two processes take turns in the one frame that there is room for. -/
theorem UserRun.reads_own_swapped : ∃ x,
    run (UserRun.step 1) ⟨.boot ⟨fun _ _ => 0, 0⟩ 1 1 (fun _ _ => 0) 100, []⟩
      [.kernel .newPgdir, .kernel .newPgdir,
        .access FREEMEM_KERNEL 0x10008 .store 7,
        .access (FREEMEM_KERNEL + PAGE_SIZE) 0x10008 .store 8,
        .access FREEMEM_KERNEL 0x10008 .load 0,
        .access (FREEMEM_KERNEL + PAGE_SIZE) 0x10008 .load 0] = some x ∧
      x.loaded = [7, 8] := by
  have hrun : (run (UserRun.step 1) ⟨.boot ⟨fun _ _ => 0, 0⟩ 1 1 (fun _ _ => 0) 100, []⟩
      [.kernel .newPgdir, .kernel .newPgdir,
        .access FREEMEM_KERNEL 0x10008 .store 7,
        .access (FREEMEM_KERNEL + PAGE_SIZE) 0x10008 .store 8,
        .access FREEMEM_KERNEL 0x10008 .load 0,
        .access (FREEMEM_KERNEL + PAGE_SIZE) 0x10008 .load 0]).isSome = true := by
    decide +kernel
  obtain ⟨x, hx⟩ := Option.isSome_iff_exists.1 hrun
  exact ⟨x, hx, UserRun.reads_own 1 _ 1 1 _ 100 _ hx⟩

/-- An instruction that faults is made after the fault, if the handler returns. -/
theorem PrivateRun.access_returns_iff (P : ℕ) (m : Memory) (kernel io : ℕ)
    (sd : ℕ → Fin 64 → ℕ) (startid : ℕ)
    (hx : Reachable (PrivateRun.step P) (.boot m kernel io sd startid) x)
    (hd : pgdir ∈ x.spaces) (hva : va < 2 ^ 38) (a : Access) (v : ℕ) :
    (x.access P pgdir va a v).isSome ↔ (x.perform pgdir va a v).isSome ∨
      (x.step P (.handlePageFault va pgdir (a = .store))).isSome := by
  obtain ⟨w, h⟩ := PrivateRun.Inv.of_reachable hx
  rw [PrivateRun.access]
  cases hp : x.perform pgdir va a v with
  | some y => simp
  | none =>
    simp only [Option.isSome_none, Bool.false_eq_true, false_or, Option.bind_eq_bind]
    cases hz : x.step P (.handlePageFault va pgdir (a = .store)) with
    | none => simp
    | some z =>
      rw [PrivateRun.step, Option.ite_none_right_eq_some] at hz
      obtain ⟨-, hz⟩ := hz
      obtain ⟨t, ht, rfl⟩ := Option.map_eq_some_iff.1 hz
      obtain ⟨role, e, q, h⟩ := h
      obtain ⟨role', e', q', w', h', -, -⟩ := h.handlePageFault hd hva ht
      have hok := h'.placed.allows_of_all hd hva (h.leaf_handlePageFault hd hva ht) a
      simp only [Option.bind_some, PrivateRun.perform, Option.isSome_map, Memory.perform,
        h'.placed.translate hd hva a, if_pos hok]
      split_ifs <;> rfl

/-- A load from a page that is swapped out. -/
theorem PrivateRun.access_returns_iff_swapped : ∃ x,
    Reachable (PrivateRun.step 1) (.boot ⟨fun _ _ => 0, 0⟩ 1 1 (fun _ _ => 0) 100) x ∧
      x.perform FREEMEM_KERNEL 0x10008 .load 0 = none ∧
      (x.access 1 FREEMEM_KERNEL 0x10008 .load 0).isSome := by
  have hrun : (run (PrivateRun.step 1) (.boot ⟨fun _ _ => 0, 0⟩ 1 1 (fun _ _ => 0) 100)
      [.newPgdir, .allocPageHelper 0x10000 FREEMEM_KERNEL,
        .allocPageHelper 0x11000 FREEMEM_KERNEL]).map (fun x =>
          (decide (FREEMEM_KERNEL ∈ x.spaces),
            (x.perform FREEMEM_KERNEL 0x10008 .load 0).isNone,
            (x.step 1 (.handlePageFault 0x10008 FREEMEM_KERNEL false)).isSome)) =
        some (true, true, true) := by
    decide +kernel
  obtain ⟨x, hx, hval⟩ := Option.map_eq_some_iff.1 hrun
  simp only [Prod.mk.injEq, decide_eq_true_eq] at hval
  obtain ⟨hd, hnone, hsome⟩ := hval
  have hreach : Reachable (PrivateRun.step 1)
      (.boot ⟨fun _ _ => 0, 0⟩ 1 1 (fun _ _ => 0) 100) x := ⟨_, hx⟩
  exact ⟨x, hreach, Option.isNone_iff_eq_none.1 hnone,
    (PrivateRun.access_returns_iff 1 _ 1 1 _ 100 hreach hd (by decide) .load 0).2 (.inr hsome)⟩

end Mm
end UcasKernel
