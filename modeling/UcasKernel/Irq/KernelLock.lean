/-
The kernel lock from trap entry to `ret_from_kernel`.

The kernel runs under one spin lock.  `interrupt_helper` takes it on every trap
and `ret_from_kernel` gives it back; in between a handler may switch to another
task, whose suspended kernel code then goes on under the same lock.  The model
follows each CPU through this control flow.  Which task the scheduler picks, and
which pages a handler maps, takes away or accesses, are choices of the run.

The lock is not recursive.  A handler runs with the page table of its task, and
an access of it to a user page that is not present traps again, into
`interrupt_helper` and its `lock_kernel`.  The argument is that this is the only
way to break the lock discipline: as long as no handler makes such an access,
the places of the CPUs say exactly who holds the lock.
-/
import UcasKernel.Lib.Trace
import Mathlib.Algebra.Group.Nat.Defs

namespace UcasKernel
namespace Irq

/-- The functions in `irq_table` and `exc_table`. -/
inductive Handler
  | irqTimer
  | syscall
  | pageFault
  | other
deriving DecidableEq, Repr

def irqcSTimer : ℕ := 5
def exccSyscall : ℕ := 8
def exccInstPageFault : ℕ := 12
def exccLoadPageFault : ℕ := 13
def exccStorePageFault : ℕ := 15

/-- The handler `interrupt_helper` calls for a value of `scause`, from the tables
`init_exception` fills. -/
def dispatch (scause : ℕ) : Handler :=
  if 2 ^ 63 ≤ scause then
    if scause - 2 ^ 63 = irqcSTimer then .irqTimer else .other
  else if scause = exccSyscall then .syscall
  else if scause = exccInstPageFault ∨ scause = exccLoadPageFault ∨
      scause = exccStorePageFault then .pageFault
  else .other

/-- What a CPU does once `lock_kernel` returns. -/
inductive Entry
  | main
  | slaveTest
  | handler (h : Handler)
deriving DecidableEq, Repr

/-- Where a CPU, or a task that was switched away from, is in the control flow. -/
inductive Place
  /-- `main` before its `lock_kernel` -/
  | boot
  /-- in the loop of `lock_kernel` -/
  | lockKernel (next : Entry)
  /-- `main` on the way to its `switch_to` -/
  | main
  /-- the test of `slave_wait_for_task` -/
  | slaveTest
  /-- `slave_wait_for_task` between its `unlock_kernel` and its `lock_kernel` -/
  | slaveAgain
  | handler (h : Handler)
  /-- `ret_from_kernel` before its `unlock_kernel` -/
  | retFromKernel
  /-- `main` behind its `switch_to`, before its `unlock_kernel` -/
  | mainTail
  /-- user code, or the idle loop of `main` -/
  | user
deriving DecidableEq, Repr

/-- Where `lock_kernel` returns to. -/
def Entry.place : Entry → Place
  | .main => .main
  | .slaveTest => .slaveTest
  | .handler h => .handler h

/-- The machine: CPUs, tasks with their page directories, and user pages. -/
structure Machine (Cpu Task Pgdir Page : Type) where
  master : Cpu
  /-- `kernel_spin_lock.status` is `LOCKED`. -/
  locked : Bool
  /-- The CPU whose swap took the lock last; not part of the code. -/
  holder : Option Cpu
  place : Cpu → Place
  runnings : Cpu → Task
  satp : Cpu → Pgdir
  /-- The place at which a suspended task goes on. -/
  saved : Task → Option Place
  pgdir : Task → Pgdir
  /-- The PTE of the page has `_PAGE_PRESENT`. -/
  present : Pgdir → Page → Bool

/-- The steps of the CPUs. -/
inductive Event (Cpu Task Pgdir Page : Type)
  /-- `main` or `slave_wait_for_task` calls `lock_kernel`. -/
  | lockKernel (c : Cpu)
  /-- A round of the loop of `lock_kernel`. -/
  | tryAcquire (c : Cpu)
  /-- `main` on the master finds its task in `current_running`, a slave finds a
  second task: `switch_to` from the idle PCB. -/
  | firstSwitch (c : Cpu) (idle next : Task)
  /-- A trap outside of the kernel. -/
  | trap (c : Cpu) (scause : ℕ)
  /-- A handler accesses a user page. -/
  | access (c : Cpu) (page : Page) (store : Bool)
  /-- A handler maps a page, or takes it away. -/
  | setPresent (c : Cpu) (pgdir : Pgdir) (page : Page) (present : Bool)
  /-- `create_pcb` or `do_thread_create` sets up the context of a new task. -/
  | newTask (c : Cpu) (task : Task) (pgdir : Pgdir)
  /-- `do_scheduler`, `do_block` or `do_exit` switches to a task. -/
  | switchTo (c : Cpu) (next : Task)
  /-- A handler returns. -/
  | ret (c : Cpu)
  /-- `unlock_kernel`. -/
  | unlockKernel (c : Cpu)

set_option linter.unusedSectionVars false

section Step

variable {Cpu Task Pgdir Page : Type} [DecidableEq Cpu] [DecidableEq Task] [DecidableEq Pgdir]
  [DecidableEq Page]

namespace Machine

/-- CPU `c` goes on at another place. -/
def goto (s : Machine Cpu Task Pgdir Page) (c : Cpu) (p : Place) : Machine Cpu Task Pgdir Page :=
  { s with place := Function.update s.place c p }

/-- `switch_pgdir` and `switch_to`: the task left behind goes on at `p`. -/
def switch (s : Machine Cpu Task Pgdir Page) (c : Cpu) (before : Task) (p : Place) (next : Task) :
    Option (Machine Cpu Task Pgdir Page) :=
  let saved := Function.update s.saved before (some p)
  (saved next).map fun q =>
    { s with
      saved := saved
      runnings := Function.update s.runnings c next
      satp := Function.update s.satp c (s.pgdir next)
      place := Function.update s.place c q }

/-- `spin_lock_try_acquire` in the loop of `lock_kernel`. -/
def tryAcquire (s : Machine Cpu Task Pgdir Page) (c : Cpu) (next : Entry) :
    Machine Cpu Task Pgdir Page :=
  if s.locked then s
  else { s with locked := true, holder := some c }.goto c next.place

/-- `spin_lock_release` in `unlock_kernel`. -/
def release (s : Machine Cpu Task Pgdir Page) : Machine Cpu Task Pgdir Page :=
  { s with locked := false, holder := none }

/-- One step, if it is enabled.  `handle_other` ends in `assert(0)` and takes no
further step, and the page fault handler does not switch. -/
def step (s : Machine Cpu Task Pgdir Page) :
    Event Cpu Task Pgdir Page → Option (Machine Cpu Task Pgdir Page)
  | .lockKernel c =>
    match s.place c with
    | .boot => some (s.goto c (.lockKernel (if c = s.master then .main else .slaveTest)))
    | .slaveAgain => some (s.goto c (.lockKernel .slaveTest))
    | _ => none
  | .tryAcquire c =>
    match s.place c with
    | .lockKernel next => some (s.tryAcquire c next)
    | _ => none
  | .firstSwitch c idle next =>
    match s.place c with
    | .main => s.switch c idle .mainTail next
    | .slaveTest => s.switch c idle .mainTail next
    | _ => none
  | .trap c scause =>
    match s.place c with
    | .user => some (s.goto c (.lockKernel (.handler (dispatch scause))))
    | _ => none
  | .access c page store =>
    match s.place c with
    | .handler .other => none
    | .handler _ =>
      if s.present (s.satp c) page then some s
      else
        let scause := if store then exccStorePageFault else exccLoadPageFault
        some (s.goto c (.lockKernel (.handler (dispatch scause))))
    | _ => none
  | .setPresent c pgdir page present =>
    match s.place c with
    | .handler .other => none
    | .handler _ =>
      some { s with
        present := Function.update s.present pgdir
          (Function.update (s.present pgdir) page present) }
    | _ => none
  | .newTask c task pgdir =>
    match s.place c with
    | .main | .handler .syscall =>
      some { s with
        saved := Function.update s.saved task (some .retFromKernel)
        pgdir := Function.update s.pgdir task pgdir }
    | _ => none
  | .switchTo c next =>
    match s.place c with
    | .handler .irqTimer => s.switch c (s.runnings c) (.handler .irqTimer) next
    | .handler .syscall => s.switch c (s.runnings c) (.handler .syscall) next
    | _ => none
  | .ret c =>
    match s.place c with
    | .handler .other => none
    | .handler _ => some (s.goto c .retFromKernel)
    | _ => none
  | .unlockKernel c =>
    match s.place c with
    | .retFromKernel => some (s.release.goto c .user)
    | .mainTail => some (s.release.goto c .user)
    | .slaveTest => some (s.release.goto c .slaveAgain)
    | _ => none

/-- The machine before the first instruction of `main`, with any page tables. -/
def boot (master : Cpu) (runnings : Cpu → Task) (satp : Cpu → Pgdir) (pgdir : Task → Pgdir)
    (present : Pgdir → Page → Bool) : Machine Cpu Task Pgdir Page where
  master := master
  locked := false
  holder := none
  place := fun _ => .boot
  runnings := runnings
  satp := satp
  saved := fun _ => none
  pgdir := pgdir
  present := present

/-- The lock discipline: no CPU is in `lock_kernel` with the lock in its hands,
and only the CPU that holds the lock can execute `unlock_kernel`. -/
structure Disciplined (s : Machine Cpu Task Pgdir Page) : Prop where
  lock : ∀ c next, s.place c = .lockKernel next → s.holder ≠ some c
  unlock : ∀ c, (s.step (.unlockKernel c)).isSome → s.holder = some c

/-- The event is an access of a handler to a user page that is not present. -/
def nestedFault (s : Machine Cpu Task Pgdir Page) : Event Cpu Task Pgdir Page → Bool
  | .access c page _ =>
    match s.place c with
    | .handler .other => false
    | .handler _ => !s.present (s.satp c) page
    | _ => false
  | _ => false

end Machine

/-! ## The places at which the lock is held -/

/-- The code at a place runs with the lock held. -/
def Place.holding : Place → Bool
  | .main | .slaveTest | .handler _ | .retFromKernel | .mainTail => true
  | .boot | .lockKernel _ | .slaveAgain | .user => false

@[simp] lemma Entry.holding_place (next : Entry) : next.place.holding = true := by
  cases next <;> rfl

namespace Machine

/-- The places of the CPUs say who holds the lock, and every suspended task goes
on at a place that needs it. -/
structure LockInv (s : Machine Cpu Task Pgdir Page) : Prop where
  locked : s.locked = s.holder.isSome
  holds : ∀ c, (s.place c).holding = true ↔ s.holder = some c
  saved : ∀ task p, s.saved task = some p → p.holding = true

lemma lockInv_boot (master : Cpu) (runnings : Cpu → Task) (satp : Cpu → Pgdir)
    (pgdir : Task → Pgdir) (present : Pgdir → Page → Bool) :
    (boot master runnings satp pgdir present).LockInv where
  locked := rfl
  holds := fun c => by simp [boot, Place.holding]
  saved := fun task p h => by simp [boot] at h

section Lemmas

variable {s t : Machine Cpu Task Pgdir Page} {c : Cpu}

lemma LockInv.disciplined (h : s.LockInv) : s.Disciplined where
  lock := by
    intro c next hplace hholder
    have hhold := (h.holds c).2 hholder
    rw [hplace] at hhold
    exact Bool.noConfusion hhold
  unlock := by
    intro c hstep
    rw [← h.holds c]
    simp only [step] at hstep
    split at hstep
    case h_1 hplace => rw [hplace]; rfl
    case h_2 hplace => rw [hplace]; rfl
    case h_3 hplace => rw [hplace]; rfl
    case h_4 => cases hstep

/-- A CPU moves between two places that both hold the lock, or both do not. -/
lemma LockInv.goto (h : s.LockInv) {p : Place} (hp : p.holding = (s.place c).holding) :
    (s.goto c p).LockInv where
  locked := h.locked
  holds := by
    intro d
    rcases eq_or_ne d c with rfl | hd
    · simp only [Machine.goto, Function.update_self]
      rw [hp, h.holds d]
    · simp only [Machine.goto, Function.update_of_ne hd]
      exact h.holds d
  saved := h.saved

lemma LockInv.tryAcquire (h : s.LockInv) {next : Entry} : (s.tryAcquire c next).LockInv := by
  unfold Machine.tryAcquire
  split
  case isTrue => exact h
  case isFalse hfree =>
    -- nobody holds a free lock, so `c` becomes the only holder
    have hnone : s.holder = none := by
      have hlocked := h.locked
      rw [Bool.eq_false_iff.2 hfree] at hlocked
      exact Option.not_isSome_iff_eq_none.1 (by rw [← hlocked]; decide)
    refine ⟨rfl, fun d => ?_, h.saved⟩
    rcases eq_or_ne d c with rfl | hd
    · simp [Machine.goto]
    · have hd' : ¬ (s.place d).holding = true := by
        rw [h.holds d, hnone]
        exact fun heq => by cases heq
      simp only [Machine.goto, Function.update_of_ne hd, Option.some.injEq, hd.symm, iff_false]
      exact hd'

lemma LockInv.release (h : s.LockInv) (hc : (s.place c).holding = true) {p : Place}
    (hp : p.holding = false) : (s.release.goto c p).LockInv := by
  refine ⟨rfl, fun d => ?_, h.saved⟩
  rcases eq_or_ne d c with rfl | hd
  · simp [Machine.goto, Machine.release, hp]
  · have hd' : ¬ (s.place d).holding = true := by
      rw [h.holds d, (h.holds c).1 hc, Option.some.injEq]
      exact hd.symm
    simp only [Machine.goto, Machine.release, Function.update_of_ne hd, reduceCtorEq, iff_false]
    exact hd'

/-- A switch goes from one place under the lock to another. -/
lemma LockInv.switch (h : s.LockInv) (hc : (s.place c).holding = true) {before next : Task}
    {p : Place} (hp : p.holding = true) (hs : s.switch c before p next = some t) : t.LockInv := by
  have hsaved : ∀ task q, Function.update s.saved before (some p) task = some q →
      q.holding = true := by
    intro task q hq
    rcases eq_or_ne task before with rfl | hne
    · rw [Function.update_self, Option.some.injEq] at hq
      exact hq ▸ hp
    · rw [Function.update_of_ne hne] at hq
      exact h.saved task q hq
  simp only [Machine.switch, Option.map_eq_some_iff] at hs
  obtain ⟨q, hq, rfl⟩ := hs
  refine ⟨h.locked, fun d => ?_, hsaved⟩
  rcases eq_or_ne d c with rfl | hd
  · simp only [Function.update_self, hsaved next q hq, true_iff]
    exact (h.holds d).1 hc
  · simp only [Function.update_of_ne hd]
    exact h.holds d

end Lemmas

/-! ## What a step does to the lock -/

/-- The ways in which a step changes the lock and the places. -/
inductive LockStep (s : Machine Cpu Task Pgdir Page) (e : Event Cpu Task Pgdir Page)
    (t : Machine Cpu Task Pgdir Page) : Prop
  | goto (c : Cpu) (p : Place) (hp : p.holding = (s.place c).holding) (ht : t = s.goto c p)
      (hstuck : ∀ next, s.place c ≠ .lockKernel next)
  | acquire (c : Cpu) (next : Entry) (hplace : s.place c = .lockKernel next)
      (ht : t = s.tryAcquire c next)
  | release (c : Cpu) (p : Place) (hc : (s.place c).holding = true) (hp : p.holding = false)
      (ht : t = s.release.goto c p)
  | switch (c : Cpu) (before next : Task) (p : Place) (hc : (s.place c).holding = true)
      (hp : p.holding = true) (ht : s.switch c before p next = some t)
  | memory (hlocked : t.locked = s.locked) (hholder : t.holder = s.holder)
      (hplace : t.place = s.place)
      (hsaved : ∀ task p, t.saved task = some p → s.saved task = some p ∨ p.holding = true)
  | fault (c : Cpu) (next : Entry) (hc : (s.place c).holding = true)
      (hfault : s.nestedFault e = true) (ht : t = s.goto c (.lockKernel next))

/-- Every step is one of them. -/
lemma lockStep_of_step {s t : Machine Cpu Task Pgdir Page} {e : Event Cpu Task Pgdir Page}
    (he : s.step e = some t) : LockStep s e t := by
  cases e with
  | lockKernel c =>
    simp only [step] at he
    split at he
    case h_1 hplace =>
      cases he
      exact .goto c _ (by rw [hplace]; rfl) rfl (by simp [hplace])
    case h_2 hplace =>
      cases he
      exact .goto c _ (by rw [hplace]; rfl) rfl (by simp [hplace])
    case h_3 => cases he
  | tryAcquire c =>
    simp only [step] at he
    split at he
    case h_1 next hplace =>
      cases he
      exact .acquire c next hplace rfl
    case h_2 => cases he
  | firstSwitch c idle next =>
    simp only [step] at he
    split at he
    case h_1 hplace => exact .switch c idle next _ (by rw [hplace]; rfl) rfl he
    case h_2 hplace => exact .switch c idle next _ (by rw [hplace]; rfl) rfl he
    case h_3 => cases he
  | trap c scause =>
    simp only [step] at he
    split at he
    case h_1 hplace =>
      cases he
      exact .goto c _ (by rw [hplace]; rfl) rfl (by simp [hplace])
    case h_2 => cases he
  | access c page store =>
    simp only [step] at he
    split at he
    case h_1 => cases he
    case h_2 hother hplace =>
      split at he
      case isTrue =>
        cases he
        exact .memory rfl rfl rfl fun _ _ h => .inl h
      case isFalse habsent =>
        cases he
        refine .fault c _ (by rw [hplace]; rfl) ?_ rfl
        simp only [nestedFault]
        split
        case h_1 hplace' =>
          exact absurd (Place.handler.inj (hplace.symm.trans hplace')) hother
        case h_2 => simpa using habsent
        case h_3 hno => exact absurd hplace (hno _)
    case h_3 => cases he
  | setPresent c pgdir page present =>
    simp only [step] at he
    split at he
    case h_1 => cases he
    case h_2 =>
      cases he
      exact .memory rfl rfl rfl fun _ _ h => .inl h
    case h_3 => cases he
  | newTask c task pgdir =>
    simp only [step] at he
    have hsaved : ∀ (task' : Task) (p : Place),
        Function.update s.saved task (some .retFromKernel) task' = some p →
          s.saved task' = some p ∨ p.holding = true := by
      intro task' p hp
      rcases eq_or_ne task' task with rfl | hne
      · rw [Function.update_self, Option.some.injEq] at hp
        exact .inr (hp ▸ rfl)
      · rw [Function.update_of_ne hne] at hp
        exact .inl hp
    split at he
    case h_1 =>
      cases he
      exact .memory rfl rfl rfl hsaved
    case h_2 =>
      cases he
      exact .memory rfl rfl rfl hsaved
    case h_3 => cases he
  | switchTo c next =>
    simp only [step] at he
    split at he
    case h_1 hplace => exact .switch c _ next _ (by rw [hplace]; rfl) rfl he
    case h_2 hplace => exact .switch c _ next _ (by rw [hplace]; rfl) rfl he
    case h_3 => cases he
  | ret c =>
    simp only [step] at he
    split at he
    case h_1 => cases he
    case h_2 hplace =>
      cases he
      exact .goto c _ (by rw [hplace]; rfl) rfl (by simp [hplace])
    case h_3 => cases he
  | unlockKernel c =>
    simp only [step] at he
    split at he
    case h_1 hplace =>
      cases he
      exact .release c _ (by rw [hplace]; rfl) rfl rfl
    case h_2 hplace =>
      cases he
      exact .release c _ (by rw [hplace]; rfl) rfl rfl
    case h_3 hplace =>
      cases he
      exact .release c _ (by rw [hplace]; rfl) rfl rfl
    case h_4 => cases he

/-- Without a nested fault a step keeps the places and the lock together. -/
lemma LockInv.step {s t : Machine Cpu Task Pgdir Page} (h : s.LockInv)
    {e : Event Cpu Task Pgdir Page} (hfault : s.nestedFault e = false)
    (he : s.step e = some t) : t.LockInv := by
  cases lockStep_of_step he with
  | goto c p hp ht hstuck => exact ht ▸ h.goto hp
  | acquire c next hplace ht => exact ht ▸ h.tryAcquire
  | release c p hc hp ht => exact ht ▸ h.release hc hp
  | switch c before next p hc hp ht => exact h.switch hc hp ht
  | memory hlocked hholder hplace hsaved =>
    refine ⟨by rw [hlocked, hholder, h.locked], fun c => by rw [hplace, hholder, h.holds c],
      fun task p hp => ?_⟩
    rcases hsaved task p hp with hold | hhold
    · exact h.saved task p hold
    · exact hhold
  | fault c next hc hfault' ht =>
    rw [hfault] at hfault'
    cases hfault'

/-! ## The nested fault -/

/-- CPU `c` waits in `lock_kernel` for the lock it holds, and nobody else is at a
place that could release it. -/
structure SelfDeadlock (s : Machine Cpu Task Pgdir Page) (c : Cpu) : Prop where
  locked : s.locked = true
  holder : s.holder = some c
  waits : ∃ next, s.place c = .lockKernel next
  nobody : ∀ d, (s.place d).holding = false

lemma SelfDeadlock.not_disciplined {s : Machine Cpu Task Pgdir Page} {c : Cpu}
    (h : s.SelfDeadlock c) : ¬ s.Disciplined := by
  intro hd
  obtain ⟨next, hplace⟩ := h.waits
  exact hd.lock c next hplace h.holder

/-- A nested fault puts its CPU into a deadlock with itself. -/
lemma LockInv.selfDeadlock {s : Machine Cpu Task Pgdir Page} (h : s.LockInv)
    {e : Event Cpu Task Pgdir Page} (hfault : s.nestedFault e = true) :
    ∃ c t, s.step e = some t ∧ t.SelfDeadlock c := by
  cases e with
  | access c page store =>
    simp only [nestedFault] at hfault
    split at hfault
    case h_1 => cases hfault
    case h_2 hother hplace =>
      have hholder : s.holder = some c := (h.holds c).1 (by rw [hplace]; rfl)
      have hstep : s.step (.access c page store) = some (s.goto c (.lockKernel (.handler
          (dispatch (if store then exccStorePageFault else exccLoadPageFault))))) := by
        simp only [Machine.step]
        split
        case h_1 hplace' =>
          exact absurd (Place.handler.inj (hplace.symm.trans hplace')) hother
        case h_2 => rw [if_neg (by simpa using hfault)]
        case h_3 hno => exact absurd hplace (hno _)
      refine ⟨c, _, hstep, ?_, hholder, ⟨_, Function.update_self ..⟩, fun d => ?_⟩
      · exact h.locked.trans (by rw [hholder]; rfl)
      · rcases eq_or_ne d c with rfl | hd
        · simp [Machine.goto, Place.holding]
        · -- the other CPUs did not hold the lock before either
          simp only [Machine.goto, Function.update_of_ne hd]
          rw [← Bool.not_eq_true, h.holds d, hholder, Option.some.injEq]
          exact hd.symm
    case h_3 => cases hfault
  | _ => cases hfault

/-- No step of any CPU ends the deadlock. -/
lemma SelfDeadlock.step {s t : Machine Cpu Task Pgdir Page} {c : Cpu} (h : s.SelfDeadlock c)
    {e : Event Cpu Task Pgdir Page} (he : s.step e = some t) : t.SelfDeadlock c := by
  have hno : ∀ d, ¬ (s.place d).holding = true := fun d => by simp [h.nobody d]
  cases lockStep_of_step he with
  | goto d p hp ht hstuck =>
    subst ht
    refine ⟨h.locked, h.holder, ?_, fun d' => ?_⟩
    · obtain ⟨next, hplace⟩ := h.waits
      have hne : c ≠ d := by
        rintro rfl
        exact hstuck next hplace
      exact ⟨next, by simp only [Machine.goto, Function.update_of_ne hne, hplace]⟩
    · rcases eq_or_ne d' d with rfl | hd
      · simp only [Machine.goto, Function.update_self, hp, h.nobody d']
      · simp only [Machine.goto, Function.update_of_ne hd, h.nobody d']
  | acquire d next hplace ht =>
    rw [ht, tryAcquire, if_pos h.locked]
    exact h
  | release d p hc hp ht => exact absurd hc (hno d)
  | switch d before next p hc hp ht => exact absurd hc (hno d)
  | memory hlocked hholder hplace hsaved =>
    exact ⟨hlocked.trans h.locked, hholder.trans h.holder, hplace ▸ h.waits, hplace ▸ h.nobody⟩
  | fault d next hc hfault ht => exact absurd hc (hno d)

/-- A CPU that waits for itself waits in every continuation. -/
theorem selfDeadlock_forever {s t : Machine Cpu Task Pgdir Page} {c : Cpu} (h : s.SelfDeadlock c)
    {es : List (Event Cpu Task Pgdir Page)} (hrun : Trace.run step s es = some t) :
    t.SelfDeadlock c :=
  Trace.reachable_invariant (P := (SelfDeadlock · c)) (fun _ _ _ hs he => hs.step he) h
    ⟨es, hrun⟩

/-! ## The discipline of runs -/

/-- From a state in which the places and the lock agree, a run keeps the
discipline throughout if and only if none of its steps is a nested fault. -/
lemma always_disciplined_iff {s : Machine Cpu Task Pgdir Page} (h : s.LockInv)
    (es : List (Event Cpu Task Pgdir Page)) :
    Trace.Always step Disciplined s es ↔
      Trace.StepsMeet step (fun t e => t.nestedFault e = false) s es := by
  refine Trace.always_iff_stepsMeet (M := fun _ _ => True) (I := LockInv)
    (fun t ht => ht.disciplined) (fun s e t hs _ hC he => hs.step hC he) ?_ h
    (Trace.stepsMeet_true _ _)
  -- a nested fault leads to a state that breaks the discipline
  intro s e hs _ hall
  rw [← Bool.not_eq_true]
  intro hfault
  obtain ⟨c, t, he, hdead⟩ := hs.selfDeadlock hfault
  exact hdead.not_disciplined (hall t he)

/-- The lock discipline on any number of CPUs: it holds in every state of a run
from boot if and only if no handler accesses a user page that is not present. -/
theorem lock_discipline_iff (master : Cpu) (runnings : Cpu → Task) (satp : Cpu → Pgdir)
    (pgdir : Task → Pgdir) (present : Pgdir → Page → Bool)
    (es : List (Event Cpu Task Pgdir Page)) :
    Trace.Always step Disciplined (boot master runnings satp pgdir present) es ↔
      Trace.StepsMeet step (fun t e => t.nestedFault e = false)
        (boot master runnings satp pgdir present) es :=
  always_disciplined_iff (lockInv_boot master runnings satp pgdir present) es

/-! ## A read into a fresh buffer -/

/-- The shell runs on the only CPU, maps nothing, and calls `do_fread` with a
buffer on a page it has not touched: the copy of the first byte faults. -/
def freadCalls : List (Event (Fin 1) Bool Bool ℕ) :=
  [.lockKernel 0, .tryAcquire 0, .newTask 0 true true, .firstSwitch 0 false true,
    .unlockKernel 0, .trap 0 exccSyscall, .tryAcquire 0, .access 0 0x20 true]

/-- The machine `freadCalls` starts from; `true` is the shell, `false` the idle
PCB. -/
def freadBoot : Machine (Fin 1) Bool Bool ℕ :=
  boot 0 (fun _ => true) (fun _ => false) (fun _ => false) (fun _ _ => false)

lemma run_freadCalls :
    ∃ t, Trace.run step freadBoot freadCalls = some t ∧ t.SelfDeadlock 0 :=
  ⟨_, rfl, rfl, rfl, ⟨_, rfl⟩, by decide⟩

/-- The read breaks the discipline, and its CPU never leaves `lock_kernel` again. -/
theorem lock_discipline_fails_fread :
    ∃ t, Trace.run step freadBoot freadCalls = some t ∧ ¬ t.Disciplined ∧
      ∀ es u, Trace.run step t es = some u → ∃ next, u.place 0 = .lockKernel next := by
  obtain ⟨t, ht, hdead⟩ := run_freadCalls
  exact ⟨t, ht, hdead.not_disciplined, fun es u hu => (selfDeadlock_forever hdead hu).waits⟩

end Machine
end Step
end Irq
end UcasKernel
