/-
Mutexes and condition variables as monitors.

A monitor run is a run of the scheduler with a record of what the tasks did: which
task is inside of which mutex, that is, between the return of
`do_mutex_lock_acquire` or `do_condition_wait` and its next release, and in which
step each task was last on a CPU.

In every run of single-threaded processes that release only mutexes they are
inside of, at most one task is inside of a mutex, the fields of the mutex tell
whether it has a holder, and waiting tasks are granted it in the order in which
they blocked.
-/
import UcasKernel.Locking.Locks

namespace UcasKernel
namespace Sched

open Trace Kernel

/-- A kernel with the record. -/
structure Monitor where
  kernel : Kernel
  inside : Slot → Pcb → Bool
  time : ℕ
  /-- The last step of each task. -/
  last : Pcb → ℕ

namespace Monitor

/-! ## The record -/

/-- The task that makes a step. -/
def actor (k : Kernel) : Event → Option Pcb
  | .trap cpuid _ _ => k.runnings cpuid
  | .resume cpuid _ => k.runnings cpuid
  | .slaveJoin => none

/-- The mutex that the task of a step gives up. -/
def gives : Event → Option Slot
  | .trap _ (.mutexLockRelease mlockIdx) _ => slotOf mlockIdx
  | .trap _ (.conditionWait _ mutexIdx) _ => slotOf mutexIdx
  | _ => none

/-- The mutex whose `do_mutex_lock_acquire` or `do_condition_wait` the task of a
step is in. -/
def takes (k : Kernel) : Event → Option Slot
  | .trap _ (.mutexLockAcquire mlockIdx) _ => slotOf mlockIdx
  | .resume cpuid _ =>
    match (k.runnings cpuid).map k.cont with
    | some (.mutexLockAcquire m) => some m
    | some (.conditionWait m) => some m
    | _ => none
  | _ => none

/-- Who of the live tasks is inside of a mutex after a step: those that were and did
not give it up, and the task of the step if it returned with it. -/
def Records (inside : Slot → Pcb → Prop) (e : Event) (k k' : Kernel) (m : Slot) (p : Pcb) : Prop :=
  inside m p ∧ ¬ (gives e = some m ∧ actor k e = some p) ∨
    takes k e = some m ∧ actor k e = some p ∧ k'.inKernel = none

instance (inside : Slot → Pcb → Bool) (e : Event) (k k' : Kernel) (m : Slot) (p : Pcb) :
    Decidable (Records (fun m p => inside m p = true) e k k' m p) :=
  inferInstanceAs (Decidable (_ ∨ _))

/-- The record after a step that leads to `k'`. -/
def advance (g : Monitor) (e : Event) (k' : Kernel) : Monitor where
  kernel := k'
  inside := fun m p => k'.pid p ≠ 0 ∧ Records (fun m p => g.inside m p = true) e g.kernel k' m p
  time := g.time + 1
  last :=
    match actor g.kernel e with
    | some p => Function.update g.last p g.time
    | none => g.last

def step (g : Monitor) (e : Event) : Option Monitor := (g.kernel.step e).map (g.advance e)

def boot (tasks : List (List UInt8)) : Monitor where
  kernel := Kernel.boot tasks
  inside := fun _ _ => false
  time := 1
  last := fun _ => 0

/-! ## The law -/

/-- The task is inside of the mutex, or was granted it and is on its way out of
`do_mutex_lock_acquire`. -/
def Holds (g : Monitor) (m : Slot) (p : Pcb) : Prop :=
  g.inside m p = true ∨ g.kernel.HandedOver m p

/-- The monitor law of one state. -/
structure Law (g : Monitor) : Prop where
  exclusive : ∀ m p r, g.inside m p = true → g.inside m r = true → p = r
  unlocked : ∀ m, (g.kernel.mlocks m).locked = false ↔ ∀ p, ¬ g.Holds m p
  pid : ∀ m, (∀ p, ¬ g.Holds m p) ↔ (g.kernel.mlocks m).pid = 0
  queue : ∀ m, g.kernel.isQueueEmpty (.blockQueue m) = false → (g.kernel.mlocks m).locked = true

/-- A task that stops waiting for a mutex in a step, and lives on, blocked before all
others that wait for it. -/
def InOrder (g g' : Monitor) : Prop :=
  ∀ m x y, g.kernel.Waiting m x → g.kernel.Waiting m y → g'.kernel.pid x ≠ 0 →
    g'.kernel.pid y ≠ 0 → ¬ g'.kernel.Waiting m x → x ≠ y → g.last x < g.last y

/-- The calls of single-threaded processes: mutexes are released by tasks that are
inside of them, and a process is killed only when it does not run on another CPU. -/
def AllowedCall (inside : Slot → Pcb → Prop) (k : Kernel) (cpuid : Cpu) (p : Pcb) : Call → Prop
  | .irqTimer | .yield | .sleep _ | .exec _ | .exit | .mutexLockAcquire _
  | .conditionSignal _ | .conditionBroadcast _ | .conditionDestroy _ => True
  | .mutexLockRelease mlockIdx => ∀ m, slotOf mlockIdx = some m → inside m p
  | .conditionWait _ mutexIdx => ∀ m, slotOf mutexIdx = some m → inside m p
  | .kill pid => pid ≠ 0 ∧ ∀ i, k.findPid pid = some i →
      ∀ c, c ≠ cpuid → k.runnings c ≠ some (.slot i)
  | .waitpid pid => pid ≠ 0
  | _ => False

def Allowed (g : Monitor) : Event → Prop
  | .trap cpuid call _ => ∀ p, g.kernel.runnings cpuid = some p →
      AllowedCall (fun m p => g.inside m p = true) g.kernel cpuid p call
  | _ => True

end Monitor

namespace Kernel

/-! ## Steps -/

/-- What holds after a step: all but the invariant of the scheduler also holds when
the task has killed itself and its CPU is stuck. -/
def After (k' : Kernel) (q : Head → List Pcb) (inside : Slot → Pcb → Prop) (last : Pcb → ℕ) : Prop :=
  ∃ q', k'.Lists q' ∧ k'.Life q' none ∧ k'.Locks q' none inside last ∧
    (k'.stuck = false → k'.Inv q') ∧ Fair k' q q' last

/-- The queues of the mutexes lost at most their first elements. -/
def Popped (q q' : Head → List Pcb) : Prop :=
  ∀ m, ∃ l, q (.blockQueue m) = l ++ q' (.blockQueue m) ∧ l.length ≤ 1

lemma Popped.of_eq {q q' : Head → List Pcb}
    (h : ∀ m, q' (.blockQueue m) = q (.blockQueue m)) : Popped q q' :=
  fun m => ⟨[], by rw [h]; rfl, Nat.zero_le _⟩

section Steps

variable {k k₁ k' : Kernel} {q q₁ q' : Head → List Pcb} {inside inside₁ : Slot → Pcb → Prop}
  {last : Pcb → ℕ} {c : Cpu} {p : Pcb} {m : Slot}

lemma Popped.fair (hp : Popped q q₁) (hl : k.Locks q none inside last)
    (hsub : ∀ m, ∀ x ∈ q₁ (.blockQueue m), x ∈ q' (.blockQueue m)) : Fair k' q q' last :=
  fun m _ _ hx hy _ _ hx' hne => lt_of_dropped (hl.order m) (hp m) hx hy
    (fun hmem => hx' (hsub m _ hmem)) hne

/-- A return after a part that popped some queues. -/
lemma Mid.afterReturn (hl : k.Locks q none inside last) (hm₁ : k₁.Mid q₁ none none)
    (hl₁ : k₁.Locks q₁ none inside₁ last) (hrun : k₁.runnings c = some p) (hp : p ≠ idlePcb c)
    (hin : k₁.inKernel = none ∨ k₁.inKernel = some c) (hcur : ∀ m, k₁.Handed q₁ m p → inside₁ m p)
    (hpop : Popped q q₁) : (k₁.retFromKernel c).After q inside₁ last := by
  have hinv := hm₁.retFromKernel hrun hp
  exact ⟨q₁, hinv.lists, hinv.life, hl₁.ret hrun hin hcur, fun _ => hinv,
    hpop.fair hl fun _ _ hx => hx⟩

/-- A block after a part that popped some queues. -/
lemma Mid.afterBlock (h : Head) (cont : Cont) (hl : k.Locks q none inside last)
    (hm₁ : k₁.Mid q₁ none none) (hl₁ : k₁.Locks q₁ none inside₁ last)
    (hrun : k₁.runnings c = some p) (hp : p ≠ idlePcb c)
    (hin : k₁.inKernel = none ∨ k₁.inKernel = some c) (hcur : ∀ m, ¬ k₁.Handed q₁ m p)
    (hlast : ∀ x, x ≠ p → last x < last p) (hpop : Popped q q₁) (hplain : Plain cont)
    (hh : ∀ r, h = .waitList r → k₁.pid r ≠ 0) (hne : h ≠ .readyQueue)
    (hcont : ∀ m, cont = .mutexLockAcquire m ↔ h = .blockQueue m)
    (hlocked : ∀ m, h = .blockQueue m → (k₁.mlocks m).locked = true)
    (hk : k₁.doBlock c p h cont = some k') :
    k'.After q inside₁ last ∧ k'.pid = k₁.pid ∧ k'.inKernel = some c := by
  obtain ⟨L, r, hk₁, hpick, hinv⟩ := hm₁.doBlock cont hrun hp hh
  obtain rfl := Option.some.inj (hk.symm.trans hk₁)
  obtain ⟨hl', hsub⟩ := hl₁.switch (L := L) hm₁ hrun (hm₁.running_live hrun hp).1 hin hcur
    (.inr ⟨hne, rfl, hcont⟩) hlocked hlast hplain hpick
  exact ⟨⟨_, hinv.lists, hinv.life, hl', fun _ => hinv, hpop.fair hl hsub⟩, rfl, rfl⟩

/-- `do_scheduler`. -/
lemma Mid.afterScheduler {env : Env} (hm : k.Mid q none none) (hl : k.Locks q none inside last)
    (hrun : k.runnings c = some p) (hin : k.inKernel = none) (hlast : ∀ x, x ≠ p → last x < last p)
    (hk : k.doScheduler c p env = some k') : k'.After q inside last ∧ k'.pid = k.pid := by
  obtain ⟨k₁, q₁, q₂, L, r, hw, hk₁, hq₂, hpick, hinv⟩ := hm.doScheduler hrun env
  obtain rfl := Option.some.inj (hk.symm.trans hk₁)
  obtain ⟨hm₁, hquiet⟩ := hw.mid (by simp [Scanned]) hm
  obtain ⟨hl₁, hbq⟩ := hw.locks (by simp [Scanned]) (by simp [Scanned]) hm hl
  have hrun₁ : k₁.runnings c = some p := by rw [hquiet.runnings, hrun]
  have hin₁ : k₁.inKernel = none := by rw [hquiet.inKernel, hin]
  refine ⟨?_, hquiet.pid⟩
  rcases hq₂ with ⟨rfl, rfl⟩ | ⟨hp, rfl⟩
  · exact ⟨_, hinv.lists, hinv.life, hl₁.switchOff _ _ _ hm₁ hrun₁ (.inl hin₁)
      (hm₁.lists.idle_notMem c) hpick, fun _ => hinv,
      (Popped.of_eq hbq).fair hl fun _ _ hx => hx⟩
  · obtain ⟨hl', hsub⟩ := hl₁.switch (L := L) hm₁ hrun₁ (hm₁.running_live hrun₁ hp).1 (.inl hin₁)
      (fun m hh => Option.some_ne_none c ((hh.2.2 c hrun₁).symm.trans hin₁))
      (.inl ⟨rfl, rfl, rfl⟩) (by simp) hlast trivial hpick
    exact ⟨_, hinv.lists, hinv.life, hl', fun _ => hinv, (Popped.of_eq hbq).fair hl hsub⟩

/-- A release of a mutex by the task inside of it. -/
lemma Mid.afterRelease (hm : k.Mid q none none) (hl : k.Locks q none inside last)
    (hrun : k.runnings c = some p) (hin : k.inKernel = none) (hown : inside m p) :
    ∃ k₁ q₁, k.mutexLockRelease m = some k₁ ∧ k₁.Mid q₁ none none ∧ k.Quiet k₁ ∧
      k₁.Locks q₁ none (fun n x => inside n x ∧ ¬ (n = m ∧ x = p)) last ∧ Popped q q₁ ∧
      ∀ n, ¬ k₁.Handed q₁ n p := by
  obtain ⟨k₁, q₁, hk₁, hm₁, hquiet, hrel⟩ := hm.mutexLockRelease m
  obtain ⟨hpid, hmlock⟩ := hl.holds m p hown
  have howner : ∀ x, k.pid x = (k.mlocks m).pid → x = p := fun x hx =>
    hl.single x p (by rw [hx, hmlock]; exact hpid) (by rw [hx, hmlock])
  obtain ⟨hl₁, -, hother, -, hsplit⟩ := hl.release (m := m) hm
    (fun n x (hx : inside n x ∧ ¬ (n = m ∧ x = p)) => hx.1)
    (fun n x hn hx => ⟨hx, fun heq => hn heq.1⟩)
    (fun x hx => hx.2 ⟨rfl, howner x (hl.holds m x hx.1).2.symm⟩)
    (fun x hx => by
      have hxp := howner x (hl.granted m x hx).symm
      exact Option.some_ne_none c ((hx.2.2 c (hxp ▸ hrun)).symm.trans hin))
    (fun x hx => (hm.life.live x (by simp)).2 ⟨_, hx⟩) hrel
  refine ⟨k₁, q₁, hk₁, hm₁, hquiet, hl₁, fun n => ?_, fun n hh => ?_⟩
  · by_cases hnm : n = m
    · exact hnm ▸ hsplit
    · exact ⟨[], by rw [(hother n hnm).2]; rfl, Nat.zero_le _⟩
  · have := hh.2.2 c (by rw [hquiet.runnings, hrun])
    rw [hquiet.inKernel, hin] at this
    cases this

/-- Who lives on after the death of a PCB was not that PCB. -/
lemma Locks.fairOfDeath {i : Slot} (hl : k.Locks q none inside last)
    (hpid : k'.pid (.slot i) = 0)
    (hsplit : ∀ m, ∃ l, (q (.blockQueue m)).erase (.slot i) = l ++ q' (.blockQueue m) ∧
      l.length ≤ 1) : Fair k' q q' last := by
  intro m x y hx hy hx0 hy0 hx' hne
  have hlive : ∀ z, k'.pid z ≠ 0 → z ∈ q (.blockQueue m) →
      z ∈ (q (.blockQueue m)).erase (.slot i) := by
    intro z hz hmem
    refine (List.mem_erase_of_ne ?_).2 hmem
    rintro rfl
    exact hz hpid
  exact lt_of_dropped ((hl.order m).sublist List.erase_sublist) (hsplit m) (hlive x hx0 hx)
    (hlive y hy0 hy) hx' hne

/-- In a system of single threads every task is alone. -/
lemma Locks.alone (hl : k.Locks q none inside last) {i : Slot} (hpid : k.pid (.slot i) ≠ 0) :
    k.Alone (.slot i) :=
  fun j hj => hl.single _ _ (by rw [hj]; exact hpid) hj

/-- `do_exit`. -/
lemma Mid.afterExit {i : Slot} (hm : k.Mid q none none) (hl : k.Locks q none inside last)
    (hpid : k.pid (.slot i) ≠ 0) (hrun : k.runnings c = some (.slot i)) (hin : k.inKernel = none)
    (hk : k.doExit c (.slot i) = some k') :
    k'.After q (fun m x => inside m x ∧ x ≠ .slot i) last ∧
      k'.pid = Function.update k.pid (.slot i) 0 := by
  obtain ⟨k₁, q₁, hk₁, hm₁, hempty, hpid₁, hrun₁, hin₁, hl₁, hdone, hsplit⟩ :=
    hl.releasePcb hm hpid (.inr ⟨c, rfl, hrun⟩)
  have hpid₁' : k₁.pid (.slot i) ≠ 0 := by rwa [← hpid₁]
  have hzero := hm₁.threads_eq_zero hpid₁' (by
    intro j hj
    rw [← hpid₁] at hj
    exact hl.alone hpid j hj)
  obtain ⟨r, hr, hk', hinv⟩ := hm₁.exitRest hk₁ hpid₁' hempty hzero
  obtain rfl := Option.some.inj (hk.symm.trans hk')
  have hpid' : (((k₁.picked c r).freePgdir (.slot i)).clearPid (.slot i)).pid =
      Function.update k.pid (.slot i) 0 := by
    rw [hpid₁]
    rfl
  refine ⟨⟨q₁, hinv.lists, hinv.life, ?_, fun _ => hinv, ?_⟩, hpid'⟩
  · have hm₂ := hm₁.clearPid hpid₁' hempty hzero
    have hl₂ := hl₁.clearPid hm₁ fun m => by rw [← hpid₁]; exact hdone m
    have hl₃ := hl₂.switchOff k₁.links r (k₁.status (.slot i)) hm₂
      (p := .slot i) (c := c) (hrun₁ ▸ hrun) (.inl (hin₁.trans hin)) (hm₁.life.off _ rfl) hr
    rw [switched] at hl₃
    simp only [Kernel.clearPid, freePgdir, Function.update_eq_self] at hl₃
    exact hl₃
  · refine hl.fairOfDeath (i := i) ?_ hsplit
    exact (congrFun hpid' _).trans (Function.update_self ..)

/-- A return leaves queues and processes alone, whatever it does to the CPU. -/
lemma Mid.returnFrame {out : Option Cpu} (hm : k.Mid q out none) :
    (k.retFromKernel c).Lists q ∧ (k.retFromKernel c).Life q none := by
  unfold Kernel.retFromKernel switchPgdir
  cases k.runnings c with
  | none => exact ⟨⟨hm.lists.repr, hm.lists.init, hm.lists.slots⟩,
      hm.life.congr rfl (fun _ => Iff.rfl) (fun _ h => h) fun _ _ h => h⟩
  | some r => exact ⟨⟨hm.lists.repr, hm.lists.init, hm.lists.slots⟩,
      hm.life.congr rfl (fun _ => Iff.rfl) (fun _ h => h) fun _ _ h => h⟩

/-- `do_kill` of a process that does not run on another CPU. -/
lemma Mid.afterKill {i : Slot} {pid : ℤ} (hm : k.Mid q none none)
    (hl : k.Locks q none inside last) (hrun : k.runnings c = some p) (hp : p ≠ idlePcb c)
    (hin : k.inKernel = none) (hpid : pid ≠ 0) (hfind : k.findPid pid = some i)
    (hother : ∀ d, d ≠ c → k.runnings d ≠ some (.slot i)) :
    ∃ k₁, k.doKill pid = some (1, k₁) ∧
      (k₁.retFromKernel c).After q (fun m x => inside m x ∧ x ≠ .slot i) last ∧
      k₁.pid = Function.update k.pid (.slot i) 0 := by
  have hpid' : k.pid (.slot i) ≠ 0 := by rwa [findPid_spec hfind]
  have hout : p ≠ .slot i ∧ (∀ d, k.runnings d ≠ some (.slot i)) ∨ p = .slot i := by
    by_cases hpi : p = .slot i
    · exact .inr hpi
    · refine .inl ⟨hpi, fun d hd => ?_⟩
      by_cases hdc : d = c
      · subst hdc
        exact hpi (Option.some.inj (hrun.symm.trans hd))
      · exact hother d hdc hd
  obtain ⟨out, hout'⟩ : ∃ out, (out = none ∧ (∀ d, k.runnings d ≠ some (.slot i)) ∨
      ∃ d, out = some d ∧ k.runnings d = some (.slot i)) ∧ (p ≠ .slot i → out = none) := by
    rcases hout with ⟨-, hno⟩ | hpi
    · exact ⟨none, .inl ⟨rfl, hno⟩, fun _ => rfl⟩
    · exact ⟨some c, .inr ⟨c, rfl, hpi ▸ hrun⟩, fun hne => absurd hpi hne⟩
  obtain ⟨k₁, q₁, hk₁, hm₁, hempty, hpid₁, hrun₁, hin₁, hl₁, hdone, hsplit⟩ :=
    hl.releasePcb hm hpid' hout'.1
  have hpid₁' : k₁.pid (.slot i) ≠ 0 := by rwa [← hpid₁]
  have hzero := hm₁.threads_eq_zero hpid₁' (by
    intro j hj
    rw [← hpid₁] at hj
    exact hl.alone hpid' j hj)
  have hm₂ := hm₁.clearPid hpid₁' hempty hzero
  have hl₂ := hl₁.clearPid hm₁ fun m => by rw [← hpid₁]; exact hdone m
  have hrun₂ : ((k₁.freePgdir (.slot i)).clearPid (.slot i)).runnings c = some p := hrun₁ ▸ hrun
  have hin₂ : ((k₁.freePgdir (.slot i)).clearPid (.slot i)).inKernel = none := hin₁.trans hin
  have hl₃ := hl₂.ret hrun₂ (.inl hin₂) (fun m hh =>
    absurd ((hh.2.2 c hrun₂).symm.trans hin₂) (Option.some_ne_none c))
  have hframe := hm₂.returnFrame (c := c)
  refine ⟨_, ?_, ⟨q₁, hframe.1, hframe.2, hl₃, fun hstuck => ?_, ?_⟩, ?_⟩
  · simp only [Kernel.doKill, hfind, hk₁, Option.bind_eq_bind, Option.bind_some, hzero, if_true]
  · by_cases hpi : p = .slot i
    · -- the task killed itself: its page directory is gone
      exfalso
      subst hpi
      simp [Kernel.retFromKernel, switchPgdir, hrun₂] at hstuck
      simp [Kernel.clearPid, freePgdir] at hstuck
    · have hm₂' := hout'.2 hpi ▸ hm₂
      exact hm₂'.retFromKernel hrun₂ hp
  · refine hl.fairOfDeath (i := i) ?_ hsplit
    rw [retFromKernel_pid]
    exact Function.update_self ..
  · rw [hpid₁]
    rfl

/-- A return after some wake-ups from queues that are no queues of mutexes. -/
lemma Mid.afterWakes {from' : Head → Prop} (hm : k.Mid q none none)
    (hl : k.Locks q none inside last) (hrun : k.runnings c = some p) (hp : p ≠ idlePcb c)
    (hin : k.inKernel = none) (hready : ¬ from' .readyQueue) (hfrom : ∀ m, ¬ from' (.blockQueue m))
    (hw : Wakes from' k q k₁ q₁) : (k₁.retFromKernel c).After q inside last := by
  obtain ⟨hm₁, hquiet⟩ := hw.mid hready hm
  obtain ⟨hl₁, hbq⟩ := hw.locks hready hfrom hm hl
  have hrun₁ : k₁.runnings c = some p := by rw [hquiet.runnings, hrun]
  have hin₁ : k₁.inKernel = none := by rw [hquiet.inKernel, hin]
  exact hm₁.afterReturn hl hl₁ hrun₁ hp (.inl hin₁) (fun m hh =>
    absurd ((hh.2.2 c hrun₁).symm.trans hin₁) (Option.some_ne_none c)) (Popped.of_eq hbq)

lemma retFromKernel_inKernel (k : Kernel) (c : Cpu) : (k.retFromKernel c).inKernel = none := rfl

/-- The record of a step of `p` that neither gives up nor takes a mutex. -/
lemma records_same {e : Event} {x : Pcb} (hg : Monitor.gives e = none)
    (ht : Monitor.takes k e = none) : Monitor.Records inside e k k' m x ↔ inside m x := by
  simp [Monitor.Records, hg, ht]

/-- A call of a task that is not idle. -/
lemma Mid.afterHandle {env : Env} {call : Call} (hm : k.Mid q none none)
    (hl : k.Locks q none inside last) (hrun : k.runnings c = some p) (hp : p ≠ idlePcb c)
    (hin : k.inKernel = none) (hlast : ∀ x, x ≠ p → last x < last p)
    (hcall : Monitor.AllowedCall inside k c p call) (hk : k.handle c p env call = some k') :
    ∃ inside₁, k'.After q inside₁ last ∧ ∀ m x, k'.pid x ≠ 0 →
      (inside₁ m x ↔ Monitor.Records inside (.trap c call env) k k' m x) := by
  have hcur : ∀ m, ¬ k.Handed q m p := fun m hh =>
    Option.some_ne_none c ((hh.2.2 c hrun).symm.trans hin)
  obtain ⟨hready, hpid⟩ := hm.running_live hrun hp
  have hsame : Popped q q := Popped.of_eq fun _ => rfl
  cases call with
  | irqTimer | yield =>
    obtain ⟨hafter, -⟩ := hm.afterScheduler hl hrun hin hlast hk
    exact ⟨inside, hafter, fun m x _ => (records_same rfl rfl).symm⟩
  | sleep sleepTime =>
    have hl' : Locks { k with
        wakeupTime := Function.update k.wakeupTime p (env.clock 0 + sleepTime) } q none inside last :=
      ⟨hl.single, hl.unlocked, hl.owner, hl.queued, hl.waits, hl.asleep, hl.awake, hl.granted,
        hl.holds, hl.order, hl.plain⟩
    obtain ⟨hafter, -, -⟩ := (hm.setWakeup _).afterBlock .sleepQueue .ret hl hl'
      hrun hp (.inl hin) hcur hlast hsame trivial (by simp) (by simp) (by simp) (by simp) hk
    exact ⟨inside, hafter, fun m x _ => (records_same rfl rfl).symm⟩
  | exec name =>
    obtain ⟨k₁, hk₁, rfl⟩ := Option.map_eq_some_iff.1 hk
    rcases hm.createPcb hk₁ with rfl | ⟨i, L, hfree, rfl, hm₁⟩
    · exact ⟨inside, hm.afterReturn hl hl hrun hp (.inl hin) (fun m hh => absurd hh (hcur m)) hsame,
        fun m x _ => (records_same rfl rfl).symm⟩
    · have hl₁ := hl.created L hm hfree
      refine ⟨inside, hm₁.afterReturn (p := p) hl hl₁ hrun hp (.inl hin) (fun m hh => ?_) ?_,
        fun m x _ => (records_same rfl rfl).symm⟩
      · exact absurd ((hh.2.2 c hrun).symm.trans hin) (Option.some_ne_none c)
      · exact Popped.of_eq fun m => Function.update_of_ne (by simp) ..
  | exit =>
    obtain ⟨i, rfl⟩ := hm.lists.slots _ _ hready
    obtain ⟨hafter, hpid'⟩ := hm.afterExit hl hpid hrun hin hk
    refine ⟨_, hafter, fun m x hx => ?_⟩
    have hxi : x ≠ .slot i := by
      rintro rfl
      exact hx (by rw [hpid', Function.update_self])
    rw [records_same rfl rfl]
    simp [hxi]
  | kill pid =>
    obtain ⟨k₁, hk₁, rfl⟩ := Option.map_eq_some_iff.1 hk
    obtain ⟨⟨n, k₂⟩, hk₂, rfl⟩ := Option.map_eq_some_iff.1 hk₁
    cases hfind : k.findPid pid with
    | none =>
      rw [Kernel.doKill, hfind, Option.some.injEq, Prod.mk.injEq] at hk₂
      obtain ⟨-, rfl⟩ := hk₂
      exact ⟨inside, hm.afterReturn hl hl hrun hp (.inl hin) (fun m hh => absurd hh (hcur m)) hsame,
        fun m x _ => (records_same rfl rfl).symm⟩
    | some i =>
      obtain ⟨k₃, hk₃, hafter, hpid'⟩ :=
        hm.afterKill hl hrun hp hin hcall.1 hfind (hcall.2 i hfind)
      obtain ⟨-, rfl⟩ := Prod.mk.inj (Option.some.inj (hk₂.symm.trans hk₃))
      refine ⟨_, hafter, fun m x hx => ?_⟩
      have hxi : x ≠ .slot i := by
        rintro rfl
        exact hx (by rw [retFromKernel_pid, hpid', Function.update_self])
      rw [records_same rfl rfl]
      simp [hxi]
  | waitpid pid =>
    change k.doWaitpid c p pid = some k' at hk
    unfold Kernel.doWaitpid at hk
    split at hk
    · obtain rfl := Option.some.inj hk
      exact ⟨inside, hm.afterReturn hl hl hrun hp (.inl hin) (fun m hh => absurd hh (hcur m)) hsame,
        fun m x _ => (records_same rfl rfl).symm⟩
    · rename_i i hi
      obtain ⟨hafter, -, -⟩ := hm.afterBlock (.waitList (.slot i)) (.waitpid i) hl hl hrun hp
        (.inl hin) hcur hlast hsame trivial (fun r hr => by
          obtain rfl := Head.waitList.inj hr
          rw [findPid_spec hi]
          exact hcall) (by simp) (by simp) (by simp) hk
      exact ⟨inside, hafter, fun m x _ => (records_same rfl rfl).symm⟩
  | mutexLockAcquire idx =>
    obtain ⟨m, hm', hk⟩ := Option.bind_eq_some_iff.1 hk
    have hrec : ∀ n x, Monitor.Records inside (.trap c (.mutexLockAcquire idx) env) k k' n x ↔
        inside n x ∨ m = n ∧ p = x ∧ k'.inKernel = none := by
      intro n x
      simp [Monitor.Records, Monitor.gives, Monitor.takes, Monitor.actor, hm', hrun]
    unfold Kernel.mutexLockAcquire at hk
    split at hk
    · rename_i hlocked
      obtain ⟨hafter, -, hker⟩ := hm.afterBlock (.blockQueue m) (.mutexLockAcquire m) hl hl hrun hp
        (.inl hin) hcur hlast hsame trivial
        (by simp) (by simp) (by simp) (fun n hn => by
          obtain rfl := Head.blockQueue.inj hn
          exact hlocked) hk
      exact ⟨inside, hafter, fun n x _ => by rw [hrec, hker]; simp⟩
    · rename_i hlocked
      obtain rfl := Option.some.inj hk
      have hl₁ := hl.take (m := m) (p := p) hm (by simpa using hlocked) hpid
      refine ⟨_, (hm.setMlock m _).afterReturn hl hl₁ hrun hp (.inl hin) (fun n hh => ?_) hsame,
        fun n x _ => ?_⟩
      · exact absurd ((hh.2.2 c hrun).symm.trans hin) (Option.some_ne_none c)
      · rw [hrec, retFromKernel_inKernel]
        simp [eq_comm]
  | mutexLockRelease idx =>
    obtain ⟨m, hm', hk⟩ := Option.bind_eq_some_iff.1 hk
    obtain ⟨k₁, hk₁, rfl⟩ := Option.map_eq_some_iff.1 hk
    obtain ⟨k₂, q₂, hk₂, hm₂, hquiet, hl₂, hpop, hcur₂⟩ := hm.afterRelease hl hrun hin (hcall m hm')
    obtain rfl := Option.some.inj (hk₁.symm.trans hk₂)
    refine ⟨_, hm₂.afterReturn (p := p) hl hl₂ (by rw [hquiet.runnings, hrun]) hp
      (.inl (by rw [hquiet.inKernel, hin])) (fun n hh => absurd hh (hcur₂ n)) hpop, fun n x _ => ?_⟩
    simp [Monitor.Records, Monitor.gives, Monitor.takes, Monitor.actor, hm', hrun, eq_comm]
  | conditionWait condIdx mutexIdx =>
    obtain ⟨i, -, hk⟩ := Option.bind_eq_some_iff.1 hk
    obtain ⟨m, hm', hk⟩ := Option.bind_eq_some_iff.1 hk
    obtain ⟨k₂, q₂, hk₂, hm₂, hquiet, hl₂, hpop, hcur₂⟩ := hm.afterRelease hl hrun hin (hcall m hm')
    rw [Kernel.conditionWait, hk₂, Option.bind_eq_bind, Option.bind_some] at hk
    obtain ⟨hafter, -, -⟩ := hm₂.afterBlock (p := p) (.condWaitList i) (.conditionWait m) hl hl₂
      (by rw [hquiet.runnings, hrun]) hp
      (.inl (by rw [hquiet.inKernel, hin])) hcur₂ hlast hpop trivial (by simp) (by simp) (by simp)
      (by simp) hk
    refine ⟨_, hafter, fun n x _ => ?_⟩
    simp [Monitor.Records, Monitor.gives, Monitor.takes, Monitor.actor, hm', hrun, eq_comm]
  | conditionSignal idx =>
    obtain ⟨i, -, hk⟩ := Option.bind_eq_some_iff.1 hk
    obtain ⟨k₁, hk₁, rfl⟩ := Option.map_eq_some_iff.1 hk
    obtain ⟨k₂, q₂, hk₂, hw⟩ := hm.conditionSignal i
    obtain rfl := Option.some.inj (hk₁.symm.trans hk₂)
    exact ⟨inside, hm.afterWakes hl hrun hp hin (by simp) (by simp) hw,
      fun m x _ => (records_same rfl rfl).symm⟩
  | conditionBroadcast idx | conditionDestroy idx =>
    obtain ⟨i, -, hk⟩ := Option.bind_eq_some_iff.1 hk
    obtain ⟨k₁, hk₁, rfl⟩ := Option.map_eq_some_iff.1 hk
    obtain ⟨k₂, q₂, hk₂, hw⟩ := hm.conditionBroadcast i
    obtain rfl := Option.some.inj (hk₁.symm.trans hk₂)
    exact ⟨inside, hm.afterWakes hl hrun hp hin (by simp) (by simp) hw,
      fun m x _ => (records_same rfl rfl).symm⟩
  | _ => exact hcall.elim

/-- The task switched to goes on. -/
lemma Inv.afterGoOn {env : Env} (hi : k.Inv q) (hl : k.Locks q none inside last)
    (hrun : k.runnings c = some p) (hin : k.inKernel = some c)
    (hlast : ∀ x, x ≠ p → last x < last p) (hk : k.goOn c p env (k.cont p) = some k') :
    ∃ inside₁, k'.After q inside₁ last ∧ ∀ m x, k'.pid x ≠ 0 →
      (inside₁ m x ↔ Monitor.Records inside (.resume c env) k k' m x) := by
  have hm := hi.toMid
  have hsame : Popped q q := Popped.of_eq fun _ => rfl
  have htakes : ∀ m, k.cont p ≠ .mutexLockAcquire m → k.cont p ≠ .conditionWait m →
      Monitor.takes k (.resume c env) ≠ some m := by
    intro m h₁ h₂ ht
    simp only [Monitor.takes, hrun, Option.map_some] at ht
    split at ht <;> simp_all
  -- a return of a task that is in no `do_mutex_lock_acquire`
  have hreturn : (∀ m, k.cont p ≠ .mutexLockAcquire m) → (∀ m, k.cont p ≠ .conditionWait m) →
      k' = k.retFromKernel c → ∃ inside₁, k'.After q inside₁ last ∧ ∀ m x, k'.pid x ≠ 0 →
        (inside₁ m x ↔ Monitor.Records inside (.resume c env) k k' m x) := by
    rintro h₁ h₂ rfl
    have hinv := hi.retFromKernel hrun
    refine ⟨inside, ⟨q, hinv.lists, hinv.life, hl.ret hrun (.inr hin) fun m hh =>
      absurd hh.2.1 (h₁ m), fun _ => hinv, hsame.fair hl fun _ _ hx => hx⟩, fun m x _ => ?_⟩
    simp [Monitor.Records, Monitor.gives, htakes m (h₁ m) (h₂ m)]
  by_cases hp : p = idlePcb c
  · have hcont : k.cont p = .ret := by
      rw [hp]
      exact hi.life.idleCont c
    rw [hcont] at hk
    exact hreturn (by simp [hcont]) (by simp [hcont]) (Option.some.inj hk).symm
  · obtain ⟨hready, hpid⟩ := hm.running_live hrun hp
    have hplain := hl.plain p
    cases hcont : k.cont p with
    | ret | waitpid =>
      rw [hcont] at hk
      exact hreturn (by simp [hcont]) (by simp [hcont]) (Option.some.inj hk).symm
    | mutexLockAcquire m =>
      -- it was handed the mutex, and returns with it
      rw [hcont] at hk
      obtain rfl := Option.some.inj hk
      have hhand : k.Handed q m p := by
        refine ⟨hready, hcont, fun d hd => ?_⟩
        rw [hm.runs.distinct d c p (by simp) (by simp) hd hrun, hin]
      have hl₁ := hl.enter hm hhand
      refine ⟨_, hm.afterReturn hl hl₁ hrun hp (.inr hin) (fun n hh => ?_) hsame, fun n x _ => ?_⟩
      · have heq := hh.2.1
        rw [hcont, Cont.mutexLockAcquire.injEq] at heq
        exact .inr ⟨heq.symm, rfl⟩
      · simp [Monitor.Records, Monitor.gives, Monitor.takes, Monitor.actor, hrun, hcont,
          retFromKernel_inKernel, eq_comm]
    | conditionWait m =>
      -- it was signalled, and acquires the mutex again
      rw [hcont] at hk
      have hk' : k.mutexLockAcquire c p m (.mutexLockAcquire m)
        (fun k => some (k.retFromKernel c)) = some k' := hk
      have hcur : ∀ n, ¬ k.Handed q n p := fun n hh => by
        have := hh.2.1
        rw [hcont] at this
        cases this
      have hrec : ∀ n x, Monitor.Records inside (.resume c env) k k' n x ↔
          inside n x ∨ m = n ∧ p = x ∧ k'.inKernel = none := by
        intro n x
        simp [Monitor.Records, Monitor.gives, Monitor.takes, Monitor.actor, hrun, hcont]
      unfold Kernel.mutexLockAcquire at hk'
      split at hk'
      · rename_i hlocked
        obtain ⟨hafter, -, hker⟩ := hm.afterBlock (.blockQueue m) (.mutexLockAcquire m) hl hl hrun hp
          (.inr hin) hcur hlast hsame trivial (by simp) (by simp) (by simp) (fun n hn => by
            obtain rfl := Head.blockQueue.inj hn
            exact hlocked) hk'
        exact ⟨inside, hafter, fun n x _ => by rw [hrec, hker]; simp⟩
      · rename_i hlocked
        obtain rfl := Option.some.inj hk'
        have hl₁ := hl.take (m := m) (p := p) hm (by simpa using hlocked) hpid
        refine ⟨_, (hm.setMlock m _).afterReturn hl hl₁ hrun hp (.inr hin) (fun n hh => ?_) hsame,
          fun n x _ => ?_⟩
        · exact absurd hh (hcur n)
        · rw [hrec, retFromKernel_inKernel]
          simp [eq_comm]
    | _ =>
      rw [hcont] at hplain
      exact hplain.elim

end Steps

end Kernel

namespace Monitor

/-! ## Runs -/

/-- The invariant of a monitor run. -/
def Good (g : Monitor) : Prop :=
  ∃ q, g.kernel.Lists q ∧ g.kernel.Life q none ∧
    g.kernel.Locks q none (fun m p => g.inside m p = true) g.last ∧ (∀ p, g.last p < g.time) ∧
    (g.kernel.stuck = false → g.kernel.Inv q)

section Runs

variable {g g' : Monitor} {q : Head → List Pcb} {inside : Slot → Pcb → Prop} {last : Pcb → ℕ}
  {m : Slot} {p : Pcb} {e : Event}

/-- The queue of a mutex holds the tasks that wait for it. -/
lemma waiting_iff {k : Kernel} (hlife : k.Life q none) (hl : k.Locks q none inside last) :
    k.Waiting m p ↔ p ∈ q (.blockQueue m) := by
  constructor
  · rintro ⟨hpid, hstatus, hcont⟩
    obtain ⟨h, hp⟩ := (hlife.live p (by simp)).1 hpid
    have hne : h ≠ .readyQueue := by
      rintro rfl
      exact hl.awake p hp hstatus
    rwa [((hl.waits h p hp hne).2 m).1 hcont] at hp
  · intro hp
    obtain ⟨hstatus, hcont⟩ := hl.waits _ p hp (by simp)
    exact ⟨(hlife.live p (by simp)).2 ⟨_, hp⟩, hstatus, (hcont m).2 rfl⟩

/-- The ready queue holds the tasks that a mutex was handed to. -/
lemma handedOver_iff {k : Kernel} (hlife : k.Life q none) (hl : k.Locks q none inside last) :
    k.HandedOver m p ↔ k.Handed q m p := by
  constructor
  · rintro ⟨hpid, hstatus, hcont, hsus⟩
    obtain ⟨h, hp⟩ := (hlife.live p (by simp)).1 hpid
    refine ⟨?_, hcont, hsus⟩
    by_contra hne
    have hready : h ≠ .readyQueue := fun heq => hne (heq ▸ hp)
    exact hstatus (hl.waits h p hp hready).1
  · rintro ⟨hp, hcont, hsus⟩
    exact ⟨(hlife.live p (by simp)).2 ⟨_, hp⟩, hl.awake p hp, hcont, hsus⟩

/-- The holder of a mutex is the task whose pid it has. -/
lemma holds_iff (hlife : g.kernel.Life q none)
    (hl : g.kernel.Locks q none (fun m p => g.inside m p = true) g.last) :
    (∀ p, ¬ g.Holds m p) ↔ (g.kernel.mlocks m).pid = 0 := by
  constructor
  · intro hno
    by_contra hpid
    obtain ⟨p, -, hin | hhand | hgone⟩ := hl.owner m hpid
    · exact hno p (.inl hin)
    · exact hno p (.inr ((handedOver_iff hlife hl).2 hhand))
    · cases hgone
  · intro hzero p hp
    rcases hp with hin | hhand
    · obtain ⟨hpid, hown⟩ := hl.holds m p hin
      exact hpid (hown.symm.trans hzero)
    · exact hhand.1 ((hl.granted m p ((handedOver_iff hlife hl).1 hhand)).symm.trans hzero)

lemma Good.law (hg : g.Good) : g.Law := by
  obtain ⟨q, hlists, hlife, hl, -, -⟩ := hg
  refine ⟨fun m p r hp hr => ?_, fun m => ?_, fun m => holds_iff hlife hl, fun m hm => ?_⟩
  · obtain ⟨hpid, hown⟩ := hl.holds m p hp
    exact hl.single p r hpid (hown.symm.trans (hl.holds m r hr).2)
  · rw [holds_iff hlife hl]
    exact hl.unlocked m
  · refine hl.queued m fun hempty => ?_
    rw [(isQueueEmpty_iff hlists.repr (hlists.init _ (by simp))).2 hempty] at hm
    cases hm

/-- What a step of the task `p` leaves, as the record tells it. -/
lemma good_of_after {k' : Kernel} (hlife : g.kernel.Life q none)
    (hl : g.kernel.Locks q none (fun m p => g.inside m p = true) g.last)
    (htime : ∀ p, g.last p < g.time) (hactor : actor g.kernel e = some p)
    (hp : ∀ m, p ∉ q (.blockQueue m))
    (hafter : k'.After q inside (Function.update g.last p g.time))
    (hrec : ∀ m x, k'.pid x ≠ 0 →
      (inside m x ↔ Records (fun m p => g.inside m p = true) e g.kernel k' m x))
    (hk : g.kernel.step e = some k') (hs : g.step e = some g') : g'.Good ∧ g.InOrder g' := by
  obtain ⟨q', hlists', hlife', hl', hinv', hfair⟩ := hafter
  rw [step, hk, Option.map_some, Option.some.injEq] at hs
  subst hs
  have hlast : (g.advance e k').last = Function.update g.last p g.time := by
    simp only [advance, hactor]
  refine ⟨⟨q', hlists', hlife', ?_, fun x => ?_, hinv'⟩, fun m x y hx hy hx0 hy0 hx' hne => ?_⟩
  · rw [hlast]
    refine hl'.forget (fun m x hx => ?_) (fun m x hx hown => .inl ?_) (fun x hx => hx)
    · simp only [advance, decide_eq_true_eq] at hx
      exact (hrec m x hx.1).2 hx.2
    · have hx0 := (hl'.holds m x hx).1
      simp only [advance, decide_eq_true_eq]
      exact ⟨hx0, (hrec m x hx0).1 hx⟩
  · rw [hlast]
    by_cases hx : x = p
    · rw [hx, Function.update_self]
      exact Nat.lt_succ_self _
    · rw [Function.update_of_ne hx]
      exact (htime x).trans (Nat.lt_succ_self _)
  · rw [waiting_iff hlife hl] at hx hy
    have hxq : x ∉ q' (.blockQueue m) := fun hmem => hx' ((waiting_iff hlife' hl').2 hmem)
    have hlt := hfair m x y hx hy hx0 hy0 hxq hne
    have hxp : x ≠ p := fun heq => hp m (heq ▸ hx)
    have hyp : y ≠ p := fun heq => hp m (heq ▸ hy)
    rwa [Function.update_of_ne hxp, Function.update_of_ne hyp] at hlt

/-- A step keeps the invariant and grants mutexes in order. -/
theorem Good.step (hg : g.Good) (he : g.Allowed e) (hs : g.step e = some g') :
    g'.Good ∧ g.InOrder g' := by
  obtain ⟨q, hlists, hlife, hl, htime, hinv⟩ := hg
  obtain ⟨k', hk, -⟩ := Option.map_eq_some_iff.1 hs
  -- the task that steps is on the ready queue or idle, and it is the newest from now on
  have hactor : ∀ c p, g.kernel.Inv q → g.kernel.runnings c = some p →
      (∀ m, p ∉ q (.blockQueue m)) ∧ g.kernel.Locks q none (fun m p => g.inside m p = true)
        (Function.update g.last p g.time) ∧
      ∀ x, x ≠ p → Function.update g.last p g.time x < Function.update g.last p g.time p := by
    intro c p hi hrun
    have hp : ∀ m, p ∉ q (.blockQueue m) := by
      intro m hmem
      rcases hi.runs.run c p (by simp) hrun with rfl | hready
      · exact hlists.idle_notMem c _ hmem
      · have := hlists.repr.disjoint _ _ p hmem hready
        cases this
    refine ⟨hp, hl.tick hp _, fun x hx => ?_⟩
    rw [Function.update_of_ne hx, Function.update_self]
    exact htime x
  cases e with
  | trap c call env =>
    have hk' := hk
    simp only [Kernel.step] at hk'
    split at hk'
    · rename_i hcond
      have hi := hinv hcond.2
      split at hk'
      · cases hk'
      · rename_i p hrun
        obtain ⟨hp, hl₁, hlast⟩ := hactor c p hi hrun
        split at hk'
        · rename_i hcall
          by_cases hpi : p = idlePcb c
          · obtain rfl := hcall.resolve_right (not_not.2 hpi)
            obtain ⟨hafter, -⟩ := hi.toMid.afterScheduler hl₁ hrun hcond.1 hlast hk'
            exact good_of_after hlife hl htime (p := p) (by exact hrun) hp hafter
              (fun m x _ => by rw [records_same rfl rfl]) hk hs
          · obtain ⟨inside₁, hafter, hrec⟩ :=
              hi.toMid.afterHandle hl₁ hrun hpi hcond.1 hlast (he p hrun) hk'
            exact good_of_after hlife hl htime (p := p) (by exact hrun) hp hafter hrec hk hs
        · cases hk'
    · cases hk'
  | resume c env =>
    have hk' := hk
    simp only [Kernel.step] at hk'
    split at hk'
    · rename_i hcond
      have hi := hinv hcond.2
      split at hk'
      · cases hk'
      · rename_i p hrun
        obtain ⟨hp, hl₁, hlast⟩ := hactor c p hi hrun
        obtain ⟨inside₁, hafter, hrec⟩ := hi.afterGoOn hl₁ hrun hcond.1 hlast hk'
        exact good_of_after hlife hl htime (p := p) (by exact hrun) hp hafter hrec hk hs
    · cases hk'
  | slaveJoin =>
    have hk' := hk
    simp only [Kernel.step] at hk'
    split at hk'
    · rename_i hcond
      have hi := hinv hcond.2.1
      obtain ⟨hinv', second, hsecond, heq⟩ := hi.slaveJoin hcond.2.2 hk'
      have hl' := hl.slaveJoin hi.toMid hcond.1 hcond.2.2 hsecond
      rw [← heq] at hl'
      rw [Monitor.step, hk, Option.map_some, Option.some.injEq] at hs
      subst hs
      have hpid : k'.pid = g.kernel.pid := by rw [heq]; rfl
      refine ⟨⟨q, hinv'.lists, hinv'.life, ?_, fun x => (htime x).trans (Nat.lt_succ_self _),
        fun _ => hinv'⟩, fun m x y hx hy _ _ hx' _ => ?_⟩
      · refine hl'.forget (fun m x hx => ?_) (fun m x hx hown => .inl ?_) (fun x hx => hx)
        · simp only [advance, decide_eq_true_eq] at hx
          exact (records_same rfl rfl).1 hx.2
        · simp only [advance, decide_eq_true_eq]
          exact ⟨(hl'.holds m x hx).1, (records_same rfl rfl).2 hx⟩
      · exact absurd ((waiting_iff hinv'.life hl').2 ((waiting_iff hlife hl).1 hx)) hx'
    · cases hk'

lemma boot_good (tasks : List (List UInt8)) : (boot tasks).Good := by
  have hi := boot_inv tasks
  have hpid : ∀ p, (Kernel.boot tasks).pid p ≠ 0 → p = .slot 0 := by
    intro p hp
    obtain ⟨h, hmem⟩ := (hi.life.live p (by simp)).1 hp
    by_cases hh : h = .readyQueue
    · simpa [bootQueues, hh] using hmem
    · simp [bootQueues, hh] at hmem
  have hready : ∀ h p, p ∈ bootQueues h → h = .readyQueue := by
    intro h p hp
    by_contra hh
    simp [bootQueues, hh] at hp
  refine ⟨bootQueues, hi.lists, hi.life, ⟨fun p r hp hpr => ?_, fun m => ?_, fun m hm => ?_,
    fun m hm => ?_, fun h p hp hh => absurd (hready h p hp) hh,
    fun h p hp hh => absurd (hready h p hp) hh, fun p hp => ?_, fun m p hh => ?_, fun m p hp => ?_,
    fun m => ?_, fun p => ?_⟩, fun p => Nat.one_pos, fun _ => hi⟩
  · rw [hpid p hp, hpid r (hpr ▸ hp)]
  · exact ⟨fun _ => rfl, fun _ => rfl⟩
  · exact absurd rfl hm
  · simp [bootQueues] at hm
  · have hp0 : p = .slot 0 := by simpa [bootQueues] using hp
    rw [hp0]
    simp [boot, Kernel.boot]
  · exact absurd hh.2.1 (by simp [boot, Kernel.boot])
  · cases hp
  · simp [bootQueues]
  · exact trivial

end Runs

/-- The monitor semantics of mutexes and condition variables: in every allowed run
the law holds in every state, and every further step grants mutexes to waiting
tasks in the order in which they blocked. -/
theorem monitor_law {tasks : List (List UInt8)} {es : List Event} {g : Monitor}
    (hes : StepsMeet step Allowed (boot tasks) es) (hrun : run step (boot tasks) es = some g) :
    g.Law ∧ ∀ e g', g.Allowed e → g.step e = some g' → g.InOrder g' := by
  have hg : g.Good := run_invariant (P := Good) (fun _ _ _ hg hC hs => (hg.step hC hs).1)
    (boot_good tasks) hes hrun
  exact ⟨hg.law, fun e g' he hs => (hg.step he hs).2⟩

/-- The shell starts a task and acquires mutex 0; the task blocks on it. -/
def lockRun : List Event :=
  [.trap 0 (.exec [104]) quietEnv, .trap 0 (.mutexLockAcquire 0) quietEnv, .trap 0 .yield quietEnv,
    .resume 0 quietEnv, .trap 0 (.mutexLockAcquire 0) quietEnv, .resume 0 quietEnv]

lemma lockRun_isSome : (run step (boot [[104]]) lockRun).isSome = true := by decide

lemma lockRun_allowed : StepsMeet step Allowed (boot [[104]]) lockRun := by
  refine stepsMeet_cons (fun _ _ => trivial) fun _ _ => stepsMeet_cons (fun _ _ => trivial) ?_
  refine fun _ _ => stepsMeet_cons (fun _ _ => trivial) fun _ _ => stepsMeet_cons trivial ?_
  refine fun _ _ => stepsMeet_cons (fun _ _ => trivial) fun _ _ => stepsMeet_cons trivial ?_
  exact fun _ _ => stepsMeet_nil _ _

/-- The shell releases the mutex. -/
def releaseRun : List Event := lockRun ++ [.trap 0 (.mutexLockRelease 0) quietEnv]

lemma releaseRun_isSome : (run step (boot [[104]]) releaseRun).isSome = true := by decide

theorem monitor_law_releaseRun :
    let g := (run step (boot [[104]]) releaseRun).get releaseRun_isSome
    g.Law ∧ ∀ e g', g.Allowed e → g.step e = some g' → g.InOrder g' := by
  refine monitor_law ?_ (Option.some_get releaseRun_isSome).symm
  refine lockRun_allowed.append fun t ht => stepsMeet_cons (fun p hp m hm => ?_) fun _ _ =>
    stepsMeet_nil _ _
  have hinside : ∀ p m, ((run step (boot [[104]]) lockRun).get lockRun_isSome).kernel.runnings 0 =
      some p → slotOf 0 = some m →
      ((run step (boot [[104]]) lockRun).get lockRun_isSome).inside m p = true := by
    decide
  rw [Option.get_of_eq_some _ ht] at hinside
  exact hinside p m hp hm

end Monitor
end Sched
end UcasKernel
