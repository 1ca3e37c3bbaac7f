/-
The keys that name mutexes, barriers and condition variables.

An init stores its key in the slot `key % 16` and returns the number of the slot.  The
remainder has the sign of the key, and no function reads a stored key: two keys with one
remainder name the same object, and a key with a negative remainder names none.  Different
slots are independent: what goes through one handle leaves the owner, the counts and the
waiters under the others alone.
-/
import UcasKernel.Locking.Barrier
import UcasKernel.Locking.Destroy

namespace UcasKernel
namespace Sched

open Trace

/-- The kernel with the fields `key` of `mlocks`, `barriers` and `conditions`. -/
structure Keyed where
  kernel : Kernel
  mlockKey : Slot → ℤ
  barrierKey : Slot → ℤ
  conditionKey : Slot → ℤ

namespace Keyed

/-! ## The inits -/

/-- `do_mutex_lock_init`: the handle, and the state behind the call. -/
def mutexLockInit (s : Keyed) (key : ℤ) : Option (ℤ × Keyed) := do
  let index := key.tmod 16
  let m ← slotOf index
  some (index, { s with mlockKey := Function.update s.mlockKey m key })

/-- `do_barrier_init`. -/
def barrierInit (s : Keyed) (key goal : ℤ) : Option (ℤ × Keyed) := do
  let barIdx := key.tmod 16
  let b ← slotOf barIdx
  let k ← s.kernel.barrierInit key goal
  some (barIdx, { s with kernel := k, barrierKey := Function.update s.barrierKey b key })

/-- `do_condition_init`. -/
def conditionInit (s : Keyed) (key : ℤ) : Option (ℤ × Keyed) := do
  let idx := key.tmod 16
  let c ← slotOf idx
  some (idx, { s with conditionKey := Function.update s.conditionKey c key })

/-- The init of a kind; only that of a barrier gets a goal. -/
def init (s : Keyed) (goal : ℤ) : Kind → ℤ → Option (ℤ × Keyed)
  | .mutex, key => s.mutexLockInit key
  | .barrier, key => s.barrierInit key goal
  | .condition, key => s.conditionInit key

/-- The key names the object of this kind in the slot `i`, with the handle `h`. -/
def Names (s : Keyed) (kind : Kind) (key h : ℤ) (i : Slot) : Prop :=
  slotOf h = some i ∧ ∃ goal s', s.init goal kind key = some (h, s')

/-! ## Runs -/

/-- What the other calls store in the fields `key`. -/
def storeKey (s : Keyed) : Call → Keyed
  | .barrierInit key _ =>
    match slotOf (key.tmod 16) with
    | some b => { s with barrierKey := Function.update s.barrierKey b key }
    | none => s
  | .barrierDestroy idx =>
    match slotOf idx with
    | some b => { s with barrierKey := Function.update s.barrierKey b 0 }
    | none => s
  | .conditionDestroy idx =>
    match slotOf idx with
    | some c => { s with conditionKey := Function.update s.conditionKey c 0 }
    | none => s
  | _ => s

/-- A trap whose handler is the init of a mutex or a condition variable. -/
def trapInit (s : Keyed) (cpuid : Cpu) (init : Option (ℤ × Keyed)) : Option Keyed :=
  if s.kernel.inKernel = none ∧ s.kernel.stuck = false then
    match s.kernel.runnings cpuid with
    | none => none
    | some p =>
      if p ≠ idlePcb cpuid then
        init.map fun r => { r.2 with kernel := r.2.kernel.retFromKernel cpuid }
      else none
  else none

/-- The steps of the kernel and the two inits that are none of them. -/
inductive Event
  | mutexLockInit (cpuid : Cpu) (key : ℤ)
  | conditionInit (cpuid : Cpu) (key : ℤ)
  | other (e : Sched.Event)

def step (s : Keyed) : Event → Option Keyed
  | .mutexLockInit cpuid key => s.trapInit cpuid (s.mutexLockInit key)
  | .conditionInit cpuid key => s.trapInit cpuid (s.conditionInit key)
  | .other (.trap cpuid call env) => do
    let k ← s.kernel.step (.trap cpuid call env)
    some { s.storeKey call with kernel := k }
  | .other e => do
    let k ← s.kernel.step e
    some { s with kernel := k }

/-- The state behind `init_locks`, `init_barriers` and `init_conditions`. -/
def boot (tasks : List (List UInt8)) : Keyed where
  kernel := Kernel.boot tasks
  mlockKey := fun _ => 0
  barrierKey := fun _ => 0
  conditionKey := fun _ => 0

/-- The step does not break the queues of the scheduler. -/
def Careful (s : Keyed) : Event → Prop
  | .other e => s.kernel.Careful e
  | _ => True

end Keyed

/-! ## What goes through a handle -/

/-- The functions that get a handle.  `do_condition_wait` gets that of a mutex as well. -/
inductive Use
  | mutexLockAcquire
  | mutexLockRelease
  | barrierWait
  | barrierDestroy
  | conditionWait (mutexIdx : ℤ)
  /-- `do_condition_wait` behind its `do_block`. -/
  | conditionWoken (mlockIdx : Slot)
  | conditionSignal
  | conditionBroadcast
  | conditionDestroy

namespace Use

def kind : Use → Kind
  | .mutexLockAcquire | .mutexLockRelease => .mutex
  | .barrierWait | .barrierDestroy => .barrier
  | _ => .condition

/-- The function, called by task `p` with a handle. -/
def apply (k : Kernel) (cpuid : Cpu) (p : Pcb) (env : Env) (handle : ℤ) : Use → Option Kernel
  | .mutexLockAcquire => k.handle cpuid p env (.mutexLockAcquire handle)
  | .mutexLockRelease => k.handle cpuid p env (.mutexLockRelease handle)
  | .barrierWait => k.handle cpuid p env (.barrierWait handle)
  | .barrierDestroy => k.handle cpuid p env (.barrierDestroy handle)
  | .conditionWait mutexIdx => k.handle cpuid p env (.conditionWait handle mutexIdx)
  | .conditionWoken mlockIdx => k.goOn cpuid p env (.conditionWait mlockIdx)
  | .conditionSignal => k.handle cpuid p env (.conditionSignal handle)
  | .conditionBroadcast => k.handle cpuid p env (.conditionBroadcast handle)
  | .conditionDestroy => k.handle cpuid p env (.conditionDestroy handle)

/-- The function works on the mutex in the slot `i` besides the object of its handle. -/
def Passes (i : Slot) : Use → Prop
  | .conditionWait mutexIdx => slotOf mutexIdx = some i
  | .conditionWoken mlockIdx => mlockIdx = i
  | _ => False

end Use

/-- The owner, the goal, the arrival count and the waiters of an object are as they were. -/
structure Untouched (kind : Kind) (i : Slot) (k k' : Kernel) : Prop where
  owner : kind = .mutex → k'.mlocks i = k.mlocks i
  counts : kind = .barrier → k'.barriers i = k.barriers i
  waiters : k'.queue (kind.queue i) = k.queue (kind.queue i)

/-- What is done with `key'` leaves the objects of `key` alone.  An init may fail, as
`do_mbox_open` does, with -1 and nothing changed. -/
structure Keyed.Independent (s : Keyed) (key key' : ℤ) : Prop where
  index : ∀ kind goal, ∀ x ∈ [key, key'], ∃ h s', s.init goal kind x = some (h, s') ∧
    (0 ≤ h ∧ h < 16 ∨ h = -1 ∧ s' = s)
  init : ∀ kind h i, s.Names kind key h i → ∀ goal kind' h' s',
    s.init goal kind' key' = some (h', s') → Untouched kind i s.kernel s'.kernel
  use : ∀ kind h i, s.Names kind key h i → ∀ (u : Use) h' i', s.Names u.kind key' h' i' →
    ¬ (kind = .mutex ∧ u.Passes i) → ∀ c p env k', s.kernel.runnings c = some p → p ≠ idlePcb c →
      u.apply s.kernel c p env h' = some k' → Untouched kind i s.kernel k'

/-! ## What leaves an object alone -/

namespace Kernel

/-- The queues are still lists, and the object is as it was. -/
def Spares (kind : Kind) (i : Slot) (k : Kernel) (q : Head → List Pcb) (k' : Kernel) : Prop :=
  ∃ q', k'.Lists q' ∧ SameObject kind i k q k' q'

section SameObject

variable {kind : Kind} {i m b : Slot} {k k₁ k' : Kernel} {q q₁ q' : Head → List Pcb} {c : Cpu}
  {p : Pcb} {env : Env}

lemma Spares.after (hs : Spares kind i k₁ q₁ k') (h : SameObject kind i k q k₁ q₁) :
    Spares kind i k q k' := by
  obtain ⟨q', hl, hk⟩ := hs
  exact ⟨q', hl, h.trans hk⟩

lemma Spares.untouched (hl : k.Lists q) (hs : Spares kind i k q k') : Untouched kind i k k' := by
  obtain ⟨q', hl', hk⟩ := hs
  refine ⟨hk.mlocks, hk.barriers, ?_⟩
  rw [hl'.queue_eq (hl'.init _ queue_ne_waitList), hl.queue_eq (hl.init _ queue_ne_waitList),
    hk.list]

lemma Lists.spares_ret (hl : k.Lists q) (c : Cpu) : Spares kind i k q (k.retFromKernel c) := by
  obtain ⟨hlinks, hmlocks, hbarriers⟩ := retFromKernel_eq k c
  exact ⟨q, ⟨hlinks ▸ hl.repr, hlinks ▸ hl.init, hl.slots⟩, fun _ => congrFun hmlocks i,
    fun _ => congrFun hbarriers i, rfl⟩

lemma Mid.spares_block {h : Head} {cont : Cont} (hm : k.Mid q none none)
    (hrun : k.runnings c = some p) (hp : p ≠ idlePcb c) (hh : ∀ r, h ≠ .waitList r)
    (hne : kind.queue i ≠ h) (hk : k.doBlock c p h cont = some k') : Spares kind i k q k' := by
  obtain ⟨L, r, hk₁, -, hinv⟩ := hm.doBlock cont hrun hp fun r hr => absurd hr (hh r)
  obtain rfl := Option.some.inj (hk.symm.trans hk₁)
  exact ⟨_, hinv.lists, fun _ => rfl, fun _ => rfl, move_of_ne queue_ne_readyQueue hne⟩

/-! ## The functions that get a handle -/

lemma Mid.spares_acquire {cont : Cont} (hm : k.Mid q none none) (hrun : k.runnings c = some p)
    (hp : p ≠ idlePcb c) (hne : kind.queue i ≠ .blockQueue m)
    (hk : k.mutexLockAcquire c p m cont (fun k => some (k.retFromKernel c)) = some k') :
    Spares kind i k q k' := by
  unfold Kernel.mutexLockAcquire at hk
  split at hk
  · exact hm.spares_block hrun hp (by simp) hne hk
  · obtain rfl := Option.some.inj hk
    exact ((hm.setMlock m _).lists.spares_ret c).after (.setMlock _ hne)

lemma Mid.spares_release (hm : k.Mid q none none) (hne : kind.queue i ≠ .blockQueue m)
    (hk : Kernel.returning (k.mutexLockRelease m) c = some k') : Spares kind i k q k' := by
  obtain ⟨k₁, q₁, hk₁, hm₁, -, hrel⟩ := hm.mutexLockRelease m
  rw [Kernel.returning, hk₁, Option.map_some, Option.some.injEq] at hk
  subst hk
  exact (hm₁.lists.spares_ret c).after (hrel.sameObject hne)

lemma Mid.spares_barrierWait (hm : k.Mid q none none) (hrun : k.runnings c = some p)
    (hp : p ≠ idlePcb c) (hne : kind.queue i ≠ .blockList b)
    (hk : k.barrierWait c p b = some k') : Spares kind i k q k' := by
  have hm₁ := hm.setBarrier b { k.barriers b with current := (k.barriers b).current + 1 }
  simp only [Kernel.barrierWait] at hk
  split at hk
  · exact (hm₁.spares_block hrun hp (by simp) hne hk).after (.setBarrier _ hne)
  · obtain ⟨k₂, q₂, hk₂, hw, -⟩ := hm₁.unblockAll (h := .blockList b) (by simp) (by simp)
    rw [hk₂, Option.bind_eq_bind, Option.bind_some, Option.some.injEq] at hk
    subst hk
    have hsame := (SameObject.setBarrier _ hne).trans (hw.sameObject (by simp) hne hm₁)
    exact (((hw.mid (by simp) hm₁).1.setBarrier b _).lists.spares_ret c).after
      (hsame.trans (.setBarrier _ hne))

lemma Mid.spares_barrierDestroy (hm : k.Mid q none none) (hne : kind.queue i ≠ .blockList b)
    (hk : Kernel.returning (k.barrierDestroy b) c = some k') : Spares kind i k q k' := by
  have hl₁ := (hm.setBarrier b { k.barriers b with current := 0 }).lists
  obtain ⟨L, hL, hl₂⟩ := hl₁.deleteAll (h := .blockList b) (hl₁.init _ (by simp))
  rw [Kernel.returning, Kernel.barrierDestroy, hL, Option.map_some, Option.some.injEq] at hk
  subst hk
  have hset := SameObject.setBarrier (k := k) (q := q) { k.barriers b with current := 0 } hne
  exact (hl₂.spares_ret c).after ⟨hset.mlocks, hset.barriers, Function.update_of_ne hne ..⟩

lemma Mid.spares_wakes {b' : Slot} {o : Option Kernel} (hm : k.Mid q none none)
    (hne : kind.queue i ≠ .condWaitList b')
    (ho : ∃ k₁ q₁, o = some k₁ ∧ Wakes (· = .condWaitList b') k q k₁ q₁)
    (hk : Kernel.returning o c = some k') : Spares kind i k q k' := by
  obtain ⟨k₁, q₁, rfl, hw⟩ := ho
  rw [Kernel.returning, Option.map_some, Option.some.injEq] at hk
  subst hk
  exact ((hw.mid (by simp) hm).1.lists.spares_ret c).after (hw.sameObject (by simp) hne hm)

lemma Mid.spares_conditionWait {b' : Slot} (hm : k.Mid q none none) (hrun : k.runnings c = some p)
    (hp : p ≠ idlePcb c) (hne : kind.queue i ≠ .condWaitList b')
    (hmutex : kind.queue i ≠ .blockQueue m) (hk : k.conditionWait c p b' m = some k') :
    Spares kind i k q k' := by
  obtain ⟨k₁, q₁, hk₁, hm₁, hquiet₁, hrel⟩ := hm.mutexLockRelease m
  rw [Kernel.conditionWait, hk₁, Option.bind_eq_bind, Option.bind_some] at hk
  exact (hm₁.spares_block ((congrFun hquiet₁.runnings c).trans hrun) hp (by simp) hne hk).after
    (hrel.sameObject hmutex)

/-- What goes through the handle of a slot leaves all objects in other slots alone, but for the
mutex that is passed. -/
lemma Mid.spares_apply {u : Use} {h' : ℤ} {i' : Slot} (hm : k.Mid q none none)
    (hrun : k.runnings c = some p) (hp : p ≠ idlePcb c) (hslot : slotOf h' = some i')
    (hne : i ≠ i') (hpass : ¬ (kind = .mutex ∧ u.Passes i))
    (hk : u.apply k c p env h' = some k') : Spares kind i k q k' := by
  have hother : ∀ kind' : Kind, kind.queue i ≠ kind'.queue i' := fun _ heq =>
    hne (queue_injective heq)
  cases u with
  | mutexLockAcquire =>
    simp only [Use.apply, Kernel.handle, hslot, Option.bind_eq_bind, Option.bind_some] at hk
    exact hm.spares_acquire hrun hp (hother .mutex) hk
  | mutexLockRelease =>
    simp only [Use.apply, Kernel.handle, hslot, Option.bind_eq_bind, Option.bind_some] at hk
    exact hm.spares_release (hother .mutex) hk
  | barrierWait =>
    simp only [Use.apply, Kernel.handle, hslot, Option.bind_eq_bind, Option.bind_some] at hk
    exact hm.spares_barrierWait hrun hp (hother .barrier) hk
  | barrierDestroy =>
    simp only [Use.apply, Kernel.handle, hslot, Option.bind_eq_bind, Option.bind_some] at hk
    exact hm.spares_barrierDestroy (hother .barrier) hk
  | conditionWait mutexIdx =>
    simp only [Use.apply, Kernel.handle, hslot, Option.bind_eq_bind, Option.bind_some] at hk
    obtain ⟨m, hm', hk⟩ := Option.bind_eq_some_iff.1 hk
    refine hm.spares_conditionWait hrun hp (hother .condition) (fun heq => hpass ?_) hk
    obtain ⟨hkind, rfl⟩ := queue_eq_blockQueue.1 heq
    exact ⟨hkind, hm'⟩
  | conditionWoken m =>
    refine hm.spares_acquire hrun hp (fun heq => hpass ?_) hk
    obtain ⟨hkind, rfl⟩ := queue_eq_blockQueue.1 heq
    exact ⟨hkind, rfl⟩
  | conditionSignal =>
    simp only [Use.apply, Kernel.handle, hslot, Option.bind_eq_bind, Option.bind_some] at hk
    exact hm.spares_wakes (hother .condition) (hm.conditionSignal i') hk
  | conditionBroadcast =>
    simp only [Use.apply, Kernel.handle, hslot, Option.bind_eq_bind, Option.bind_some] at hk
    exact hm.spares_wakes (hother .condition) (hm.conditionBroadcast i') hk
  | conditionDestroy =>
    simp only [Use.apply, Kernel.handle, hslot, Option.bind_eq_bind, Option.bind_some] at hk
    exact hm.spares_wakes (hother .condition) (hm.conditionBroadcast i') hk

end SameObject

end Kernel

namespace Keyed

section Keys

variable {s s' : Keyed} {kind : Kind} {key key' goal h : ℤ} {i : Slot} {e : Event}

/-! ## The handle of a key -/

/-- The keys that have a slot. -/
lemma exists_slotOf_iff : (∃ i, slotOf (key.tmod 16) = some i) ↔ 0 ≤ key ∨ 16 ∣ key := by
  have hrange : (∃ i, slotOf (key.tmod 16) = some i) ↔ 0 ≤ key.tmod 16 ∧ key.tmod 16 < 16 := by
    rw [← Option.isSome_iff_exists, slotOf]
    split <;> simp_all
  rw [hrange]
  have hlt : key.tmod 16 < 16 := Int.tmod_lt_of_pos key (by decide)
  rcases Int.lt_or_le key 0 with hneg | hpos
  · have hdvd := Int.dvd_iff_tmod_eq_zero (a := 16) (b := key)
    have hle : key.tmod 16 ≤ 0 := by
      have := Int.tmod_nonneg 16 (a := -key) (by omega)
      rw [Int.neg_tmod] at this
      omega
    omega
  · simp only [hpos, Int.tmod_nonneg 16 hpos, hlt, true_or, and_self]

/-- Keys that have slots have the same one when their remainders agree. -/
lemma tmod_eq_iff (hkey : 0 ≤ key ∨ 16 ∣ key) (hkey' : 0 ≤ key' ∨ 16 ∣ key') :
    key.tmod 16 = key'.tmod 16 ↔ key % 16 = key' % 16 := by
  have hemod : ∀ x : ℤ, 0 ≤ x ∨ 16 ∣ x → x.tmod 16 = x % 16 := by
    rintro x (hx | hx)
    · exact Int.tmod_eq_emod_of_nonneg hx
    · rw [Int.emod_eq_zero_of_dvd hx, Int.tmod_eq_zero_of_dvd hx]
  rw [hemod key hkey, hemod key' hkey']

lemma init_spec (hslot : slotOf (key.tmod 16) = some i) (goal : ℤ) (kind : Kind) :
    ∃ s', s.init goal kind key = some (key.tmod 16, s') ∧ s'.kernel =
      if kind = .barrier then s.kernel.setBarrier i { s.kernel.barriers i with goal := goal }
      else s.kernel := by
  cases kind with
  | mutex =>
    simp only [init, mutexLockInit, hslot, Option.bind_eq_bind, Option.bind_some]
    exact ⟨_, rfl, rfl⟩
  | barrier =>
    simp only [init, barrierInit, Kernel.barrierInit, hslot, Option.bind_eq_bind, Option.bind_some]
    exact ⟨_, rfl, rfl⟩
  | condition =>
    simp only [init, conditionInit, hslot, Option.bind_eq_bind, Option.bind_some]
    exact ⟨_, rfl, rfl⟩

lemma init_slot (hinit : s.init goal kind key = some (h, s')) :
    h = key.tmod 16 ∧ ∃ i, slotOf h = some i := by
  cases kind <;>
    simp only [init, mutexLockInit, barrierInit, conditionInit, Option.bind_eq_bind,
      Option.bind_eq_some_iff, Option.some.injEq, Prod.mk.injEq] at hinit
  · obtain ⟨i, hi, rfl, -⟩ := hinit
    exact ⟨rfl, i, hi⟩
  · obtain ⟨i, hi, _, -, rfl, -⟩ := hinit
    exact ⟨rfl, i, hi⟩
  · obtain ⟨i, hi, rfl, -⟩ := hinit
    exact ⟨rfl, i, hi⟩

lemma Names.slot (hn : s.Names kind key h i) : slotOf (key.tmod 16) = some i := by
  obtain ⟨hi, goal, s', hinit⟩ := hn
  exact (init_slot hinit).1 ▸ hi

/-! ## Runs -/

/-- A careful step keeps the invariant of the scheduler. -/
lemma exists_inv_step (hi : ∃ q, s.kernel.Inv q) (he : s.Careful e) (hs : s.step e = some s') :
    ∃ q, s'.kernel.Inv q := by
  obtain ⟨q, hi⟩ := hi
  have htrap : ∀ c (o : Option (ℤ × Keyed)), (∀ r, o = some r → r.2.kernel = s.kernel) →
      s.trapInit c o = some s' → ∃ q, s'.kernel.Inv q := by
    intro c o ho hs
    unfold trapInit at hs
    split at hs
    · split at hs
      · cases hs
      · rename_i p hrun
        split at hs
        · obtain ⟨r, hr, rfl⟩ := Option.map_eq_some_iff.1 hs
          refine ⟨q, ?_⟩
          rw [ho r hr]
          exact hi.retFromKernel hrun
        · cases hs
    · cases hs
  cases e with
  | mutexLockInit c key =>
    refine htrap c _ (fun r hr => ?_) hs
    obtain ⟨m, -, hr⟩ := Option.bind_eq_some_iff.1 hr
    obtain rfl := Option.some.inj hr
    rfl
  | conditionInit c key =>
    refine htrap c _ (fun r hr => ?_) hs
    obtain ⟨m, -, hr⟩ := Option.bind_eq_some_iff.1 hr
    obtain rfl := Option.some.inj hr
    rfl
  | other e =>
    have hkernel : s.kernel.step e = some s'.kernel := by
      cases e <;>
        · simp only [step, Option.bind_eq_bind, Option.bind_eq_some_iff] at hs
          obtain ⟨k, hk, hs⟩ := hs
          obtain rfl := Option.some.inj hs
          exact hk
    exact (hi.step he hkernel).inv

lemma run_inv {tasks : List (List UInt8)} {es : List Event}
    (hrun : run step (boot tasks) es = some s)
    (hsafe : StepsMeet step Careful (boot tasks) es) : ∃ q, s.kernel.Inv q :=
  run_invariant (P := fun s => ∃ q, s.kernel.Inv q) (fun _ _ _ => exists_inv_step)
    ⟨_, Kernel.boot_inv tasks⟩ hsafe hrun

/-! ## Which keys are independent -/

/-- Independent keys have slots. -/
lemma Independent.exists_slot (hind : s.Independent key key') :
    ∀ x ∈ [key, key'], ∃ i, slotOf (x.tmod 16) = some i := by
  intro x hx
  obtain ⟨h, s', hinit, -⟩ := hind.index .mutex 0 x hx
  obtain ⟨rfl, hi⟩ := init_slot hinit
  exact hi

/-- Independent keys do not share a slot: a new goal of the barrier would be seen under the other
key. -/
lemma Independent.slot_ne (hind : s.Independent key key') (hslot : slotOf (key.tmod 16) = some i) :
    slotOf (key'.tmod 16) ≠ some i := by
  intro hslot'
  obtain ⟨s₀, hs₀, -⟩ := init_spec (s := s) hslot 0 .barrier
  obtain ⟨s₁, hs₁, hk₁⟩ := init_spec (s := s) hslot' ((s.kernel.barriers i).goal + 1) .barrier
  have hsame := (hind.init .barrier _ i ⟨hslot, 0, s₀, hs₀⟩ _ _ _ _ hs₁).counts rfl
  have hgoal := congrArg Barrier.goal hsame
  rw [hk₁, if_pos rfl] at hgoal
  simp [Kernel.setBarrier] at hgoal

/-- After a run that does not break the queues of the scheduler, two keys name independent objects
exactly when both have a slot and it is not the same. -/
theorem keys_independent_iff {tasks : List (List UInt8)} {es : List Event}
    (hrun : run step (boot tasks) es = some s)
    (hsafe : StepsMeet step Careful (boot tasks) es) (key key' : ℤ) :
    s.Independent key key' ↔
      (0 ≤ key ∨ 16 ∣ key) ∧ (0 ≤ key' ∨ 16 ∣ key') ∧ key % 16 ≠ key' % 16 := by
  obtain ⟨q, hi⟩ := run_inv hrun hsafe
  constructor
  · intro hind
    obtain ⟨i, hslot⟩ := hind.exists_slot key (by simp)
    obtain ⟨i', hslot'⟩ := hind.exists_slot key' (by simp)
    have hkey := exists_slotOf_iff.1 ⟨i, hslot⟩
    have hkey' := exists_slotOf_iff.1 ⟨i', hslot'⟩
    refine ⟨hkey, hkey', fun heq => hind.slot_ne hslot ?_⟩
    rwa [← (tmod_eq_iff hkey hkey').2 heq]
  · rintro ⟨hkey, hkey', hne⟩
    have hslots : ∀ x ∈ [key, key'], ∃ i, slotOf (x.tmod 16) = some i := by
      intro x hx
      rcases List.mem_pair.1 hx with rfl | rfl
      · exact exists_slotOf_iff.2 hkey
      · exact exists_slotOf_iff.2 hkey'
    have hdiff : ∀ {i i' : Slot}, slotOf (key.tmod 16) = some i → slotOf (key'.tmod 16) = some i' →
        i ≠ i' := by
      rintro i i' hs hs' rfl
      refine hne ((tmod_eq_iff hkey hkey').1 ?_)
      rw [slotOf_eq_some_iff.1 hs, slotOf_eq_some_iff.1 hs']
    refine ⟨fun kind goal x hx => ?_, fun kind h i hn goal kind' h' s' hinit => ?_,
      fun kind h i hn u h' i' hn' hpass c p env k' hrun' hp hk => ?_⟩
    · obtain ⟨i, hslot⟩ := hslots x hx
      obtain ⟨s', hs', -⟩ := init_spec (s := s) hslot goal kind
      have hrange := slotOf_eq_some_iff.1 hslot
      exact ⟨_, s', hs', .inl (by omega)⟩
    · obtain ⟨rfl, i', hslot'⟩ := init_slot hinit
      obtain ⟨s₁, hs₁, hk₁⟩ := init_spec (s := s) hslot' goal kind'
      obtain rfl : s₁ = s' := by
        rw [hs₁, Option.some.injEq, Prod.mk.injEq] at hinit
        exact hinit.2
      have hspares : Kernel.Spares kind i s.kernel q s₁.kernel := by
        rw [hk₁]
        split
        · refine ⟨q, (hi.toMid.setBarrier _ _).lists, .setBarrier _ fun heq => ?_⟩
          have heq' : kind.queue i = Kind.barrier.queue i' := heq
          exact hdiff hn.slot hslot' (Kernel.queue_injective heq')
        · exact ⟨q, hi.lists, .refl⟩
      exact hspares.untouched hi.lists
    · have hspares := hi.toMid.spares_apply hrun' hp hn'.1 (hdiff hn.slot hn'.slot) hpass hk
      exact hspares.untouched hi.lists

end Keys

/-- A process makes a barrier with the key 1 for three tasks. -/
def keyRun : List Event := [.other (.trap 0 (.barrierInit 1 3) Kernel.quietEnv), .mutexLockInit 0 1]

lemma keyRun_isSome : (run step (boot [[104]]) keyRun).isSome = true := by decide

theorem keys_independent_two :
    ((run step (boot [[104]]) keyRun).get keyRun_isSome).Independent 1 2 := by
  refine (keys_independent_iff (Option.some_get keyRun_isSome).symm ?_ 1 2).2 (by decide)
  refine stepsMeet_cons (fun _ _ => trivial) fun _ _ => ?_
  exact stepsMeet_cons trivial fun _ _ => stepsMeet_nil _ _

/-- With the key 17 the next process gets the same barrier, and changes its goal; the key -1 has no
slot. -/
theorem keys_share_barrier :
    let s := (run step (boot [[104]]) keyRun).get keyRun_isSome
    ¬ s.Independent 1 17 ∧ ¬ s.Independent 1 (-1) ∧
      (s.barrierInit 17 2).map (fun r => (r.1, (r.2.kernel.barriers 1).goal)) = some (1, 2) ∧
      (s.kernel.barriers 1).goal = 3 := by
  refine ⟨fun hind => hind.slot_ne (i := 1) (by decide) (by decide), fun hind => ?_, by decide,
    by decide⟩
  obtain ⟨i, hi⟩ := hind.exists_slot (-1) (by simp)
  exact Option.some_ne_none i (hi.symm.trans (by decide))

end Keyed
end Sched
end UcasKernel
