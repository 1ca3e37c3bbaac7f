/-
The indices of the tables of the kernel, over runs of steps.

No handler checks an index.  `a7` reaches `syscall` as it is; an index of a mutex, a barrier,
a condition variable, a mailbox or a descriptor reaches its table as it is; the remainder of
a negative key is negative; a mailbox that is not open has `mutex_id` -1; `e1000_transmit`
copies as many bytes as it is told.  A step is within the tables if and only if its registers
are, where a mailbox that is sent to or received from has to be open.  That a mailbox with
users has the mutex of its own number is the invariant of the runs.
-/
import UcasKernel.Lib.Trace
import UcasKernel.Sched.Accounts
import UcasKernel.Syscall.Dispatch

namespace UcasKernel
namespace Syscall

open Sched Logged

/-! ## The conditions -/

/-- An index of a table with 16 elements. -/
def IsSlot (i : ℤ) : Prop := 0 ≤ i ∧ i < 16

instance (i : ℤ) : Decidable (IsSlot i) := by
  unfold IsSlot
  infer_instance

/-- A key with a remainder that is not negative. -/
def IsKey (key : ℤ) : Prop := 0 ≤ key ∨ 16 ∣ key

/-- The index of a mailbox that is open. -/
def IsOpen (k : Kernel) (i : ℤ) : Prop := ∃ j : Slot, i = (j : ℕ) ∧ 0 < (k.mailboxes j).ref

/-- A length that fits a packet buffer. -/
def IsLength (length : ℤ) : Prop := 0 ≤ length ∧ length ≤ txPktSize

/-- The registers of a call are within the tables it uses. -/
def ArgsWithin (k : Kernel) (regs : Regs) (env : Env) : Handler → Prop
  | .doMutexLockInit | .doBarrierInit | .doConditionInit => IsKey (argInt regs regPosA0)
  | .doMutexLockAcquire | .doMutexLockRelease | .doBarrierWait | .doBarrierDestroy
  | .doConditionSignal | .doConditionBroadcast | .doConditionDestroy | .doMboxClose
  | .doFclose | .doFread | .doFwrite | .doLseek => IsSlot (argInt regs regPosA0)
  | .doConditionWait => IsSlot (argInt regs regPosA0) ∧ IsSlot (argInt regs regPosA1)
  | .doMboxSend | .doMboxRecv => IsOpen k (argInt regs regPosA0)
  | .doNetSend => env.transmitted = true → IsLength (argInt regs regPosA1)
  | _ => True

/-- The number of an `ecall` has an entry, and its registers are within the tables. -/
def Within (s : System) : Event → Prop
  | .ecall cpuid regs _ env => s.trapping cpuid ≠ none →
    ∃ handler, entry (regs regPosA7).toInt = some handler ∧ ArgsWithin s.kernel regs env handler
  | _ => True

/-- A mailbox is opened under a name that fits and is not the name of the mailboxes that are
not open, and a packet fits its buffer also if it has to wait. -/
def Keeping (s : System) : Event → Prop
  | .ecall _ regs user _ =>
    (entry (regs regPosA7).toInt = some .doMboxOpen →
      (user.string (regs regPosA0)).length < 32 ∧
        (user.string (regs regPosA0) ≠ [] ∨ ∀ i, (s.kernel.mailboxes i).name ≠ [])) ∧
    (entry (regs regPosA7).toInt = some .doNetSend → IsLength (argInt regs regPosA1))
  | _ => True

/-- A step within the tables after which the mailboxes and the packets are in order. -/
def Confined (s : System) (e : Event) : Prop := Within s e ∧ Keeping s e

/-! ## The invariant -/

/-- What identifies a mailbox: its name, its mutex and the number of its users. -/
def handles (k : Kernel) (i : Slot) : List UInt8 × ℤ × ℤ :=
  ((k.mailboxes i).name, (k.mailboxes i).mutexId, (k.mailboxes i).ref)

/-- Mailbox `i` is open with the mutex of its number, or it is not open. -/
def Orderly (i : Slot) (handle : List UInt8 × ℤ × ℤ) : Prop :=
  0 < handle.2.2 ∧ handle.2.1 = (i : ℕ) ∨ handle.2.2 ≤ 0 ∧ handle.2.1 = -1 ∧ handle.1 = []

/-- The same for all mailboxes, and the packets that wait fit. -/
structure System.Orderly (s : System) : Prop where
  mailbox : ∀ i, Syscall.Orderly i (handles s.kernel i)
  length : ∀ p, IsLength (s.length p)

/-! ## The indices of a step -/

section Uses

variable {s : System} {k : Kernel} {cpuid : Cpu} {p : Pcb} {env : Env}

lemma isSlot_coe (j : Slot) : IsSlot (j : ℕ) := ⟨by omega, by omega⟩

lemma isSlot_tmod {key : ℤ} : IsSlot (key.tmod 16) ↔ IsKey key := by
  rw [IsSlot, IsKey]
  rcases Int.le_total 0 key with h0 | h0
  · rw [Int.tmod_eq_emod_of_nonneg h0]
    omega
  · obtain ⟨n, rfl⟩ : ∃ n : ℕ, key = -n := ⟨(-key).toNat, by omega⟩
    rw [Int.neg_tmod, Int.tmod_eq_emod_of_nonneg (by omega)]
    omega

/-- A computation that begins with the index of a table. -/
lemma all_slot {α : Type} {table : Table} {i : ℤ} {f : Slot → UseLog α}
    (htable : InRange (table, i) ↔ IsSlot i) :
    (slot table i >>= f).All InRange ↔ IsSlot i ∧ ∀ j : Slot, i = (j : ℕ) → (f j).All InRange := by
  rw [all_bind]
  refine and_congr (all_tell.trans htable) (forall_congr' fun j => ?_)
  exact imp_congr_left slotOf_eq_some_iff

/-- A computation that uses nothing else. -/
lemma all_slot_last {α : Type} {table : Table} {i : ℤ} {f : Slot → UseLog α}
    (htable : InRange (table, i) ↔ IsSlot i) (hf : ∀ j, (f j).All InRange) :
    (slot table i >>= f).All InRange ↔ IsSlot i :=
  (all_slot htable).trans (and_iff_left fun j _ => hf j)

/-- The index of a mailbox, then that of its mutex. -/
lemma all_slot_mutex {α : Type} {i : ℤ} {f : Slot → Slot → UseLog α}
    (ho : ∀ j, Orderly j (handles k j)) (hf : ∀ j m, (f j m).All InRange) :
    (slot .mailboxes i >>= fun j => slot .mlocks (k.mailboxes j).mutexId >>= f j).All InRange ↔
      IsOpen k i := by
  rw [all_slot Iff.rfl]
  constructor
  · rintro ⟨⟨h0, h16⟩, hmutex⟩
    refine ⟨⟨i.toNat, by omega⟩, (Int.toNat_of_nonneg h0).symm, ?_⟩
    have hm := ((all_slot_last Iff.rfl (hf _)).1 (hmutex ⟨i.toNat, by omega⟩
      (Int.toNat_of_nonneg h0).symm)).1
    rcases ho ⟨i.toNat, by omega⟩ with ⟨href, -⟩ | ⟨-, hid, -⟩
    · exact href
    · simp only [handles] at hid
      omega
  · rintro ⟨j, rfl, href⟩
    refine ⟨isSlot_coe j, fun j' hj' => (all_slot_last Iff.rfl (hf _)).2 ?_⟩
    obtain rfl : j = j' := Fin.ext (Int.ofNat_inj.1 hj')
    rcases ho j with ⟨-, hid⟩ | ⟨hle, -⟩
    · simp only [handles] at hid
      rw [hid]
      exact isSlot_coe j
    · simp only [handles] at hle
      omega

/-- Closing a mailbox releases a mutex only if it was open. -/
lemma all_mboxCloseL {i : Slot} (ho : ∀ j, Orderly j (handles k j)) :
    (mboxCloseL k i).All InRange := by
  rw [mboxCloseL]
  dsimp only
  split
  · rename_i href
    refine (all_slot_last Iff.rfl fun m => ?_).2 ?_
    · exact All.bind (all_of _) fun _ _ => all_pure _
    · rcases ho i with ⟨-, hid⟩ | ⟨hle, -⟩
      · simp only [handles] at hid
        rw [hid]
        exact isSlot_coe i
      · simp only [handles] at hle
        omega
  · exact all_pure _

lemma all_callL {call : Call} :
    (s.callL cpuid p env call).All InRange ↔ (handleL s.kernel cpuid p env call).All InRange :=
  all_bind.trans (and_iff_left fun _ _ => all_pure _)

lemma all_initL {table : Table} {key : ℤ}
    (htable : InRange (table, key.tmod 16) ↔ IsSlot (key.tmod 16)) :
    (s.initL cpuid table key).All InRange ↔ IsKey key :=
  (all_slot_last htable fun _ => all_pure _).trans isSlot_tmod

lemma all_fdescL {fd : ℤ} : (s.fdescL cpuid fd).All InRange ↔ IsSlot fd :=
  all_slot_last Iff.rfl fun _ => all_pure _

lemma IsLength.bounds {length : ℤ} (h : IsLength length) : -2 ^ 31 ≤ length ∧ length < 2 ^ 31 := by
  obtain ⟨h0, hle⟩ := h
  simp only [txPktSize] at hle
  omega

/-- The length of a packet as a `uint32_t`. -/
lemma all_copyL {length : ℤ} (h32 : -2 ^ 31 ≤ length ∧ length < 2 ^ 31) :
    (System.copyL env length).All InRange ↔ (env.transmitted = true → IsLength length) := by
  rw [System.copyL]
  by_cases ht : env.transmitted = true
  · rw [if_pos ht, all_tell]
    simp only [InRange, IsLength, txPktSize, ht, true_imp_iff]
    omega
  · rw [if_neg ht]
    exact iff_of_true (all_pure _) fun h => absurd h ht

lemma argInt_bounds (regs : Regs) (i : Fin 32) :
    -2 ^ 31 ≤ argInt regs i ∧ argInt regs i < 2 ^ 31 :=
  ⟨BitVec.le_toInt _, BitVec.toInt_lt⟩

/-- The indices of a handler. -/
lemma all_dispatchL {regs : Regs} {user : UserMem} {handler : Handler}
    (ho : ∀ j, Orderly j (handles s.kernel j)) :
    (s.dispatchL cpuid p regs user env handler).All InRange ↔
      ArgsWithin s.kernel regs env handler := by
  cases handler with
  | doMutexLockInit | doConditionInit => exact all_initL Iff.rfl
  | doFclose | doFread | doFwrite | doLseek => exact all_fdescL
  | doMutexLockAcquire | doMutexLockRelease | doBarrierWait | doBarrierDestroy
  | doConditionSignal | doConditionBroadcast | doConditionDestroy =>
    exact all_callL.trans (all_slot_last Iff.rfl fun _ => all_of _)
  | doBarrierInit =>
    refine all_callL.trans (all_bind.trans ((and_iff_left fun _ _ => all_pure _).trans ?_))
    exact (all_slot_last Iff.rfl fun _ => all_pure _).trans isSlot_tmod
  | doConditionWait =>
    refine all_callL.trans ((all_slot Iff.rfl).trans (and_congr_right fun h => ?_))
    refine ⟨fun hall => ?_, fun hm j _ => (all_slot_last Iff.rfl fun _ => all_of _).2 hm⟩
    exact (all_slot_last Iff.rfl fun _ => all_of _).1
      (hall ⟨(argInt regs regPosA0).toNat, by have := h.2; omega⟩
        (Int.toNat_of_nonneg h.1).symm)
  | doMboxClose =>
    refine all_callL.trans (all_slot_last Iff.rfl fun i => ?_)
    exact All.bind (all_mboxCloseL ho) fun _ _ => all_pure _
  | doMboxSend | doMboxRecv => exact all_callL.trans (all_slot_mutex ho fun _ _ => all_of _)
  | doNetSend =>
    refine all_bind.trans ((and_iff_left fun _ _ => ?_).trans (all_copyL (argInt_bounds _ _)))
    exact All.bind (all_of _) fun _ _ => all_pure _
  | doExit | doExec | doSleep | doKill | doWaitpid | doScheduler | doThreadCreate | doThreadJoin
  | doMboxOpen | doNetRecv => exact all_callL.trans (iff_true_intro (all_of _))
  | _ => exact iff_true_intro (all_pure _)

/-- The indices of a step. -/
lemma System.Orderly.uses_iff (ho : s.Orderly) (e : Event) :
    (∀ use ∈ s.uses e, InRange use) ↔ Within s e := by
  cases e with
  | irqTimer cpuid env => exact iff_true_intro (all_of _)
  | slaveJoin => exact iff_true_intro (all_of _)
  | resume cpuid env =>
    have hagain : ∀ o, (s.sendAgainL env o).All InRange
      | some p => (all_copyL (ho.length p).bounds).2 fun _ => ho.length p
      | none => all_pure _
    have hall : (s.stepL (.resume cpuid env)).All InRange :=
      All.bind (hagain _) fun _ _ => all_of _
    exact iff_true_intro hall
  | ecall cpuid regs user env =>
    show (Logged.of (s.trapping cpuid) >>= _).All InRange ↔ (s.trapping cpuid ≠ none → _)
    rw [all_bind, and_iff_right (all_of _), result_of]
    cases s.trapping cpuid with
    | none => exact iff_of_true (fun p hp => by cases hp) fun h => absurd rfl h
    | some p =>
      have hall : (s.handleSyscallL cpuid p regs user env).All InRange ↔ ∃ handler,
          entry (regs regPosA7).toInt = some handler ∧ ArgsWithin s.kernel regs env handler := by
        rw [System.handleSyscallL, all_bind, all_tell, result_tell]
        show entry _ ≠ none ∧ _ ↔ _
        cases entry (regs regPosA7).toInt with
        | none => simp
        | some handler => simp [all_dispatchL ho.mailbox]
      constructor
      · exact fun h _ => hall.1 (h p rfl)
      · rintro h _ ⟨⟩
        exact hall.2 (h (Option.some_ne_none _))

end Uses

/-! ## The mailboxes after a step -/

section Step

variable {s s' : System} {k k' : Kernel} {cpuid : Cpu} {p : Pcb} {env : Env}

instance : Kernel.Ignores handles where
  rest _ _ _ _ _ _ _ _ _ _ _ := rfl
  setMailbox k i mbox hname hid href := by
    funext j
    by_cases hj : j = i
    · subst hj
      simp only [handles, Kernel.setMailbox, Function.update_self, hname, hid, href]
    · simp only [handles, Kernel.setMailbox, Function.update_of_ne hj]

lemma handles_setMailbox (k : Kernel) (i : Slot) (mbox : Locking.Mailbox) :
    handles (k.setMailbox i mbox) =
      Function.update (handles k) i (mbox.name, mbox.mutexId, mbox.ref) := by
  funext j
  by_cases hj : j = i
  · subst hj
    simp only [handles, Kernel.setMailbox, Function.update_self]
  · simp only [handles, Kernel.setMailbox, Function.update_of_ne hj]

lemma keeps_initPcb {i : Slot} {pid : ℤ} {pgdir : ℕ} :
    Keeps handles k (k.initPcb i pid pgdir) :=
  (Kernel.keeps_listAddTail.of_eq rfl).bind fun _ => .some rfl

lemma keeps_createPcb {name : List UInt8} : Keeps handles k (k.createPcb name) := by
  unfold Kernel.createPcb
  split
  · exact .some rfl
  · exact .ite (keeps_initPcb.of_eq rfl) (.ite .none (.some rfl))

lemma keeps_doThreadCreate : Keeps handles k (k.doThreadCreate p) := by
  unfold Kernel.doThreadCreate
  split
  · exact .some rfl
  · exact keeps_initPcb

lemma keeps_releasePcb : Keeps handles k (k.releasePcb p) :=
  (Kernel.keeps_listDeleteEntry.of_eq rfl).bind fun _ =>
    (Kernel.keeps_releaseMlocks _ _).bind fun _ => Kernel.keeps_unblockAll _

lemma keeps_doExit : Keeps handles k (k.doExit cpuid p) := by
  refine keeps_releasePcb.bind fun k => .ite ?_ (.some ?_)
  · exact Kernel.keeps_findIdleTask.bind fun k =>
      .some (Kernel.switchPgdir_ignored (f := handles) k cpuid)
  · exact Kernel.retFromKernel_ignored (k.clearPid p) cpuid

lemma keeps_doKill {pid : ℤ} : Keeps handles k ((k.doKill pid).map (·.2)) := by
  unfold Kernel.doKill
  split
  · exact .some rfl
  · intro k' h
    obtain ⟨⟨r, _⟩, hkill, rfl⟩ := Option.map_eq_some_iff.1 h
    obtain ⟨k₁, hk₁, h⟩ := Option.bind_eq_some_iff.1 hkill
    cases h
    refine Eq.trans ?_ (keeps_releasePcb k₁ hk₁)
    split <;> rfl

/-- Only opening and closing a mailbox touch what identifies it. -/
lemma keeps_handle {call : Call} (hopen : ∀ name, call ≠ .mboxOpen name)
    (hclose : ∀ idx, call ≠ .mboxClose idx) : Keeps handles k (k.handle cpuid p env call) := by
  cases call with
  | mboxOpen name => exact absurd rfl (hopen name)
  | mboxClose idx => exact absurd rfl (hclose idx)
  | irqTimer | yield => exact Kernel.keeps_doScheduler
  | sleep => exact Kernel.keeps_doBlock.of_eq rfl
  | exec => exact Kernel.keeps_returning keeps_createPcb
  | exit => exact keeps_doExit
  | kill => exact Kernel.keeps_returning keeps_doKill
  | waitpid => exact Kernel.keeps_doWaitpid
  | threadCreate => exact Kernel.keeps_returning keeps_doThreadCreate
  | threadJoin => exact Kernel.keeps_threadJoinLoop _ _
  | mutexLockAcquire =>
    exact .bindValue fun m => Kernel.keeps_mutexLockAcquire fun _ => Kernel.keeps_ret
  | mutexLockRelease => exact .bindValue fun m => Kernel.keeps_returning Kernel.keeps_mutexLockRelease
  | barrierInit => exact Kernel.keeps_returning Kernel.keeps_barrierInit
  | barrierWait => exact .bindValue fun b => Kernel.keeps_barrierWait
  | barrierDestroy => exact .bindValue fun b => Kernel.keeps_returning Kernel.keeps_barrierDestroy
  | conditionWait => exact .bindValue fun i => .bindValue fun m => Kernel.keeps_conditionWait
  | conditionSignal => exact .bindValue fun i => Kernel.keeps_returning Kernel.keeps_conditionSignal
  | conditionBroadcast | conditionDestroy =>
    exact .bindValue fun i => Kernel.keeps_returning Kernel.keeps_conditionBroadcast
  | mboxSend => exact .bindValue fun i => .bindValue fun m => Kernel.keeps_mboxSend
  | mboxRecv => exact .bindValue fun i => .bindValue fun m => Kernel.keeps_mboxRecv
  | netSend => exact Kernel.keeps_netSend
  | netRecv => exact Kernel.keeps_netRecv _ _

/-- `do_mbox_open` under a name that is not the name of the mailboxes that are not open. -/
lemma orderly_mboxOpen {name : List UInt8} (ho : ∀ i, Orderly i (handles k i))
    (hname : name ≠ [] ∨ ∀ i, (k.mailboxes i).name ≠ []) (h : k.mboxOpen name = some k') (i : Slot) :
    Orderly i (handles k' i) := by
  have hset : ∀ (j : Slot) (mbox : Locking.Mailbox), k' = k.setMailbox j mbox →
      0 < mbox.ref → mbox.mutexId = (j : ℕ) → Orderly i (handles k' i) := by
    rintro j mbox rfl href hid
    rw [handles_setMailbox]
    by_cases hij : i = j
    · subst hij
      rw [Function.update_self]
      exact .inl ⟨href, hid⟩
    · rw [Function.update_of_ne hij]
      exact ho i
  rw [Kernel.mboxOpen] at h
  split at h
  · rename_i j hfirst
    have hj : (k.mailboxes j).name = name := by simpa using List.find?_some hfirst
    -- a mailbox with that name is open
    rcases ho j with ⟨href, hid⟩ | ⟨-, -, hempty⟩
    · simp only [handles] at href hid
      refine hset j _ (Option.some.inj h).symm ?_ hid
      dsimp only
      omega
    · simp only [handles] at hempty
      rcases hname with hne | hall
      · exact absurd (hj.symm.trans hempty) hne
      · exact absurd hempty (hall j)
  · split at h
    · rename_i j _
      split at h
      · exact hset j _ (Option.some.inj h).symm Int.one_pos rfl
      · cases h
    · cases h
      exact ho i

/-- `do_mbox_close`; one mailbox too many has a negative number of users. -/
lemma orderly_mboxClose {j : Slot} (ho : ∀ i, Orderly i (handles k i))
    (h : k.mboxClose j = some k') (i : Slot) : Orderly i (handles k' i) := by
  rw [Kernel.mboxClose] at h
  dsimp only at h
  split at h
  · obtain ⟨m, -, h⟩ := Option.bind_eq_some_iff.1 h
    obtain ⟨k₁, hk₁, h⟩ := Option.bind_eq_some_iff.1 h
    cases h
    have hkeep := Kernel.keeps_mutexLockRelease (f := handles) k₁ hk₁
    rw [handles_setMailbox, hkeep, handles_setMailbox, Function.update_idem]
    by_cases hij : i = j
    · subst hij
      rw [Function.update_self]
      exact .inr ⟨le_rfl, rfl, rfl⟩
    · rw [Function.update_of_ne hij]
      exact ho i
  · rename_i href
    cases h
    rw [handles_setMailbox]
    by_cases hij : i = j
    · subst hij
      rw [Function.update_self]
      rcases ho i with ⟨hpos, hid⟩ | ⟨hle, hid, hname⟩
      · simp only [handles] at hpos hid
        exact .inl ⟨by dsimp only; omega, hid⟩
      · simp only [handles] at hle hid hname
        exact .inr ⟨by dsimp only; omega, hid, hname⟩
    · rw [Function.update_of_ne hij]
      exact ho i

lemma orderly_of_handles (ho : s.Orderly) (h : handles k' = handles s.kernel) :
    System.Orderly { s with kernel := k' } := ⟨fun i => h ▸ ho.mailbox i, ho.length⟩

lemma System.Orderly.ret (ho : s.Orderly) (cpuid : Cpu) : (s.ret cpuid).Orderly :=
  orderly_of_handles ho (Kernel.retFromKernel_ignored s.kernel cpuid)

/-- A call of the scheduler or of the locks, one case for the two that touch a mailbox. -/
lemma System.Orderly.callL {call : Call} (ho : s.Orderly)
    (hname : ∀ name, call = .mboxOpen name →
      name ≠ [] ∨ ∀ i, (s.kernel.mailboxes i).name ≠ [])
    (h : (s.callL cpuid p env call).result = some s') : s'.Orderly := by
  rw [System.callL, result_bind, result_handleL] at h
  obtain ⟨k', hk', h⟩ := Option.bind_eq_some_iff.1 h
  cases h
  by_cases hopen : ∃ name, call = .mboxOpen name
  · obtain ⟨name, rfl⟩ := hopen
    obtain ⟨k₁, hk₁, rfl⟩ := Option.map_eq_some_iff.1 hk'
    have ho₁ := orderly_mboxOpen ho.mailbox (hname name rfl) hk₁
    exact ⟨fun i => Kernel.retFromKernel_ignored (f := handles) k₁ cpuid ▸ ho₁ i, ho.length⟩
  by_cases hclose : ∃ idx, call = .mboxClose idx
  · obtain ⟨idx, rfl⟩ := hclose
    obtain ⟨j, -, hk'⟩ := Option.bind_eq_some_iff.1 hk'
    obtain ⟨k₁, hk₁, rfl⟩ := Option.map_eq_some_iff.1 hk'
    have ho₁ := orderly_mboxClose ho.mailbox hk₁
    exact ⟨fun i => Kernel.retFromKernel_ignored (f := handles) k₁ cpuid ▸ ho₁ i, ho.length⟩
  · exact orderly_of_handles ho (keeps_handle (not_exists.1 hopen) (not_exists.1 hclose) k' hk')

/-- A call that only looks an index up. -/
lemma System.Orderly.lookup (ho : s.Orderly) {table : Table} {i : ℤ}
    (h : (slot table i >>= fun _ => (pure (s.ret cpuid) : UseLog System)).result = some s') :
    s'.Orderly := by
  rw [result_bind] at h
  obtain ⟨j, -, h⟩ := Option.bind_eq_some_iff.1 h
  cases h
  exact ho.ret cpuid

lemma System.Orderly.netSendL {length : ℤ} (ho : s.Orderly) (hlength : IsLength length)
    (h : (s.netSendL cpuid p env length).result = some s') : s'.Orderly := by
  rw [System.netSendL, result_bind] at h
  obtain ⟨_, -, h⟩ := Option.bind_eq_some_iff.1 h
  rw [result_bind] at h
  obtain ⟨k', hk', h⟩ := Option.bind_eq_some_iff.1 h
  cases h
  have hkeep := Kernel.keeps_netSend (f := handles) k' hk'
  refine ⟨fun i => hkeep ▸ ho.mailbox i, fun r => ?_⟩
  show IsLength (Function.update s.length p length r)
  by_cases hr : r = p
  · subst hr
    rw [Function.update_self]
    exact hlength
  · rw [Function.update_of_ne hr]
    exact ho.length r

lemma System.Orderly.dispatchL {regs : Regs} {user : UserMem} {handler : Handler}
    (ho : s.Orderly)
    (hopen : handler = .doMboxOpen →
      user.string (regs regPosA0) ≠ [] ∨ ∀ i, (s.kernel.mailboxes i).name ≠ [])
    (hsend : handler = .doNetSend → IsLength (argInt regs regPosA1))
    (h : (s.dispatchL cpuid p regs user env handler).result = some s') : s'.Orderly := by
  cases handler with
  | doMboxOpen =>
    refine ho.callL (fun name hname => ?_) h
    obtain rfl := Call.mboxOpen.inj hname
    exact hopen rfl
  | doNetSend => exact ho.netSendL (hsend rfl) h
  | doMutexLockInit | doConditionInit | doFclose | doFread | doFwrite | doLseek =>
    exact ho.lookup h
  | doExit | doExec | doSleep | doKill | doWaitpid | doScheduler | doThreadCreate | doThreadJoin
  | doMutexLockAcquire | doMutexLockRelease | doBarrierInit | doBarrierWait | doBarrierDestroy
  | doConditionWait | doConditionSignal | doConditionBroadcast | doConditionDestroy
  | doMboxClose | doMboxSend | doMboxRecv | doNetRecv =>
    exact ho.callL (fun _ hname => by cases hname) h
  | _ =>
    cases h
    exact ho.ret cpuid

/-- The steps without a call. -/
lemma keeps_kernelStep {e : Sched.Event} (he : ∀ c call env, e = .trap c call env → call = .irqTimer) :
    Keeps handles k (k.step e) := by
  cases e with
  | trap c call env =>
    obtain rfl := he c call env rfl
    refine .ite ?_ .none
    split
    · exact .none
    · exact .ite Kernel.keeps_doScheduler .none
  | resume c env =>
    refine .ite ?_ .none
    split
    · exact .none
    · exact Kernel.keeps_goOn _
  | slaveJoin => exact .ite Kernel.keeps_slaveJoin .none

lemma orderly_of_kernelStep {e : Sched.Event} (ho : s.Orderly)
    (he : ∀ c call env, e = .trap c call env → call = .irqTimer)
    (h : ((s.kernel.step e).bind fun k => some { s with kernel := k }) = some s') :
    s'.Orderly := by
  obtain ⟨k', hk', h⟩ := Option.bind_eq_some_iff.1 h
  cases h
  exact orderly_of_handles ho (keeps_kernelStep he k' hk')

/-- A step keeps the mailboxes and the packets in order. -/
lemma System.Orderly.step {e : Event} (ho : s.Orderly) (hC : Keeping s e)
    (hstep : s.step e = some s') : s'.Orderly := by
  cases e with
  | ecall cpuid regs user env =>
    rw [System.step, System.stepL, result_bind] at hstep
    obtain ⟨p, -, hstep⟩ := Option.bind_eq_some_iff.1 hstep
    rw [System.handleSyscallL, result_bind] at hstep
    obtain ⟨handler, hentry, hstep⟩ := Option.bind_eq_some_iff.1 hstep
    rw [result_tell] at hentry
    refine ho.dispatchL (fun hh => ?_) (fun hh => ?_) hstep
    · subst hh
      exact (hC.1 hentry).2
    · subst hh
      exact hC.2 hentry
  | irqTimer cpuid env => exact orderly_of_kernelStep ho (fun _ _ _ heq => by cases heq; rfl) hstep
  | slaveJoin => exact orderly_of_kernelStep ho (fun _ _ _ heq => by cases heq) hstep
  | resume cpuid env =>
    rw [System.step, System.stepL, result_bind] at hstep
    obtain ⟨_, -, hstep⟩ := Option.bind_eq_some_iff.1 hstep
    exact orderly_of_kernelStep ho (fun _ _ _ heq => by cases heq) hstep

end Step

/-! ## Runs -/

lemma orderly_boot (tasks : List (List UInt8)) : (System.boot tasks).Orderly :=
  ⟨fun _ => .inr ⟨le_rfl, rfl, rfl⟩, fun _ => ⟨le_rfl, Int.natCast_nonneg txPktSize⟩⟩

/-- In every state of a run of steps within the tables, and for all registers, the next step
is within the tables if and only if its registers are. -/
theorem indices_confined (tasks : List (List UInt8)) {events : List Event}
    (hC : Trace.StepsMeet System.step Confined (System.boot tasks) events) :
    ∀ pre post, events = pre ++ post → ∀ s, Trace.run System.step (System.boot tasks) pre = some s →
      ∀ e, (∀ use ∈ s.uses e, InRange use) ↔ Within s e := by
  intro pre post heq s hrun e
  have hall := Trace.always_of_invariant (P := System.Orderly)
    (fun s e s' ho he hstep => System.Orderly.step ho he.2 hstep) (orderly_boot tasks) hC
  exact (hall pre post heq s hrun).uses_iff e

/-- The registers of a call. -/
def callRegs (number a0 a1 a2 : BitVec 64) : Regs := fun i =>
  if i = regPosA7 then number else if i = regPosA0 then a0 else if i = regPosA1 then a1
  else if i = regPosA2 then a2 else 0

/-- Every string in the memory is `m`, and the devices do nothing. -/
def ecallOf (number a0 a1 a2 : BitVec 64) : Event :=
  .ecall 0 (callRegs number a0 a1 a2) ⟨fun _ => 0, fun _ => [109]⟩
    ⟨fun _ => 0, false, false, false, fun _ => false⟩

/-- The shell opens a mailbox and sends it 4 bytes. -/
theorem indices_confined_send :
    ∃ s, Trace.run System.step (System.boot []) [ecallOf 52 0x1000 0 0] = some s ∧
      ∀ use ∈ s.uses (ecallOf 54 0 0x1000 4), InRange use := by
  have hC : Confined (System.boot []) (ecallOf 52 0x1000 0 0) :=
    ⟨fun _ => ⟨.doMboxOpen, rfl, trivial⟩, fun _ => ⟨by decide, .inl (by decide)⟩,
      fun h => by cases h⟩
  have hall := indices_confined [] (Trace.stepsMeet_cons hC fun _ _ => Trace.stepsMeet_nil _ _)
    _ [] (List.append_nil _).symm
  refine ⟨_, rfl, (hall _ rfl _).2 fun _ => ⟨.doMboxSend, rfl, ⟨0, rfl, ?_⟩⟩⟩
  decide

/-- The shell acquires mutex 16. -/
theorem index_of_mutex_unchecked :
    ¬ ∀ use ∈ (System.boot []).uses (ecallOf 41 16 0 0), InRange use := by
  decide

end Syscall
end UcasKernel
