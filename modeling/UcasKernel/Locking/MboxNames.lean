/-
The names of the mailboxes.

`do_mbox_open` looks for a mailbox with the name before it looks for one that is
not in use.  A mailbox that is not in use has the empty name, so the empty name
finds it first, and it is handed out without a mutex; and `ref` is an `int`.  These
are the only two ways in which the names, the counts and the mutexes go wrong.
-/
import UcasKernel.Lib.Bytes
import UcasKernel.Lib.Keeps
import UcasKernel.Locking.Sync

namespace UcasKernel
namespace Sched

open Locking (Mailbox initMbox)

/-! ## The two calls -/

/-- `do_mbox_open`, with the index it returns.  A name that does not fit overruns
the field. -/
def doMboxOpen (mailboxes : Slot → Mailbox) (name : List UInt8) :
    Option (ℤ × (Slot → Mailbox)) :=
  match Kernel.firstSlot fun i => (mailboxes i).name = name with
  | some i =>
    let mbox := mailboxes i
    some ((i : ℕ), Function.update mailboxes i { mbox with ref := toInt32 (mbox.ref + 1) })
  | none =>
    match Kernel.firstSlot fun i => (mailboxes i).ref = 0 with
    | some i =>
      if name.length < 32 then
        let mbox := { mailboxes i with name := name, mutexId := (i : ℕ) }
        some ((i : ℕ), Function.update mailboxes i { mbox with ref := toInt32 (mbox.ref + 1) })
      else none
    | none => some (-1, mailboxes)

/-- `do_mbox_close`.  The mutex that is released has to be one of the table. -/
def doMboxClose (mailboxes : Slot → Mailbox) (i : Slot) : Option (Slot → Mailbox) := do
  let mbox := { mailboxes i with ref := toInt32 ((mailboxes i).ref - 1) }
  if mbox.ref = 0 then
    let _ ← slotOf mbox.mutexId
    some (Function.update mailboxes i initMbox)
  else some (Function.update mailboxes i mbox)

/-! ## The calls in the kernel -/

section Kernel

variable {k k' : Kernel} {name : List UInt8} {i : Slot}

lemma keeps_mailboxes_doUnblock (p : Pcb) : Keeps Kernel.mailboxes k (k.doUnblock p) := by
  have hdelete : Keeps Kernel.mailboxes k (k.listDeleteEntry p) := .mapValue fun _ => rfl
  exact hdelete.bind fun k₁ => .mapValue fun _ => rfl

lemma keeps_mailboxes_mutexLockRelease (m : Slot) :
    Keeps Kernel.mailboxes k (k.mutexLockRelease m) :=
  .ite (.some rfl) (.bindValue fun p => (keeps_mailboxes_doUnblock p).of_eq rfl)

/-- The call of the scheduler model does to the mailboxes what `doMboxOpen` does, as
long as the counts fit. -/
theorem mboxOpen_doMboxOpen (href : ∀ i, -1 ≤ (k.mailboxes i).ref ∧ (k.mailboxes i).ref < 2 ^ 31 - 1)
    (h : k.mboxOpen name = some k') :
    (doMboxOpen k.mailboxes name).map (·.2) = some k'.mailboxes := by
  have hint : ∀ i, toInt32 ((k.mailboxes i).ref + 1) = (k.mailboxes i).ref + 1 := by
    intro i
    have hi := href i
    exact toInt32_of_range ⟨by omega, by omega⟩
  rw [Kernel.mboxOpen] at h
  rw [doMboxOpen]
  cases hnamed : Kernel.firstSlot fun i => (k.mailboxes i).name = name with
  | some j =>
    rw [hnamed] at h
    cases h
    simp only [hint]
    rfl
  | none =>
    rw [hnamed] at h
    dsimp only at h ⊢
    cases hfree : Kernel.firstSlot fun i => (k.mailboxes i).ref = 0 with
    | some j =>
      have hj : (k.mailboxes j).ref = 0 := by simpa using List.find?_some hfree
      rw [hfree] at h
      dsimp only at h ⊢
      split at h
      · cases h
        rw [if_pos ‹_›, hint, hj]
        rfl
      · cases h
    | none =>
      rw [hfree] at h
      cases h
      rfl

theorem mboxClose_doMboxClose (href : 0 < (k.mailboxes i).ref ∧ (k.mailboxes i).ref < 2 ^ 31)
    (h : k.mboxClose i = some k') : doMboxClose k.mailboxes i = some k'.mailboxes := by
  have hint : toInt32 ((k.mailboxes i).ref - 1) = (k.mailboxes i).ref - 1 :=
    toInt32_of_range ⟨by omega, by omega⟩
  rw [Kernel.mboxClose] at h
  rw [doMboxClose]
  dsimp only at h ⊢
  rw [hint]
  split at h
  · obtain ⟨m, hm, h⟩ := Option.bind_eq_some_iff.1 h
    obtain ⟨k₁, hk₁, h⟩ := Option.bind_eq_some_iff.1 h
    cases h
    rw [if_pos ‹_›, hm, Option.bind_eq_bind, Option.bind_some, Kernel.setMailbox,
      keeps_mailboxes_mutexLockRelease m k₁ hk₁, Kernel.setMailbox, Function.update_idem]
  · cases h
    rw [if_neg ‹_›]
    rfl

end Kernel

/-! ## One call -/

section Call

variable (mailboxes : Slot → Mailbox) {name : List UInt8}

/-- A mailbox with one more user. -/
def withUser (mbox : Mailbox) : Mailbox := { mbox with ref := toInt32 (mbox.ref + 1) }

/-- `do_mbox_open` takes a mailbox with the name, or else one that is not in use, or
else none. -/
lemma doMboxOpen_cases (hlen : name.length < 32) :
    (∃ i, (mailboxes i).name = name ∧ doMboxOpen mailboxes name =
      some (((i : ℕ) : ℤ), Function.update mailboxes i (withUser (mailboxes i)))) ∨
    (∀ i, (mailboxes i).name ≠ name) ∧ (∃ i, (mailboxes i).ref = 0 ∧ doMboxOpen mailboxes name =
      some (((i : ℕ) : ℤ), Function.update mailboxes i
        (withUser { mailboxes i with name := name, mutexId := (i : ℕ) }))) ∨
    (∀ i, (mailboxes i).name ≠ name) ∧ (∀ i, (mailboxes i).ref ≠ 0) ∧
      doMboxOpen mailboxes name = some (-1, mailboxes) := by
  rw [doMboxOpen]
  cases hnamed : Kernel.firstSlot fun i => (mailboxes i).name = name with
  | some i =>
    have hi : (mailboxes i).name = name := by simpa using List.find?_some hnamed
    exact .inl ⟨i, hi, rfl⟩
  | none =>
    have hnone : ∀ i, (mailboxes i).name ≠ name := by
      intro i
      simpa using List.find?_eq_none.1 hnamed i (List.mem_finRange i)
    dsimp only
    cases hfree : Kernel.firstSlot fun i => (mailboxes i).ref = 0 with
    | some i =>
      have hi : (mailboxes i).ref = 0 := by simpa using List.find?_some hfree
      dsimp only
      rw [if_pos hlen]
      exact .inr (.inl ⟨hnone, i, hi, rfl⟩)
    | none =>
      refine .inr (.inr ⟨hnone, fun i => ?_, rfl⟩)
      simpa using List.find?_eq_none.1 hfree i (List.mem_finRange i)

/-- `do_mbox_close` of a mailbox with users. -/
lemma doMboxClose_of_pos {i : Slot} (hpos : 0 < (mailboxes i).ref)
    (hlt : (mailboxes i).ref < 2 ^ 31) (hmutex : (mailboxes i).mutexId = (i : ℕ)) :
    doMboxClose mailboxes i = some (Function.update mailboxes i
      (if (mailboxes i).ref = 1 then initMbox
      else { mailboxes i with ref := (mailboxes i).ref - 1 })) := by
  have hint : toInt32 ((mailboxes i).ref - 1) = (mailboxes i).ref - 1 :=
    toInt32_of_range ⟨by omega, by omega⟩
  have hslot : slotOf (mailboxes i).mutexId = some i := by
    rw [hmutex, slotOf, dif_pos ⟨by omega, by omega⟩]
    rfl
  rw [doMboxClose]
  dsimp only
  rw [hint, hslot]
  by_cases hone : (mailboxes i).ref = 1
  · rw [if_pos (by omega), if_pos hone]
    rfl
  · rw [if_neg (by omega), if_neg hone]

end Call

/-! ## Runs -/

/-- A name that the field holds with its terminator. -/
abbrev MboxName := { name : List UInt8 // 0 ∉ name ∧ name.length < 32 }

inductive MboxNameCall
  | mboxOpen (name : MboxName)
  | mboxClose (mboxIdx : Slot)
deriving DecidableEq

/-- The mailboxes, the number of opens that returned an index and of its closes, and
the opens, with the index each returned, since which the `ref` of the mailbox has not
dropped to 0. -/
structure MboxUsers where
  mailboxes : Slot → Mailbox
  opens : Slot → ℕ
  closes : Slot → ℕ
  sessions : List (List UInt8 × Slot)

namespace MboxUsers

/-- `init_mbox`. -/
def init : MboxUsers := ⟨fun _ => initMbox, fun _ => 0, fun _ => 0, []⟩

def step (u : MboxUsers) : MboxNameCall → Option MboxUsers
  | .mboxOpen name => do
    let (mboxIdx, mailboxes) ← doMboxOpen u.mailboxes name.1
    match slotOf mboxIdx with
    | some i =>
      some { u with
        mailboxes := mailboxes
        opens := Function.update u.opens i (u.opens i + 1)
        sessions := (name.1, i) :: u.sessions }
    | none => some { u with mailboxes := mailboxes }
  | .mboxClose i => do
    let mailboxes ← doMboxClose u.mailboxes i
    some { u with
      mailboxes := mailboxes
      closes := Function.update u.closes i (u.closes i + 1)
      sessions := if (mailboxes i).ref = 0 then u.sessions.filter (·.2 ≠ i) else u.sessions }

/-- Every close matches an open. -/
def Matched (u : MboxUsers) : MboxNameCall → Prop
  | .mboxOpen _ => True
  | .mboxClose i => u.closes i < u.opens i

/-- The counts are exact, mailboxes in use have different names, the opens since
which a mailbox is in use return the same index exactly when they give the same name,
and a mailbox that was opened and not closed as often has a mutex of the table. -/
structure Law (u : MboxUsers) : Prop where
  ref : ∀ i, (u.mailboxes i).ref = (u.opens i : ℤ) - u.closes i
  names : ∀ i j, 0 < (u.mailboxes i).ref → 0 < (u.mailboxes j).ref →
    (u.mailboxes i).name = (u.mailboxes j).name → i = j
  index : ∀ a ∈ u.sessions, ∀ b ∈ u.sessions, a.1 = b.1 ↔ a.2 = b.2
  mutexId : ∀ i, u.closes i < u.opens i →
    0 ≤ (u.mailboxes i).mutexId ∧ (u.mailboxes i).mutexId ≤ 15

/-- The empty name is only opened while all mailboxes are in use, and no mailbox is
opened more than `2 ^ 31 - 1` times. -/
def Proper (u : MboxUsers) : MboxNameCall → Prop
  | .mboxOpen name => (name.1 = [] → ∀ i, (u.mailboxes i).ref ≠ 0) ∧
      ∀ i, (u.mailboxes i).name = name.1 → (u.mailboxes i).ref ≠ 2 ^ 31 - 1
  | .mboxClose _ => True

/-! ## The invariant -/

/-- Mailbox `i` is in use under a name, with the mutex of its number, or it is as
`init_mbox` left it. -/
def InOrder (i : Slot) (mbox : Mailbox) : Prop :=
  0 < mbox.ref ∧ mbox.name ≠ [] ∧ mbox.mutexId = (i : ℕ) ∨
    mbox.ref = 0 ∧ mbox.name = [] ∧ mbox.mutexId = -1

structure Inv (u : MboxUsers) : Prop where
  box : ∀ i, InOrder i (u.mailboxes i)
  lt : ∀ i, (u.mailboxes i).ref < 2 ^ 31
  ref : ∀ i, (u.mailboxes i).ref = (u.opens i : ℤ) - u.closes i
  names : ∀ i j, 0 < (u.mailboxes i).ref → 0 < (u.mailboxes j).ref →
    (u.mailboxes i).name = (u.mailboxes j).name → i = j
  session : ∀ a ∈ u.sessions, 0 < (u.mailboxes a.2).ref ∧ (u.mailboxes a.2).name = a.1

section Inv

variable {u u' : MboxUsers} {i : Slot} {name : MboxName}

lemma inv_init : Inv init where
  box _ := .inr ⟨rfl, rfl, rfl⟩
  lt _ := show (0 : ℤ) < 2 ^ 31 by decide
  ref _ := rfl
  names _ _ hi := absurd hi (lt_irrefl 0)
  session a ha := absurd ha List.not_mem_nil

lemma Inv.of_pos (h : u.Inv) (hpos : 0 < (u.mailboxes i).ref) :
    (u.mailboxes i).name ≠ [] ∧ (u.mailboxes i).mutexId = (i : ℕ) := by
  rcases h.box i with ⟨-, hname, hid⟩ | ⟨href, -⟩
  · exact ⟨hname, hid⟩
  · omega

lemma Inv.of_zero (h : u.Inv) (hzero : (u.mailboxes i).ref = 0) :
    (u.mailboxes i).name = [] ∧ (u.mailboxes i).mutexId = -1 := by
  rcases h.box i with ⟨href, -⟩ | ⟨-, hname, hid⟩
  · omega
  · exact ⟨hname, hid⟩

lemma Inv.law (h : u.Inv) : u.Law where
  ref := h.ref
  names := h.names
  index a ha b hb := by
    obtain ⟨hposa, hnamea⟩ := h.session a ha
    obtain ⟨hposb, hnameb⟩ := h.session b hb
    constructor
    · intro hname
      exact h.names a.2 b.2 hposa hposb (hnamea.trans (hname.trans hnameb.symm))
    · intro hindex
      rw [← hnamea, ← hnameb, hindex]
  mutexId i hi := by
    have href := h.ref i
    obtain ⟨-, hid⟩ := h.of_pos (i := i) (by omega)
    omega

/-- A step that replaces one mailbox. -/
lemma Inv.replace (h : u.Inv) (i : Slot) (mbox : Mailbox) (hbox : InOrder i mbox)
    (hlt : mbox.ref < 2 ^ 31)
    (hnames : ∀ j, j ≠ i → 0 < mbox.ref → 0 < (u.mailboxes j).ref →
      mbox.name ≠ (u.mailboxes j).name)
    (hmailboxes : u'.mailboxes = Function.update u.mailboxes i mbox)
    (href : ∀ j, (u'.mailboxes j).ref = (u'.opens j : ℤ) - u'.closes j)
    (hsession : ∀ a ∈ u'.sessions, a.2 = i ∧ 0 < mbox.ref ∧ mbox.name = a.1 ∨
      a.2 ≠ i ∧ a ∈ u.sessions) : u'.Inv := by
  have hself : u'.mailboxes i = mbox := by rw [hmailboxes, Function.update_self]
  have hother : ∀ j, j ≠ i → u'.mailboxes j = u.mailboxes j := fun j hj => by
    rw [hmailboxes, Function.update_of_ne hj]
  refine ⟨fun j => ?_, fun j => ?_, href, fun j k hj hk hname => ?_, fun a ha => ?_⟩
  · by_cases hji : j = i
    · subst hji
      rw [hself]
      exact hbox
    · rw [hother j hji]
      exact h.box j
  · by_cases hji : j = i
    · subst hji
      rw [hself]
      exact hlt
    · rw [hother j hji]
      exact h.lt j
  · by_cases hji : j = i
    · subst hji
      by_contra hjk
      rw [hself] at hj hname
      rw [hother k (Ne.symm hjk)] at hk hname
      exact hnames k (Ne.symm hjk) hj hk hname
    · by_cases hki : k = i
      · subst hki
        rw [hself] at hk hname
        rw [hother j hji] at hj hname
        exact absurd hname.symm (hnames j hji hk hj)
      · rw [hother j hji] at hj hname
        rw [hother k hki] at hk hname
        exact h.names j k hj hk hname
  · rcases hsession a ha with ⟨rfl, hpos, hname⟩ | ⟨hne, hmem⟩
    · rw [hself]
      exact ⟨hpos, hname⟩
    · rw [hother a.2 hne]
      exact h.session a hmem

/-- The counts after an open that returned an index. -/
lemma Inv.ref_open {mbox : Mailbox} (h : u.Inv) (hnew : mbox.ref = (u.mailboxes i).ref + 1)
    (j : Slot) : (Function.update u.mailboxes i mbox j).ref =
      (Function.update u.opens i (u.opens i + 1) j : ℤ) - u.closes j := by
  have href := h.ref j
  by_cases hji : j = i
  · subst hji
    rw [Function.update_self, Function.update_self, hnew]
    omega
  · rw [Function.update_of_ne hji, Function.update_of_ne hji, href]

/-- An open that returned the index of a mailbox. -/
lemma step_open {mbox : Mailbox} (h : doMboxOpen u.mailboxes name.1 =
      some (((i : ℕ) : ℤ), Function.update u.mailboxes i mbox)) :
    u.step (.mboxOpen name) = some
      { u with
        mailboxes := Function.update u.mailboxes i mbox
        opens := Function.update u.opens i (u.opens i + 1)
        sessions := (name.1, i) :: u.sessions } := by
  rw [step, h]
  simp only [Option.bind_eq_bind, Option.bind_some, slotOf_coe]

/-- `do_mbox_open`. -/
lemma Inv.mboxOpen (h : u.Inv) (hproper : u.Proper (.mboxOpen name)) :
    ∃ u', u.step (.mboxOpen name) = some u' ∧ u'.Inv := by
  obtain ⟨hempty, hmax⟩ := hproper
  rcases doMboxOpen_cases u.mailboxes name.2.2 with
    ⟨i, hname, hopen⟩ | ⟨hnone, i, hfree, hopen⟩ | ⟨-, -, hopen⟩
  · -- a mailbox in use has the name
    have hpos : 0 < (u.mailboxes i).ref := by
      rcases h.box i with ⟨hpos, -⟩ | ⟨hzero, hnil, -⟩
      · exact hpos
      · exact absurd hzero (hempty (hname.symm.trans hnil) i)
    have hlt := h.lt i
    have hne := hmax i hname
    have hint : (withUser (u.mailboxes i)).ref = (u.mailboxes i).ref + 1 :=
      toInt32_of_range ⟨by omega, by omega⟩
    refine ⟨_, step_open hopen, h.replace i (withUser (u.mailboxes i))
      (.inl ⟨?_, (h.of_pos hpos).1, (h.of_pos hpos).2⟩)
      ?_ (fun j hj _ hposj hsame => hj (h.names j i hposj hpos hsame.symm)) rfl
      (h.ref_open hint) fun a ha => ?_⟩
    · omega
    · omega
    · rcases List.mem_cons.1 ha with rfl | ha
      · exact .inl ⟨rfl, by omega, hname⟩
      · by_cases hai : a.2 = i
        · refine .inl ⟨hai, by omega, ?_⟩
          rw [← (h.session a ha).2, hai]
          rfl
        · exact .inr ⟨hai, ha⟩
  · -- a mailbox that was not in use gets the name
    have hnil := (h.of_zero hfree).1
    have hint : (withUser { u.mailboxes i with name := name.1, mutexId := (i : ℕ) }).ref =
        (u.mailboxes i).ref + 1 := toInt32_of_range ⟨by dsimp only; omega, by dsimp only; omega⟩
    refine ⟨_, step_open hopen, h.replace i _ (.inl ⟨?_, ?_, rfl⟩) ?_
      (fun j _ _ _ hsame => hnone j hsame.symm) rfl (h.ref_open hint) fun a ha => ?_⟩
    · omega
    · exact fun hzero => hnone i (hnil.trans hzero.symm)
    · omega
    · rcases List.mem_cons.1 ha with rfl | ha
      · exact .inl ⟨rfl, by omega, rfl⟩
      · refine .inr ⟨fun hai => ?_, ha⟩
        have hpos := (h.session a ha).1
        rw [hai] at hpos
        omega
  · refine ⟨{ u with mailboxes := u.mailboxes }, ?_, h⟩
    rw [step, hopen]
    rfl

/-- `do_mbox_close`. -/
lemma Inv.mboxClose (h : u.Inv) (hmatched : u.Matched (.mboxClose i)) :
    ∃ u', u.step (.mboxClose i) = some u' ∧ u'.Inv := by
  have hlt : u.closes i < u.opens i := hmatched
  have href := h.ref i
  have hpos : 0 < (u.mailboxes i).ref := by omega
  obtain ⟨hname, hid⟩ := h.of_pos hpos
  have hmax := h.lt i
  have hclose := doMboxClose_of_pos u.mailboxes hpos hmax hid
  have hcount : ∀ (mbox : Mailbox) (j : Slot), mbox.ref = (u.mailboxes i).ref - 1 →
      (Function.update u.mailboxes i mbox j).ref =
        (u.opens j : ℤ) - (Function.update u.closes i (u.closes i + 1) j : ℕ) := by
    intro mbox j hnew
    have hj := h.ref j
    by_cases hji : j = i
    · subst hji
      rw [Function.update_self, Function.update_self, hnew]
      omega
    · rw [Function.update_of_ne hji, Function.update_of_ne hji, hj]
  rw [step, hclose]
  by_cases hone : (u.mailboxes i).ref = 1
  · -- the last user is gone
    rw [if_pos hone]
    refine ⟨_, rfl, h.replace i initMbox (.inr ⟨rfl, rfl, rfl⟩) (by decide)
      (fun _ _ hinit => absurd hinit (by decide)) rfl (fun j => hcount _ j (by rw [hone]; rfl))
      fun a ha => ?_⟩
    dsimp only at ha
    rw [Function.update_self, if_pos (show initMbox.ref = 0 from rfl), List.mem_filter] at ha
    exact .inr ⟨by simpa using ha.2, ha.1⟩
  · rw [if_neg hone]
    refine ⟨_, rfl, h.replace i { u.mailboxes i with ref := (u.mailboxes i).ref - 1 }
      (.inl ⟨by dsimp only; omega, hname, hid⟩) (by dsimp only; omega)
      (fun j hj _ hposj hsame => hj (h.names j i hposj hpos hsame.symm)) rfl
      (fun j => hcount _ j rfl) fun a ha => ?_⟩
    dsimp only at ha
    rw [Function.update_self, if_neg (by dsimp only; omega)] at ha
    by_cases hai : a.2 = i
    · refine .inl ⟨hai, by dsimp only; omega, ?_⟩
      rw [← (h.session a ha).2, hai]
    · exact .inr ⟨hai, ha⟩

/-- One call of the kind allowed returns and keeps the mailboxes in order. -/
lemma Inv.step {call : MboxNameCall} (h : u.Inv) (hmatched : u.Matched call)
    (hproper : u.Proper call) : ∃ u', u.step call = some u' ∧ u'.Inv := by
  cases call with
  | mboxOpen name => exact h.mboxOpen hproper
  | mboxClose i => exact h.mboxClose hmatched

/-- The empty name finds a mailbox that is not in use, and hands it out without a
mutex. -/
lemma Inv.mboxOpen_nil (h : u.Inv) (hnil : name.1 = []) (hzero : (u.mailboxes i).ref = 0) :
    ∃ u', u.step (.mboxOpen name) = some u' ∧ ¬ u'.Law := by
  have hi := (h.of_zero hzero).1
  rcases doMboxOpen_cases u.mailboxes name.2.2 with
    ⟨j, hname, hopen⟩ | ⟨hnone, -⟩ | ⟨hnone, -⟩
  · refine ⟨_, step_open hopen, fun hlaw => ?_⟩
    rcases h.box j with ⟨-, hne, -⟩ | ⟨hfree, -, hid⟩
    · exact hne (hname.trans hnil)
    · have href := h.ref j
      have hmutex := (hlaw.mutexId j (by
        dsimp only
        rw [Function.update_self]
        omega)).1
      dsimp only at hmutex
      rw [Function.update_self, withUser, hid] at hmutex
      exact absurd hmutex (by decide)
  · exact absurd (hi.trans hnil.symm) (hnone i)
  · exact absurd (hi.trans hnil.symm) (hnone i)

/-- One open too many wraps the count. -/
lemma Inv.mboxOpen_max (h : u.Inv) (hname : (u.mailboxes i).name = name.1)
    (hmax : (u.mailboxes i).ref = 2 ^ 31 - 1) :
    ∃ u', u.step (.mboxOpen name) = some u' ∧ ¬ u'.Law := by
  have hpos : 0 < (u.mailboxes i).ref := by
    rw [hmax]
    decide
  rcases doMboxOpen_cases u.mailboxes name.2.2 with
    ⟨j, hnamej, hopen⟩ | ⟨hnone, -⟩ | ⟨hnone, -⟩
  · obtain rfl : j = i := by
      rcases h.box j with ⟨hposj, -⟩ | ⟨-, hnil, -⟩
      · exact h.names j i hposj hpos (hnamej.trans hname.symm)
      · exact absurd (hname.trans (hnamej.symm.trans hnil)) (h.of_pos hpos).1
    refine ⟨_, step_open hopen, fun hlaw => ?_⟩
    have href := h.ref j
    have hnew := hlaw.ref j
    dsimp only at hnew
    rw [Function.update_self, Function.update_self, withUser, hmax] at hnew
    have hwrap : toInt32 (2 ^ 31 - 1 + 1) = -2 ^ 31 := by decide
    dsimp only at hnew
    rw [hwrap] at hnew
    push_cast at hnew
    omega
  · exact absurd hname (hnone i)
  · exact absurd hname (hnone i)

/-- A call after which the names, the counts and the mutexes are right is of the kind
allowed. -/
lemma Inv.proper {call : MboxNameCall} (h : u.Inv)
    (hlaw : ∀ u', u.step call = some u' → u'.Law) : u.Proper call := by
  cases call with
  | mboxOpen name =>
    constructor
    · intro hnil i hzero
      obtain ⟨u', hstep, hnot⟩ := h.mboxOpen_nil hnil hzero
      exact hnot (hlaw u' hstep)
    · intro i hname hmax
      obtain ⟨u', hstep, hnot⟩ := h.mboxOpen_max hname hmax
      exact hnot (hlaw u' hstep)
  | mboxClose i => trivial

end Inv

/-! ## The law of all runs -/

/-- In every run of opens and of closes that match them, from `init_mbox`, the calls
return and the names, the counts and the mutexes are right all the time exactly when
the empty name is only opened while all mailboxes are in use and no mailbox is opened
more than `2 ^ 31 - 1` times. -/
theorem mailbox_names_iff {calls : List MboxNameCall}
    (hmatched : Trace.StepsMeet step Matched init calls) :
    (∃ u, Trace.run step init calls = some u) ∧ Trace.Always step Law init calls ↔
      Trace.StepsMeet step Proper init calls := by
  have hiff : Trace.Always step Law init calls ↔ Trace.StepsMeet step Proper init calls := by
    refine Trace.always_iff_stepsMeet (fun u h => h.law) ?_ (fun u call h _ => h.proper) inv_init
      hmatched
    intro u call t h hm hp ht
    obtain ⟨u', hu', h'⟩ := h.step hm hp
    obtain rfl := Option.some.inj (ht.symm.trans hu')
    exact h'
  rw [hiff, and_iff_right_iff_imp]
  intro hproper
  obtain ⟨u, hrun, -⟩ := Trace.run_total (C := fun u call => u.Matched call ∧ u.Proper call)
    (fun u call h hC => h.step hC.1 hC.2) inv_init
    fun pre call post hcalls t ht =>
      ⟨hmatched pre call post hcalls t ht, hproper pre call post hcalls t ht⟩
  exact ⟨u, hrun⟩

/-- Two names, the first of them twice, and a close. -/
def nameCalls : List MboxNameCall :=
  [.mboxOpen ⟨[97], by decide⟩, .mboxOpen ⟨[98], by decide⟩, .mboxOpen ⟨[97], by decide⟩,
    .mboxClose 1]

instance (u : MboxUsers) (call : MboxNameCall) : Decidable (u.Matched call) := by
  cases call <;> unfold Matched <;> infer_instance

instance (u : MboxUsers) (call : MboxNameCall) : Decidable (u.Proper call) := by
  cases call <;> unfold Proper <;> infer_instance

theorem mailbox_names_nameCalls : Trace.Always step Law init nameCalls := by
  have hmatched : Trace.StepsMeet step Matched init nameCalls :=
    (Trace.stepsMeet_of_checkSteps (C := fun u call => decide (u.Matched call))
      (by decide)).mono fun u call h => of_decide_eq_true h
  have hproper : Trace.StepsMeet step Proper init nameCalls :=
    (Trace.stepsMeet_of_checkSteps (C := fun u call => decide (u.Proper call))
      (by decide)).mono fun u call h => of_decide_eq_true h
  exact ((mailbox_names_iff hmatched).2 hproper).2

/-- The first call opens the empty name. -/
theorem mailbox_names_empty :
    ∃ u, Trace.run step init [.mboxOpen ⟨[], by decide⟩] = some u ∧ u.closes 0 < u.opens 0 ∧
      (u.mailboxes 0).mutexId = -1 ∧ ¬ Trace.Always step Law init [.mboxOpen ⟨[], by decide⟩] := by
  refine ⟨_, rfl, by decide, by decide, fun hall => ?_⟩
  obtain ⟨u', hstep, hnot⟩ := @Inv.mboxOpen_nil init 0 ⟨[], by decide⟩ inv_init rfl rfl
  exact hnot (hall.tail hstep).first

end MboxUsers
end Sched
end UcasKernel
