/-
Mailboxes: the byte buffer of `kernel/locking/lock.c` and its two copy loops.

A mailbox is a ring of `MAX_MBOX_LENGTH` bytes with two cursors and two lap
counters.  `do_mbox_send` and `do_mbox_recv` run their copy loop under the
mailbox mutex and only once `can_write_to_buffer` / `can_read_from_buffer`
holds, so a completed call acts on the mailbox as one step; blocking and waking
are the business of the scheduler.

What is in the buffer is the queue of the bytes between the cursors, and a send
appends its message to it.

The file ends with the exact condition under which the buffer is a byte stream.
The loop of `do_mbox_recv` reads `buf[nread++]` and then executes `nread++`
again, so it consumes two bytes for each byte it delivers: the stream law holds
along a run if and only if every receive of the run asks for no byte at all.
-/
import UcasKernel.Lib.Bytes
import UcasKernel.Lib.Ring
import UcasKernel.Lib.Trace
import Mathlib.Logic.Function.Basic
import Mathlib.Tactic.Linarith
import Mathlib.Tactic.Ring

namespace UcasKernel
namespace Locking

/-- `MAX_MBOX_LENGTH`. -/
def maxMboxLength : ℕ := 64

/-- `mailbox_t`, without the two wait lists, which live in the heap of list
nodes. -/
structure Mailbox where
  /-- The bytes of `name` before its terminator. -/
  name : List UInt8
  buf : ℕ → UInt8
  mutexId : ℤ
  ref : ℤ
  nread : ℕ
  nwrite : ℕ
  roundRead : ℕ
  roundWrite : ℕ

/-- A mailbox as `init_mbox` leaves it. -/
def initMbox : Mailbox where
  name := []
  buf := fun _ => 0
  mutexId := -1
  ref := 0
  nread := 0
  nwrite := 0
  roundRead := 0
  roundWrite := 0

namespace Mailbox

/-- The local `written` of the two guards: the number of bytes in the buffer. -/
def written (mbox : Mailbox) : ℤ :=
  ((mbox.roundWrite : ℤ) - mbox.roundRead) * maxMboxLength + ((mbox.nwrite : ℤ) - mbox.nread)

/-- `can_write_to_buffer`. -/
def canWriteToBuffer (mbox : Mailbox) (msgLen : ℕ) : Bool :=
  msgLen + mbox.written ≤ maxMboxLength

/-- `can_read_from_buffer`. -/
def canReadFromBuffer (mbox : Mailbox) (msgLen : ℕ) : Bool :=
  mbox.written ≥ msgLen

/-- One round of the copy loop of `do_mbox_send`. -/
def sendByte (mbox : Mailbox) (b : UInt8) : Mailbox :=
  let mbox := { mbox with buf := Function.update mbox.buf mbox.nwrite b, nwrite := mbox.nwrite + 1 }
  if mbox.nwrite ≥ maxMboxLength then
    { mbox with nwrite := mbox.nwrite % maxMboxLength, roundWrite := mbox.roundWrite + 1 }
  else mbox

/-- The copy loop of `do_mbox_send`. -/
def sendLoop (mbox : Mailbox) (msg : List UInt8) : Mailbox := msg.foldl sendByte mbox

/-- One round of the copy loop of `do_mbox_recv`.  The cursor is incremented in
the subscript and once more by the statement after it. -/
def recvByte (mbox : Mailbox) : UInt8 × Mailbox :=
  let b := mbox.buf mbox.nread
  let mbox := { mbox with nread := mbox.nread + 1 }
  let mbox := { mbox with nread := mbox.nread + 1 }
  (b, if mbox.nread ≥ maxMboxLength then
        { mbox with nread := mbox.nread % maxMboxLength, roundRead := mbox.roundRead + 1 }
      else mbox)

/-- The copy loop of `do_mbox_recv`, with the bytes it delivers. -/
def recvLoop (mbox : Mailbox) : ℕ → List UInt8 × Mailbox
  | 0 => ([], mbox)
  | n + 1 =>
    let (b, mbox) := mbox.recvByte
    let (bs, mbox) := mbox.recvLoop n
    (b :: bs, mbox)

/-! ## The name, the mutex and the users -/

/-- What the copy loops leave alone. -/
lemma handle_sendLoop (mbox : Mailbox) (msg : List UInt8) :
    (mbox.sendLoop msg).name = mbox.name ∧ (mbox.sendLoop msg).mutexId = mbox.mutexId ∧
      (mbox.sendLoop msg).ref = mbox.ref := by
  induction msg generalizing mbox with
  | nil => exact ⟨rfl, rfl, rfl⟩
  | cons b msg ih =>
    obtain ⟨hname, hid, href⟩ := ih (mbox.sendByte b)
    have hbyte : (mbox.sendByte b).name = mbox.name ∧
        (mbox.sendByte b).mutexId = mbox.mutexId ∧ (mbox.sendByte b).ref = mbox.ref := by
      rw [sendByte]
      dsimp only
      split <;> exact ⟨rfl, rfl, rfl⟩
    exact ⟨hname.trans hbyte.1, hid.trans hbyte.2.1, href.trans hbyte.2.2⟩

lemma handle_recvLoop (mbox : Mailbox) (n : ℕ) :
    (mbox.recvLoop n).2.name = mbox.name ∧ (mbox.recvLoop n).2.mutexId = mbox.mutexId ∧
      (mbox.recvLoop n).2.ref = mbox.ref := by
  induction n generalizing mbox with
  | zero => exact ⟨rfl, rfl, rfl⟩
  | succ n ih =>
    obtain ⟨hname, hid, href⟩ := ih mbox.recvByte.2
    have hbyte : mbox.recvByte.2.name = mbox.name ∧ mbox.recvByte.2.mutexId = mbox.mutexId ∧
        mbox.recvByte.2.ref = mbox.ref := by
      rw [recvByte]
      dsimp only
      split <;> exact ⟨rfl, rfl, rfl⟩
    exact ⟨hname.trans hbyte.1, hid.trans hbyte.2.1, href.trans hbyte.2.2⟩

/-! ## The cursors -/

/-- Both cursors stay inside the buffer. -/
structure CursorsOk (mbox : Mailbox) : Prop where
  nread_lt : mbox.nread < maxMboxLength
  nwrite_lt : mbox.nwrite < maxMboxLength

lemma cursorsOk_sendByte {mbox : Mailbox} (h : mbox.CursorsOk) (b : UInt8) :
    (mbox.sendByte b).CursorsOk := by
  obtain ⟨h1, h2⟩ := h
  simp only [maxMboxLength] at h1 h2
  simp only [sendByte]
  split
  · exact ⟨h1, Nat.mod_lt _ (by decide)⟩
  · rename_i hlt
    exact ⟨h1, by simpa using hlt⟩

lemma written_sendByte {mbox : Mailbox} (h : mbox.CursorsOk) (b : UInt8) :
    (mbox.sendByte b).written = mbox.written + 1 := by
  have h2 := h.nwrite_lt
  simp only [maxMboxLength] at h2
  simp only [sendByte]
  split
  · rename_i hge
    have hw : mbox.nwrite = 63 := by simp only [maxMboxLength] at hge; omega
    simp only [written, maxMboxLength, hw]
    push_cast
    omega
  · simp only [written]
    push_cast
    omega

lemma cursorsOk_sendLoop {mbox : Mailbox} (h : mbox.CursorsOk) (msg : List UInt8) :
    (mbox.sendLoop msg).CursorsOk := by
  induction msg generalizing mbox with
  | nil => exact h
  | cons b msg ih => exact ih (cursorsOk_sendByte h b)

/-- The copy loop of `do_mbox_send` fills the buffer by the length of the
message. -/
lemma written_sendLoop {mbox : Mailbox} (h : mbox.CursorsOk) (msg : List UInt8) :
    (mbox.sendLoop msg).written = mbox.written + msg.length := by
  induction msg generalizing mbox with
  | nil => simp [sendLoop]
  | cons b msg ih =>
    have hstep := ih (cursorsOk_sendByte h b)
    rw [written_sendByte h b] at hstep
    simp only [sendLoop, List.foldl_cons, List.length_cons] at hstep ⊢
    rw [hstep]
    push_cast
    ring

lemma cursorsOk_recvByte {mbox : Mailbox} (h : mbox.CursorsOk) : mbox.recvByte.2.CursorsOk := by
  obtain ⟨h1, h2⟩ := h
  simp only [recvByte]
  split
  · exact ⟨Nat.mod_lt _ (by decide), h2⟩
  · rename_i hlt
    exact ⟨by simpa using hlt, h2⟩

/-- A round of the copy loop of `do_mbox_recv` delivers one byte and consumes
two. -/
lemma written_recvByte {mbox : Mailbox} (h : mbox.CursorsOk) :
    mbox.recvByte.2.written = mbox.written - 2 := by
  have h1 := h.nread_lt
  simp only [maxMboxLength] at h1
  simp only [recvByte]
  split
  · rename_i hge
    simp only [ge_iff_le, maxMboxLength] at hge
    simp only [written, maxMboxLength]
    push_cast
    omega
  · simp only [written]
    push_cast
    ring

lemma length_recvLoop (mbox : Mailbox) (n : ℕ) : (mbox.recvLoop n).1.length = n := by
  induction n generalizing mbox with
  | zero => rfl
  | succ n ih => simp [recvLoop, ih]

lemma written_recvLoop {mbox : Mailbox} (h : mbox.CursorsOk) (n : ℕ) :
    (mbox.recvLoop n).2.written = mbox.written - 2 * n := by
  induction n generalizing mbox with
  | zero => simp [recvLoop]
  | succ n ih =>
    have hstep := ih (cursorsOk_recvByte h)
    rw [written_recvByte h] at hstep
    simp only [recvLoop] at hstep ⊢
    rw [hstep]
    push_cast
    ring

/-! ## The queue in the buffer -/

/-- The bytes in the buffer: as many as `written` says, from the read cursor on. -/
def queue (mbox : Mailbox) : List UInt8 :=
  Ring.window mbox.buf maxMboxLength mbox.nread mbox.written.toNat

section Queue

variable {mbox : Mailbox} {msg : List UInt8}

/-- The lap counters are C ints and may wrap: the guards compute the same. -/
lemma written_toInt32 (h0 : 0 ≤ mbox.written) (h1 : mbox.written ≤ maxMboxLength) :
    toInt32 (toInt32 (toInt32 (toInt32 mbox.roundWrite - toInt32 mbox.roundRead) * maxMboxLength) +
      ((mbox.nwrite : ℤ) - mbox.nread)) = mbox.written := by
  have hwrap : toInt32 (toInt32 (toInt32 (toInt32 mbox.roundWrite - toInt32 mbox.roundRead) *
      maxMboxLength) + ((mbox.nwrite : ℤ) - mbox.nread)) = toInt32 mbox.written := by
    simp only [toInt32, Int.bmod_add_bmod, Int.bmod_sub_bmod, Int.sub_bmod_bmod, Int.bmod_mul_bmod,
      written]
  rw [hwrap]
  simp only [maxMboxLength] at h1
  exact toInt32_of_range ⟨by omega, by omega⟩

/-- The write cursor is behind the last byte of the queue. -/
lemma nwrite_eq (h : mbox.CursorsOk) (h0 : 0 ≤ mbox.written) :
    mbox.nwrite = (mbox.nread + mbox.written.toNat) % maxMboxLength := by
  have hlt := h.nwrite_lt
  simp only [written, maxMboxLength] at h0 hlt ⊢
  omega

@[simp] lemma nread_sendByte (mbox : Mailbox) (b : UInt8) :
    (mbox.sendByte b).nread = mbox.nread := by
  simp only [sendByte]
  split <;> rfl

@[simp] lemma buf_sendByte (mbox : Mailbox) (b : UInt8) :
    (mbox.sendByte b).buf = Function.update mbox.buf mbox.nwrite b := by
  simp only [sendByte]
  split <;> rfl

@[simp] lemma nread_sendLoop (mbox : Mailbox) (msg : List UInt8) :
    (mbox.sendLoop msg).nread = mbox.nread := by
  induction msg generalizing mbox with
  | nil => rfl
  | cons b msg ih => exact (ih (mbox.sendByte b)).trans (nread_sendByte mbox b)

/-- One round appends its byte to a queue that is not full. -/
lemma queue_sendByte (h : mbox.CursorsOk) (h0 : 0 ≤ mbox.written)
    (h1 : mbox.written < maxMboxLength) (b : UInt8) :
    (mbox.sendByte b).queue = mbox.queue ++ [b] := by
  have hfill : (mbox.sendByte b).written.toNat = mbox.written.toNat + 1 := by
    rw [written_sendByte h b]
    omega
  rw [queue, hfill, nread_sendByte, buf_sendByte, nwrite_eq h h0]
  exact Ring.window_update_snoc mbox.buf b (by omega)

/-- The slot that a round writes is not a slot of the queue. -/
lemma slot_ne_nwrite (h : mbox.CursorsOk) (h0 : 0 ≤ mbox.written)
    (h1 : mbox.written < maxMboxLength) {i : ℕ} (hi : i < mbox.written.toNat) :
    (mbox.nread + i) % maxMboxLength ≠ mbox.nwrite := by
  rw [nwrite_eq h h0]
  exact Ring.slot_ne (by omega) (by omega)

/-- The copy loop appends the message to the queue. -/
lemma queue_sendLoop (h : mbox.CursorsOk) (h0 : 0 ≤ mbox.written)
    (h1 : mbox.written + msg.length ≤ maxMboxLength) :
    (mbox.sendLoop msg).queue = mbox.queue ++ msg := by
  induction msg generalizing mbox with
  | nil => exact (List.append_nil _).symm
  | cons b msg ih =>
    rw [List.length_cons, Nat.cast_add, Nat.cast_one] at h1
    have hfill := written_sendByte h b
    have hrest := ih (cursorsOk_sendByte h b) (by omega) (by omega)
    rw [queue_sendByte h h0 (by omega), List.append_assoc, List.singleton_append] at hrest
    exact hrest

/-- The loop leaves the slots of the queue as they were. -/
lemma buf_sendLoop (h : mbox.CursorsOk) (h0 : 0 ≤ mbox.written)
    (h1 : mbox.written + msg.length ≤ maxMboxLength) {i : ℕ} (hi : i < mbox.written.toNat) :
    (mbox.sendLoop msg).buf ((mbox.nread + i) % maxMboxLength) =
      mbox.buf ((mbox.nread + i) % maxMboxLength) := by
  induction msg generalizing mbox with
  | nil => rfl
  | cons b msg ih =>
    rw [List.length_cons, Nat.cast_add, Nat.cast_one] at h1
    have hfill := written_sendByte h b
    have hrest := ih (cursorsOk_sendByte h b) (by omega) (by omega) (by omega)
    rw [nread_sendByte, buf_sendByte, Function.update_of_ne (slot_ne_nwrite h h0 (by omega) hi)]
      at hrest
    exact hrest

/-- For a message that the guard lets through, the copy loop of `do_mbox_send` appends
the message to the queue; no round writes outside of the buffer or on a byte that is in
the queue then, and the write cursor and the fill level are those of the longer queue. -/
theorem mbox_send_appends (h : mbox.CursorsOk) (h0 : 0 ≤ mbox.written)
    (hcan : mbox.canWriteToBuffer msg.length = true) :
    (mbox.sendLoop msg).queue = mbox.queue ++ msg ∧
      (∀ pre b post, msg = pre ++ b :: post → (mbox.sendLoop pre).nwrite < maxMboxLength ∧
        ∀ i < (mbox.sendLoop pre).written.toNat,
          (mbox.nread + i) % maxMboxLength ≠ (mbox.sendLoop pre).nwrite) ∧
      (∀ i < mbox.written.toNat, (mbox.sendLoop msg).buf ((mbox.nread + i) % maxMboxLength) =
        mbox.buf ((mbox.nread + i) % maxMboxLength)) ∧
      (mbox.sendLoop msg).nread = mbox.nread ∧ (mbox.sendLoop msg).nwrite < maxMboxLength ∧
      (mbox.sendLoop msg).written = mbox.written + msg.length := by
  have hroom : mbox.written + msg.length ≤ maxMboxLength := by
    simp only [canWriteToBuffer, decide_eq_true_eq] at hcan
    omega
  refine ⟨queue_sendLoop h h0 hroom, ?_, fun i hi => buf_sendLoop h h0 hroom hi,
    nread_sendLoop mbox msg, (cursorsOk_sendLoop h msg).nwrite_lt, written_sendLoop h msg⟩
  rintro pre b post rfl
  rw [List.length_append, List.length_cons] at hroom
  push_cast at hroom
  -- the state of the round is that of a shorter message
  have hcursors := cursorsOk_sendLoop h pre
  have hfill := written_sendLoop h pre
  refine ⟨hcursors.nwrite_lt, fun i hi => ?_⟩
  have hne := slot_ne_nwrite hcursors (by omega) (by omega) hi
  rwa [nread_sendLoop] at hne

/-- A mailbox of three bytes whose write cursor is at the last slot but one. -/
def nearEnd : Mailbox :=
  { initMbox with buf := fun i => UInt8.ofNat i, nread := 59, nwrite := 62 }

theorem mbox_send_appends_nearEnd :
    (nearEnd.sendLoop [7, 8, 9]).queue = [59, 60, 61, 7, 8, 9] ∧
      (nearEnd.sendLoop [7, 8, 9]).nwrite < maxMboxLength ∧
      (nearEnd.sendLoop [7, 8, 9]).written = 3 + 3 := by
  have h := @mbox_send_appends nearEnd [7, 8, 9] ⟨by decide, by decide⟩ (by decide) (by decide)
  exact ⟨h.1, h.2.2.2.2.1, h.2.2.2.2.2⟩

end Queue

end Mailbox

/-! ## Runs of completed calls -/

/-- A completed call on the mailbox, with the process that made it. -/
inductive MboxCall
  | send (pid : ℤ) (msg : List UInt8)
  | recv (pid : ℤ) (len : ℕ)
deriving DecidableEq

/-- A mailbox with the history of its byte stream: the bytes given to the sends
and the bytes delivered by the receives, both in completion order. -/
structure MboxStream where
  mbox : Mailbox
  sent : List UInt8
  received : List UInt8

/-- A mailbox as `init_mbox` leaves it, before any call. -/
def emptyStream : MboxStream := ⟨initMbox, [], []⟩

namespace MboxStream

/-- The effect of a completed call.  Its body runs only once the guard of its
loop holds; lengths are at most the size of the buffer. -/
def call (s : MboxStream) : MboxCall → Option MboxStream
  | .send _ msg =>
    if msg.length ≤ maxMboxLength ∧ s.mbox.canWriteToBuffer msg.length then
      some { s with mbox := s.mbox.sendLoop msg, sent := s.sent ++ msg }
    else none
  | .recv _ len =>
    if len ≤ maxMboxLength ∧ s.mbox.canReadFromBuffer len then
      some { s with
        mbox := (s.mbox.recvLoop len).2
        received := s.received ++ (s.mbox.recvLoop len).1 }
    else none

/-- The byte-stream law: what was received is a prefix of what was sent, and the
number of bytes in between is the fill level the guards compute. -/
structure Law (s : MboxStream) : Prop where
  isPrefix : s.received <+: s.sent
  pending : (s.sent.length : ℤ) - s.received.length = s.mbox.written
  nonneg : 0 ≤ s.mbox.written
  le : s.mbox.written ≤ maxMboxLength

/-- Nothing has been received yet, and the fill level counts what was sent. -/
structure Unread (s : MboxStream) : Prop where
  cursors : s.mbox.CursorsOk
  received : s.received = []
  written : s.mbox.written = s.sent.length
  le : s.mbox.written ≤ maxMboxLength

lemma unread_emptyStream : Unread emptyStream :=
  ⟨⟨by decide, by decide⟩, rfl, rfl, by decide⟩

lemma Unread.law {s : MboxStream} (h : s.Unread) : s.Law where
  isPrefix := by rw [h.received]; exact List.nil_prefix
  pending := by rw [h.received, h.written]; simp
  nonneg := by rw [h.written]; exact Int.natCast_nonneg _
  le := h.le

/-- A call that reads no byte keeps the stream unread. -/
lemma Unread.call {s t : MboxStream} {c : MboxCall} (h : s.Unread)
    (hc : ∀ pid len, c = .recv pid len → len = 0) (hcall : s.call c = some t) : t.Unread := by
  cases c with
  | send pid msg =>
    simp only [MboxStream.call, Option.ite_none_right_eq_some, Option.some.injEq] at hcall
    obtain ⟨⟨-, hw⟩, rfl⟩ := hcall
    have hfill := Mailbox.written_sendLoop h.cursors msg
    simp only [Mailbox.canWriteToBuffer, decide_eq_true_eq] at hw
    refine ⟨Mailbox.cursorsOk_sendLoop h.cursors msg, h.received, ?_, ?_⟩
    · rw [hfill, h.written, List.length_append, Nat.cast_add]
    · rw [hfill]
      linarith
  | recv pid len =>
    obtain rfl := hc pid len rfl
    simp only [MboxStream.call, Mailbox.recvLoop, List.append_nil, Option.ite_none_right_eq_some,
      Option.some.injEq] at hcall
    obtain ⟨-, rfl⟩ := hcall
    exact h

/-- A receive of `len > 0` bytes from an unread stream breaks the law: it counts
`len` bytes as received and takes `2 * len` bytes off the fill level. -/
lemma Unread.eq_zero_of_law {s t : MboxStream} {pid : ℤ} {len : ℕ} (h : s.Unread)
    (hcall : s.call (.recv pid len) = some t) (hlaw : t.Law) : len = 0 := by
  simp only [MboxStream.call, Option.ite_none_right_eq_some, Option.some.injEq] at hcall
  obtain ⟨-, rfl⟩ := hcall
  have hpending := hlaw.pending
  simp only [h.received, List.nil_append, Mailbox.length_recvLoop] at hpending
  rw [Mailbox.written_recvLoop h.cursors, h.written] at hpending
  omega

/-- Along a run of completed calls from the empty mailbox the byte-stream law
holds in every state if and only if every receive asks for zero bytes. -/
theorem mbox_always_law_iff {calls : List MboxCall} {t : MboxStream}
    (hrun : Trace.run call emptyStream calls = some t) :
    Trace.Always call Law emptyStream calls ↔
      ∀ pid len, MboxCall.recv pid len ∈ calls → len = 0 := by
  suffices h : ∀ s : MboxStream, s.Unread → Trace.run call s calls = some t →
      (Trace.Always call Law s calls ↔ ∀ pid len, MboxCall.recv pid len ∈ calls → len = 0) from
    h _ unread_emptyStream hrun
  clear hrun
  induction calls with
  | nil =>
    intro s hs _
    refine ⟨fun _ pid len h => absurd h (by simp), fun _ pre post hnil u hu => ?_⟩
    obtain ⟨rfl, -⟩ := List.append_eq_nil_iff.1 hnil.symm
    rw [Trace.run_nil, Option.some.injEq] at hu
    exact hu ▸ hs.law
  | cons c calls ih =>
    intro s hs hrun
    obtain ⟨u, hu, hrun⟩ := Trace.run_cons_eq_some.1 hrun
    constructor
    · intro halways
      -- the law after the first call forces that call to read nothing
      have hlaw : u.Law := halways [c] calls rfl u (by rw [Trace.run_singleton, hu])
      have hc : ∀ pid len, c = .recv pid len → len = 0 := by
        rintro pid len rfl
        exact hs.eq_zero_of_law hu hlaw
      have hrest : Trace.Always call Law u calls := by
        intro pre post hpre v hv
        exact halways (c :: pre) post (by rw [hpre, List.cons_append]) v
          (by rw [Trace.run_cons, hu]; exact hv)
      intro pid len hmem
      rcases List.mem_cons.1 hmem with h | h
      · exact hc pid len h.symm
      · exact (ih u (hs.call hc hu) hrun).1 hrest pid len h
    · intro hzero
      have hc : ∀ pid len, c = .recv pid len → len = 0 :=
        fun pid len h => hzero pid len (h ▸ List.mem_cons_self)
      have hrest := (ih u (hs.call hc hu) hrun).2
        fun pid len h => hzero pid len (List.mem_cons_of_mem _ h)
      intro pre post hpre v hv
      cases pre with
      | nil =>
        rw [Trace.run_nil, Option.some.injEq] at hv
        exact hv ▸ hs.law
      | cons a pre =>
        simp only [List.cons_append, List.cons.injEq] at hpre
        obtain ⟨rfl, hpre⟩ := hpre
        rw [Trace.run_cons, hu, Option.bind_some] at hv
        exact hrest pre post hpre v hv

/-- The calls of a run that only sends. -/
def sendCalls : List MboxCall := [.send 1 [7, 8], .recv 2 0, .send 3 [9]]

theorem mbox_always_law_sendCalls : Trace.Always call Law emptyStream sendCalls :=
  (@mbox_always_law_iff sendCalls _ rfl).2 <| by
    intro pid len hmem
    simp only [sendCalls, List.mem_cons, List.not_mem_nil, or_false, reduceCtorEq, false_or,
      MboxCall.recv.injEq] at hmem
    exact hmem.2

/-- Two bytes are sent and then received: the receive delivers the first byte
and the byte after the second one. -/
theorem mbox_law_fails_after_recv :
    ∃ t, Trace.run call emptyStream [.send 1 [7, 8], .recv 2 2] = some t ∧
      t.sent = [7, 8] ∧ t.received = [7, 0] ∧ ¬ t.Law := by
  refine ⟨_, rfl, rfl, by decide, fun hlaw => ?_⟩
  exact absurd hlaw.isPrefix (by decide)

end MboxStream
end Locking
end UcasKernel
