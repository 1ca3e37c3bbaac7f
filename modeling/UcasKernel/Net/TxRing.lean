/-
The transmit ring as a queue of packets.

A run interleaves calls of `e1000_transmit` with steps of the card in any order.
The packets the card has still to send are the window of the ring from the head
register to the tail register, in order.  The window never covers the whole ring
as long as the driver does not fill the last free descriptor: with 64 packets
pending the two registers are equal, which tells the card that nothing is
pending.
-/
import UcasKernel.Lib.Trace
import UcasKernel.Net.E1000

namespace UcasKernel
namespace Net

/-- The card, the packets for which `e1000_transmit` returned a length, and the
packets on the wire, both in order. -/
structure TxRing where
  nic : E1000
  accepted : List (List UInt8)
  sent : List (List UInt8)

/-- A call of the driver or a step of the card. -/
inductive TxEvent
  | transmit (p : Packet)
  | send

namespace TxRing

def step (s : TxRing) : TxEvent → Option TxRing
  | .transmit p => do
    let (len, nic) ← s.nic.e1000Transmit (Bytes.ofList p.bytes) p.bytes.length
    some { s with nic := nic, accepted := if len ≠ 0 then s.accepted ++ [p.bytes] else s.accepted }
  | .send => do
    let (packet, nic) ← s.nic.sendHead
    some { s with nic := nic, sent := s.sent ++ [packet] }

/-- The ring after `e1000_init`. -/
def init (nic : E1000) : TxRing := ⟨nic.e1000Init, [], []⟩

/-- What was sent is a prefix of what was accepted, and the card sees that the
ring is not empty while accepted packets are unsent. -/
structure Law (s : TxRing) : Prop where
  isPrefix : s.sent <+: s.accepted
  pending : s.sent.length < s.accepted.length → s.nic.tdh ≠ s.nic.tdt

/-- Only the descriptor of the tail register is free: the next one is the head. -/
def Full (s : TxRing) : Prop := (s.nic.tdt + 1) % txdescs = s.nic.tdh

/-- The driver is not called with a full ring. -/
def Spare (s : TxRing) (e : TxEvent) : Prop := ∀ p, e = .transmit p → ¬ s.Full

/-- The ring holds `k` pending packets, in the descriptors from the head on. -/
structure Inv (s : TxRing) (k : ℕ) : Prop where
  tdh_lt : s.nic.tdh < 64
  tdt_eq : s.nic.tdt = (s.nic.tdh + k) % 64
  k_lt : k < 64
  addr : ∀ i < 64, (s.nic.txDescArray i).addr = i
  free : ∀ i, k ≤ i → i < 64 → (s.nic.txDescArray ((s.nic.tdh + i) % 64)).done = true
  accepted : s.accepted = s.sent ++ Ring.window s.nic.txPacket 64 s.nic.tdh k

/-! ## One step -/

lemma inv_init (nic : E1000) : (init nic).Inv 0 := by
  have hdesc : ∀ i < 64, (init nic).nic.txDescArray i =
      { (nic.txDescArray i).setDone with addr := i, cmd := 0 ||| txdCmdRs } :=
    fun i hi => if_pos hi
  refine ⟨Nat.zero_lt_succ _, rfl, by decide, fun i hi => ?_, fun i _ hi => ?_, rfl⟩
  · rw [hdesc i hi]
  · rw [show (init nic).nic.tdh = 0 from rfl, Nat.zero_add, Nat.mod_eq_of_lt hi, hdesc i hi]
    exact TxDesc.done_setDone _

section Step

variable {s t : TxRing} {k : ℕ} {p : Packet}

lemma Inv.length (h : s.Inv k) : s.accepted.length = s.sent.length + k := by
  rw [h.accepted, List.length_append, Ring.length_window]

lemma Inv.full_iff (h : s.Inv k) : s.Full ↔ k = 63 := by
  have h1 := h.tdh_lt
  have h2 := h.k_lt
  rw [Full, h.tdt_eq, txdescs]
  omega

lemma Inv.law (h : s.Inv k) : s.Law := by
  refine ⟨h.accepted ▸ List.prefix_append .., fun hlt => ?_⟩
  have h1 := h.tdh_lt
  have h2 := h.k_lt
  have h3 := h.length
  rw [h.tdt_eq]
  omega

lemma Inv.done_tdt (h : s.Inv k) : (s.nic.txDescArray s.nic.tdt).done = true := by
  rw [h.tdt_eq]
  exact h.free k le_rfl h.k_lt

/-- A call always returns: the descriptor of the tail register is free. -/
lemma Inv.transmit_enabled (h : s.Inv k) (p : Packet) : ∃ t, s.step (.transmit p) = some t := by
  have hfit : ¬ p.bytes.length > txPktSize := Nat.not_lt.2 p.length_le
  simp [step, E1000.e1000Transmit, h.done_tdt, hfit]

/-- The packet is accepted, and put into the descriptor of the tail register. -/
lemma Inv.transmit_eq (h : s.Inv k) (hstep : s.step (.transmit p) = some t) :
    t.sent = s.sent ∧ t.accepted = s.accepted ++ [p.bytes] ∧
      t.nic.tdh = s.nic.tdh ∧ t.nic.tdt = (s.nic.tdt + 1) % 64 ∧
      (∀ i, i ≠ s.nic.tdt → t.nic.txDescArray i = s.nic.txDescArray i) ∧
      (t.nic.txDescArray s.nic.tdt).addr = (s.nic.txDescArray s.nic.tdt).addr ∧
      (∀ i < 64, t.nic.txPacket i = Function.update s.nic.txPacket s.nic.tdt p.bytes i) := by
  have hle := p.length_le
  have hpos : p.bytes.length ≠ 0 := Nat.ne_of_gt p.length_pos
  have hlen : p.bytes.length % 2 ^ 16 = p.bytes.length := Nat.mod_eq_of_lt (by omega)
  have hfit : ¬ p.bytes.length > txPktSize := Nat.not_lt.2 hle
  simp only [step, E1000.e1000Transmit, h.done_tdt, hfit, Bool.not_true, Bool.false_eq_true,
    if_false, Option.bind_eq_bind, Option.bind_some, Option.some.injEq, ne_eq, hpos,
    not_false_eq_true, if_true] at hstep
  subst hstep
  refine ⟨rfl, rfl, rfl, rfl, fun i hi => Function.update_of_ne hi .., ?_, fun i hi => ?_⟩
  · simp [TxDesc.clearDone]
  · rcases eq_or_ne i s.nic.tdt with rfl | hne
    · simp only [E1000.txPacket, Function.update_self, TxDesc.clearDone, h.addr _ hi, hlen]
      rw [Bytes.slice_blit, Bytes.slice_ofList]
    · simp only [E1000.txPacket, Function.update_of_ne hne, h.addr i hi]

/-- A call with a spare descriptor appends a packet to the window. -/
lemma Inv.transmit (h : s.Inv k) (hk : k + 1 < 64) (hstep : s.step (.transmit p) = some t) :
    t.Inv (k + 1) := by
  obtain ⟨hsent, hacc, htdh, htdt, hdesc, haddr, hpacket⟩ := h.transmit_eq hstep
  have h1 := h.tdh_lt
  refine ⟨htdh ▸ h1, ?_, hk, fun i hi => ?_, fun i hi hi' => ?_, ?_⟩
  · rw [htdt, htdh, h.tdt_eq]
    omega
  · rcases eq_or_ne i s.nic.tdt with rfl | hne
    · rw [haddr, h.addr _ hi]
    · rw [hdesc i hne, h.addr i hi]
  · rw [htdh, hdesc _ (by rw [h.tdt_eq]; omega)]
    exact h.free i (by omega) hi'
  · -- the window grows by the descriptor that was written
    have hwindow : Ring.window t.nic.txPacket 64 s.nic.tdh (k + 1) =
        Ring.window s.nic.txPacket 64 s.nic.tdh k ++ [p.bytes] := by
      rw [Ring.window_congr (g := Function.update s.nic.txPacket ((s.nic.tdh + k) % 64) p.bytes)
        fun i _ => ?_]
      · exact Ring.window_update_snoc _ _ h.k_lt
      · rw [← h.tdt_eq]
        exact hpacket _ (Nat.mod_lt _ (by decide))
    rw [hacc, hsent, htdh, hwindow, h.accepted, List.append_assoc]

/-- The card sends the first packet of the window. -/
lemma Inv.send (h : s.Inv k) (hstep : s.step .send = some t) : ∃ j, k = j + 1 ∧ t.Inv j := by
  have h1 := h.tdh_lt
  have h2 := h.k_lt
  have hne : s.nic.tdh ≠ s.nic.tdt := by
    intro heq
    simp [step, E1000.sendHead, heq] at hstep
  obtain ⟨j, rfl⟩ : ∃ j, k = j + 1 := by
    refine ⟨k - 1, ?_⟩
    have := h.tdt_eq
    rw [Nat.sub_add_cancel]
    omega
  simp only [step, E1000.sendHead, hne, if_false, Option.bind_eq_bind, Option.bind_some,
    Option.some.injEq] at hstep
  subst hstep
  have hpacket : ∀ i < 64, E1000.txPacket { s.nic with
      txDescArray := Function.update s.nic.txDescArray s.nic.tdh (s.nic.txDescArray s.nic.tdh).setDone
      tdh := (s.nic.tdh + 1) % txdescs } i = s.nic.txPacket i := by
    intro i hi
    rcases eq_or_ne i s.nic.tdh with rfl | hi'
    · simp [E1000.txPacket]
    · simp [E1000.txPacket, hi']
  refine ⟨j, rfl, Nat.mod_lt _ (by decide), ?_, by omega, fun i hi => ?_, fun i hi hi' => ?_, ?_⟩
  · show s.nic.tdt = ((s.nic.tdh + 1) % 64 + j) % 64
    rw [h.tdt_eq]
    omega
  · show (Function.update s.nic.txDescArray s.nic.tdh _ i).addr = i
    rcases eq_or_ne i s.nic.tdh with rfl | hi'
    · rw [Function.update_self, TxDesc.addr_setDone, h.addr _ hi]
    · rw [Function.update_of_ne hi', h.addr i hi]
  · show (Function.update s.nic.txDescArray s.nic.tdh _ (((s.nic.tdh + 1) % 64 + i) % 64)).done = true
    rw [Nat.mod_add_mod]
    by_cases hlast : i = 63
    · rw [show (s.nic.tdh + 1 + i) % 64 = s.nic.tdh by omega, Function.update_self,
        TxDesc.done_setDone]
    · rw [Function.update_of_ne (by omega), Nat.add_right_comm, Nat.add_assoc]
      exact h.free (i + 1) (by omega) (by omega)
  · show s.accepted = s.sent ++ [s.nic.txPacket s.nic.tdh] ++
      Ring.window _ 64 ((s.nic.tdh + 1) % 64) j
    rw [Ring.window_mod, Ring.window_congr fun i _ => hpacket _ (Nat.mod_lt _ (by decide)), h.accepted,
      Ring.window_succ, Nat.mod_eq_of_lt h1, List.append_assoc, List.singleton_append]

/-- A call on a full ring makes the registers equal although packets are
pending. -/
lemma Inv.not_law_of_full (h : s.Inv k) (hfull : s.Full) (hstep : s.step (.transmit p) = some t) :
    ¬ t.Law := by
  obtain ⟨hsent, hacc, htdh, htdt, -⟩ := h.transmit_eq hstep
  intro hlaw
  refine hlaw.pending ?_ ?_
  · rw [hacc, hsent, List.length_append, h.length, List.length_singleton]
    omega
  · rw [htdh, htdt]
    exact hfull.symm

/-- A step of a run that keeps a spare descriptor keeps the invariant. -/
lemma Inv.step {e : TxEvent} (h : s.Inv k) (hspare : s.Spare e) (hstep : s.step e = some t) :
    ∃ j, t.Inv j := by
  cases e with
  | transmit p =>
    have hk : k ≠ 63 := fun hk => hspare p rfl (h.full_iff.2 hk)
    exact ⟨k + 1, h.transmit (by have := h.k_lt; omega) hstep⟩
  | send =>
    obtain ⟨j, -, hj⟩ := h.send hstep
    exact ⟨j, hj⟩

end Step

/-! ## Runs -/

/-- Along a run from `e1000_init` the packets on the wire are always a prefix of
the accepted ones, and the card always sees the unsent ones, if and only if the
driver is never called with a full ring. -/
theorem transmit_law_iff (nic : E1000) (es : List TxEvent) :
    Trace.Always step Law (init nic) es ↔ Trace.StepsMeet step Spare (init nic) es := by
  refine Trace.always_iff_stepsMeet (M := fun _ _ => True) (I := fun s => ∃ k, Inv s k) ?_ ?_ ?_
    ⟨_, inv_init nic⟩ (Trace.stepsMeet_true _ _)
  · rintro s ⟨k, hs⟩
    exact hs.law
  · rintro s e t ⟨k, hs⟩ - he hstep
    exact hs.step he hstep
  · -- the call on a full ring is enabled and breaks the law at once
    rintro s e ⟨k, hs⟩ - hlaw p rfl hfull
    obtain ⟨t, ht⟩ := hs.transmit_enabled p
    exact hs.not_law_of_full hfull ht (hlaw t ht)

/-! ## A ring's worth of packets -/

/-- Calls without a step of the card fill the ring up to its spare descriptor. -/
lemma inv_fill (nic : E1000) (p : Packet) {k : ℕ} (hk : k < 64) :
    ∃ t, Trace.run step (init nic) (List.replicate k (.transmit p)) = some t ∧ t.Inv k ∧
      t.sent = [] := by
  induction k with
  | zero => exact ⟨_, rfl, inv_init nic, rfl⟩
  | succ k ih =>
    obtain ⟨s, hrun, hs, hsent⟩ := ih (by omega)
    obtain ⟨t, ht⟩ := hs.transmit_enabled p
    refine ⟨t, ?_, hs.transmit hk ht, (hs.transmit_eq ht).1.trans hsent⟩
    rw [List.replicate_succ']
    exact Trace.run_append_eq_some.2 ⟨s, hrun, by rw [Trace.run_singleton, ht]⟩

/-- A packet of one byte. -/
def onePacket : Packet := ⟨[7], by decide, by decide⟩

/-- 64 calls before the first step of the card: all packets are accepted, none is
on the wire, and the card has nothing to send. -/
theorem transmit_ring_of_packets :
    ∃ t, Trace.run step (init resetNic) (List.replicate 64 (.transmit onePacket)) = some t ∧
      t.accepted.length = 64 ∧ t.sent = [] ∧ t.step .send = none ∧ ¬ t.Law := by
  obtain ⟨s, hrun, hs, hsent⟩ := inv_fill resetNic onePacket (show 63 < 64 by decide)
  obtain ⟨t, ht⟩ := hs.transmit_enabled onePacket
  obtain ⟨hsent', hacc, htdh, htdt, -⟩ := hs.transmit_eq ht
  have hfull : s.Full := hs.full_iff.2 rfl
  have heq : t.nic.tdh = t.nic.tdt := by rw [htdh, htdt]; exact hfull.symm
  refine ⟨t, ?_, ?_, hsent'.trans hsent, by simp [step, E1000.sendHead, heq],
    hs.not_law_of_full hfull ht⟩
  · rw [List.replicate_succ']
    exact Trace.run_append_eq_some.2 ⟨s, hrun, by rw [Trace.run_singleton, ht]⟩
  · rw [hacc, List.length_append, hs.length, hsent]
    rfl

end TxRing
end Net
end UcasKernel
