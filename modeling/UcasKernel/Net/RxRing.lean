/-
The receive ring as a queue of packets, and `do_net_recv` from
`kernel/net/net.c` on top of it.

The packets that the card has stored and the driver has not yet taken are the
window of the ring behind the tail register.  The card owns the descriptors from
the head register up to the tail register; the driver owns the window and the
descriptor of the tail register itself.  A run interleaves steps of the card with
the calls of `do_net_recv` of any number of tasks, each call one round of its
loop at a time; a round without a packet blocks the task and is made again later.
-/
import UcasKernel.Lib.Trace
import UcasKernel.Net.E1000

namespace UcasKernel
namespace Net

/-! ## The ring -/

namespace E1000

/-- The descriptors the card may fill: from the head register up to the tail
register. -/
def CardOwns (nic : E1000) (i : ℕ) : Prop :=
  ∃ j < (nic.rdt + rxdescs - nic.rdh) % rxdescs, i = (nic.rdh + j) % rxdescs

/-- The ring holds `k` packets `q` that were stored and not taken. -/
structure RxInv (nic : E1000) (q : List (List UInt8)) (k : ℕ) : Prop where
  rdt_lt : nic.rdt < 64
  rdh_eq : nic.rdh = (nic.rdt + 1 + k) % 64
  k_lt : k < 64
  addr : ∀ i < 64, (nic.rxDescArray i).addr = i
  full : ∀ i < k, (nic.rxDescArray ((nic.rdt + 1 + i) % 64)).done = true
  free : ∀ i, k ≤ i → i < 64 → (nic.rxDescArray ((nic.rdt + 1 + i) % 64)).done = false
  queue : q = Ring.window nic.rxPacket 64 (nic.rdt + 1) k
  nonempty : ∀ p ∈ q, p ≠ []

lemma rxInv_init (nic : E1000) : nic.atBoot.e1000Init.RxInv [] 0 := by
  have hdesc : ∀ i < 64, nic.atBoot.e1000Init.rxDescArray i = ⟨i, 0, 0⟩ := fun i hi => if_pos hi
  refine ⟨Nat.lt_succ_self 63, ?_, by decide, fun i hi => ?_,
    fun i hi => absurd hi (Nat.not_lt_zero i), fun i _ hi => ?_, rfl, by simp⟩
  · show 0 = (63 + 1 + 0) % 64
    rfl
  · rw [hdesc i hi]
  · rw [hdesc _ (Nat.mod_lt _ (by decide))]
    simp [RxDesc.done]

section Ring

variable {nic nic' : E1000} {q : List (List UInt8)} {k : ℕ} {p : Packet} {buf : Bytes} {pos : ℕ}

/-- The card appends a packet. -/
lemma RxInv.store (h : nic.RxInv q k) (hstep : nic.storeHead p = some nic') :
    nic'.RxInv (q ++ [p.bytes]) (k + 1) := by
  have h1 := h.rdt_lt
  have h2 := h.k_lt
  have h3 := h.rdh_eq
  have hne : nic.rdh ≠ nic.rdt := by
    intro heq
    simp [storeHead, heq] at hstep
  have hk : k + 1 < 64 := by omega
  have hlt : nic.rdh < 64 := by
    rw [h3]
    exact Nat.mod_lt _ (by decide)
  simp only [storeHead, hne, if_false, Option.some.injEq] at hstep
  subst hstep
  refine ⟨h1, ?_, hk, fun i hi => ?_, fun i hi => ?_, fun i hi hi' => ?_, ?_, ?_⟩
  · show (nic.rdh + 1) % 64 = (nic.rdt + 1 + (k + 1)) % 64
    omega
  · show (Function.update nic.rxDescArray nic.rdh _ i).addr = i
    rcases eq_or_ne i nic.rdh with rfl | hi'
    · rw [Function.update_self, RxDesc.addr_setDone, h.addr _ hi]
    · rw [Function.update_of_ne hi', h.addr i hi]
  · show (Function.update nic.rxDescArray nic.rdh _ ((nic.rdt + 1 + i) % 64)).done = true
    rcases Nat.lt_succ_iff_lt_or_eq.1 hi with hi | rfl
    · rw [Function.update_of_ne (by omega)]
      exact h.full i hi
    · rw [← h3, Function.update_self, RxDesc.done_setDone]
  · show (Function.update nic.rxDescArray nic.rdh _ ((nic.rdt + 1 + i) % 64)).done = false
    rw [Function.update_of_ne (by omega)]
    exact h.free i (by omega) hi'
  · -- the descriptor behind the window now holds the packet
    rw [h.queue, ← Ring.window_update_snoc nic.rxPacket p.bytes h2]
    refine Ring.window_congr fun i _ => ?_
    obtain ⟨j, hj⟩ : ∃ j, j = (nic.rdt + 1 + i) % 64 := ⟨_, rfl⟩
    rw [← hj, ← h3]
    have hj' : j < 64 := hj ▸ Nat.mod_lt _ (by decide)
    rcases eq_or_ne j nic.rdh with rfl | hne'
    · simp only [rxPacket, Function.update_self, RxDesc.addr_setDone, RxDesc.length_setDone,
        h.addr _ hlt]
      rw [Bytes.slice_blit, Bytes.slice_ofList]
    · simp only [rxPacket, Function.update_of_ne hne', RxDesc.addr_setDone, h.addr _ hlt]
  · intro x hx
    rcases List.mem_append.1 hx with hx | hx
    · exact h.nonempty x hx
    · rw [List.mem_singleton.1 hx]
      exact List.ne_nil_of_length_pos p.length_pos

/-- The driver reads a descriptor the card does not own. -/
lemma RxInv.not_cardOwns (h : nic.RxInv q k)
    (hdone : (nic.rxDescArray ((nic.rdt + 1) % rxdescs)).done = true) :
    ¬ nic.CardOwns ((nic.rdt + 1) % rxdescs) := by
  have h1 := h.rdt_lt
  have h2 := h.k_lt
  have hk : k ≠ 0 := by
    rintro rfl
    have hfree := h.free 0 le_rfl (by decide)
    exact Bool.noConfusion (hfree.symm.trans hdone)
  rintro ⟨j, hj, heq⟩
  rw [h.rdh_eq, rxdescs] at hj heq
  omega

/-- A poll of a ring without packets changes nothing. -/
lemma RxInv.poll_zero (h : nic.RxInv q 0) : nic.e1000Poll buf pos = (0, buf, nic) := by
  have hfree : (nic.rxDescArray ((nic.rdt + 1) % rxdescs)).done = false := h.free 0 le_rfl (by decide)
  simp [e1000Poll, hfree]

/-- A poll of a ring with packets takes the first one. -/
lemma RxInv.poll_succ (h : nic.RxInv q (k + 1)) (buf : Bytes) (pos : ℕ) :
    ∃ len buf' nic' q', nic.e1000Poll buf pos = (len, buf', nic') ∧ len ≠ 0 ∧
      buf' = Bytes.blit buf pos (nic.rxPktBuffer ((nic.rdt + 1) % 64)) 0 len ∧
      q = buf'.slice pos len :: q' ∧ nic'.RxInv q' k := by
  have h1 := h.rdt_lt
  have h2 := h.k_lt
  obtain ⟨tail, htail⟩ : ∃ tail, tail = (nic.rdt + 1) % 64 := ⟨_, rfl⟩
  have hlt : tail < 64 := htail ▸ Nat.mod_lt _ (by decide)
  have hdone : (nic.rxDescArray tail).done = true := htail ▸ h.full 0 (Nat.zero_lt_succ k)
  have hqueue := h.queue
  rw [Ring.window_succ, ← htail] at hqueue
  have hpacket : nic.rxPacket tail ≠ [] := h.nonempty _ (hqueue ▸ List.mem_cons_self)
  have hlen : (nic.rxDescArray tail).length ≠ 0 := by
    intro hzero
    rw [E1000.rxPacket, hzero] at hpacket
    exact hpacket (Bytes.slice_zero ..)
  have hpoll : nic.e1000Poll buf pos = ((nic.rxDescArray tail).length,
      Bytes.blit buf pos (nic.rxPktBuffer tail) 0 (nic.rxDescArray tail).length,
      { nic with
        rxDescArray := Function.update nic.rxDescArray tail (nic.rxDescArray tail).clearDone
        rdt := tail }) := by
    simp [e1000Poll, rxdescs, ← htail, hdone]
  refine ⟨_, _, _, Ring.window nic.rxPacket 64 (nic.rdt + 1 + 1) k, hpoll, hlen, by rw [← htail], ?_,
    hlt, ?_, by omega, fun i hi => ?_, fun i hi => ?_, fun i hi hi' => ?_, ?_, fun x hx => ?_⟩
  · rw [Bytes.slice_blit]
    exact hqueue
  · show nic.rdh = (tail + 1 + k) % 64
    rw [h.rdh_eq]
    omega
  · show (Function.update nic.rxDescArray tail _ i).addr = i
    rcases eq_or_ne i tail with rfl | hne
    · rw [Function.update_self, RxDesc.addr_clearDone, h.addr _ hi]
    · rw [Function.update_of_ne hne, h.addr i hi]
  · show (Function.update nic.rxDescArray tail _ ((tail + 1 + i) % 64)).done = true
    rw [Function.update_of_ne (by omega),
      show (tail + 1 + i) % 64 = (nic.rdt + 1 + (i + 1)) % 64 by omega]
    exact h.full (i + 1) (by omega)
  · show (Function.update nic.rxDescArray tail _ ((tail + 1 + i) % 64)).done = false
    by_cases hlast : i = 63
    · rw [show (tail + 1 + i) % 64 = tail by omega, Function.update_self, RxDesc.done_clearDone]
    · rw [Function.update_of_ne (by omega),
        show (tail + 1 + i) % 64 = (nic.rdt + 1 + (i + 1)) % 64 by omega]
      exact h.free (i + 1) (by omega) (by omega)
  · -- the rest of the window begins behind the new tail register
    rw [← Ring.window_mod _ _ (nic.rdt + 1 + 1), ← Ring.window_mod _ _ (_ + 1),
      show (nic.rdt + 1 + 1) % 64 = (tail + 1) % 64 by omega]
    refine Ring.window_congr fun i _ => ?_
    rcases eq_or_ne (((tail + 1) % 64 + i) % 64) tail with heq | hne
    · simp only [rxPacket, heq, Function.update_self, RxDesc.length_clearDone]
    · simp only [rxPacket, Function.update_of_ne hne]
  · exact h.nonempty x (hqueue ▸ List.mem_cons_of_mem _ hx)

end Ring

end E1000

/-! ## Calls of `do_net_recv` -/

/-- A call of `do_net_recv`: its buffers and locals.  `start` and `taken` record
how many packets had been polled before the call, and the packets it polled. -/
structure RecvCall where
  rxbuffer : Bytes
  pktNum : ℤ
  pktLens : ℕ → ℤ
  /-- How far `rxbuffer` and `pkt_lens` have been moved. -/
  pos : ℕ
  lensPos : ℕ
  bytes : ℤ
  i : ℤ
  start : ℕ
  taken : List (List UInt8)

/-- The bytes of the packets a call took, one behind the other. -/
def RecvCall.data (c : RecvCall) : List UInt8 := c.taken.flatten

/-- The body of the loop behind a poll that returned `len`. -/
def RecvCall.deliver (c : RecvCall) (rxbuffer : Bytes) (len : ℕ) : RecvCall :=
  { c with
    rxbuffer := rxbuffer
    pktLens := Function.update c.pktLens c.lensPos len
    lensPos := c.lensPos + 1
    bytes := toInt32 (c.bytes + len)
    pos := c.pos + len
    i := c.i + 1
    taken := c.taken ++ [rxbuffer.slice c.pos len] }

/-- A completed call, its result, and how many packets had been polled by then. -/
structure RecvDone where
  call : RecvCall
  result : ℤ
  stop : ℕ

/-- The card, the packets it stored and the packets `e1000_poll` returned, in
order, and the calls in progress and completed, by task. -/
structure RxRing (T : Type) where
  nic : E1000
  stored : List (List UInt8)
  polled : List (List UInt8)
  calls : T → Option RecvCall
  completed : List RecvDone

/-- A step of the card, or of a task in `do_net_recv`. -/
inductive RxEvent (T : Type)
  | store (p : Packet)
  | call (task : T) (rxbuffer : Bytes) (pktNum : ℤ) (pktLens : ℕ → ℤ)
  | poll (task : T)
  | ret (task : T)

/-- The call got the packets in `seq` between its start and its end that it
polled, as many as it asked for, and delivered them. -/
structure RecvDone.Delivered (r : RecvDone) (seq : List (List UInt8)) : Prop where
  stop_le : r.stop ≤ seq.length
  count : r.call.taken.length = r.call.pktNum.toNat
  packets : r.call.taken.Sublist ((seq.take r.stop).drop r.call.start)
  buffer : r.call.rxbuffer.slice 0 r.call.data.length = r.call.data
  lens : (List.range r.call.taken.length).map r.call.pktLens = r.call.taken.map fun p => (p.length : ℤ)
  result : r.result = toInt32 r.call.data.length

namespace RxRing

variable {T : Type} [DecidableEq T]

def step (s : RxRing T) : RxEvent T → Option (RxRing T)
  | .store p => do
    let nic ← s.nic.storeHead p
    some { s with nic := nic, stored := s.stored ++ [p.bytes] }
  | .call task rxbuffer pktNum pktLens =>
    if s.calls task = none then
      let call : RecvCall :=
        { rxbuffer, pktNum, pktLens, pos := 0, lensPos := 0, bytes := 0, i := 0,
          start := s.polled.length, taken := [] }
      some { s with calls := Function.update s.calls task (some call) }
    else none
  | .poll task => do
    let c ← s.calls task
    if c.i < c.pktNum then
      let (len, rxbuffer, nic) := s.nic.e1000Poll c.rxbuffer c.pos
      if len = 0 then some s
      else some { s with
        nic := nic
        polled := s.polled ++ [rxbuffer.slice c.pos len]
        calls := Function.update s.calls task (some (c.deliver rxbuffer len)) }
    else none
  | .ret task => do
    let c ← s.calls task
    if c.i < c.pktNum then none
    else some { s with
      calls := Function.update s.calls task none
      completed := ⟨c, c.bytes, s.polled.length⟩ :: s.completed }

/-- No packet and no call after `e1000_init`. -/
def init (nic : E1000) : RxRing T := ⟨nic.atBoot.e1000Init, [], [], fun _ => none, []⟩

/-- What `e1000_poll` returned is a prefix of what the card stored, a poll that
returns a packet reads a descriptor of the driver, and a completed call has
delivered the next packets: if no other call polled in between, they are
consecutive. -/
structure Law (s : RxRing T) : Prop where
  isPrefix : s.polled <+: s.stored
  owned : ∀ buf pos, (s.nic.e1000Poll buf pos).1 ≠ 0 → ¬ s.nic.CardOwns ((s.nic.rdt + 1) % rxdescs)
  delivered : ∀ r ∈ s.completed, r.Delivered s.stored
  consecutive : ∀ r ∈ s.completed, r.stop = r.call.start + r.call.pktNum.toNat →
    r.call.taken = (s.stored.drop r.call.start).take r.call.pktNum.toNat
  sum : ∀ r ∈ s.completed, r.call.data.length < 2 ^ 31 →
    r.result = ((r.call.taken.map List.length).sum : ℕ)

end RxRing

/-! ## One round of the loop -/

/-- The locals of a call in progress, after the packets it took. -/
structure RecvCall.Ok (c : RecvCall) (polled : List (List UInt8)) : Prop where
  i_eq : c.i = c.taken.length
  i_le : c.taken.length ≤ c.pktNum.toNat
  pos_eq : c.pos = c.data.length
  lensPos_eq : c.lensPos = c.taken.length
  start_le : c.start ≤ polled.length
  packets : c.taken.Sublist (polled.drop c.start)
  buffer : c.rxbuffer.slice 0 c.pos = c.data
  lens : (List.range c.taken.length).map c.pktLens = c.taken.map fun p => (p.length : ℤ)
  bytes : c.bytes = toInt32 c.data.length

section Round

variable {c : RecvCall} {polled : List (List UInt8)}

/-- Another call took a packet. -/
lemma RecvCall.Ok.append (h : c.Ok polled) (p : List UInt8) : c.Ok (polled ++ [p]) :=
  { h with
    start_le := by
      rw [List.length_append]
      exact Nat.le_add_right_of_le h.start_le
    packets := by
      rw [List.drop_append_of_le_length h.start_le]
      exact h.packets.trans (List.sublist_append_left _ _) }

/-- The call itself took a packet. -/
lemma RecvCall.Ok.deliver (h : c.Ok polled) (hlt : c.i < c.pktNum) {buf src : Bytes} {len : ℕ}
    (hbuf : buf = Bytes.blit c.rxbuffer c.pos src 0 len) :
    (c.deliver buf len).Ok (polled ++ [buf.slice c.pos len]) := by
  have hi := h.i_eq
  have hdata : (c.deliver buf len).data = c.data ++ buf.slice c.pos len := by
    simp [RecvCall.data, RecvCall.deliver]
  refine ⟨?_, ?_, ?_, ?_, ?_, ?_, ?_, ?_, ?_⟩
  · simp [RecvCall.deliver, hi]
  · simp only [RecvCall.deliver, List.length_append, List.length_singleton]
    omega
  · rw [hdata, List.length_append, ← h.pos_eq, Bytes.length_slice]
    rfl
  · simp [RecvCall.deliver, h.lensPos_eq]
  · rw [List.length_append]
    exact Nat.le_add_right_of_le h.start_le
  · show (c.taken ++ [_]).Sublist (List.drop c.start (polled ++ [_]))
    rw [List.drop_append_of_le_length h.start_le]
    exact h.packets.append (List.Sublist.refl _)
  · rw [hdata]
    show buf.slice 0 (c.pos + len) = _
    rw [Bytes.slice_add, Nat.zero_add, ← h.buffer, hbuf, Bytes.slice_blit_of_disjoint (by omega)]
  · -- the new length is behind those of the packets taken before
    have hold : (List.range c.taken.length).map (Function.update c.pktLens c.lensPos (len : ℤ)) =
        (List.range c.taken.length).map c.pktLens := by
      refine List.map_congr_left fun j hj => Function.update_of_ne ?_ ..
      have := List.mem_range.1 hj
      have := h.lensPos_eq
      omega
    simp only [RecvCall.deliver, List.length_append, List.length_singleton, List.range_succ,
      List.map_append, List.map_cons, List.map_nil, hold, h.lens, Bytes.length_slice]
    rw [← h.lensPos_eq, Function.update_self]
  · rw [hdata]
    show toInt32 (c.bytes + len) = _
    rw [h.bytes, List.length_append, Bytes.length_slice, toInt32, toInt32, toInt32,
      Int.bmod_add_bmod, Nat.cast_add]

/-- A call that returns has taken what it asked for. -/
lemma RecvCall.Ok.delivered (h : c.Ok polled) (hge : ¬ c.i < c.pktNum) :
    (RecvDone.mk c c.bytes polled.length).Delivered polled := by
  have hi := h.i_eq
  have hle := h.i_le
  refine ⟨le_rfl, ?_, ?_, ?_, h.lens, h.bytes⟩
  · show c.taken.length = c.pktNum.toNat
    omega
  · rw [List.take_length]
    exact h.packets
  · show c.rxbuffer.slice 0 c.data.length = c.data
    rw [← h.pos_eq]
    exact h.buffer

/-- What was delivered does not depend on later packets. -/
lemma RecvDone.Delivered.mono {r : RecvDone} {seq seq' : List (List UInt8)} (h : r.Delivered seq)
    (hpre : seq <+: seq') : r.Delivered seq' := by
  obtain ⟨rest, rfl⟩ := hpre
  refine { h with stop_le := ?_, packets := ?_ }
  · rw [List.length_append]
    exact Nat.le_add_right_of_le h.stop_le
  · rw [List.take_append_of_le_length h.stop_le]
    exact h.packets

/-- Packets that are as many as those polled in between are consecutive. -/
lemma RecvDone.Delivered.consecutive {r : RecvDone} {seq : List (List UInt8)} (h : r.Delivered seq)
    (hstop : r.stop = r.call.start + r.call.pktNum.toNat) :
    r.call.taken = (seq.drop r.call.start).take r.call.pktNum.toNat := by
  have hsub := h.packets
  rw [hstop, List.drop_take, Nat.add_sub_cancel_left] at hsub
  refine hsub.eq_of_length_le ?_
  rw [h.count]
  exact List.length_take_le _ _

end Round

namespace RxRing

variable {T : Type} [DecidableEq T]

/-! ## Runs -/

/-- The ring holds the packets that were stored and not polled, and every call
has what it took. -/
structure Inv (s : RxRing T) : Prop where
  ring : ∃ q k, s.nic.RxInv q k ∧ s.stored = s.polled ++ q
  calls : ∀ task c, s.calls task = some c → c.Ok s.polled
  completed : ∀ r ∈ s.completed, r.Delivered s.polled

omit [DecidableEq T] in
lemma inv_init (nic : E1000) : (init (T := T) nic).Inv where
  ring := ⟨[], 0, E1000.rxInv_init nic, rfl⟩
  calls := fun task c hc => by simp [init] at hc
  completed := fun r hr => by simp [init] at hr

/-- The calls of the other tasks when one of them changes. -/
lemma calls_update {calls : T → Option RecvCall} {polled : List (List UInt8)} {task : T}
    {o : Option RecvCall} (h : ∀ u c, u ≠ task → calls u = some c → c.Ok polled)
    (ho : ∀ c, o = some c → c.Ok polled) :
    ∀ u c, Function.update calls task o u = some c → c.Ok polled := by
  intro u c hc
  rcases eq_or_ne u task with rfl | hne
  · rw [Function.update_self] at hc
    exact ho c hc
  · rw [Function.update_of_ne hne] at hc
    exact h u c hne hc

/-- A poll takes the first stored packet, if there is one. -/
lemma Inv.poll {s t : RxRing T} {task : T} (h : s.Inv) (hstep : s.step (.poll task) = some t) :
    t.Inv := by
  obtain ⟨q, k, hring, hstored⟩ := h.ring
  simp only [RxRing.step, Option.bind_eq_bind, Option.bind_eq_some_iff,
    Option.ite_none_right_eq_some] at hstep
  obtain ⟨c, hc, hlt, hstep⟩ := hstep
  cases k with
  | zero =>
    rw [hring.poll_zero] at hstep
    simp only [if_true, Option.some.injEq] at hstep
    exact hstep ▸ h
  | succ k =>
    obtain ⟨len, buf, nic, q', hpoll, hlen, hbuf, hq, hring'⟩ := hring.poll_succ c.rxbuffer c.pos
    rw [hpoll] at hstep
    simp only [hlen, if_false, Option.some.injEq] at hstep
    subst hstep
    refine ⟨⟨q', k, hring', ?_⟩, ?_, fun r hr => (h.completed r hr).mono (List.prefix_append _ _)⟩
    · show s.stored = _
      rw [hstored, hq, List.append_assoc, List.singleton_append]
    · refine calls_update (fun u c' _ hc' => (h.calls u c' hc').append _) ?_
      rintro _ ⟨⟩
      exact (h.calls task c hc).deliver hlt hbuf

lemma Inv.step {s t : RxRing T} {e : RxEvent T} (h : s.Inv) (hstep : s.step e = some t) : t.Inv := by
  cases e with
  | store p =>
    obtain ⟨q, k, hring, hstored⟩ := h.ring
    simp only [RxRing.step, Option.bind_eq_bind, Option.bind_eq_some_iff, Option.some.injEq] at hstep
    obtain ⟨nic, hnic, rfl⟩ := hstep
    refine ⟨⟨_, _, hring.store hnic, ?_⟩, h.calls, h.completed⟩
    show s.stored ++ [p.bytes] = _
    rw [hstored, List.append_assoc]
  | call task rxbuffer pktNum pktLens =>
    simp only [RxRing.step, Option.ite_none_right_eq_some, Option.some.injEq] at hstep
    obtain ⟨-, rfl⟩ := hstep
    refine ⟨h.ring, calls_update (fun u c _ hc => h.calls u c hc) ?_, h.completed⟩
    rintro _ ⟨⟩
    exact ⟨rfl, Nat.zero_le _, rfl, rfl, le_rfl, List.nil_sublist _, rfl, rfl,
      by simp [toInt32, RecvCall.data]⟩
  | poll task => exact h.poll hstep
  | ret task =>
    simp only [RxRing.step, Option.bind_eq_bind, Option.bind_eq_some_iff,
      Option.ite_none_left_eq_some, Option.some.injEq] at hstep
    obtain ⟨c, hc, hge, rfl⟩ := hstep
    refine ⟨h.ring, calls_update (fun u c _ hc => h.calls u c hc) (by simp), fun r hr => ?_⟩
    rcases List.mem_cons.1 hr with rfl | hr
    · exact (h.calls task c hc).delivered hge
    · exact h.completed r hr

omit [DecidableEq T] in
lemma Inv.law {s : RxRing T} (h : s.Inv) : s.Law := by
  obtain ⟨q, k, hring, hstored⟩ := h.ring
  have hpre : s.polled <+: s.stored := hstored ▸ List.prefix_append _ _
  have hdel : ∀ r ∈ s.completed, r.Delivered s.stored := fun r hr => (h.completed r hr).mono hpre
  refine ⟨hpre, fun buf pos hpoll => hring.not_cardOwns ?_, hdel,
    fun r hr => (hdel r hr).consecutive, fun r hr hlt => ?_⟩
  · by_contra hno
    rw [Bool.not_eq_true] at hno
    simp [E1000.e1000Poll, hno] at hpoll
  · rw [(hdel r hr).result, toInt32, ← List.length_flatten]
    exact Int.bmod_eq_of_le (by omega) (by simp only [RecvCall.data] at hlt ⊢; omega)

/-- In every run from `e1000_init`, whatever the card and the calls do, the polled
packets are a prefix of the stored ones, no poll reads a descriptor of the card,
and every completed call has delivered its packets, their lengths and their
sum. -/
theorem recv_law (nic : E1000) (es : List (RxEvent T)) : Trace.Always step Law (init nic) es := by
  have halways : Trace.Always step Inv (init (T := T) nic) es :=
    Trace.always_of_invariant (C := fun _ _ => True) (fun s e t hs _ hstep => hs.step hstep)
      (inv_init nic) fun _ _ _ _ _ _ => trivial
  exact halways.mono fun t ht => ht.law

end RxRing

end Net
end UcasKernel
