/-
The E1000 driver, from `drivers/e1000.c`, and the network card behind it.

Driver and card share two rings of 64 descriptors, each with a packet buffer of
2048 bytes, and the head and tail register of each ring.  The card moves the
heads, the driver the tails.  A descriptor whose DD bit is set has been processed
by the card.
-/
import UcasKernel.Lib.Bytes
import UcasKernel.Lib.Ring

namespace UcasKernel
namespace Net

def txdescs : ℕ := 64
def rxdescs : ℕ := 64
def txPktSize : ℕ := 2048
def rxPktSize : ℕ := 2048

def txdCmdEop : UInt8 := 0x01
def txdCmdRs : UInt8 := 0x08
def txdStatDd : UInt8 := 0x01
def rxdStatDd : UInt8 := 0x01

/-- `struct e1000_tx_desc`; `addr` is the number of the buffer it points to. -/
structure TxDesc where
  addr : ℕ
  length : ℕ
  cmd : UInt8
  status : UInt8

/-- `struct e1000_rx_desc`. -/
structure RxDesc where
  addr : ℕ
  length : ℕ
  status : UInt8

/-- The head and tail registers of the card, and the memory it shares with the
driver. -/
structure E1000 where
  tdh : ℕ
  tdt : ℕ
  rdh : ℕ
  rdt : ℕ
  txDescArray : ℕ → TxDesc
  rxDescArray : ℕ → RxDesc
  txPktBuffer : ℕ → Bytes
  rxPktBuffer : ℕ → Bytes

/-- A packet of a length that fits a buffer. -/
structure Packet where
  bytes : List UInt8
  length_pos : 1 ≤ bytes.length
  length_le : bytes.length ≤ 2048

/-- Registers, descriptors and buffers all zero. -/
def resetNic : E1000 where
  tdh := 0
  tdt := 0
  rdh := 0
  rdt := 0
  txDescArray := fun _ => ⟨0, 0, 0, 0⟩
  rxDescArray := fun _ => ⟨0, 0, 0⟩
  txPktBuffer := fun _ => Bytes.zero
  rxPktBuffer := fun _ => Bytes.zero

namespace TxDesc

/-- `status & E1000_TXD_STAT_DD`. -/
def done (d : TxDesc) : Bool := d.status &&& txdStatDd ≠ 0

def setDone (d : TxDesc) : TxDesc := { d with status := d.status ||| txdStatDd }

def clearDone (d : TxDesc) : TxDesc := { d with status := d.status &&& ~~~txdStatDd }

end TxDesc

namespace RxDesc

/-- `status & E1000_RXD_STAT_DD`. -/
def done (d : RxDesc) : Bool := d.status &&& rxdStatDd ≠ 0

def setDone (d : RxDesc) : RxDesc := { d with status := d.status ||| rxdStatDd }

def clearDone (d : RxDesc) : RxDesc := { d with status := d.status &&& ~~~rxdStatDd }

end RxDesc

namespace E1000

/-! ## The driver -/

/-- `e1000_reset`: the registers of the two rings. -/
def e1000Reset (nic : E1000) : E1000 := { nic with tdh := 0, tdt := 0, rdh := 0, rdt := 0 }

/-- `e1000_configure_tx`. -/
def e1000ConfigureTx (nic : E1000) : E1000 :=
  { nic with
    txDescArray := fun i =>
      if i < txdescs then
        { (nic.txDescArray i).setDone with addr := i, cmd := 0 ||| txdCmdRs }
      else nic.txDescArray i
    tdh := 0
    tdt := 0 }

/-- `e1000_configure_rx`; its loop over the receive descriptors is bounded by the
number of transmit descriptors. -/
def e1000ConfigureRx (nic : E1000) : E1000 :=
  { nic with
    rxDescArray := fun i =>
      if i < txdescs then { nic.rxDescArray i with addr := i } else nic.rxDescArray i
    rdh := 0
    rdt := rxdescs - 1 }

/-- The card and the static arrays of the driver before `e1000_init`: the kernel
clears its arrays at boot, the registers hold anything. -/
def atBoot (nic : E1000) : E1000 :=
  { resetNic with tdh := nic.tdh, tdt := nic.tdt, rdh := nic.rdh, rdt := nic.rdt }

/-- `e1000_init`. -/
def e1000Init (nic : E1000) : E1000 := nic.e1000Reset.e1000ConfigureTx.e1000ConfigureRx

/-- `e1000_transmit`; a packet longer than its buffer overruns it. -/
def e1000Transmit (nic : E1000) (txpacket : Bytes) (length : ℕ) : Option (ℕ × E1000) :=
  let tail := nic.tdt
  let tailTxDesc := nic.txDescArray tail
  if !tailTxDesc.done then some (0, nic)
  else if length > txPktSize then none
  else
    let tailTxDesc := { tailTxDesc with length := length % 2 ^ 16 }.clearDone
    let tailTxDesc := { tailTxDesc with cmd := tailTxDesc.cmd ||| txdCmdEop }
    some (length, { nic with
      txDescArray := Function.update nic.txDescArray tail tailTxDesc
      txPktBuffer := Function.update nic.txPktBuffer tail
        (Bytes.blit (nic.txPktBuffer tail) 0 txpacket 0 length)
      tdt := (tail + 1) % txdescs })

/-- `e1000_poll` into offset `pos` of a buffer. -/
def e1000Poll (nic : E1000) (rxbuffer : Bytes) (pos : ℕ) : ℕ × Bytes × E1000 :=
  let tail := (nic.rdt + 1) % rxdescs
  if !(nic.rxDescArray tail).done then (0, rxbuffer, nic)
  else
    let len := (nic.rxDescArray tail).length
    let rxbuffer := Bytes.blit rxbuffer pos (nic.rxPktBuffer tail) 0 len
    (len, rxbuffer, { nic with
      rxDescArray := Function.update nic.rxDescArray tail (nic.rxDescArray tail).clearDone
      rdt := tail })

/-! ## The card -/

/-- The packet a transmit descriptor describes. -/
def txPacket (nic : E1000) (i : ℕ) : List UInt8 :=
  (nic.txPktBuffer (nic.txDescArray i).addr).slice 0 (nic.txDescArray i).length

/-- The packet a receive descriptor describes. -/
def rxPacket (nic : E1000) (i : ℕ) : List UInt8 :=
  (nic.rxPktBuffer i).slice 0 (nic.rxDescArray i).length

/-- The card sends the packet at the head of the transmit ring. -/
def sendHead (nic : E1000) : Option (List UInt8 × E1000) :=
  if nic.tdh = nic.tdt then none
  else some (nic.txPacket nic.tdh, { nic with
    txDescArray := Function.update nic.txDescArray nic.tdh (nic.txDescArray nic.tdh).setDone
    tdh := (nic.tdh + 1) % txdescs })

/-- The card stores a packet at the head of the receive ring. -/
def storeHead (nic : E1000) (p : Packet) : Option E1000 :=
  if nic.rdh = nic.rdt then none
  else
    let desc := { nic.rxDescArray nic.rdh with length := p.bytes.length }.setDone
    some { nic with
      rxPktBuffer := Function.update nic.rxPktBuffer desc.addr
        (Bytes.blit (nic.rxPktBuffer desc.addr) 0 (Bytes.ofList p.bytes) 0 p.bytes.length)
      rxDescArray := Function.update nic.rxDescArray nic.rdh desc
      rdh := (nic.rdh + 1) % rxdescs }

end E1000

/-! ## The DD bit -/

private lemma or_dd (s : UInt8) : (s ||| 0x01) &&& 0x01 ≠ 0 := by
  rw [ne_eq, ← UInt8.toNat_inj, UInt8.toNat_and, UInt8.toNat_or]
  intro h
  have hbit := congrArg (Nat.testBit · 0) h
  simp at hbit

private lemma and_not_dd (s : UInt8) : (s &&& ~~~0x01) &&& 0x01 = 0 := by
  rw [UInt8.and_assoc, UInt8.not_and_self, UInt8.and_zero]

@[simp] lemma TxDesc.done_setDone (d : TxDesc) : d.setDone.done = true :=
  decide_eq_true (or_dd d.status)

@[simp] lemma TxDesc.done_clearDone (d : TxDesc) : d.clearDone.done = false :=
  decide_eq_false (not_not_intro (and_not_dd d.status))

@[simp] lemma RxDesc.done_setDone (d : RxDesc) : d.setDone.done = true :=
  decide_eq_true (or_dd d.status)

@[simp] lemma RxDesc.done_clearDone (d : RxDesc) : d.clearDone.done = false :=
  decide_eq_false (not_not_intro (and_not_dd d.status))

@[simp] lemma TxDesc.addr_setDone (d : TxDesc) : d.setDone.addr = d.addr := rfl
@[simp] lemma TxDesc.length_setDone (d : TxDesc) : d.setDone.length = d.length := rfl
@[simp] lemma RxDesc.addr_setDone (d : RxDesc) : d.setDone.addr = d.addr := rfl
@[simp] lemma RxDesc.addr_clearDone (d : RxDesc) : d.clearDone.addr = d.addr := rfl
@[simp] lemma RxDesc.length_setDone (d : RxDesc) : d.setDone.length = d.length := rfl
@[simp] lemma RxDesc.length_clearDone (d : RxDesc) : d.clearDone.length = d.length := rfl

end Net
end UcasKernel
