import Ns3.Lte.DataFieldFits
import Ns3.Lte.RlcAmHeader
import Ns3.Lte.SduReassembly

/-!
# LteRlcAm

What the entity of the acknowledged mode sends as new data, and what it reads from that.
-/

namespace Ns3.Lte

open Ns3.Lib

/-- The transmitting side of `LteRlcAm`. A maximum size of zero is none. -/
structure LteRlcAm where
  maxTxBufferSize : Nat := 10 * 1024
  txonBuffer : TxBuffer := {}
  retxBufferSize : Nat := 0
  txedBuffer : Nat → Option (List UInt8) := fun _ => none
  txedBufferSize : Nat := 0
  statusPduRequested : Bool := false
  statusProhibitTimer : Bool := false
  vtMs : SequenceNumber10 := (SequenceNumber10.ofValue 0).add 512
  vtS : SequenceNumber10 := .ofValue 0
  pollSn : SequenceNumber10 := .ofValue 0
  pduWithoutPoll : Nat := 0
  byteWithoutPoll : Nat := 0
  pollPdu : Nat := 1
  pollByte : Nat := 50
  pollRetransmitTimer : Bool := false
  pollRetransmitTimerJustExpired : Bool := false

namespace LteRlcAm

/-- The condition of `DoTransmitPdcpPdu`: there is room for the SDU. The sizes are `uint32_t`. -/
def accepts (u : LteRlcAm) (p : List UInt8) : Bool :=
  decide ((u.txonBuffer.size + p.length) % 2 ^ 32 ≤ u.maxTxBufferSize ∨ u.maxTxBufferSize = 0)

def doTransmitPdcpPdu (u : LteRlcAm) (p : List UInt8) : LteRlcAm :=
  if u.accepts p then
    { u with
      txonBuffer :=
        ⟨u.txonBuffer.pdus ++ [⟨p, .fullSdu⟩], (u.txonBuffer.size + p.length) % 2 ^ 32⟩ }
  else u

/-- The conditions under which `DoNotifyTxOpportunity` goes on to build a new PDU. -/
def sendsNewData (u : LteRlcAm) (bytes : Nat) : Bool :=
  !(u.statusPduRequested && !u.statusProhibitTimer) && decide (u.retxBufferSize = 0) &&
    decide (u.txonBuffer.size > 0) && decide (7 ≤ bytes) && !u.vtS.eq u.vtMs

/-- The polling bit of a PDU with `size` bytes of data, which has been taken from the buffer. -/
def pollingBit (u : LteRlcAm) (size : Nat) : LteRlcAm × Nat :=
  let u := { u with
    pduWithoutPoll := u.pduWithoutPoll + 1
    byteWithoutPoll := u.byteWithoutPoll + size }
  if u.pduWithoutPoll ≥ u.pollPdu ∨ u.byteWithoutPoll ≥ u.pollByte ∨
      (u.txonBuffer.pdus = [] ∧ u.retxBufferSize = 0) ∨ u.vtS.ge u.vtMs ∨
      u.pollRetransmitTimerJustExpired then
    ({ u with
      pollRetransmitTimerJustExpired := false
      pduWithoutPoll := 0
      byteWithoutPoll := 0
      pollSn := u.vtS.sub 1
      pollRetransmitTimer := true }, 1)
  else (u, 0)

/-- The header of a new PDU. -/
def newDataHeader (d : DataField) (sequenceNumber : SequenceNumber10) (framingInfo poll : Nat) :
    LteRlcAmHeader :=
  (((((LteRlcAmHeader.push d.extensionBits d.lengthIndicators).setSequenceNumber
    sequenceNumber).setResegmentationFlag 0).setLastSegmentFlag 1).setSegmentOffset
      0).setFramingInfo framingInfo |>.setPollingBit poll

/-- The transmitted PDU is stored under its number. -/
def store (u : LteRlcAm) (sn : Nat) (pdu : List UInt8) : LteRlcAm :=
  { u with
    txedBufferSize := u.txedBufferSize + pdu.length
    txedBuffer := fun k => if k = sn then some pdu else u.txedBuffer k }

/-- The header and the data field of a new PDU, if there is one. -/
def buildNewPdu (u : LteRlcAm) (bytes : Nat) :
    Option (LteRlcAm × Option (LteRlcAmHeader × List UInt8)) :=
  match u.txonBuffer.pdus with
  | [] => some (u, none)
  | firstSegment :: pdus => do
    let (d, txonBuffer) :=
      fillDataField pdus (u.txonBuffer.size - firstSegment.pdu.length) firstSegment (bytes - 4) 1
    let framingInfo ← framingInfo d.segments
    let (u', poll) :=
      { u with txonBuffer, vtS := u.vtS.succ : LteRlcAm }.pollingBit d.packet.length
    some (u', some (newDataHeader d u.vtS framingInfo poll, d.packet))

/-- `DoNotifyTxOpportunity`, with the new PDU that goes to the MAC if one does. STATUS PDUs and
retransmissions are left to the events between. -/
def doNotifyTxOpportunity (u : LteRlcAm) (bytes : Nat) : Option (LteRlcAm × Option (List UInt8)) :=
  if u.sendsNewData bytes then do
    match ← u.buildNewPdu bytes with
    | (u, none) => some (u, none)
    | (u, some (rlcAmHeader, packet)) =>
      let pdu ← addHeader rlcAmHeader.headerLength rlcAmHeader.serialize packet
      some (u.store rlcAmHeader.sequenceNumber.value pdu, some pdu)
  else some (u, none)

/-- `ReassembleAndDeliver`, where the memory of the header happens to hold `lastSegmentFlag`. -/
def reassembleAndDeliver (lastSegmentFlag : Nat) (r : SduReassembly) (packet : List UInt8) :
    Option SduReassembly := do
  let rlcAmHeader ← (LteRlcAmHeader.fresh lastSegmentFlag).deserialize packet
  r.reassembleAndDeliver false rlcAmHeader.framingInfo rlcAmHeader.sequenceNumber
    rlcAmHeader.extensionBits rlcAmHeader.lengthIndicators
    (packet.drop rlcAmHeader.headerLength)

section Header

variable (d : DataField) (sn : SequenceNumber10) (framingInfo poll : Nat)

@[simp] theorem dataControlBit_newDataHeader :
    (newDataHeader d sn framingInfo poll).dataControlBit = 1 := by
  obtain ⟨headerLength, hpush⟩ := LteRlcAmHeader.push_eq d.extensionBits d.lengthIndicators
  rw [newDataHeader, hpush]
  rfl

@[simp] theorem extensionBits_newDataHeader :
    (newDataHeader d sn framingInfo poll).extensionBits = d.extensionBits := by
  obtain ⟨headerLength, hpush⟩ := LteRlcAmHeader.push_eq d.extensionBits d.lengthIndicators
  rw [newDataHeader, hpush]
  rfl

@[simp] theorem lengthIndicators_newDataHeader :
    (newDataHeader d sn framingInfo poll).lengthIndicators = d.lengthIndicators := by
  obtain ⟨headerLength, hpush⟩ := LteRlcAmHeader.push_eq d.extensionBits d.lengthIndicators
  rw [newDataHeader, hpush]
  rfl

@[simp] theorem sequenceNumber_newDataHeader :
    (newDataHeader d sn framingInfo poll).sequenceNumber = sn := rfl

variable {d}

theorem headerLength_newDataHeader (h : Announces d.extensionBits d.lengthIndicators) :
    (newDataHeader d sn framingInfo poll).headerLength =
      (4 + listSize 1 d.lengthIndicators.length) % 2 ^ 16 := by
  have hne : d.extensionBits ≠ [] := by
    intro hnil
    have hlen := h.length_eq
    rw [hnil] at hlen
    cases hlen
  apply (LteRlcAmHeader.headerLength_push hne).trans
  rw [h.length_eq, listSize]
  congr 1
  omega

theorem length_newDataHeader (h : Announces d.extensionBits d.lengthIndicators) :
    (newDataHeader d sn framingInfo poll).serialize.length =
      4 + listSize 1 d.lengthIndicators.length := by
  rw [← length_writeLis_tail h]
  simp [LteRlcAmHeader.serialize]
  omega

theorem amdPdu_newDataHeader (h : Announces d.extensionBits d.lengthIndicators)
    (hsn : sn.value < 1024) : (newDataHeader d sn framingInfo poll).AmdPdu := by
  constructor
  · exact dataControlBit_newDataHeader d sn framingInfo poll
  · exact Nat.zero_lt_two
  · exact Nat.lt_succ_of_le Nat.and_le_right
  · exact Nat.lt_succ_of_le Nat.and_le_right
  · exact hsn
  · exact Nat.one_lt_two
  · exact Nat.zero_lt_succ _
  · simpa using h
  · simp only [extensionBits_newDataHeader, lengthIndicators_newDataHeader]
    rfl

end Header

@[simp] theorem txonBuffer_pollingBit (u : LteRlcAm) (size : Nat) :
    (u.pollingBit size).1.txonBuffer = u.txonBuffer := by
  unfold pollingBit
  simp only
  split <;> rfl

@[simp] theorem vtS_pollingBit (u : LteRlcAm) (size : Nat) :
    (u.pollingBit size).1.vtS = u.vtS := by
  unfold pollingBit
  simp only
  split <;> rfl

/-- A new PDU, when the buffer has something to send. -/
theorem buildNewPdu_cons (u : LteRlcAm) {first : TxPdu} {pdus : List TxPdu} {bytes : Nat}
    {d : DataField} {buffer : TxBuffer} (hpdus : u.txonBuffer.pdus = first :: pdus)
    (hfill : fillDataField pdus (u.txonBuffer.size - first.pdu.length) first (bytes - 4) 1 =
      (d, buffer)) (hne : d.segments ≠ []) :
    ∃ u' poll, u.buildNewPdu bytes = some (u', some (newDataHeader d u.vtS
        (framingBits d.segment.first d.segment.last) poll, d.packet)) ∧
      u'.txonBuffer = buffer ∧ u'.vtS = u.vtS.succ := by
  let u' : LteRlcAm := { u with txonBuffer := buffer, vtS := u.vtS.succ }
  refine ⟨(u'.pollingBit d.packet.length).1, (u'.pollingBit d.packet.length).2, ?_, ?_, ?_⟩
  · simp [buildNewPdu, hpdus, hfill, DataField.framingInfo_segments hne, u']
  · simp [u']
  · simp [u']

theorem sendsNewData_spec {u : LteRlcAm} {bytes : Nat} (h : u.sendsNewData bytes = true) :
    0 < u.txonBuffer.size ∧ 7 ≤ bytes := by
  simp only [sendsNewData, Bool.and_eq_true, decide_eq_true_eq] at h
  exact ⟨h.1.1.2, h.1.2⟩

end LteRlcAm

end Ns3.Lte
