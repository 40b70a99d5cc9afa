import Ns3.Lib.OrderedMap
import Ns3.Lte.SduReassembly

/-!
# LteRlcUm

The entity of the unacknowledged mode. A packet carries its uid, which no function reads. `none`
stands for a crash: a null pointer, the front of an empty list, a write past the end of a buffer, a
loop that does not end.
-/

namespace Ns3.Lte

open Ns3.Lib

/-- `Ptr<Packet>`. -/
structure Packet where
  uid : Nat
  bytes : List UInt8
deriving DecidableEq, Repr

/-- `m_windowSize`. -/
def umWindowSize : Nat := 512

/-- `LteRlcUm`. `passed` are the uids of the packets that `ReassembleAndDeliver` was called with,
`placed` of those that were placed in the reception buffer. -/
structure LteRlcUm where
  maxTxBufferSize : Nat := 10 * 1024
  txBuffer : TxBuffer := {}
  sequenceNumber : SequenceNumber10 := .ofValue 0
  vrUr : SequenceNumber10 := .ofValue 0
  vrUx : SequenceNumber10 := .ofValue 0
  vrUh : SequenceNumber10 := .ofValue 0
  rxBuffer : OrderedMap Nat Packet := ∅
  reorderingTimer : Bool := false
  reassembly : SduReassembly := {}
  passed : List Nat := []
  placed : List Nat := []

namespace LteRlcUm

/-! ## Transmission -/

/-- The condition of `DoTransmitPdcpPdu`: there is room for the SDU. The sizes are `uint32_t`. -/
def accepts (u : LteRlcUm) (p : List UInt8) : Bool :=
  decide ((u.txBuffer.size + p.length) % 2 ^ 32 ≤ u.maxTxBufferSize)

def doTransmitPdcpPdu (u : LteRlcUm) (p : List UInt8) : LteRlcUm :=
  if u.accepts p then
    { u with
      txBuffer :=
        ⟨u.txBuffer.pdus ++ [⟨p, .fullSdu⟩], (u.txBuffer.size + p.length) % 2 ^ 32⟩ }
  else u

/-- The PDU that goes to the MAC, if one does. -/
def doNotifyTxOpportunity (u : LteRlcUm) (bytes : Nat) : Option (LteRlcUm × Option (List UInt8)) :=
  if bytes ≤ 2 then some (u, none)
  else
    match u.txBuffer.pdus with
    | [] => some (u, none)
    | firstSegment :: pdus => do
      let (d, txBuffer) :=
        fillDataField pdus (u.txBuffer.size - firstSegment.pdu.length) firstSegment (bytes - 2) 1
      let framingInfo ← framingInfo d.segments
      let rlcHeader := ((LteRlcHeader.push d.extensionBits d.lengthIndicators).setSequenceNumber
        u.sequenceNumber).setFramingInfo framingInfo
      let pdu ← addHeader rlcHeader.headerLength rlcHeader.serialize d.packet
      some ({ u with txBuffer, sequenceNumber := u.sequenceNumber.succ }, some pdu)

/-! ## Reception -/

def isInsideReorderingWindow (u : LteRlcUm) (seqNumber : SequenceNumber10) : Bool :=
  let base := u.vrUh.sub umWindowSize
  let vrUh := u.vrUh.setModulusBase base
  let seqNumber := seqNumber.setModulusBase base
  (vrUh.sub umWindowSize).le seqNumber && seqNumber.lt vrUh

/-- The member that `IsInsideReorderingWindow` leaves changed. -/
def setWindowBase (u : LteRlcUm) : LteRlcUm :=
  { u with vrUh := u.vrUh.setModulusBase (u.vrUh.sub umWindowSize) }

def reassembleAndDeliver (u : LteRlcUm) (packet : Packet) : Option LteRlcUm := do
  let rlcHeader ← LteRlcHeader.deserialize packet.bytes
  let reassembly ← u.reassembly.reassembleAndDeliver true rlcHeader.framingInfo
    rlcHeader.sequenceNumber rlcHeader.extensionBits rlcHeader.lengthIndicators
    (packet.bytes.drop rlcHeader.headerLength)
  some { u with reassembly, passed := u.passed ++ [packet.uid] }

/-- The loop of `ReassembleOutsideWindow`, at the given entries of the buffer. -/
def outsideLoop (u : LteRlcUm) : List (Nat × Packet) → Option LteRlcUm
  | [] => some u
  | (sn, packet) :: es =>
    if u.isInsideReorderingWindow (.ofValue sn) then some u.setWindowBase
    else do
      let u ← u.setWindowBase.reassembleAndDeliver packet
      outsideLoop { u with rxBuffer := u.rxBuffer.erase sn } es

def reassembleOutsideWindow (u : LteRlcUm) : Option LteRlcUm := u.outsideLoop u.rxBuffer.entries

/-- The loop of `ReassembleSnInterval`, in at most `fuel` rounds. -/
def snIntervalLoop (u : LteRlcUm) (reassembleSn highSeqNumber : SequenceNumber10) :
    Nat → Option LteRlcUm
  | 0 => if reassembleSn.lt highSeqNumber then none else some u
  | fuel + 1 =>
    if reassembleSn.lt highSeqNumber then
      match u.rxBuffer.find? reassembleSn.value with
      | some packet => do
        let u ← u.reassembleAndDeliver packet
        snIntervalLoop { u with rxBuffer := u.rxBuffer.erase reassembleSn.value } reassembleSn.succ
          highSeqNumber fuel
      | none => snIntervalLoop u reassembleSn.succ highSeqNumber fuel
    else some u

def reassembleSnInterval (u : LteRlcUm) (lowSeqNumber highSeqNumber : SequenceNumber10) :
    Option LteRlcUm :=
  u.snIntervalLoop lowSeqNumber highSeqNumber 1024

/-- The loop that looks for the number that has not been received, with `newVrUr` an `uint16_t`. -/
def firstMissing (u : LteRlcUm) (newVrUr : Nat) : Nat → Option Nat
  | 0 => none
  | fuel + 1 =>
    if (u.rxBuffer.find? newVrUr).isSome then u.firstMissing ((newVrUr + 1) % 65536) fuel
    else some newVrUr

/-- Reassemble what follows VR(UR) without a gap. -/
def reassembleInSequence (u : LteRlcUm) : Option LteRlcUm :=
  if (u.rxBuffer.find? u.vrUr.value).isSome then do
    let newVrUr ← u.firstMissing (u.vrUr.value + 1) 1025
    let oldVrUr := u.vrUr
    let u := { u with vrUr := u.vrUr.assign newVrUr }
    u.reassembleSnInterval oldVrUr u.vrUr
  else some u

/-- A PDU outside the window moves it. -/
def moveWindow (u : LteRlcUm) (seqNumber : SequenceNumber10) : Option LteRlcUm :=
  if u.isInsideReorderingWindow seqNumber then some u.setWindowBase
  else do
    let u ← { u.setWindowBase with vrUh := seqNumber.add 1 }.reassembleOutsideWindow
    some (if u.isInsideReorderingWindow u.vrUr then u.setWindowBase
      else { u.setWindowBase with vrUr := u.setWindowBase.vrUh.sub umWindowSize })

/-- The new modulus base for the comparisons of the timer. -/
def setBases (u : LteRlcUm) : LteRlcUm :=
  let base := u.vrUh.sub umWindowSize
  { u with
    vrUr := u.vrUr.setModulusBase base
    vrUx := u.vrUx.setModulusBase base
    vrUh := u.vrUh.setModulusBase base }

/-- Stop t-Reordering. -/
def stopTimer (u : LteRlcUm) : LteRlcUm :=
  if u.reorderingTimer ∧
    (u.vrUx.le u.vrUr ∨ !u.isInsideReorderingWindow u.vrUx ∧ !u.vrUx.eq u.vrUh) then
    { u with reorderingTimer := false }
  else u

/-- Start t-Reordering. -/
def startTimer (u : LteRlcUm) : LteRlcUm :=
  if !u.reorderingTimer ∧ u.vrUh.gt u.vrUr then
    { u with reorderingTimer := true, vrUx := u.vrUh }
  else u

/-- The condition under which a PDU is discarded. -/
def discards (u : LteRlcUm) (seqNumber : SequenceNumber10) : Bool :=
  (u.vrUr.lt seqNumber && seqNumber.lt u.vrUh && (u.rxBuffer.find? seqNumber.value).isSome) ||
    ((u.vrUh.sub umWindowSize).le seqNumber && seqNumber.lt u.vrUr)

/-- Place the PDU in the reception buffer. -/
def place (u : LteRlcUm) (sn : Nat) (p : Packet) : LteRlcUm :=
  { u with rxBuffer := u.rxBuffer.insert sn p, placed := u.placed ++ [p.uid] }

def doReceivePdu (u : LteRlcUm) (p : Packet) : Option LteRlcUm := do
  let rlcHeader ← LteRlcHeader.deserialize p.bytes
  let base := u.vrUh.sub umWindowSize
  let u := { u with
    vrUr := u.vrUr.setModulusBase base
    vrUh := u.vrUh.setModulusBase base }
  let seqNumber := rlcHeader.sequenceNumber.setModulusBase base
  if u.discards seqNumber then some u
  else do
    let u ← (u.place seqNumber.value p).moveWindow seqNumber
    let u ← u.reassembleInSequence
    some u.setBases.stopTimer.startTimer

/-- The loop that looks for the first number from VR(UX) on that has not been received. -/
def firstMissingSn (u : LteRlcUm) (newVrUr : SequenceNumber10) : Nat → Option SequenceNumber10
  | 0 => none
  | fuel + 1 =>
    if (u.rxBuffer.find? newVrUr.value).isSome then u.firstMissingSn newVrUr.succ fuel
    else some newVrUr

/-- The event is scheduled while t-Reordering runs. -/
def expireReorderingTimer (u : LteRlcUm) : Option LteRlcUm :=
  if u.reorderingTimer then do
    let u := { u with reorderingTimer := false }
    let newVrUr ← u.firstMissingSn u.vrUx 1024
    let oldVrUr := u.vrUr
    let u := { u with vrUr := newVrUr }
    let u ← u.reassembleSnInterval oldVrUr u.vrUr
    some (if u.vrUh.gt u.vrUr then { u with reorderingTimer := true, vrUx := u.vrUh } else u)
  else some u

end LteRlcUm

end Ns3.Lte
