import Ns3.Lib.Rekey
import Ns3.Nr.Alloc

/-!
# The UE MAC

`NrUeMac` keeps the last report of each RLC entity, and asks for resources with an SR
(dynamic grants) or with a CGR (configured grants). An UL DCI makes it fill a transport block
from the RLC entities. With configured grants it also stores the DCI, and repeats the
transmission when the occasion of the next period comes.

The RLC entities answer a transmission opportunity with PDUs and possibly with a new report;
`Rlc` stands for any answer. Every reported logical channel is one the MAC has been configured
with, in one of the four logical channel groups.
-/

namespace Ns3.Nr.UeMac

open Lib

/-- The members of `ReportBufferStatusParameters` that the MAC reads. -/
structure Bsr where
  lcid : Nat
  txQueueSize : Nat := 0
  retxQueueSize : Nat := 0
  statusPduSize : Nat := 0
deriving DecidableEq, Repr

inductive SrBsrMachine
  | INACTIVE
  | TO_SEND
  | ACTIVE
deriving DecidableEq, Repr

inductive SrCgMachine
  | INACTIVE_CG
  | TO_SEND_TrafficInfo
  | TO_RECEIVE_CG
  | ACTIVE_CG
  | SCH_CG_DATA
deriving DecidableEq, Repr

/-- `UlHarqProcessInfo` and its timer. The burst holds the sizes of its packets; `none` is a
null pointer. -/
structure UlHarqProcess where
  pktBurst : Option (List Nat) := some []
  timer : Nat := 0
deriving DecidableEq, Repr

/-- The arguments of `SendMacPdu`. -/
structure MacPdu where
  sfn : SfnSf
  symStart : Nat
  streamId : Nat
  size : Nat
deriving DecidableEq, Repr

/-- What triggers a transmission opportunity. -/
inductive TxPhase
  | status
  | retx
  | tx
deriving DecidableEq, Repr

structure RlcResponse where
  /-- the sizes with the MAC header -/
  pdus : List Nat := []
  report : Option Bsr := none

/-- The answer of the RLC entity of a logical channel to an opportunity of some bytes. -/
abbrev Rlc := TxPhase → (lcid bytes : Nat) → RlcResponse

structure NrUeMac where
  cgScheduling : Bool
  configurationTime : Nat := 0
  cgPeriod : Nat := 0
  numHarqProcess : Nat := 20
  rnti : Nat := 0
  currentSlot : SfnSf
  ulDciSfnsf : SfnSf := currentSlot
  ulDciTotalUsed : Nat := 0
  ulDci : DciInfoElementTdma := {}
  ulBsrReceived : List Bsr := []
  harqProcesses : List UlHarqProcess := List.replicate numHarqProcess {}
  srState : SrBsrMachine := .INACTIVE
  srStateConfiguredGrant : SrCgMachine := .INACTIVE_CG
  dciGrantedStored : Nat → Option DciInfoElementTdma := fun _ => none
  dciCgMap : Table Nat DciInfoElementTdma := ∅
  cgSlotCounterDci : Nat := 0
  cgSlotCounterDci2 : Nat := 0
  /-- The calls of `SendMacPdu`, the last one first. -/
  macPdus : List MacPdu := []
  /-- Whether a request has been handed to the PHY since the machine left its initial state;
  the code does not keep this. -/
  requestSent : Bool := false

/-- The length of the array `m_dciGranted_stored`. -/
def maxGrants : Nat := 100

namespace NrUeMac

/-! ## Buffer status -/

def bufSize (bsrs : List Bsr) : Nat :=
  (bsrs.map fun bsr => bsr.txQueueSize + bsr.retxQueueSize + bsr.statusPduSize).sum

/-- `GetTotalBufSize`, a `uint32_t`. -/
def totalBufSize (mac : NrUeMac) : Nat := bufSize mac.ulBsrReceived % 2 ^ 32

/-- The state machine part of `DoReportBufferStatus`. -/
def reported (mac : NrUeMac) : NrUeMac :=
  if mac.cgScheduling then
    match mac.srStateConfiguredGrant with
    | .INACTIVE_CG =>
      { mac with srStateConfiguredGrant := .TO_SEND_TrafficInfo, requestSent := false }
    | .ACTIVE_CG => { mac with srStateConfiguredGrant := .SCH_CG_DATA }
    | _ => mac
  else
    match mac.srState with
    | .INACTIVE => { mac with srState := .TO_SEND, requestSent := false }
    | _ => mac

/-- The order of a map after an insertion. -/
structure BsrOrder where
  arrange : List Bsr → List Bsr
  perm : ∀ bsrs, (arrange bsrs).Perm bsrs

def updateBsr (order : BsrOrder) (params : Bsr) (bsrs : List Bsr) : List Bsr :=
  if bsrs.any fun bsr => bsr.lcid = params.lcid then
    bsrs.map fun bsr => if bsr.lcid = params.lcid then params else bsr
  else order.arrange (params :: bsrs)

def doReportBufferStatus (order : BsrOrder) (params : Bsr) (mac : NrUeMac) : NrUeMac :=
  { mac with ulBsrReceived := updateBsr order params mac.ulBsrReceived }.reported

/-! ## Transport blocks -/

def sendMacPdu (mac : NrUeMac) (sfn : SfnSf) (symStart streamId size : Nat) : NrUeMac :=
  { mac with macPdus := ⟨sfn, symStart, streamId, size⟩ :: mac.macPdus }

/-- `DoTransmitPdu`; the layer of all UL transmissions is 0. `none` is a process that does not
exist, or one without a burst. -/
def doTransmitPdu (mac : NrUeMac) (size : Nat) : Option NrUeMac := do
  let process ← mac.harqProcesses[mac.ulDci.harqProcess]?
  let pktBurst ← process.pktBurst
  return { mac with
    harqProcesses := mac.harqProcesses.set mac.ulDci.harqProcess
      ⟨some (pktBurst ++ [size]), mac.numHarqProcess⟩
    ulDciTotalUsed := (mac.ulDciTotalUsed + size) % 2 ^ 32 }.sendMacPdu mac.ulDciSfnsf
      mac.ulDci.symStart 0 size

/-- `NotifyTxOpportunity` for the entry of a logical channel, with the calls the RLC entity makes
in it. -/
def notifyTxOpportunity (rlc : Rlc) (phase : TxPhase) (mac : NrUeMac) (bsr : Bsr) (bytes : Nat) :
    Option (Bsr × NrUeMac) := do
  let response := rlc phase bsr.lcid bytes
  let mac ← response.pdus.foldlM doTransmitPdu mac
  match response.report with
  | none => return (bsr, mac)
  | some params => return ({ params with lcid := bsr.lcid }, mac.reported)

/-- The loop of `SendNewStatusData`, with `hasStatusPdu` and `sentOneStatusPdu`. -/
def sendStatus (rlc : Rlc) (tbSize : Nat) :
    List Bsr → (hasStatusPdu sentOneStatusPdu : Bool) → NrUeMac →
      Option (List Bsr × Bool × Bool × NrUeMac)
  | [], has, sent, mac => some ([], has, sent, mac)
  | bsr :: bsrs, has, sent, mac =>
    if 0 < bsr.statusPduSize then
      if (mac.ulDciTotalUsed + bsr.statusPduSize) % 2 ^ 32 ≤ tbSize then do
        let (bsr, mac) ← mac.notifyTxOpportunity rlc .status bsr bsr.statusPduSize
        let (bsrs, has, sent, mac) ← sendStatus rlc tbSize bsrs true true mac
        return ({ bsr with statusPduSize := 0 } :: bsrs, has, sent, mac)
      else do
        let (bsrs, has, sent, mac) ← sendStatus rlc tbSize bsrs true sent mac
        return (bsr :: bsrs, has, sent, mac)
    else do
      let (bsrs, has, sent, mac) ← sendStatus rlc tbSize bsrs has sent mac
      return (bsr :: bsrs, has, sent, mac)

/-- `SendNewStatusData`; it aborts if there are status PDUs and none of them fits. -/
def sendNewStatusData (rlc : Rlc) (mac : NrUeMac) : Option NrUeMac := do
  let tbSize ← mac.ulDci.tbSize[0]?
  let (bsrs, has, sent, mac) ← sendStatus rlc tbSize mac.ulBsrReceived false false mac
  if has && !sent then none else some { mac with ulBsrReceived := bsrs }

/-- The loop that `SendRetxData` and `SendTxData` share. -/
def sendData (rlc : Rlc) (phase : TxPhase) (subtract : Bsr → Bsr) (usefulTbs bytesPerLcId : Nat) :
    List Bsr → NrUeMac → Option (List Bsr × NrUeMac)
  | [], mac => some ([], mac)
  | bsr :: bsrs, mac =>
    if (mac.ulDciTotalUsed + bytesPerLcId) % 2 ^ 32 ≤ usefulTbs then do
      let (bsr, mac) ← mac.notifyTxOpportunity rlc phase bsr bytesPerLcId
      let (bsrs, mac) ← sendData rlc phase subtract usefulTbs bytesPerLcId bsrs mac
      return (subtract bsr :: bsrs, mac)
    else do
      let (bsrs, mac) ← sendData rlc phase subtract usefulTbs bytesPerLcId bsrs mac
      return (bsr :: bsrs, mac)

/-- Subtraction of the minimum is truncated subtraction. -/
def subtractRetx (bytes : Nat) (bsr : Bsr) : Bsr :=
  { bsr with retxQueueSize := bsr.retxQueueSize - bytes }

/-- Two bytes less than the opportunity, in a `uint32_t`. -/
def subtractTx (bytes : Nat) (bsr : Bsr) : Bsr :=
  { bsr with txQueueSize := bsr.txQueueSize - (bytes + 2 ^ 32 - 2) % 2 ^ 32 }

def sendRetxData (rlc : Rlc) (usefulTbs activeLcsRetx : Nat) (mac : NrUeMac) : Option NrUeMac :=
  if activeLcsRetx = 0 then some mac
  else do
    let bytesPerLcId := usefulTbs / activeLcsRetx
    let (bsrs, mac) ← sendData rlc .retx (subtractRetx bytesPerLcId) usefulTbs bytesPerLcId
      mac.ulBsrReceived mac
    return { mac with ulBsrReceived := bsrs }

def sendTxData (rlc : Rlc) (usefulTbs activeTx : Nat) (mac : NrUeMac) : Option NrUeMac :=
  if activeTx = 0 then some mac
  else do
    let bytesPerLcId := usefulTbs / activeTx
    let (bsrs, mac) ← sendData rlc .tx (subtractTx bytesPerLcId) usefulTbs bytesPerLcId
      mac.ulBsrReceived mac
    return { mac with ulBsrReceived := bsrs }

/-- The bytes of the transport block that are left beside the SHORT_BSR, in a `uint32_t`. -/
def usefulTbs (mac : NrUeMac) (tbSize : Nat) : Nat :=
  (tbSize + 2 * 2 ^ 32 - mac.ulDciTotalUsed - 5) % 2 ^ 32

def setPktBurst (mac : NrUeMac) (pktBurst : Option (List Nat)) : Option NrUeMac := do
  let process ← mac.harqProcesses[mac.ulDci.harqProcess]?
  return { mac with
    harqProcesses := mac.harqProcesses.set mac.ulDci.harqProcess
      { process with pktBurst := pktBurst } }

/-- `SendNewData`. The numbers of active logical channels are taken before anything is sent from
the queues. -/
def sendNewData (rlc : Rlc) (mac : NrUeMac) : Option NrUeMac := do
  let tbSize ← mac.ulDci.tbSize[0]?
  let mac ← mac.setPktBurst (some [])
  let mac ← mac.sendNewStatusData rlc
  let activeLcsRetx := (mac.ulBsrReceived.countP fun bsr => 0 < bsr.retxQueueSize) % 2 ^ 16
  let activeLcsTx := (mac.ulBsrReceived.countP fun bsr => 0 < bsr.txQueueSize) % 2 ^ 16
  let useful := mac.usefulTbs tbSize
  let mac ← (if useful < activeLcsRetx * 3 then some mac
    else mac.sendRetxData rlc (useful - activeLcsRetx * 3) activeLcsRetx)
  let useful := mac.usefulTbs tbSize
  let mac ← (if useful < activeLcsTx * 3 then some mac
    else mac.sendTxData rlc (useful - activeLcsTx * 3) activeLcsTx)
  if mac.ulDciTotalUsed = 0 then mac.setPktBurst none else some mac

/-- `TransmitRetx`. -/
def transmitRetx (mac : NrUeMac) : Option NrUeMac := do
  let process ← mac.harqProcesses[mac.ulDci.harqProcess]?
  match process.pktBurst with
  | none => return mac
  | some sizes =>
    let mac := sizes.foldl (fun mac size => mac.sendMacPdu mac.ulDciSfnsf mac.ulDci.symStart 0 size)
      mac
    return { mac with
      harqProcesses := mac.harqProcesses.set mac.ulDci.harqProcess
        { process with timer := mac.numHarqProcess } }

/-- `SendReportBufferStatus`: a SHORT_BSR has five bytes. -/
def sendReportBufferStatus (mac : NrUeMac) (dataSfn : SfnSf) (symStart : Nat) : NrUeMac :=
  if mac.rnti = 0 then mac
  else if mac.ulBsrReceived = [] then mac
  else
    { mac with ulDciTotalUsed := (mac.ulDciTotalUsed + 5) % 2 ^ 32 }.sendMacPdu
      dataSfn symStart 0 5

/-- `NrMacHeaderVs::GetSerializedSize` for a PDU of some bytes. -/
def headerVsSize (size : Nat) : Nat := if size > 127 then 3 else 2

/-- An empty PDU has the size of its header. -/
def emptyPdu : Nat := headerVsSize 0

/-- The part of `ProcessUlDci` after the transmission of new data, for an empty buffer. -/
def emptied (mac : NrUeMac) : NrUeMac :=
  if mac.cgScheduling then { mac with srStateConfiguredGrant := .ACTIVE_CG }
  else { mac with srState := .INACTIVE }

/-! ## UL DCIs -/

/-- `pow (2, numerology)` in a `uint8_t`. -/
def numberOfSlotInsideOneSubframe (mac : NrUeMac) : Nat := 2 ^ mac.currentSlot.numerology % 256

/-- The key of the first occasion of the DCI; the number of slots is a `uint8_t`. -/
def firstKey (mac : NrUeMac) : Nat :=
  let slots := (mac.configurationTime * mac.numberOfSlotInsideOneSubframe + 251) % 256
  (mac.currentSlot.add slots).encForStreamWithSymStart 0 mac.ulDci.symStart

/-- The configured grant part of `ProcessUlDci`. `none` is an access outside the array. -/
def storeGrant (mac : NrUeMac) : Option NrUeMac :=
  if mac.cgSlotCounterDci < maxGrants then
    let stored := Function.update mac.dciGrantedStored mac.cgSlotCounterDci (some mac.ulDci)
    if mac.firstKey ∈ mac.dciCgMap then some { mac with dciGrantedStored := stored }
    else some { mac with
      dciGrantedStored := stored
      dciCgMap := mac.dciCgMap.insert mac.firstKey mac.ulDci
      cgSlotCounterDci := (mac.cgSlotCounterDci + 1) % 256 }
  else none

/-- The transmission that `ProcessUlDci` and `ProcessULPacket` share; they differ in what they do
when the buffer is empty. -/
def transmit (rlc : Rlc) (atEmpty : NrUeMac → NrUeMac) (mac : NrUeMac) : Option NrUeMac := do
  let ndi ← mac.ulDci.ndi[0]?
  if ndi = 0 then
    let mac ← mac.transmitRetx
    return mac.sendReportBufferStatus mac.ulDciSfnsf mac.ulDci.symStart
  else if ndi = 1 then
    let mac ← mac.sendNewData rlc
    let mac := mac.sendReportBufferStatus mac.ulDciSfnsf mac.ulDci.symStart
    if mac.totalBufSize = 0 then
      let mac := atEmpty mac
      if mac.ulDciTotalUsed = 0 then mac.doTransmitPdu emptyPdu else some mac
    else some mac
  else some mac

/-- The DCI of a transmission in a slot. -/
def setUlDci (sfn : SfnSf) (dci : DciInfoElementTdma) (mac : NrUeMac) : NrUeMac :=
  { mac with ulDciSfnsf := sfn, ulDciTotalUsed := 0, ulDci := dci }

def processUlDci (rlc : Rlc) (dci : DciInfoElementTdma) (kDelay : Nat) (mac : NrUeMac) :
    Option NrUeMac := do
  let mac := mac.setUlDci (mac.currentSlot.add kDelay) dci
  let mac ← (if mac.cgScheduling then mac.storeGrant else some mac)
  mac.transmit rlc emptied

/-! ## Slots -/

/-- A process whose timer has run out loses its packets; the timer is never decremented. -/
def refreshHarqProcessesPacketBuffer (mac : NrUeMac) : NrUeMac :=
  { mac with
    harqProcesses := mac.harqProcesses.map fun process =>
      match process.pktBurst with
      | some sizes =>
        if process.timer = 0 ∧ 0 < sizes.sum then { process with pktBurst := some [] } else process
      | none => process }

/-- `SendSR` and `SendTrafficInfo`: nothing is sent without an RNTI. -/
def sendRequest (mac : NrUeMac) : NrUeMac :=
  if mac.rnti = 0 then mac else { mac with requestSent := true }

/-- What every slot indication begins with. -/
def startSlot (sfn : SfnSf) (mac : NrUeMac) : NrUeMac :=
  { mac with currentSlot := sfn }.refreshHarqProcessesPacketBuffer

def setSrState (state : SrBsrMachine) (mac : NrUeMac) : NrUeMac := { mac with srState := state }

def setSrStateConfiguredGrant (state : SrCgMachine) (mac : NrUeMac) : NrUeMac :=
  { mac with srStateConfiguredGrant := state }

def doSlotIndication (sfn : SfnSf) (mac : NrUeMac) : NrUeMac :=
  let mac := mac.startSlot sfn
  match mac.srState with
  | .TO_SEND => mac.sendRequest.setSrState .ACTIVE
  | _ => mac

/-- The key of a grant one period later. -/
def nextKey (mac : NrUeMac) (grant : DciInfoElementTdma) : Nat :=
  let slots := mac.cgPeriod * mac.numberOfSlotInsideOneSubframe % 256
  (mac.currentSlot.add slots).encForStreamWithSymStart 0 grant.symStart

/-- The entry of an occasion is taken out for `ProcessULPacket`. -/
def takeGrant (key : Nat) (dci : DciInfoElementTdma) (mac : NrUeMac) : NrUeMac :=
  { mac.setUlDci mac.currentSlot dci with dciCgMap := mac.dciCgMap.erase key }

/-- The grant is put back for the next period. -/
def renewGrant (grant : DciInfoElementTdma) (mac : NrUeMac) : NrUeMac :=
  if mac.nextKey grant ∈ mac.dciCgMap then mac
  else { mac with
    dciCgMap := mac.dciCgMap.insert (mac.nextKey grant) grant
    cgSlotCounterDci2 := (mac.cgSlotCounterDci2 + 1) % 256 }

/-- The branch of `DoSlotIndication_configuredGrant` for an occasion that is in the map, with
`ProcessULPacket` in the middle. -/
def useGrant (rlc : Rlc) (key : Nat) (grant dci : DciInfoElementTdma) (mac : NrUeMac) :
    Option NrUeMac :=
  ((mac.takeGrant key dci).transmit rlc id).map (renewGrant grant)

/-- All grants have been used; the machine waits for the next packet. -/
def endPeriod (mac : NrUeMac) : NrUeMac :=
  { mac with srStateConfiguredGrant := .ACTIVE_CG, cgSlotCounterDci2 := 0 }

/-- `DoSlotIndication_configuredGrant`, with its result; `none` also for an access outside the
array. -/
def doSlotIndicationConfiguredGrant (rlc : Rlc) (sfn : SfnSf) (mac : NrUeMac) :
    Option (Bool × NrUeMac) :=
  let mac := mac.startSlot sfn
  match mac.srStateConfiguredGrant with
  | .TO_SEND_TrafficInfo => some (false, mac.sendRequest.setSrStateConfiguredGrant .TO_RECEIVE_CG)
  | .SCH_CG_DATA =>
    if mac.cgSlotCounterDci2 < maxGrants then
      match mac.dciGrantedStored mac.cgSlotCounterDci2 with
      | none => some (true, mac.endPeriod)
      | some grant =>
        let key := mac.currentSlot.encForStreamWithSymStart 0 grant.symStart
        match mac.dciCgMap.lookup key with
        | none => some (true, mac)
        | some dci => (mac.useGrant rlc key grant dci).map (Prod.mk true)
    else none
  | _ => some (false, mac)

def recvRaResponse (rnti : Nat) (mac : NrUeMac) : NrUeMac := { mac with rnti := rnti }

end NrUeMac

/-! ## Runs -/

/-- The MAC before the first event. -/
def start (cgScheduling : Bool) (configurationTime cgPeriod numHarqProcess : Nat) (slot : SfnSf) :
    NrUeMac :=
  { cgScheduling, configurationTime, cgPeriod, numHarqProcess, currentSlot := slot }

/-- An RLC entity that fills the opportunity. -/
def greedy : Rlc := fun _ _ bytes => { pdus := [bytes + 3] }

def bsrFirst : NrUeMac.BsrOrder := ⟨id, fun _ => List.Perm.refl _⟩

inductive Event
  | reportBufferStatus (order : NrUeMac.BsrOrder) (params : Bsr)
  | slotIndication (rlc : Rlc) (sfn : SfnSf)
  | recvRaResponse (rnti : Nat)
  | ulDci (rlc : Rlc) (dci : DciInfoElementTdma) (kDelay : Nat)

namespace NrUeMac

/-- One event; `none` if the program stops. -/
def step (mac : NrUeMac) : Event → Option NrUeMac
  | .reportBufferStatus order params => some (mac.doReportBufferStatus order params)
  | .slotIndication rlc sfn =>
    if mac.cgScheduling then (mac.doSlotIndicationConfiguredGrant rlc sfn).map Prod.snd
    else some (mac.doSlotIndication sfn)
  | .recvRaResponse rnti => some (mac.recvRaResponse rnti)
  | .ulDci rlc dci kDelay => mac.processUlDci rlc dci kDelay

def run (mac : NrUeMac) (es : List Event) : Option NrUeMac := es.foldlM step mac

/-- Each event of the run has the property in the state in which it happens. -/
def Along (p : NrUeMac → Event → Prop) (mac : NrUeMac) : List Event → Prop
  | [] => True
  | e :: es => p mac e ∧ ∀ mac' ∈ mac.step e, Along p mac' es

end NrUeMac

end Ns3.Nr.UeMac
