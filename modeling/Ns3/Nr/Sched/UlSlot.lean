import Ns3.Nr.Sched.HarqUlCount
import Ns3.Nr.Sched.UlData

/-!
# The uplink of a slot

`ScheduleUl` puts the UL CTRL symbol at the end of the slot, and `DoScheduleUl` then runs
three phases that share one starting point: SRS (`doScheduleSrs`), retransmissions
(`UlHarqRound.run`) and new data (`doScheduleUlData`). Each phase adds its allocations in
front of the ones made before. At the end the symbols of all allocations are added up by
their starting symbol and stored for the slot.

The UEs with data are what `ComputeActiveUe` finds, in any order of its map.
-/

namespace Ns3.Nr.Sched

open Lib

/-! ## Embedding -/

/-- The settings that divide a slot. -/
structure SlotConf where
  symbolsPerSlot : Nat
  dlCtrlSymbols : Nat
  ulCtrlSymbols : Nat
  srsCtrlSymbols : Nat
  dlDataSymbolsF : Nat
  enableSrsInFSlots : Bool
  enableSrsInUlSlots : Bool
deriving DecidableEq, Repr

/-- The part of `NrMacSchedulerUeInfo` that decides when a UE sends its SRS. -/
structure SrsUe where
  rnti : Nat
  srsPeriodicity : Nat
  srsOffset : Nat
deriving DecidableEq, Repr

/-- `AllocElem`. -/
structure AllocElem where
  rnti : Nat
  tbs : Nat
  symStart : Nat
  numSym : Nat
  mcs : Nat
  rbgMask : List Nat
deriving DecidableEq, Repr

/-- `SlotElem`. -/
structure SlotElem where
  totUlSym : Nat := 0
  ulAllocations : List AllocElem := []
deriving DecidableEq, Repr

/-- The members of the scheduler that `DoScheduleUl` uses. `ueMap` is in the order of the map. -/
structure UlSchedState where
  ueMap : List SrsUe
  srsSlotCounter : Nat := 0
  ulHarq : HarqMap
  ulHarqToRetransmit : List UlHarqInfo := []
  ulAllocationMap : Nat → Option SlotElem := fun _ => none

/-- Subtraction of `uint8_t`. -/
def sub8 (a b : Nat) : Nat := (a + 256 - b % 256) % 256

/-- `dataSymPerSlot`. -/
def SlotConf.dataSymPerSlot (conf : SlotConf) (type : LteNrTddSlotType) : Nat :=
  let dataSym := sub8 conf.symbolsPerSlot conf.ulCtrlSymbols
  if type = .F then sub8 dataSym (conf.dlCtrlSymbols + conf.dlDataSymbolsF) else dataSym

/-- `StartSym`. -/
def SlotConf.startSym (conf : SlotConf) (type : LteNrTddSlotType) : Nat :=
  match type with
  | .F => sub8 (sub8 conf.symbolsPerSlot conf.ulCtrlSymbols) (conf.dataSymPerSlot .F)
  | .UL => 0
  | _ => sub8 conf.symbolsPerSlot conf.ulCtrlSymbols

/-- `AppendCtrlSym`: the allocations it appends. -/
def appendCtrlSym (bandwidthInRbg symStart numSymToAllocate : Nat) (mode : DciFormat) :
    List VarTtiAllocInfo :=
  (List.range numSymToAllocate).map fun i =>
    { dci :=
        { format := mode
          symStart := symStart + i
          numSym := 1
          type := .CTRL
          rbgBitmask := List.replicate bandwidthInRbg 1 } }

/-- The RNTI of the UE that sends its SRS in this slot; the last one wins, 0 is none. -/
def srsRnti (srsSlotCounter : Nat) (ueMap : List SrsUe) : Nat :=
  match ueMap with
  | [] => 0
  | first :: _ =>
    let offset := srsSlotCounter % first.srsPeriodicity
    ueMap.foldl (fun rnti ue => if ue.srsOffset = offset then ue.rnti else rnti) 0

def srsDci (c : SchedConf) (rnti sym : Nat) : DciInfoElementTdma :=
  { rnti := rnti
    format := .UL
    symStart := sym
    numSym := 1
    mcs := [0]
    tbSize := [0]
    ndi := [1]
    rv := [0]
    type := .SRS
    bwpIndex := c.bwpId
    rbgBitmask := List.replicate c.bandwidthInRbg 1
    tpc := 1 }

/-- The variables that the phases of `DoScheduleUl` share. The allocations of a phase are kept
apart from those of the others. -/
structure UlSlot where
  spoint : PointInFTPlane
  ulSymAvail : Nat
  ctrl : List VarTtiAllocInfo
  srs : List VarTtiAllocInfo := []
  harq : List VarTtiAllocInfo := []
  data : List VarTtiAllocInfo := []
  numSymAlloc : Nat

/-- The allocations of the slot, the newest in front. -/
def UlSlot.varTtiAllocInfo (slot : UlSlot) : List VarTtiAllocInfo :=
  slot.data ++ (slot.harq ++ (slot.srs ++ slot.ctrl))

/-- The slot when `ScheduleUl` calls `DoScheduleUl`. -/
def UlSlot.start (conf : SlotConf) (c : SchedConf) (type : LteNrTddSlotType) : UlSlot :=
  { spoint := ⟨0, conf.startSym type⟩
    ulSymAvail := conf.dataSymPerSlot type
    ctrl := appendCtrlSym c.bandwidthInRbg (sub8 conf.symbolsPerSlot 1) conf.ulCtrlSymbols .UL
    numSymAlloc := conf.ulCtrlSymbols }

/-- One symbol for SRS, before the starting point. -/
def UlSlot.srsSym (c : SchedConf) (rnti : Nat) (slot : UlSlot) : UlSlot :=
  { slot with
    spoint := { slot.spoint with sym := sub8 slot.spoint.sym 1 }
    srs := { dci := srsDci c rnti (sub8 slot.spoint.sym 1) } :: slot.srs
    numSymAlloc := slot.numSymAlloc + 1 }

/-- `DoScheduleSrs` gives all its symbols to one UE. The result is the slot and the number of
symbols. -/
def doScheduleSrs (conf : SlotConf) (c : SchedConf) (srsSlotCounter : Nat) (ueMap : List SrsUe)
    (slot : UlSlot) : UlSlot × Nat :=
  let rnti := srsRnti srsSlotCounter ueMap
  if rnti = 0 then (slot, 0)
  else ((UlSlot.srsSym c rnti)^[conf.srsCtrlSymbols] slot, conf.srsCtrlSymbols)

/-- SRS is sent in F slots and in UL slots if it is enabled there. -/
def SlotConf.srsEnabled (conf : SlotConf) (type : LteNrTddSlotType) : Bool :=
  (conf.enableSrsInFSlots && type = .F) || (conf.enableSrsInUlSlots && type = .UL)

/-- `m_srsSlotCounter`, a `uint32_t`, in this slot. -/
def SlotConf.srsCounter (conf : SlotConf) (type : LteNrTddSlotType) (srsSlotCounter : Nat) : Nat :=
  if conf.srsEnabled type then (srsSlotCounter + 1) % 2 ^ 32 else srsSlotCounter

/-- The SRS phase. -/
def UlSlot.srsPhase (conf : SlotConf) (c : SchedConf) (type : LteNrTddSlotType)
    (st : UlSchedState) (slot : UlSlot) : UlSlot :=
  if conf.srsEnabled type then
    let r := doScheduleSrs conf c (conf.srsCounter type st.srsSlotCounter) st.ueMap slot
    { r.1 with ulSymAvail := sub8 r.1.ulSymAvail r.2 }
  else slot

/-- The slot after `ScheduleUlHarq`. Without feedback nothing changes. -/
def UlSlot.afterHarq (slot : UlSlot) (r : UlHarqRound) : UlSlot :=
  { slot with
    spoint := { slot.spoint with sym := r.place.sym }
    ulSymAvail := sub8 slot.ulSymAvail r.place.symUsed
    harq := r.varTtiAllocInfo
    numSymAlloc := r.numSymAlloc }

/-- The data phase. -/
def UlSlot.dataPhase (c : SchedConf) (s : UlScheduler) (activeUl : ActiveUeMap) (slot : UlSlot) :
    UlSlot :=
  let activeUl := removeScheduled UeInfo.rnti slot.varTtiAllocInfo activeUl
  if 0 < slot.ulSymAvail ∧ activeUl ≠ [] then
    let d := doScheduleUlData c s slot.spoint slot.ulSymAvail activeUl []
    { slot with
      spoint := d.spoint
      ulSymAvail := sub8 slot.ulSymAvail d.usedSym
      data := d.varTtiAllocInfo
      numSymAlloc := slot.numSymAlloc + d.numSymAlloc }
  else slot

/-- The three phases of `DoScheduleUl`. -/
def ulPhases (conf : SlotConf) (c : SchedConf) (s : UlScheduler) (type : LteNrTddSlotType)
    (ulHarqFeedback : List UlHarqInfo) (activeUl : ActiveUeMap) (st : UlSchedState) :
    Result (UlSlot × UlSchedState) := do
  let slot := (UlSlot.start conf c type).srsPhase conf c type st
  let r ← UlHarqRound.run
    { symAvail := slot.ulSymAvail
      place := { sym := slot.spoint.sym }
      ulHarq := st.ulHarq
      ulHarqToRetransmit := st.ulHarqToRetransmit
      numSymAlloc := slot.numSymAlloc } ulHarqFeedback
  return ((slot.afterHarq r).dataPhase c s activeUl,
    { st with
      srsSlotCounter := conf.srsCounter type st.srsSlotCounter
      ulHarq := r.ulHarq
      ulHarqToRetransmit := r.ulHarqToRetransmit })

/-- `symToAl`, with 15 entries. An index behind them is an error. -/
def symToAl (allocs : List VarTtiAllocInfo) : Result (List Nat) :=
  allocs.foldlM (fun table alloc =>
    if alloc.dci.format = .UL then
      if alloc.dci.symStart < table.length then
        .ok (table.set alloc.dci.symStart alloc.dci.numSym)
      else .error .outOfRange
    else .ok table) (List.replicate 15 0)

/-- The data allocations as they are stored for the slot. -/
def ulAllocations (allocs : List VarTtiAllocInfo) : List AllocElem :=
  (allocs.filter fun alloc => alloc.dci.format = .UL ∧ alloc.dci.type = .DATA).map fun alloc =>
    ⟨alloc.dci.rnti, alloc.dci.tbSize.headD 0, alloc.dci.symStart, alloc.dci.numSym,
      alloc.dci.mcs.headD 0, alloc.dci.rbgBitmask⟩

/-- `DoScheduleUl` for the slot with the encoding `ulSfn`. An entry of the slot that is there
already stays, and the symbols are added to it. -/
def doScheduleUl (conf : SlotConf) (c : SchedConf) (s : UlScheduler) (type : LteNrTddSlotType)
    (ulSfn : Nat) (ulHarqFeedback : List UlHarqInfo) (activeUl : ActiveUeMap)
    (st : UlSchedState) : Result (UlSlot × UlSchedState) := do
  let (slot, st) ← ulPhases conf c s type ulHarqFeedback activeUl st
  let table ← symToAl slot.varTtiAllocInfo
  let elem := (st.ulAllocationMap ulSfn).getD {}
  let elem : SlotElem :=
    { totUlSym := table.foldl (fun tot v => (tot + v) % 256) elem.totUlSym
      ulAllocations := elem.ulAllocations ++ ulAllocations slot.varTtiAllocInfo }
  return (slot, { st with ulAllocationMap := Function.update st.ulAllocationMap ulSfn (some elem) })

end Ns3.Nr.Sched
