import Ns3.Lib.Stack
import Ns3.Nr.Sched.Beams

/-!
# New uplink data

`DoScheduleUlData` asks the scheduler for the resources of each UE and turns them into DCIs,
beam by beam. How the resources are assigned, where a DCI is placed and how the starting
point moves between beams is left to the scheduler (`UlScheduler`).

The HARQ process of a DCI is inserted in the module `HarqTable`; the bytes of the logical
channels do not influence the DCIs and are left out.
-/

namespace Ns3.Nr.Sched

open Lib

/-- The part of `NrMacSchedulerUeInfo` that describes the resources of a slot. -/
structure UeInfo where
  rnti : Nat
  ulMcs : Nat := 0
  ulRBG : Nat := 0
  ulSym : Nat := 0
  ulTbSize : Nat := 0
deriving DecidableEq, Repr

/-- `ResetUlSchedInfo`. -/
def UeInfo.resetUlSchedInfo (ue : UeInfo) : UeInfo :=
    { ue with ulRBG := 0, ulSym := 0, ulTbSize := 0 }

/-- The UEs with data by beam, each with the size of its buffer. -/
abbrev ActiveUeMap := BeamMap UeInfo

/-- The settings of a scheduler that decide how RBGs are used. `ulTbs` is
`CalculateTbSize` of the UL AMC, `pf` tells whether this is one of the PF schedulers. -/
structure SchedConf where
  bandwidthInRbg : Nat
  numRbPerRbg : Nat
  ulNotchedRbgMask : List Nat
  ulTbs : Nat → Nat → Nat
  bwpId : Nat := 0
  pf : Bool := false

/-- The RBGs that may be used: all of them if no mask is set. -/
def SchedConf.ulMask (c : SchedConf) : List Nat :=
  if c.ulNotchedRbgMask.length = 0 then List.replicate c.bandwidthInRbg 1 else c.ulNotchedRbgMask

/-- `UpdateUlMetric`. -/
def UeInfo.updateUlMetric (c : SchedConf) (ue : UeInfo) : UeInfo :=
  { ue with ulTbSize := if ue.ulRBG = 0 then 0 else c.ulTbs ue.ulMcs (ue.ulRBG * c.numRbPerRbg) }

/-- `NotAssignedUlResources` for a UE that gets nothing when another one does: PF updates its
metric as well, RR and MR do nothing. -/
def SchedConf.notAssignedUlResources (c : SchedConf) (ue : UeInfo × Nat) : UeInfo × Nat :=
  if c.pf then (ue.1.updateUlMetric c, ue.2) else ue

/-- A UE is passed over when its transport block covers its buffer. -/
def unmetUl (ue : UeInfo × Nat) : Bool := ue.1.ulTbSize < max ue.2 7

theorem notAssignedUlResources_ulRBG (c : SchedConf) (ue : UeInfo × Nat) :
    (c.notAssignedUlResources ue).1.ulRBG = ue.1.ulRBG := by
  unfold SchedConf.notAssignedUlResources
  split <;> rfl

theorem notAssignedUlResources_ulSym (c : SchedConf) (ue : UeInfo × Nat) :
    (c.notAssignedUlResources ue).1.ulSym = ue.1.ulSym := by
  unfold SchedConf.notAssignedUlResources
  split <;> rfl

/-- UEs of a beam without resources. -/
def Fresh (ues : List (UeInfo × Nat)) : Prop := ∀ ue ∈ ues, ue.1.ulRBG = 0 ∧ ue.1.ulTbSize = 0

instance (ues : List (UeInfo × Nat)) : Decidable (Fresh ues) :=
  inferInstanceAs (Decidable (∀ ue ∈ ues, _))

/-- A beam after the assignment: its symbols and its UEs. -/
structure AssignedBeam where
  beam : Nat
  sym : Nat
  ues : List (UeInfo × Nat)
deriving DecidableEq, Repr

/-- The virtual functions of the scheduler that `DoScheduleUlData` uses. -/
structure UlScheduler where
  assignULRBG : Nat → ActiveUeMap → List AssignedBeam
  createUlDci : PointInFTPlane → UeInfo → Nat → Option DciInfoElementTdma × PointInFTPlane
  changeUlBeam : PointInFTPlane → Nat → PointInFTPlane
  getScheduler : Nat

/-- The variables of the loop over the UEs of a beam. -/
structure UlBeamState where
  spoint : PointInFTPlane
  varTtiAllocInfo : List VarTtiAllocInfo
  symbStartDci : List Nat := []
  allocSym : Nat := 0
  assigned : Bool := false

/-- The state after a DCI. -/
def UlBeamState.push (st : UlBeamState) (dci : DciInfoElementTdma) (spoint : PointInFTPlane) :
    UlBeamState :=
  { spoint := spoint
    varTtiAllocInfo := { dci := dci } :: st.varTtiAllocInfo
    symbStartDci := dci.symStart :: st.symbStartDci
    allocSym :=
      if st.symbStartDci.contains dci.symStart then st.allocSym else st.allocSym + dci.numSym
    assigned := true }

/-- One UE of a beam with `beamSym` symbols. -/
def UlBeamState.step (c : SchedConf) (s : UlScheduler) (beamSym : Nat) (st : UlBeamState)
    (ue : UeInfo × Nat) : UlBeamState :=
  if ue.1.ulRBG = 0 then st
  else
    let r := s.createUlDci st.spoint ue.1 beamSym
    let spoint :=
      if s.getScheduler ≠ 1 ∧ c.bandwidthInRbg - r.2.rbg ≤ 1 then
        ⟨0, (r.2.sym + ue.1.ulSym) % 256⟩
      else r.2
    match r.1 with
    | none => { st with spoint := spoint }
    | some dci => st.push dci spoint

/-- The variables of `DoScheduleUlData`. -/
structure UlDataState where
  spoint : PointInFTPlane
  varTtiAllocInfo : List VarTtiAllocInfo
  usedSym : Nat := 0
  numSymAlloc : Nat := 0

/-- One beam. -/
def UlDataState.step (c : SchedConf) (s : UlScheduler) (st : UlDataState) (beam : AssignedBeam) :
    UlDataState :=
  if beam.sym = 0 then st
  else
    let b := beam.ues.foldl (UlBeamState.step c s beam.sym)
      { spoint := st.spoint, varTtiAllocInfo := st.varTtiAllocInfo }
    if b.assigned then
      { spoint := s.changeUlBeam b.spoint beam.sym
        varTtiAllocInfo := b.varTtiAllocInfo
        usedSym := (st.usedSym + b.allocSym) % 256
        numSymAlloc := st.numSymAlloc + b.allocSym }
    else { st with spoint := b.spoint, varTtiAllocInfo := b.varTtiAllocInfo }

/-- `DoScheduleUlData` for the allocations made so far. -/
def doScheduleUlData (c : SchedConf) (s : UlScheduler) (spoint : PointInFTPlane) (symAvail : Nat)
    (activeUl : ActiveUeMap) (slotAlloc : List VarTtiAllocInfo) : UlDataState :=
  (s.assignULRBG symAvail activeUl).foldl (UlDataState.step c s)
    { spoint := spoint, varTtiAllocInfo := slotAlloc }

/-- The new allocations are apart from each other and in the `symAvail` symbols from `sym` on,
the first of them at `sym`, and their symbols are counted. -/
structure UlPlaced (sym symAvail : Nat) (st : UlDataState) : Prop where
  packed : Packed sym (sym + symAvail) (st.varTtiAllocInfo.map allocBlock)
  len : ∀ a ∈ st.varTtiAllocInfo, 0 < a.dci.numSym
  first : st.varTtiAllocInfo ≠ [] → ∃ a ∈ st.varTtiAllocInfo, a.dci.symStart = sym
  used : st.usedSym = tally (st.varTtiAllocInfo.map allocBlock)
  used_le : st.usedSym ≤ symAvail
  type : ∀ a ∈ st.varTtiAllocInfo, a.dci.format = .UL ∧ a.dci.type = .DATA

/-! ## Allocations are only added -/

section Suffix

variable (c : SchedConf) (s : UlScheduler)

theorem UlBeamState.foldl_step_suffix (beamSym : Nat) (ues : List (UeInfo × Nat))
    (st : UlBeamState) :
    ∃ new, (ues.foldl (UlBeamState.step c s beamSym) st).varTtiAllocInfo =
      new ++ st.varTtiAllocInfo := by
  induction ues generalizing st with
  | nil => exact ⟨[], rfl⟩
  | cons ue ues ih =>
    obtain ⟨new, hnew⟩ := ih (UlBeamState.step c s beamSym st ue)
    have hstep : ∃ one, (UlBeamState.step c s beamSym st ue).varTtiAllocInfo =
        one ++ st.varTtiAllocInfo := by
      unfold UlBeamState.step
      split
      · exact ⟨[], rfl⟩
      · dsimp only
        split
        · exact ⟨[], rfl⟩
        · exact ⟨[_], rfl⟩
    obtain ⟨one, hone⟩ := hstep
    refine ⟨new ++ one, ?_⟩
    rw [List.foldl_cons, hnew, hone, List.append_assoc]

theorem UlDataState.step_suffix (st : UlDataState) (beam : AssignedBeam) :
    ∃ new, (st.step c s beam).varTtiAllocInfo = new ++ st.varTtiAllocInfo := by
  unfold UlDataState.step
  split
  · exact ⟨[], rfl⟩
  · dsimp only
    split
    · exact UlBeamState.foldl_step_suffix c s beam.sym beam.ues _
    · exact UlBeamState.foldl_step_suffix c s beam.sym beam.ues _

theorem UlDataState.foldl_step_suffix (beams : List AssignedBeam) (st : UlDataState) :
    ∃ new, (beams.foldl (UlDataState.step c s) st).varTtiAllocInfo =
      new ++ st.varTtiAllocInfo := by
  induction beams generalizing st with
  | nil => exact ⟨[], rfl⟩
  | cons beam beams ih =>
    obtain ⟨new, hnew⟩ := ih (st.step c s beam)
    obtain ⟨one, hone⟩ := UlDataState.step_suffix c s st beam
    refine ⟨new ++ one, ?_⟩
    rw [List.foldl_cons, hnew, hone, List.append_assoc]

end Suffix

end Ns3.Nr.Sched
