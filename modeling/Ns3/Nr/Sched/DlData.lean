import Ns3.Nr.Sched.Ofdma

/-!
# New downlink data

`DoScheduleDlData` works as the uplink does: the scheduler assigns resources to the UEs of
each beam and turns them into DCIs. A UE may have two streams, each with a transport block
of its own (`updateDlMetric`); a stream that the buffer does not need is not used
(`zeroUnneeded`).

In both schedulers the DCIs cover a part of the available symbols from the starting point on
(`DlAccess.spans`). How many symbols this is follows from the assignment (`DlAccess.usedSyms`).
-/

namespace Ns3.Nr.Sched

open Lib

/-! ## Embedding -/

/-- `m_ri`; other values are a fatal error. -/
inductive RankIndicator
  | one
  | two
deriving DecidableEq, Repr

/-- The part of `NrMacSchedulerUeInfo` that describes the downlink resources of a slot. Lists
are indexed by the stream. -/
structure DlUeInfo where
  rnti : Nat
  dlMcs : List Nat := [0]
  ri : RankIndicator := .one
  wbCqi : List Nat := []
  dlRBG : Nat := 0
  dlSym : Nat := 0
  dlTbSize : List Nat := [0]
deriving DecidableEq, Repr

/-- The settings of the downlink. `dlTbs` is `CalculateTbSize` of the DL AMC, `pf` tells whether
this is one of the PF schedulers. -/
structure DlConf where
  bandwidthInRbg : Nat
  numRbPerRbg : Nat
  dlNotchedRbgMask : List Nat
  dlTbs : Nat → Nat → Nat
  bwpId : Nat := 0
  pf : Bool := false

def DlConf.dlMask (c : DlConf) : List Nat :=
  if c.dlNotchedRbgMask.length = 0 then List.replicate c.bandwidthInRbg 1 else c.dlNotchedRbgMask

/-- `numOfAssignableRbgs`. -/
def DlConf.dlAssignable (c : DlConf) : Nat := c.bandwidthInRbg - c.dlNotchedRbgMask.count 0

/-- The index that `std::max_element` finds. -/
def maxElementIndex : List Nat → Nat
  | [] => 0
  | x :: l => if l.all (· ≤ x) then 0 else maxElementIndex l + 1

/-- `UpdateDlMetric`. -/
def DlUeInfo.updateDlMetric (c : DlConf) (ue : DlUeInfo) : DlUeInfo :=
  let tbs (stream : Nat) := c.dlTbs (ue.dlMcs.getD stream 0) (ue.dlRBG * c.numRbPerRbg)
  { ue with
    dlTbSize :=
      if ue.dlRBG = 0 then ue.dlTbSize.map fun _ => 0
      else
        match ue.ri with
        | .one =>
          if ue.dlMcs.length = 1 then ue.dlTbSize.set 0 (tbs 0)
          else
            (List.range ue.wbCqi.length).foldl (fun sizes stream =>
              sizes.set stream (if stream = maxElementIndex ue.wbCqi then tbs stream else 0))
              ue.dlTbSize
        | .two => (ue.dlTbSize.set 0 (tbs 0)).set 1 (tbs 1) }

/-- `NotAssignedDlResources` for a UE that gets nothing when another one does: PF updates its
metric as well, RR and MR do nothing. -/
def DlConf.notAssignedDlResources (c : DlConf) (ue : DlUeInfo × Nat) : DlUeInfo × Nat :=
  if c.pf then (ue.1.updateDlMetric c, ue.2) else ue

def unmetDl (ue : DlUeInfo × Nat) : Bool := ue.1.dlTbSize.sum < max ue.2 7

/-- The streams behind those that empty the buffer get no transport block. -/
def zeroUnneeded : (bufQueueSize : Nat) → List Nat → List Nat
  | _, [] => []
  | bufQueueSize, tb :: sizes =>
    if bufQueueSize ≠ 0 then tb :: zeroUnneeded (bufQueueSize - tb) sizes
    else 0 :: zeroUnneeded 0 sizes

/-- A UE that is passed over because its transport blocks cover its buffer. -/
def passDl (ue : DlUeInfo × Nat) : DlUeInfo × Nat :=
  if 1 < ue.1.dlTbSize.length then
    ({ ue.1 with dlTbSize := zeroUnneeded ue.2 ue.1.dlTbSize }, ue.2)
  else ue

/-- A beam after the assignment. -/
structure DlBeam where
  beam : Nat
  sym : Nat
  ues : List (DlUeInfo × Nat)
deriving DecidableEq, Repr

/-- The virtual functions of the scheduler that `DoScheduleDlData` uses. -/
structure DlScheduler where
  assignDLRBG : Nat → BeamMap DlUeInfo → List DlBeam
  createDlDci : PointInFTPlane → DlUeInfo → Nat → Option DciInfoElementTdma × PointInFTPlane
  changeDlBeam : PointInFTPlane → Nat → PointInFTPlane

/-- The variables of the loop over the UEs of a beam. -/
structure DlBeamState where
  spoint : PointInFTPlane
  varTtiAllocInfo : List VarTtiAllocInfo
  symbStartDci : List Nat := []
  allocSym : Nat := 0
  assigned : Bool := false

/-- The state after a DCI. -/
def DlBeamState.push (st : DlBeamState) (dci : DciInfoElementTdma) (spoint : PointInFTPlane) :
    DlBeamState where
  spoint := spoint
  varTtiAllocInfo := st.varTtiAllocInfo ++ [{ dci := dci }]
  symbStartDci := dci.symStart :: st.symbStartDci
  allocSym :=
    if st.symbStartDci.contains dci.symStart then st.allocSym else st.allocSym + dci.numSym
  assigned := true

/-- One UE of a beam with `beamSym` symbols. -/
def DlBeamState.step (s : DlScheduler) (beamSym : Nat) (st : DlBeamState) (ue : DlUeInfo × Nat) :
    DlBeamState :=
  if ue.1.dlRBG = 0 then st
  else
    let r := s.createDlDci st.spoint ue.1 beamSym
    match r.1 with
    | none => { st with spoint := r.2 }
    | some dci => st.push dci r.2

/-- The variables of `DoScheduleDlData`. -/
structure DlDataState where
  spoint : PointInFTPlane
  varTtiAllocInfo : List VarTtiAllocInfo
  usedSym : Nat := 0
  numSymAlloc : Nat := 0

/-- One beam. -/
def DlDataState.step (s : DlScheduler) (st : DlDataState) (beam : DlBeam) : DlDataState :=
  if beam.sym = 0 then st
  else
    let b := beam.ues.foldl (DlBeamState.step s beam.sym)
      { spoint := st.spoint, varTtiAllocInfo := st.varTtiAllocInfo }
    if b.assigned then
      { spoint := s.changeDlBeam b.spoint beam.sym
        varTtiAllocInfo := b.varTtiAllocInfo
        usedSym := (st.usedSym + b.allocSym) % 256
        numSymAlloc := st.numSymAlloc + b.allocSym }
    else { st with spoint := b.spoint, varTtiAllocInfo := b.varTtiAllocInfo }

/-- `DoScheduleDlData` for the allocations made so far. -/
def doScheduleDlData (s : DlScheduler) (spoint : PointInFTPlane) (symAvail : Nat)
    (activeDl : BeamMap DlUeInfo) (slotAlloc : List VarTtiAllocInfo) : DlDataState :=
  (s.assignDLRBG symAvail activeDl).foldl (DlDataState.step s)
    { spoint := spoint, varTtiAllocInfo := slotAlloc }

/-! The schedulers. -/

/-- One symbol with all its RBGs for a UE. -/
def DlUeInfo.giveSym (c : DlConf) (ue : DlUeInfo) : DlUeInfo :=
  DlUeInfo.updateDlMetric c
    { ue with dlRBG := ue.dlRBG + c.dlAssignable, dlSym := (ue.dlSym + 1) % 256 }

/-- The loop of `AssignRBGTDMA` in the downlink. -/
def dlSymService (c : DlConf) : Service (DlUeInfo × Nat) where
  unmet := unmetDl
  give ue := (ue.1.giveSym c, ue.2)
  pass := passDl
  miss := c.notAssignedDlResources
  arrange _ := id
  arrange_perm _ _ := List.Perm.refl _

def dlSymsOf (c : DlConf) (ue : DlUeInfo × Nat) : Nat := ue.1.dlRBG / c.dlAssignable

def splitDlBeams (c : DlConf) : BeamMap DlUeInfo → List (DlUeInfo × Nat) → List DlBeam
  | [], _ => []
  | el :: active, ues =>
    ⟨el.1, ((ues.take el.2.length).map (dlSymsOf c)).sum, ues.take el.2.length⟩ ::
      splitDlBeams c active (ues.drop el.2.length)

/-- The transport blocks, the new data indicators and the redundancy versions of a DCI. Streams
with less than 7 bytes are not used, and without any stream there is no DCI. -/
def dlStreams (sizes : List Nat) : Option (List Nat × List Nat × List Nat) :=
  if sizes.all (· < 7) then none
  else
    some (sizes.map fun tb => if tb < 7 then 0 else tb,
      sizes.map fun tb => if tb < 7 then 0 else 1, sizes.map fun _ => 0)

/-- A downlink DCI for new data. -/
def newDlDci (c : DlConf) (ue : DlUeInfo) (streams : List Nat × List Nat × List Nat)
    (symStart numSym : Nat) (rbgBitmask : List Nat) : DciInfoElementTdma :=
  { rnti := ue.rnti
    format := .DL
    symStart := symStart
    numSym := numSym
    mcs := ue.dlMcs
    tbSize := streams.1
    ndi := streams.2.1
    rv := streams.2.2
    type := .DATA
    bwpIndex := c.bwpId
    rbgBitmask := rbgBitmask
    tpc := 1 }

/-- `CreateDlDci` of the TDMA scheduler. -/
def tdmaCreateDlDci (c : DlConf) (spoint : PointInFTPlane) (ue : DlUeInfo) (_maxSym : Nat) :
    Option DciInfoElementTdma × PointInFTPlane :=
  match dlStreams ue.dlTbSize with
  | none => (none, spoint)
  | some streams =>
    let numSym := ue.dlRBG / c.dlAssignable % 256
    (some (newDlDci c ue streams spoint.sym (max numSym 1) c.dlMask),
      ⟨0, (spoint.sym + numSym) % 256⟩)

def tdmaDl (c : DlConf) : DlScheduler where
  assignDLRBG symAvail active :=
    splitDlBeams c active ((dlSymService c).run symAvail (active.flatMap Prod.snd))
  createDlDci := tdmaCreateDlDci c
  changeDlBeam spoint _ := spoint

/-- `sortUes` is the order of `GetUeCompareDlFn`, which may depend on what has happened. -/
structure DlOfdmaConf extends DlConf where
  minBeam : MinChoice
  sortUes : Nat → List (DlUeInfo × Nat) → List (DlUeInfo × Nat)
  sortUes_perm : ∀ n ues, (sortUes n ues).Perm ues

/-- One RBG in all symbols of the beam for a UE. -/
def DlUeInfo.giveRbg (c : DlConf) (beamSym : Nat) (ue : DlUeInfo) : DlUeInfo :=
  DlUeInfo.updateDlMetric c { ue with dlRBG := ue.dlRBG + beamSym, dlSym := beamSym % 256 }

def dlRbgService (c : DlOfdmaConf) (beamSym : Nat) : Service (DlUeInfo × Nat) where
  unmet := unmetDl
  give ue := (ue.1.giveRbg c.toDlConf beamSym, ue.2)
  pass := passDl
  miss := c.notAssignedDlResources
  arrange := c.sortUes
  arrange_perm := c.sortUes_perm

/-- `AssignDLRBG` of the OFDMA scheduler. The sorted vector is a copy; the UEs of the beam keep
their order. -/
def ofdmaAssignDLRBG (c : DlOfdmaConf) (symAvail : Nat) (active : BeamMap DlUeInfo) :
    List DlBeam :=
  List.zipWith (fun el beamSym =>
    let ues := (dlRbgService c beamSym).run (c.dlMask.count 1) el.2
    ⟨el.1, beamSym, el.2.map fun ue => (ues.find? fun u => u.1.rnti = ue.1.rnti).getD ue⟩)
    active (getSymPerBeam c.minBeam symAvail active)

/-- `CreateDlDci` of the OFDMA scheduler. -/
def ofdmaCreateDlDci (c : DlConf) (spoint : PointInFTPlane) (ue : DlUeInfo) (maxSym : Nat) :
    Option DciInfoElementTdma × PointInFTPlane :=
  match dlStreams ue.dlTbSize with
  | none => (none, spoint)
  | some streams =>
    let r := placeRbgs spoint.rbg 0 (ue.dlRBG / maxSym) spoint.rbg c.dlMask
    (some (newDlDci c ue streams spoint.sym (maxSym % 256) r.1), ⟨r.2.2 + 1, spoint.sym⟩)

def ofdmaDl (c : DlOfdmaConf) : DlScheduler where
  assignDLRBG := ofdmaAssignDLRBG c
  createDlDci := ofdmaCreateDlDci c.toDlConf
  changeDlBeam spoint symOfBeam := ⟨0, (spoint.sym + symOfBeam) % 256⟩

/-! ## The symbols of the DCIs -/

/-- New allocations, appended in order, from the symbol `lo` up to the symbol `hi`. -/
structure DlSpans (lo hi : Nat) (old allocs new : List VarTtiAllocInfo) : Prop where
  allocated : allocs = old ++ new
  le : lo ≤ hi
  within : ∀ a ∈ new, lo ≤ a.dci.symStart ∧ a.dci.symStart + a.dci.numSym ≤ hi
  first : lo < hi → ∃ a ∈ new, a.dci.symStart = lo ∧ 0 < a.dci.numSym
  last : lo < hi → ∃ a ∈ new, a.dci.symStart + a.dci.numSym = hi ∧ 0 < a.dci.numSym
  type : ∀ a ∈ new, a.dci.type = .DATA

theorem DlSpans.nil (lo : Nat) (old : List VarTtiAllocInfo) : DlSpans lo lo old old [] where
  allocated := (List.append_nil _).symm
  le := le_rfl
  within := by simp
  first h := absurd h (lt_irrefl _)
  last h := absurd h (lt_irrefl _)
  type := by simp

theorem DlSpans.trans {lo mid hi : Nat} {old allocs allocs' new new' : List VarTtiAllocInfo}
    (h : DlSpans lo mid old allocs new) (h' : DlSpans mid hi allocs allocs' new') :
    DlSpans lo hi old allocs' (new ++ new') where
  allocated := by rw [h'.allocated, h.allocated, List.append_assoc]
  le := h.le.trans h'.le
  within := by
    have := h.le
    have := h'.le
    intro a ha
    rcases List.mem_append.mp ha with ha | ha
    · have := h.within a ha
      omega
    · have := h'.within a ha
      omega
  first := by
    intro hlt
    rcases h.le.eq_or_lt with heq | hmid
    · obtain ⟨a, ha, hstart⟩ := h'.first (heq ▸ hlt)
      exact ⟨a, List.mem_append_right _ ha, heq ▸ hstart⟩
    · obtain ⟨a, ha, hstart⟩ := h.first hmid
      exact ⟨a, List.mem_append_left _ ha, hstart⟩
  last := by
    intro hlt
    rcases h'.le.eq_or_lt with heq | hmid
    · obtain ⟨a, ha, hend⟩ := h.last (heq ▸ hlt)
      exact ⟨a, List.mem_append_left _ ha, heq ▸ hend⟩
    · obtain ⟨a, ha, hend⟩ := h'.last hmid
      exact ⟨a, List.mem_append_right _ ha, hend⟩
  type := by
    intro a ha
    rcases List.mem_append.mp ha with ha | ha
    · exact h.type a ha
    · exact h'.type a ha

/-- DCIs that have all their symbols in common. -/
theorem DlSpans.beside {sym n : Nat} {old allocs new : List VarTtiAllocInfo}
    (halloc : allocs = old ++ new) (hne : new ≠ [])
    (hsym : ∀ a ∈ new, a.dci.symStart = sym ∧ a.dci.numSym = n)
    (htype : ∀ a ∈ new, a.dci.type = .DATA) :
    DlSpans sym (sym + n) old allocs new where
  allocated := halloc
  le := Nat.le_add_right _ _
  within := by
    intro a ha
    have := hsym a ha
    omega
  first := by
    intro hlt
    obtain ⟨a, ha⟩ := List.exists_mem_of_ne_nil new hne
    have := hsym a ha
    exact ⟨a, ha, this.1, by omega⟩
  last := by
    intro hlt
    obtain ⟨a, ha⟩ := List.exists_mem_of_ne_nil new hne
    have := hsym a ha
    exact ⟨a, ha, by omega, by omega⟩
  type := htype

/-- A UE gets a DCI if one of its streams has room for the headers and some data. -/
def dlGranted (ue : DlUeInfo × Nat) : Bool := ue.1.dlRBG ≠ 0 && !ue.1.dlTbSize.all (· < 7)

/-! ## TDMA -/

/-- The symbols of the UEs that get a DCI. -/
def dlGrantedSyms (c : DlConf) (ues : List (DlUeInfo × Nat)) : Nat :=
  ((ues.filter dlGranted).map (dlSymsOf c)).sum

section Tdma

variable {c : DlConf} {sym : Nat}

theorem dlGrantedSyms_le (c : DlConf) (ues : List (DlUeInfo × Nat)) :
    dlGrantedSyms c ues ≤ (ues.map (dlSymsOf c)).sum :=
  ((List.filter_sublist).map (dlSymsOf c)).sum_le_sum fun _ _ => Nat.zero_le _

theorem dlGrantedSyms_append (c : DlConf) (ues ues' : List (DlUeInfo × Nat)) :
    dlGrantedSyms c (ues ++ ues') = dlGrantedSyms c ues + dlGrantedSyms c ues' := by
  rw [dlGrantedSyms, List.filter_append, List.map_append, List.sum_append]
  rfl

theorem DlBeamState.tdma_step (hn : 0 < c.dlAssignable) {ue : DlUeInfo × Nat}
    (hdvd : c.dlAssignable ∣ ue.1.dlRBG) (beamSym : Nat) {st : DlBeamState}
    (hst : st.spoint = ⟨0, sym⟩) (hend : sym + dlGrantedSyms c [ue] < 256) :
    (DlBeamState.step (tdmaDl c) beamSym st ue).spoint = ⟨0, sym + dlGrantedSyms c [ue]⟩ ∧
      ∃ new, DlSpans sym (sym + dlGrantedSyms c [ue]) st.varTtiAllocInfo
        (DlBeamState.step (tdmaDl c) beamSym st ue).varTtiAllocInfo new := by
  unfold DlBeamState.step
  by_cases hrbg : ue.1.dlRBG = 0
  · have hnone : dlGrantedSyms c [ue] = 0 := by simp [dlGrantedSyms, dlGranted, hrbg]
    rw [if_pos hrbg, hnone]
    exact ⟨hst, [], DlSpans.nil _ _⟩
  · rw [if_neg hrbg]
    simp only [tdmaDl, tdmaCreateDlDci, dlStreams, hst]
    by_cases hsmall : ue.1.dlTbSize.all (· < 7) = true
    · have hnone : dlGrantedSyms c [ue] = 0 := by simp [dlGrantedSyms, dlGranted, hsmall]
      rw [if_pos hsmall, hnone]
      exact ⟨rfl, [], DlSpans.nil _ _⟩
    · have hgranted : dlGrantedSyms c [ue] = dlSymsOf c ue := by
        simp [dlGrantedSyms, dlGranted, hrbg, hsmall]
      rw [hgranted] at hend ⊢
      have hpos : 0 < dlSymsOf c ue :=
        Nat.div_pos (Nat.le_of_dvd (Nat.pos_of_ne_zero hrbg) hdvd) hn
      have hnum : ue.1.dlRBG / c.dlAssignable % 256 = dlSymsOf c ue := by
        rw [← dlSymsOf.eq_1 c ue]
        omega
      rw [if_neg hsmall]
      simp only [hnum, Nat.mod_eq_of_lt hend, max_eq_left (Nat.succ_le_of_lt hpos)]
      refine ⟨rfl, _, DlSpans.beside rfl (List.cons_ne_nil _ _) ?_ ?_⟩
      · intro a ha
        rw [List.mem_singleton.mp ha]
        exact ⟨rfl, rfl⟩
      · intro a ha
        rw [List.mem_singleton.mp ha]
        rfl

theorem DlBeamState.foldl_tdma_step (hn : 0 < c.dlAssignable) (beamSym : Nat)
    {ues : List (DlUeInfo × Nat)} (hues : ∀ ue ∈ ues, c.dlAssignable ∣ ue.1.dlRBG)
    {st : DlBeamState} (hst : st.spoint = ⟨0, sym⟩) (hend : sym + dlGrantedSyms c ues < 256) :
    (ues.foldl (DlBeamState.step (tdmaDl c) beamSym) st).spoint =
        ⟨0, sym + dlGrantedSyms c ues⟩ ∧
      ∃ new, DlSpans sym (sym + dlGrantedSyms c ues) st.varTtiAllocInfo
        (ues.foldl (DlBeamState.step (tdmaDl c) beamSym) st).varTtiAllocInfo new := by
  induction ues generalizing st sym with
  | nil => exact ⟨hst, [], DlSpans.nil _ _⟩
  | cons ue ues ih =>
    have hsplit := dlGrantedSyms_append c [ue] ues
    rw [List.singleton_append] at hsplit
    rw [hsplit, ← Nat.add_assoc] at hend ⊢
    obtain ⟨hpoint, new, hnew⟩ := DlBeamState.tdma_step hn (hues ue List.mem_cons_self) beamSym hst
      (by omega)
    obtain ⟨hpoint', new', hnew'⟩ := ih (fun u hu => hues u (List.mem_cons_of_mem _ hu)) hpoint hend
    exact ⟨hpoint', new ++ new', hnew.trans hnew'⟩

/-- The symbols of a beam are those of its UEs. -/
def DlBeam.Split (c : DlConf) (beam : DlBeam) : Prop :=
  beam.sym = (beam.ues.map (dlSymsOf c)).sum ∧ ∀ ue ∈ beam.ues, c.dlAssignable ∣ ue.1.dlRBG

theorem DlDataState.tdma_step (hn : 0 < c.dlAssignable) {beam : DlBeam} (hbeam : beam.Split c)
    {st : DlDataState} (hst : st.spoint = ⟨0, sym⟩)
    (hend : sym + dlGrantedSyms c beam.ues < 256) :
    (st.step (tdmaDl c) beam).spoint = ⟨0, sym + dlGrantedSyms c beam.ues⟩ ∧
      ∃ new, DlSpans sym (sym + dlGrantedSyms c beam.ues) st.varTtiAllocInfo
        (st.step (tdmaDl c) beam).varTtiAllocInfo new := by
  obtain ⟨hpoint, hnew⟩ := DlBeamState.foldl_tdma_step hn beam.sym hbeam.2
    (show (DlBeamState.mk st.spoint st.varTtiAllocInfo [] 0 false).spoint = ⟨0, sym⟩ from hst) hend
  unfold DlDataState.step
  by_cases hzero : beam.sym = 0
  · have hnone : dlGrantedSyms c beam.ues = 0 := by
      have := dlGrantedSyms_le c beam.ues
      have := hbeam.1
      omega
    rw [if_pos hzero, hnone]
    exact ⟨hst, [], DlSpans.nil _ _⟩
  · rw [if_neg hzero]
    -- the starting point is not moved between beams
    dsimp only
    split
    · exact ⟨hpoint, hnew⟩
    · exact ⟨hpoint, hnew⟩

theorem DlDataState.foldl_tdma_step (hn : 0 < c.dlAssignable) {beams : List DlBeam}
    (hbeams : ∀ beam ∈ beams, beam.Split c) {st : DlDataState} (hst : st.spoint = ⟨0, sym⟩)
    (hend : sym + dlGrantedSyms c (beams.flatMap DlBeam.ues) < 256) :
    ∃ new, DlSpans sym (sym + dlGrantedSyms c (beams.flatMap DlBeam.ues)) st.varTtiAllocInfo
      (beams.foldl (DlDataState.step (tdmaDl c)) st).varTtiAllocInfo new := by
  induction beams generalizing st sym with
  | nil => exact ⟨[], DlSpans.nil _ _⟩
  | cons beam beams ih =>
    rw [List.flatMap_cons, dlGrantedSyms_append, ← Nat.add_assoc] at hend ⊢
    obtain ⟨hpoint, new, hnew⟩ := DlDataState.tdma_step hn (hbeams beam List.mem_cons_self) hst
      (by omega)
    obtain ⟨new', hnew'⟩ := ih (fun b hb => hbeams b (List.mem_cons_of_mem _ hb)) hpoint hend
    exact ⟨new ++ new', hnew.trans hnew'⟩

theorem split_of_mem_splitDlBeams {active : BeamMap DlUeInfo} {ues : List (DlUeInfo × Nat)}
    (hues : ∀ ue ∈ ues, c.dlAssignable ∣ ue.1.dlRBG) :
    ∀ beam ∈ splitDlBeams c active ues, beam.Split c := by
  induction active generalizing ues with
  | nil => simp [splitDlBeams]
  | cons el active ih =>
    rw [splitDlBeams, List.forall_mem_cons]
    refine ⟨⟨rfl, fun ue hue => hues ue (List.mem_of_mem_take hue)⟩, ?_⟩
    exact ih fun ue hue => hues ue (List.mem_of_mem_drop hue)

theorem flatMap_splitDlBeams {active : BeamMap DlUeInfo} {ues : List (DlUeInfo × Nat)}
    (h : ues.length = (active.flatMap Prod.snd).length) :
    (splitDlBeams c active ues).flatMap DlBeam.ues = ues := by
  induction active generalizing ues with
  | nil => exact (List.length_eq_zero_iff.mp h).symm
  | cons el active ih =>
    rw [List.flatMap_cons, List.length_append] at h
    rw [splitDlBeams, List.flatMap_cons, ih]
    · exact List.take_append_drop _ _
    · rw [List.length_drop]
      omega

/-- UEs without downlink resources. -/
def DlFresh (active : BeamMap DlUeInfo) : Prop := ∀ el ∈ active, ∀ ue ∈ el.2, ue.1.dlRBG = 0

/-- The UEs of all beams after the assignment of the TDMA scheduler. -/
def assignedDlUes (c : DlConf) (symAvail : Nat) (active : BeamMap DlUeInfo) :
    List (DlUeInfo × Nat) :=
  (dlSymService c).run symAvail (active.flatMap Prod.snd)

variable {symAvail : Nat} {active : BeamMap DlUeInfo}

theorem DlFresh.flatMap (h : DlFresh active) : ∀ ue ∈ active.flatMap Prod.snd, ue.1.dlRBG = 0 := by
  intro ue hue
  obtain ⟨el, hel, hmem⟩ := List.mem_flatMap.mp hue
  exact h el hel ue hmem

theorem passDl_dlRBG (ue : DlUeInfo × Nat) : (passDl ue).1.dlRBG = ue.1.dlRBG := by
  unfold passDl
  split <;> rfl

theorem notAssignedDlResources_dlRBG (c : DlConf) (ue : DlUeInfo × Nat) :
    (c.notAssignedDlResources ue).1.dlRBG = ue.1.dlRBG := by
  unfold DlConf.notAssignedDlResources
  split <;> rfl

theorem DlFresh.dvd (h : DlFresh active) :
    ∀ ue ∈ assignedDlUes c symAvail active, c.dlAssignable ∣ ue.1.dlRBG := by
  refine Service.run_forall (fun ue hue => ?_) (fun ue hue => ?_) (fun ue hue => ?_) symAvail
    fun ue hue => ?_
  · exact Nat.dvd_add hue (dvd_refl _)
  · exact (passDl_dlRBG ue).symm ▸ hue
  · exact (notAssignedDlResources_dlRBG c ue).symm ▸ hue
  · rw [h.flatMap ue hue]
    exact dvd_zero _

/-- No more symbols are assigned than there are. -/
theorem DlFresh.syms_le (h : DlFresh active) (hn : 0 < c.dlAssignable) (symAvail : Nat) :
    ((assignedDlUes c symAvail active).map (dlSymsOf c)).sum ≤ symAvail := by
  have hgive : ∀ ue, dlSymsOf c ((dlSymService c).give ue) = dlSymsOf c ue + 1 :=
    fun ue => Nat.add_div_right _ hn
  have hpass : ∀ ue, dlSymsOf c ((dlSymService c).pass ue) = dlSymsOf c ue :=
    fun ue => congrArg (· / c.dlAssignable) (passDl_dlRBG ue)
  have hmiss : ∀ ue, dlSymsOf c ((dlSymService c).miss ue) = dlSymsOf c ue :=
    fun ue => congrArg (· / c.dlAssignable) (notAssignedDlResources_dlRBG c ue)
  have hsum := Service.sum_run_le hgive hpass hmiss symAvail (active.flatMap Prod.snd)
  have hzero : ((active.flatMap Prod.snd).map (dlSymsOf c)).sum = 0 := by
    rw [List.sum_eq_zero_iff]
    intro x hx
    obtain ⟨ue, hue, rfl⟩ := List.mem_map.mp hx
    rw [dlSymsOf, h.flatMap ue hue, Nat.zero_div]
  rwa [hzero, Nat.zero_add] at hsum

theorem DlFresh.grantedSyms_le (h : DlFresh active) (hn : 0 < c.dlAssignable) (symAvail : Nat) :
    dlGrantedSyms c (assignedDlUes c symAvail active) ≤ symAvail :=
  (dlGrantedSyms_le c (assignedDlUes c symAvail active)).trans (h.syms_le hn symAvail)

/-- The DCIs of the TDMA scheduler follow each other from the starting point on. -/
theorem tdma_doScheduleDlData (hn : 0 < c.dlAssignable) (h : DlFresh active)
    (hend : sym + symAvail < 256) (slotAlloc : List VarTtiAllocInfo) :
    ∃ new, DlSpans sym (sym + dlGrantedSyms c (assignedDlUes c symAvail active)) slotAlloc
      (doScheduleDlData (tdmaDl c) ⟨0, sym⟩ symAvail active slotAlloc).varTtiAllocInfo new := by
  have hle := h.grantedSyms_le hn symAvail
  have hlen : (assignedDlUes c symAvail active).length = (active.flatMap Prod.snd).length :=
    Service.length_run _ _
  have hues := flatMap_splitDlBeams (c := c) hlen
  have hsplit : ∀ beam ∈ splitDlBeams c active (assignedDlUes c symAvail active), beam.Split c :=
    split_of_mem_splitDlBeams h.dvd
  obtain ⟨new, hnew⟩ := DlDataState.foldl_tdma_step hn hsplit
    (show (DlDataState.mk ⟨0, sym⟩ slotAlloc 0 0).spoint = ⟨0, sym⟩ from rfl)
    (by rw [hues]; omega)
  rw [hues] at hnew
  exact ⟨new, hnew⟩

end Tdma

/-! ## OFDMA -/

section Ofdma

variable {c : DlOfdmaConf} {sym beamSym : Nat}

/-- The UEs of a beam that get a DCI are all placed at the symbol of the starting point. -/
structure DlBeamDone (sym beamSym : Nat) (ues : List (DlUeInfo × Nat)) (st st' : DlBeamState)
    (new : List VarTtiAllocInfo) : Prop where
  point : st'.spoint.sym = sym
  allocated : st'.varTtiAllocInfo = st.varTtiAllocInfo ++ new
  beside : ∀ a ∈ new, a.dci.symStart = sym ∧ a.dci.numSym = beamSym
  type : ∀ a ∈ new, a.dci.type = .DATA
  none : new = [] ↔ ues.any dlGranted = false
  assigned : st'.assigned = (st.assigned || ues.any dlGranted)

theorem DlBeamState.ofdma_step (hbeam : beamSym < 256) (ue : DlUeInfo × Nat) {st : DlBeamState}
    (hst : st.spoint.sym = sym) :
    ∃ new, DlBeamDone sym beamSym [ue] st (DlBeamState.step (ofdmaDl c) beamSym st ue) new := by
  unfold DlBeamState.step
  by_cases hrbg : ue.1.dlRBG = 0
  · have hnone : dlGranted ue = false := by simp [dlGranted, hrbg]
    rw [if_pos hrbg]
    exact ⟨[], hst, (List.append_nil _).symm, by simp, by simp, by simp [hnone], by simp [hnone]⟩
  · rw [if_neg hrbg]
    simp only [ofdmaDl, ofdmaCreateDlDci, dlStreams]
    by_cases hsmall : ue.1.dlTbSize.all (· < 7) = true
    · have hnone : dlGranted ue = false := by simp [dlGranted, hsmall]
      rw [if_pos hsmall]
      exact ⟨[], hst, (List.append_nil _).symm, by simp, by simp, by simp [hnone], by simp [hnone]⟩
    · have hsome : dlGranted ue = true := by simp [dlGranted, hrbg, hsmall]
      rw [if_neg hsmall]
      refine ⟨[_], hst, rfl, ?_, ?_, by simp [hsome], by simp [hsome, DlBeamState.push]⟩
      · intro a ha
        rw [List.mem_singleton.mp ha]
        exact ⟨hst, Nat.mod_eq_of_lt hbeam⟩
      · intro a ha
        rw [List.mem_singleton.mp ha]
        rfl

theorem DlBeamState.foldl_ofdma_step (hbeam : beamSym < 256) (ues : List (DlUeInfo × Nat))
    {st : DlBeamState} (hst : st.spoint.sym = sym) :
    ∃ new, DlBeamDone sym beamSym ues st
      (ues.foldl (DlBeamState.step (ofdmaDl c) beamSym) st) new := by
  induction ues generalizing st with
  | nil => exact ⟨[], hst, (List.append_nil _).symm, by simp, by simp, by simp, by simp⟩
  | cons ue ues ih =>
    obtain ⟨new, hnew⟩ := DlBeamState.ofdma_step (c := c) hbeam ue hst
    obtain ⟨new', hnew'⟩ := ih hnew.point
    refine ⟨new ++ new', hnew'.point, ?_, ?_, ?_, ?_, ?_⟩
    · rw [List.foldl_cons, hnew'.allocated, hnew.allocated, List.append_assoc]
    · intro a ha
      rcases List.mem_append.mp ha with ha | ha
      · exact hnew.beside a ha
      · exact hnew'.beside a ha
    · intro a ha
      rcases List.mem_append.mp ha with ha | ha
      · exact hnew.type a ha
      · exact hnew'.type a ha
    · rw [List.append_eq_nil_iff, hnew.none, hnew'.none, List.any_cons, List.any_cons, List.any_nil,
        Bool.or_false, Bool.or_eq_false_iff]
    · rw [List.foldl_cons, hnew'.assigned, hnew.assigned, List.any_cons, List.any_cons,
        List.any_nil, Bool.or_false, Bool.or_assoc]

/-- The symbols of a beam are used if one of its UEs gets a DCI. -/
def DlBeam.used (beam : DlBeam) : Nat := if beam.ues.any dlGranted then beam.sym else 0

theorem DlBeam.used_le (beam : DlBeam) : beam.used ≤ beam.sym := by
  unfold DlBeam.used
  split
  · exact le_rfl
  · exact Nat.zero_le _

theorem DlDataState.ofdma_step (beam : DlBeam) {st : DlDataState} (hst : st.spoint.sym = sym)
    (hend : sym + beam.sym < 256) :
    (st.step (ofdmaDl c) beam).spoint.sym = sym + beam.used ∧
      ∃ new, DlSpans sym (sym + beam.used) st.varTtiAllocInfo
        (st.step (ofdmaDl c) beam).varTtiAllocInfo new := by
  obtain ⟨new, hnew⟩ := DlBeamState.foldl_ofdma_step (c := c) (show beam.sym < 256 by omega)
    beam.ues
    (show (DlBeamState.mk st.spoint st.varTtiAllocInfo [] 0 false).spoint.sym = sym from hst)
  unfold DlDataState.step DlBeam.used
  by_cases hzero : beam.sym = 0
  · rw [if_pos hzero, hzero, ite_self, Nat.add_zero]
    exact ⟨hst, [], DlSpans.nil _ _⟩
  · rw [if_neg hzero]
    have hassigned := hnew.assigned
    rw [Bool.false_or] at hassigned
    dsimp only
    rw [hassigned]
    by_cases hany : beam.ues.any dlGranted = true
    · rw [if_pos hany, if_pos hany]
      have hne : new ≠ [] := fun hnil => Bool.false_ne_true ((hnew.none.mp hnil).symm.trans hany)
      refine ⟨?_, new, DlSpans.beside hnew.allocated hne hnew.beside hnew.type⟩
      change ((DlBeamState.spoint _).sym + beam.sym) % 256 = _
      rw [hnew.point, Nat.mod_eq_of_lt hend]
    · rw [if_neg hany, if_neg hany, Nat.add_zero]
      refine ⟨hnew.point, [], ?_⟩
      have halloc := hnew.allocated
      rw [hnew.none.mpr (Bool.eq_false_of_not_eq_true hany), List.append_nil] at halloc
      rw [halloc]
      exact DlSpans.nil _ _

theorem DlDataState.foldl_ofdma_step {beams : List DlBeam} {st : DlDataState}
    (hst : st.spoint.sym = sym) (hend : sym + (beams.map DlBeam.sym).sum < 256) :
    ∃ new, DlSpans sym (sym + (beams.map DlBeam.used).sum) st.varTtiAllocInfo
      (beams.foldl (DlDataState.step (ofdmaDl c)) st).varTtiAllocInfo new := by
  induction beams generalizing st sym with
  | nil => exact ⟨[], DlSpans.nil _ _⟩
  | cons beam beams ih =>
    rw [List.map_cons, List.sum_cons] at hend ⊢
    have hused := beam.used_le
    obtain ⟨hpoint, new, hnew⟩ := DlDataState.ofdma_step (c := c) beam hst (by omega)
    obtain ⟨new', hnew'⟩ := ih hpoint (by omega)
    rw [Nat.add_assoc] at hnew'
    exact ⟨new ++ new', hnew.trans hnew'⟩

theorem map_sym_ofdmaAssignDLRBG {symAvail : Nat} (hsym : symAvail < 256)
    (active : BeamMap DlUeInfo) :
    (ofdmaAssignDLRBG c symAvail active).map DlBeam.sym =
    getSymPerBeam c.minBeam symAvail active := by
  unfold ofdmaAssignDLRBG
  rw [← List.map_uncurry_zip_eq_zipWith, List.map_map]
  exact List.map_snd_zip (length_getSymPerBeam _ _ hsym).le

end Ofdma

/-! ## Both schedulers -/

/-- The downlink of a scheduler in one of its two ways of access. -/
inductive DlAccess
  | tdma (c : DlConf)
  | ofdma (c : DlOfdmaConf)

def DlAccess.scheduler : DlAccess → DlScheduler
  | .tdma c => tdmaDl c
  | .ofdma c => ofdmaDl c

/-- Some RBG may be used. -/
def DlAccess.Usable : DlAccess → Prop
  | .tdma c => 0 < c.dlAssignable
  | .ofdma c => 0 < c.dlMask.count 1

/-- The symbols of the DCIs. -/
def DlAccess.usedSyms (symAvail : Nat) (active : BeamMap DlUeInfo) : DlAccess → Nat
  | .tdma c => dlGrantedSyms c (assignedDlUes c symAvail active)
  | .ofdma c => ((ofdmaAssignDLRBG c symAvail active).map DlBeam.used).sum

/-- The DCIs reach from the starting point over the symbols that are used. -/
theorem DlAccess.spans {access : DlAccess} (husable : access.Usable) {sym symAvail : Nat}
    {active : BeamMap DlUeInfo} (hfresh : DlFresh active) (hend : sym + symAvail ≤ 128)
    (slotAlloc : List VarTtiAllocInfo) :
    ∃ new, DlSpans sym (sym + access.usedSyms symAvail active) slotAlloc
      (doScheduleDlData access.scheduler ⟨0, sym⟩ symAvail active slotAlloc).varTtiAllocInfo
      new := by
  cases access with
  | tdma c => exact tdma_doScheduleDlData husable hfresh (by omega) slotAlloc
  | ofdma c =>
    have hle := sum_getSymPerBeam_le c.minBeam active (show symAvail < 256 by omega)
    have hsyms : sym + ((ofdmaAssignDLRBG c symAvail active).map DlBeam.sym).sum < 256 := by
      rw [map_sym_ofdmaAssignDLRBG (by omega)]
      omega
    exact DlDataState.foldl_ofdma_step
      (show (DlDataState.mk ⟨0, sym⟩ slotAlloc 0 0).spoint.sym = sym from rfl) hsyms

end Ns3.Nr.Sched
