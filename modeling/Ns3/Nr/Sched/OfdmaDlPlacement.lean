import Ns3.Nr.Sched.DlData

/-!
# The placement of the OFDMA scheduler in the downlink

`AssignDLRBG` hands out RBGs in units of all symbols of a beam, `CreateDlDci` looks for so many
usable RBGs in the mask, behind those of the UEs before. The units of a beam are no more than its
usable RBGs, and a UE that gets no DCI leaves its units free. So the search always finds enough
(`DlBeamPlaced`), and the DCIs of a beam are side by side; those of the next beam with a DCI come
behind them (`ofdmaDl_placed`).

`DlBeamState.calls` and `DlDataState.calls` list the calls of `CreateDlDci`, to which the assertions
refer.
-/

namespace Ns3.Nr.Sched

open Lib

/-! ## The calls of CreateDlDci -/

/-- The arguments of a call. -/
structure DlCall where
  spoint : PointInFTPlane
  ue : DlUeInfo
  maxSym : Nat

def DlBeamState.calls (s : DlScheduler) (beamSym : Nat) : DlBeamState → List (DlUeInfo × Nat) →
    List DlCall
  | _, [] => []
  | st, ue :: ues =>
    let rest := calls s beamSym (DlBeamState.step s beamSym st ue) ues
    if ue.1.dlRBG = 0 then rest else ⟨st.spoint, ue.1, beamSym⟩ :: rest

def DlDataState.calls (s : DlScheduler) : DlDataState → List DlBeam → List DlCall
  | _, [] => []
  | st, beam :: beams =>
    let rest := calls s (st.step s beam) beams
    if beam.sym = 0 then rest
    else DlBeamState.calls s beam.sym ⟨st.spoint, st.varTtiAllocInfo, [], 0, false⟩ beam.ues ++ rest

/-- The calls of `CreateDlDci` in `DoScheduleDlData`. -/
def dlCalls (s : DlScheduler) (spoint : PointInFTPlane) (symAvail : Nat)
    (activeDl : BeamMap DlUeInfo) (slotAlloc : List VarTtiAllocInfo) : List DlCall :=
  DlDataState.calls s { spoint := spoint, varTtiAllocInfo := slotAlloc }
    (s.assignDLRBG symAvail activeDl)

/-- The assertions of `CreateDlDci`; the second part comes behind the return without a DCI. -/
structure DlAsserts (c : DlConf) (call : DlCall) : Prop where
  multiple : call.ue.dlRBG % call.maxSym = 0
  room : call.ue.dlRBG ≤ call.maxSym * c.bandwidthInRbg
  rbg : call.spoint.rbg < c.bandwidthInRbg
  maxSym : call.maxSym ≤ 255
  placed : dlStreams call.ue.dlTbSize ≠ none →
    c.dlMask.length = c.bandwidthInRbg ∧
    (placeRbgs call.spoint.rbg 0 (call.ue.dlRBG / call.maxSym) call.spoint.rbg c.dlMask).2.1 = 0 ∧
    (placeRbgs call.spoint.rbg 0 (call.ue.dlRBG / call.maxSym) call.spoint.rbg
      c.dlMask).1.count 0 ≠ c.bandwidthInRbg

/-! ## The mask of a DCI -/

theorem length_placeRbgs (rbg i num lastRbg : Nat) (mask : List Nat) :
    (placeRbgs rbg i num lastRbg mask).1.length = mask.length := by
  induction mask generalizing i num lastRbg with
  | nil => rfl
  | cons b mask ih =>
    rw [placeRbgs]
    split
    · exact congrArg (· + 1) (ih _ _ _)
    · exact congrArg (· + 1) (ih _ _ _)

/-- The RBGs that are set are those that are no longer missing. -/
theorem count_placeRbgs (rbg i num lastRbg : Nat) (mask : List Nat) :
    (placeRbgs rbg i num lastRbg mask).1.count 1 + (placeRbgs rbg i num lastRbg mask).2.1 =
      num := by
  induction mask generalizing i num lastRbg with
  | nil => exact Nat.zero_add num
  | cons b mask ih =>
    rw [placeRbgs]
    split
    · rename_i htake
      have hrest := ih (i + 1) (num - 1) i
      dsimp only
      rw [List.count_cons_self]
      omega
    · have hrest := ih (i + 1) num lastRbg
      dsimp only
      rw [List.count_cons_of_ne (by decide)]
      exact hrest

theorem usableFrom_pos {rbg i : Nat} {mask : List Nat} (h : 0 < usableFrom rbg i mask) :
    rbg < i + mask.length := by
  by_contra hle
  rw [usableFrom_end (not_lt.mp hle)] at h
  exact lt_irrefl 0 h

theorem usableFrom_le_length (rbg i : Nat) (mask : List Nat) :
    usableFrom rbg i mask ≤ mask.length := by
  induction mask generalizing i with
  | nil => exact le_rfl
  | cons b mask ih =>
    have := ih (i + 1)
    rw [usableFrom, List.length_cons]
    split <;> omega

/-! ## One beam -/

/-- The units of a UE in a beam with `b` symbols. -/
def dlUnits (b : Nat) (ue : DlUeInfo × Nat) : Nat := ue.1.dlRBG / b

/-- Allocations side by side: all have the `b` symbols from `sym` on, and usable RBGs from `rbg` on,
of which each has as many as its UE has units. -/
structure DlBeside (mask : List Nat) (b sym rbg : Nat) (ues : List (DlUeInfo × Nat))
    (new : List VarTtiAllocInfo) : Prop where
  sym : ∀ a ∈ new, a.dci.symStart = sym ∧ a.dci.numSym = b
  rows : ∀ a ∈ new, ∀ i ∈ maskRows a.dci.rbgBitmask, rbg ≤ i ∧ i ∈ maskRows mask
  apart : new.Pairwise fun a a' =>
    Disjoint (maskRows a.dci.rbgBitmask) (maskRows a'.dci.rbgBitmask)
  units : ∀ a ∈ new, ∃ ue ∈ ues, a.dci.rnti = ue.1.rnti ∧
    a.dci.rbgBitmask.count 1 = dlUnits b ue

/-- What the UEs of a beam do to the variables of the loop. -/
structure DlBeamPlaced (c : DlConf) (b sym rbg : Nat) (ues : List (DlUeInfo × Nat))
    (st st' : DlBeamState) (calls : List DlCall) (new : List VarTtiAllocInfo) : Prop where
  allocated : st'.varTtiAllocInfo = st.varTtiAllocInfo ++ new
  beside : DlBeside c.dlMask b sym rbg ues new
  asserts : ∀ call ∈ calls, DlAsserts c call
  point : st'.spoint.sym = sym
  none : new = [] → st'.spoint = st.spoint
  assigned : st'.assigned = (st.assigned || !new.isEmpty)

section Beam

variable {c : DlOfdmaConf} {b sym rbg : Nat}

theorem DlBeside.nil (mask : List Nat) (b sym rbg : Nat) (ues : List (DlUeInfo × Nat)) :
    DlBeside mask b sym rbg ues [] :=
  ⟨by simp, by simp, List.Pairwise.nil, by simp⟩

theorem DlBeside.mono {mask : List Nat} {ues ues' : List (DlUeInfo × Nat)}
    {new : List VarTtiAllocInfo} (h : DlBeside mask b sym rbg ues new)
    (hsub : ∀ ue ∈ ues, ue ∈ ues') : DlBeside mask b sym rbg ues' new :=
  ⟨h.sym, h.rows, h.apart, fun a ha => by
    obtain ⟨ue, hue, heq⟩ := h.units a ha
    exact ⟨ue, hsub ue hue, heq⟩⟩

/-- A UE with units finds them, if there are so many usable RBGs left. -/
theorem dlAsserts_of_units (hmask : c.dlMask.length = c.bandwidthInRbg) (hb : 0 < b) (hlt : b < 256)
    {ue : DlUeInfo × Nat} (hdvd : b ∣ ue.1.dlRBG) (hrbg : ue.1.dlRBG ≠ 0)
    (hfit : dlUnits b ue ≤ usableFrom rbg 0 c.dlMask) (sym : Nat) :
    DlAsserts c.toDlConf ⟨⟨rbg, sym⟩, ue.1, b⟩ := by
  have hpos : 0 < dlUnits b ue := Nat.div_pos (Nat.le_of_dvd (Nat.pos_of_ne_zero hrbg) hdvd) hb
  have hroom := usableFrom_pos (hpos.trans_le hfit)
  have hlen := usableFrom_le_length rbg 0 c.dlMask
  refine ⟨Nat.mod_eq_zero_of_dvd hdvd, ?_, show rbg < c.bandwidthInRbg by omega,
    Nat.le_of_lt_succ hlt, fun _ => ?_⟩
  · change ue.1.dlRBG ≤ b * c.bandwidthInRbg
    rw [← Nat.mul_div_cancel' hdvd]
    exact Nat.mul_le_mul_left b (by rw [← hmask]; exact hfit.trans hlen)
  · obtain ⟨m, l, heq, -⟩ := placeRbgs_spec rbg hpos hfit
    have hcount := count_placeRbgs rbg 0 (dlUnits b ue) rbg c.dlMask
    have hsize := length_placeRbgs rbg 0 (dlUnits b ue) rbg c.dlMask
    change _ ∧ (placeRbgs rbg 0 (dlUnits b ue) rbg c.dlMask).2.1 = 0 ∧
      (placeRbgs rbg 0 (dlUnits b ue) rbg c.dlMask).1.count 0 ≠ c.bandwidthInRbg
    rw [heq] at hcount hsize ⊢
    refine ⟨hmask, rfl, fun hall => ?_⟩
    -- a mask of zeros has no RBG
    have hzeros : ∀ x ∈ m, 0 = x :=
      List.count_eq_length.mp (by rw [hall, ← hmask]; exact hsize.symm)
    have hone : m.count 1 = 0 := List.count_eq_zero.mpr fun hmem =>
      absurd (hzeros 1 hmem) (by decide)
    dsimp only at hcount
    omega

/-- What a UE with units does to the variables of the loop. -/
theorem DlBeamState.ofdma_cases (hb : 0 < b) (hlt : b < 256) {ue : DlUeInfo × Nat}
    (hdvd : b ∣ ue.1.dlRBG) (hrbg : ue.1.dlRBG ≠ 0)
    (hfit : dlUnits b ue ≤ usableFrom rbg 0 c.dlMask) {st : DlBeamState}
    (hst : st.spoint = ⟨rbg, sym⟩) :
    DlBeamState.step (ofdmaDl c) b st ue = st ∨
    ∃ (dci : DciInfoElementTdma) (l : Nat),
      DlBeamState.step (ofdmaDl c) b st ue = st.push dci ⟨l + 1, sym⟩ ∧
      dci.rnti = ue.1.rnti ∧ dci.symStart = sym ∧ dci.numSym = b ∧ rbg ≤ l ∧
      (∀ i, i ∈ maskRows dci.rbgBitmask ↔ rbg ≤ i ∧ i ≤ l ∧ i ∈ maskRows c.dlMask) ∧
      dci.rbgBitmask.count 1 = dlUnits b ue ∧
      usableFrom (l + 1) 0 c.dlMask + dlUnits b ue = usableFrom rbg 0 c.dlMask := by
  have hpos : 0 < dlUnits b ue := Nat.div_pos (Nat.le_of_dvd (Nat.pos_of_ne_zero hrbg) hdvd) hb
  obtain ⟨m, l, heq, hle, -, -, -, hrows, hrest⟩ := placeRbgs_spec rbg hpos hfit
  have hcount := count_placeRbgs rbg 0 (dlUnits b ue) rbg c.dlMask
  rw [heq] at hcount
  unfold DlBeamState.step
  rw [if_neg hrbg]
  simp only [ofdmaDl, ofdmaCreateDlDci, hst]
  cases dlStreams ue.1.dlTbSize with
  | none =>
    left
    rw [← hst]
  | some streams =>
    right
    have hplace : placeRbgs rbg 0 (ue.1.dlRBG / b) rbg c.dlMask = (m, 0, l) := heq
    simp only [hplace]
    refine ⟨_, l, rfl, rfl, rfl, Nat.mod_eq_of_lt hlt, hle, fun i => ?_, hcount, hrest⟩
    change m[i]? = some 1 ↔ _
    rw [hrows i, Nat.zero_add]
    rfl

/-- A DCI on the RBGs up to `l`, then the others behind it. -/
theorem DlBeside.cons {mask : List Nat} {l : Nat} {ue : DlUeInfo × Nat}
    {ues : List (DlUeInfo × Nat)} {new : List VarTtiAllocInfo} {dci : DciInfoElementTdma}
    (h : DlBeside mask b sym (l + 1) ues new) (hrnti : dci.rnti = ue.1.rnti)
    (hsym : dci.symStart = sym) (hnum : dci.numSym = b) (hle : rbg ≤ l)
    (hrows : ∀ i, i ∈ maskRows dci.rbgBitmask ↔ rbg ≤ i ∧ i ≤ l ∧ i ∈ maskRows mask)
    (hunits : dci.rbgBitmask.count 1 = dlUnits b ue) :
    DlBeside mask b sym rbg (ue :: ues) ({ dci := dci } :: new) where
  sym a ha := by
    rcases List.mem_cons.mp ha with rfl | ha
    · exact ⟨hsym, hnum⟩
    · exact h.sym a ha
  rows a ha i hi := by
    rcases List.mem_cons.mp ha with rfl | ha
    · obtain ⟨h1, -, h3⟩ := (hrows i).mp hi
      exact ⟨h1, h3⟩
    · obtain ⟨h1, h2⟩ := h.rows a ha i hi
      exact ⟨by omega, h2⟩
  apart := by
    refine List.pairwise_cons.mpr ⟨fun a ha => ?_, h.apart⟩
    rw [Set.disjoint_left]
    intro i hi hi'
    have h1 := ((hrows i).mp hi).2.1
    have h2 := (h.rows a ha i hi').1
    omega
  units a ha := by
    rcases List.mem_cons.mp ha with rfl | ha
    · exact ⟨ue, List.mem_cons_self, hrnti, hunits⟩
    · obtain ⟨ue', hue', heq⟩ := h.units a ha
      exact ⟨ue', List.mem_cons_of_mem _ hue', heq⟩

/-- The DCIs of a beam are placed side by side, and no assertion fails. -/
theorem DlBeamState.foldl_ofdma_placed (hmask : c.dlMask.length = c.bandwidthInRbg) (hb : 0 < b)
    (hlt : b < 256) {ues : List (DlUeInfo × Nat)} (hues : ∀ ue ∈ ues, b ∣ ue.1.dlRBG)
    {st : DlBeamState} (hst : st.spoint = ⟨rbg, sym⟩)
    (hfit : (ues.map (dlUnits b)).sum ≤ usableFrom rbg 0 c.dlMask) :
    ∃ new, DlBeamPlaced c.toDlConf b sym rbg ues st
      (ues.foldl (DlBeamState.step (ofdmaDl c) b) st) (DlBeamState.calls (ofdmaDl c) b st ues)
      new := by
  induction ues generalizing st rbg with
  | nil =>
    exact ⟨[], (List.append_nil _).symm, DlBeside.nil _ _ _ _ _, by simp [DlBeamState.calls],
      congrArg PointInFTPlane.sym hst, fun _ => rfl, by simp⟩
  | cons ue ues ih =>
    have hue := hues ue List.mem_cons_self
    have hues' : ∀ u ∈ ues, b ∣ u.1.dlRBG := fun u hu => hues u (List.mem_cons_of_mem _ hu)
    rw [List.map_cons, List.sum_cons] at hfit
    rw [List.foldl_cons, DlBeamState.calls]
    by_cases hrbg : ue.1.dlRBG = 0
    · have hstep : DlBeamState.step (ofdmaDl c) b st ue = st := if_pos hrbg
      rw [if_pos hrbg, hstep]
      obtain ⟨new, h⟩ := ih hues' hst (by omega)
      exact ⟨new, h.allocated, h.beside.mono fun u hu => List.mem_cons_of_mem _ hu, h.asserts,
        h.point, h.none, h.assigned⟩
    · have hunits : dlUnits b ue ≤ usableFrom rbg 0 c.dlMask := by omega
      have hassert : DlAsserts c.toDlConf ⟨st.spoint, ue.1, b⟩ := by
        rw [hst]
        exact dlAsserts_of_units hmask hb hlt hue hrbg hunits sym
      rw [if_neg hrbg]
      rcases DlBeamState.ofdma_cases hb hlt hue hrbg hunits hst with
        hstep | ⟨dci, l, hstep, hrnti, hsym, hnum, hle, hrows, hcount, hrest⟩
      · -- the units of a UE without DCI stay free
        rw [hstep]
        obtain ⟨new, h⟩ := ih hues' hst (by omega)
        exact ⟨new, h.allocated, h.beside.mono fun u hu => List.mem_cons_of_mem _ hu,
          List.forall_mem_cons.mpr ⟨hassert, h.asserts⟩, h.point, h.none, h.assigned⟩
      · rw [hstep]
        have hpoint : (st.push dci ⟨l + 1, sym⟩).spoint = ⟨l + 1, sym⟩ := rfl
        obtain ⟨new, h⟩ := ih hues' hpoint (by omega)
        refine ⟨{ dci := dci } :: new, ?_, h.beside.cons hrnti hsym hnum hle hrows hcount,
          List.forall_mem_cons.mpr ⟨hassert, h.asserts⟩, h.point, fun hnil =>
          absurd hnil (List.cons_ne_nil _ _), ?_⟩
        · rw [h.allocated]
          exact List.append_assoc _ _ _
        · rw [h.assigned]
          simp [DlBeamState.push]

end Beam

/-! ## All beams -/

/-- A beam as the assignment leaves it. -/
structure DlBeam.Assigned (c : DlConf) (beam : DlBeam) : Prop where
  multiple : ∀ ue ∈ beam.ues, beam.sym ∣ ue.1.dlRBG
  fit : 0 < beam.sym → (beam.ues.map (dlUnits beam.sym)).sum ≤ c.dlMask.count 1

/-- What `DoScheduleDlData` does from the symbol `sym` to the symbol `hi`: no assertion fails, the
DCIs are apart and use usable RBGs, and each has the RBGs of its UE in each of its symbols. -/
structure DlDataPlaced (c : DlConf) (sym hi : Nat) (beams : List DlBeam) (calls : List DlCall)
    (new : List VarTtiAllocInfo) : Prop where
  asserts : ∀ call ∈ calls, DlAsserts c call
  packed : Packed sym hi (new.map allocBlock)
  usable : ∀ a ∈ new, maskRows a.dci.rbgBitmask ⊆ maskRows c.dlMask
  units : ∀ a ∈ new, ∃ beam ∈ beams, ∃ ue ∈ beam.ues, a.dci.rnti = ue.1.rnti ∧
    a.dci.numSym = beam.sym ∧ a.dci.rbgBitmask.count 1 = ue.1.dlRBG / a.dci.numSym

section Beams

variable {c : DlOfdmaConf} {sym : Nat}

theorem DlDataPlaced.nil (c : DlConf) (sym : Nat) (beams : List DlBeam) :
    DlDataPlaced c sym sym beams [] [] :=
  ⟨by simp, Packed.nil, by simp, by simp⟩

theorem DlBeside.packed {mask : List Nat} {b rbg : Nat} {ues : List (DlUeInfo × Nat)}
    {new : List VarTtiAllocInfo} (h : DlBeside mask b sym rbg ues new) :
    Packed sym (sym + b) (new.map allocBlock) := by
  refine ⟨List.pairwise_map.mpr (h.apart.imp fun hd => Block.disjoint_of_rows hd), ?_⟩
  intro block hblock
  obtain ⟨a, ha, rfl⟩ := List.mem_map.mp hblock
  obtain ⟨hs, hn⟩ := h.sym a ha
  change sym ≤ a.dci.symStart ∧ a.dci.symStart + a.dci.numSym ≤ sym + b
  omega

/-- One beam; the starting point stays where it is, or moves behind the symbols of the beam. -/
theorem DlDataState.ofdma_placed (hmask : c.dlMask.length = c.bandwidthInRbg) {beam : DlBeam}
    (hbeam : beam.Assigned c.toDlConf) (st : DlDataState) (hst : st.spoint = ⟨0, sym⟩)
    (hlt : sym + beam.sym < 256) :
    ∃ new hi, (st.step (ofdmaDl c) beam).varTtiAllocInfo = st.varTtiAllocInfo ++ new ∧
      (st.step (ofdmaDl c) beam).spoint = ⟨0, hi⟩ ∧ sym ≤ hi ∧ hi ≤ sym + beam.sym ∧
      DlDataPlaced c.toDlConf sym hi [beam]
        (if beam.sym = 0 then []
          else DlBeamState.calls (ofdmaDl c) beam.sym ⟨st.spoint, st.varTtiAllocInfo, [], 0, false⟩
            beam.ues) new := by
  unfold DlDataState.step
  by_cases hzero : beam.sym = 0
  · rw [if_pos hzero, if_pos hzero]
    exact ⟨[], sym, (List.append_nil _).symm, hst, le_rfl, Nat.le_add_right _ _,
      DlDataPlaced.nil _ _ _⟩
  · have hpos := Nat.pos_of_ne_zero hzero
    have hfit := hbeam.fit hpos
    rw [← usableFrom_zero 0] at hfit
    obtain ⟨new, h⟩ := DlBeamState.foldl_ofdma_placed hmask hpos (by omega) hbeam.multiple
      (show (DlBeamState.mk st.spoint st.varTtiAllocInfo [] 0 false).spoint = ⟨0, sym⟩ from hst)
      hfit
    rw [if_neg hzero, if_neg hzero]
    have hassigned := h.assigned
    rw [Bool.false_or] at hassigned
    have hplaced :
        DlDataPlaced c.toDlConf sym (sym + beam.sym) [beam] (DlBeamState.calls (ofdmaDl c)
        beam.sym ⟨st.spoint, st.varTtiAllocInfo, [], 0, false⟩ beam.ues) new := by
      refine ⟨h.asserts, h.beside.packed, fun a ha i hi => (h.beside.rows a ha i hi).2, ?_⟩
      intro a ha
      obtain ⟨ue, hue, hrnti, hcount⟩ := h.beside.units a ha
      have hnum := (h.beside.sym a ha).2
      exact ⟨beam, List.mem_singleton.mpr rfl, ue, hue, hrnti, hnum, by rw [hnum]; exact hcount⟩
    dsimp only
    cases hnew : new with
    | nil =>
      -- no UE has got a DCI
      rw [hassigned, hnew]
      refine ⟨[], sym, ?_, ?_, le_rfl, Nat.le_add_right _ _, h.asserts,
        Packed.nil, by simp, by simp⟩
      · exact h.allocated.trans (by rw [hnew])
      · exact (h.none hnew).trans hst
    | cons a rest =>
      rw [hassigned, hnew]
      refine ⟨a :: rest, sym + beam.sym, ?_, ?_, Nat.le_add_right _ _, le_rfl, hnew ▸ hplaced⟩
      · exact h.allocated.trans (by rw [hnew])
      · change (⟨0, ((DlBeamState.spoint _).sym + beam.sym) % 256⟩ : PointInFTPlane) = _
        rw [h.point, Nat.mod_eq_of_lt hlt]

theorem DlDataPlaced.cons {mid hi : Nat} {beam : DlBeam} {beams : List DlBeam}
    {calls calls' : List DlCall} {new new' : List VarTtiAllocInfo}
    (h : DlDataPlaced c.toDlConf sym mid [beam] calls new)
    (h' : DlDataPlaced c.toDlConf mid hi beams calls' new') (hlo : sym ≤ mid) (hhi : mid ≤ hi) :
    DlDataPlaced c.toDlConf sym hi (beam :: beams) (calls ++ calls') (new ++ new') where
  asserts call hcall := by
    rcases List.mem_append.mp hcall with hcall | hcall
    · exact h.asserts call hcall
    · exact h'.asserts call hcall
  packed := by
    rw [List.map_append]
    exact h.packed.append h'.packed hlo hhi
  usable a ha := by
    rcases List.mem_append.mp ha with ha | ha
    · exact h.usable a ha
    · exact h'.usable a ha
  units a ha := by
    rcases List.mem_append.mp ha with ha | ha
    · obtain ⟨b, hb, hrest⟩ := h.units a ha
      exact ⟨b, List.mem_singleton.mp hb ▸ List.mem_cons_self, hrest⟩
    · obtain ⟨b, hb, hrest⟩ := h'.units a ha
      exact ⟨b, List.mem_cons_of_mem _ hb, hrest⟩

theorem DlDataState.foldl_ofdma_placed (hmask : c.dlMask.length = c.bandwidthInRbg)
    {beams : List DlBeam} (hbeams : ∀ beam ∈ beams, beam.Assigned c.toDlConf) {st : DlDataState}
    (hst : st.spoint = ⟨0, sym⟩) (hlt : sym + (beams.map DlBeam.sym).sum < 256) :
    ∃ new hi, (beams.foldl (DlDataState.step (ofdmaDl c)) st).varTtiAllocInfo =
        st.varTtiAllocInfo ++ new ∧ sym ≤ hi ∧ hi ≤ sym + (beams.map DlBeam.sym).sum ∧
      DlDataPlaced c.toDlConf sym hi beams (DlDataState.calls (ofdmaDl c) st beams) new := by
  induction beams generalizing st sym with
  | nil => exact ⟨[], sym, (List.append_nil _).symm, le_rfl, le_rfl, DlDataPlaced.nil _ _ _⟩
  | cons beam beams ih =>
    rw [List.map_cons, List.sum_cons] at hlt ⊢
    obtain ⟨new, mid, halloc, hpoint, hlo, hmid, hplaced⟩ := DlDataState.ofdma_placed hmask
      (hbeams beam List.mem_cons_self) st hst (by omega)
    obtain ⟨new', hi, halloc', hlo', hhi, hplaced'⟩ :=
      ih (fun b hb => hbeams b (List.mem_cons_of_mem _ hb)) hpoint (by omega)
    have hcalls : DlDataState.calls (ofdmaDl c) st (beam :: beams) =
        (if beam.sym = 0 then []
          else DlBeamState.calls (ofdmaDl c) beam.sym ⟨st.spoint, st.varTtiAllocInfo, [], 0, false⟩
            beam.ues) ++ DlDataState.calls (ofdmaDl c) (st.step (ofdmaDl c) beam) beams := by
      rw [DlDataState.calls]
      split <;> rfl
    refine ⟨new ++ new', hi, ?_, by omega, by omega, ?_⟩
    · rw [List.foldl_cons, halloc', halloc, List.append_assoc]
    · rw [hcalls]
      exact hplaced.cons hplaced' hlo hlo'

/-! ## The assignment -/

variable {symAvail : Nat} {active : BeamMap DlUeInfo}

theorem dlRbgService_run (c : DlOfdmaConf) {b : Nat} (hb : 0 < b) (n : Nat)
    {ues : List (DlUeInfo × Nat)} (hfresh : ∀ ue ∈ ues, ue.1.dlRBG = 0) :
    (((dlRbgService c b).run n ues).map (dlUnits b)).sum ≤ n := by
  have hgive : ∀ ue, dlUnits b ((dlRbgService c b).give ue) = dlUnits b ue + 1 :=
    fun ue => Nat.add_div_right _ hb
  have hpass : ∀ ue, dlUnits b ((dlRbgService c b).pass ue) = dlUnits b ue :=
    fun ue => congrArg (· / b) (passDl_dlRBG ue)
  have hmiss : ∀ ue, dlUnits b ((dlRbgService c b).miss ue) = dlUnits b ue :=
    fun ue => congrArg (· / b) (notAssignedDlResources_dlRBG c.toDlConf ue)
  have hzero : (ues.map (dlUnits b)).sum = 0 := by
    rw [List.sum_eq_zero_iff]
    intro x hx
    obtain ⟨ue, hue, rfl⟩ := List.mem_map.mp hx
    rw [dlUnits, hfresh ue hue, Nat.zero_div]
  have hsum := Service.sum_run_le hgive hpass hmiss n ues
  rwa [hzero, Nat.zero_add] at hsum

theorem dlRbgService_multiple (c : DlOfdmaConf) (b n : Nat) {ues : List (DlUeInfo × Nat)}
    (hfresh : ∀ ue ∈ ues, ue.1.dlRBG = 0) : ∀ ue ∈ (dlRbgService c b).run n ues,
    b ∣ ue.1.dlRBG := by
  refine Service.run_forall (fun ue hue => Nat.dvd_add hue dvd_rfl) (fun ue hue => ?_)
    (fun ue hue => ?_) n fun ue hue => ?_
  · exact (passDl_dlRBG ue).symm ▸ hue
  · exact (notAssignedDlResources_dlRBG c.toDlConf ue).symm ▸ hue
  · rw [hfresh ue hue]
    exact dvd_zero b

theorem passDl_rnti (ue : DlUeInfo × Nat) : (passDl ue).1.rnti = ue.1.rnti := by
  unfold passDl
  split <;> rfl

theorem notAssignedDlResources_rnti (c : DlConf) (ue : DlUeInfo × Nat) :
    (c.notAssignedDlResources ue).1.rnti = ue.1.rnti := by
  unfold DlConf.notAssignedDlResources
  split <;> rfl

/-- The UEs of a beam in their order are those of the sorted vector. -/
theorem ofdmaUes_perm (c : DlOfdmaConf) (b n : Nat) {ues : List (DlUeInfo × Nat)}
    (hnodup : (ues.map fun ue => ue.1.rnti).Nodup) :
    (ues.map fun ue => (((dlRbgService c b).run n ues).find? fun u => u.1.rnti = ue.1.rnti).getD
      ue).Perm ((dlRbgService c b).run n ues) :=
  map_find_perm hnodup (Service.map_run_perm (fun _ => rfl) passDl_rnti
    (notAssignedDlResources_rnti c.toDlConf) n ues)

theorem assigned_of_mem_ofdmaAssignDLRBG (hfresh : DlFresh active)
    (hnodup : ∀ el ∈ active, (el.2.map fun ue => ue.1.rnti).Nodup) :
    ∀ beam ∈ ofdmaAssignDLRBG c symAvail active, beam.Assigned c.toDlConf := by
  intro beam hbeam
  unfold ofdmaAssignDLRBG at hbeam
  rw [← List.map_uncurry_zip_eq_zipWith] at hbeam
  obtain ⟨⟨el, b⟩, hel, rfl⟩ := List.mem_map.mp hbeam
  have hmem := (List.of_mem_zip hel).1
  have hperm := ofdmaUes_perm c b (c.dlMask.count 1) (hnodup el hmem)
  constructor
  · intro ue hue
    exact dlRbgService_multiple c b _ (hfresh el hmem) ue (hperm.mem_iff.mp hue)
  · intro hb
    exact ((hperm.map (dlUnits b)).sum_eq).trans_le (dlRbgService_run c hb _ (hfresh el hmem))

/-- The placement of the OFDMA scheduler in the downlink; the symbols of a slot are counted in a
`uint8_t`. -/
theorem ofdmaDl_placed (c : DlOfdmaConf) (hmask : c.dlMask.length = c.bandwidthInRbg)
    (hfresh : DlFresh active) (hnodup : ∀ el ∈ active, (el.2.map fun ue => ue.1.rnti).Nodup)
    (hslot : sym + symAvail < 256) (slotAlloc : List VarTtiAllocInfo) :
    ∃ new, (doScheduleDlData (ofdmaDl c) ⟨0, sym⟩ symAvail active slotAlloc).varTtiAllocInfo =
        slotAlloc ++ new ∧
      DlDataPlaced c.toDlConf sym (sym + symAvail) (ofdmaAssignDLRBG c symAvail active)
        (dlCalls (ofdmaDl c) ⟨0, sym⟩ symAvail active slotAlloc) new := by
  have hsum : ((ofdmaAssignDLRBG c symAvail active).map DlBeam.sym).sum ≤ symAvail := by
    rw [map_sym_ofdmaAssignDLRBG (by omega)]
    exact sum_getSymPerBeam_le _ _ (by omega)
  have hassigned : ∀ beam ∈ ofdmaAssignDLRBG c symAvail active, beam.Assigned c.toDlConf :=
    assigned_of_mem_ofdmaAssignDLRBG hfresh hnodup
  obtain ⟨new, hi, halloc, -, hhi, hplaced⟩ := DlDataState.foldl_ofdma_placed hmask hassigned
    (show (DlDataState.mk ⟨0, sym⟩ slotAlloc 0 0).spoint = ⟨0, sym⟩ from rfl) (by omega)
  exact ⟨new, halloc, hplaced.asserts, hplaced.packed.mono (by omega), hplaced.usable,
    hplaced.units⟩

end Beams

/-- Three RBGs, of which the middle one is notched. -/
def notchedDl : DlOfdmaConf where
  bandwidthInRbg := 3
  numRbPerRbg := 1
  dlNotchedRbgMask := [1, 0, 1]
  dlTbs := fun _ rbs => 4 * rbs
  minBeam := .first
  sortUes _ ues := ues.reverse
  sortUes_perm _ ues := ues.reverse_perm

/-- Two beams, the first of them with two UEs. -/
def threeUes : BeamMap DlUeInfo :=
  [(0, [({ rnti := 1 }, 8), ({ rnti := 2 }, 8)]), (1, [({ rnti := 3 }, 8)])]

theorem ofdmaDl_placed_threeUes :
    ∃ new, (doScheduleDlData (ofdmaDl notchedDl) ⟨0, 1⟩ 4 threeUes []).varTtiAllocInfo = [] ++ new ∧
      DlDataPlaced notchedDl.toDlConf 1 (1 + 4) (ofdmaAssignDLRBG notchedDl 4 threeUes)
        (dlCalls (ofdmaDl notchedDl) ⟨0, 1⟩ 4 threeUes []) new :=
  ofdmaDl_placed notchedDl (by decide) (by unfold DlFresh; decide) (by decide) (by decide) []

end Ns3.Nr.Sched
