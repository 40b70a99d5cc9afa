import Ns3.Nr.Sched.UlData

/-!
# The TDMA scheduler in the uplink

`NrMacSchedulerTdma` hands out whole symbols, one by one, to the first UE that needs more,
whatever its beam. A DCI covers all usable RBGs of its symbols, and the starting point
moves behind it, so the DCIs follow each other (`tdma_doScheduleUlData`).
-/

namespace Ns3.Nr.Sched

open Lib

/-! ## Embedding -/

/-- `numOfAssignableRbgs`. -/
def SchedConf.ulAssignable (c : SchedConf) : Nat := c.bandwidthInRbg - c.ulNotchedRbgMask.count 0

/-- One symbol with all its RBGs for a UE. -/
def UeInfo.giveSym (c : SchedConf) (ue : UeInfo) : UeInfo :=
  UeInfo.updateUlMetric c
    { ue with ulRBG := ue.ulRBG + c.ulAssignable, ulSym := (ue.ulSym + 1) % 256 }

/-- The loop of `AssignRBGTDMA` in the uplink. -/
def symService (c : SchedConf) : Service (UeInfo × Nat) where
  unmet := unmetUl
  give ue := (ue.1.giveSym c, ue.2)
  pass := id
  miss := c.notAssignedUlResources
  arrange _ ues := ues
  arrange_perm _ _ := List.Perm.refl _

/-- The symbols of a UE. -/
def symsOf (c : SchedConf) (ue : UeInfo × Nat) : Nat := ue.1.ulRBG / c.ulAssignable

/-- The UEs of the vector back in their beams, with the symbols of each beam. -/
def splitBeams (c : SchedConf) : ActiveUeMap → List (UeInfo × Nat) → List AssignedBeam
  | [], _ => []
  | el :: active, ues =>
    ⟨el.1, ((ues.take el.2.length).map (symsOf c)).sum, ues.take el.2.length⟩ ::
      splitBeams c active (ues.drop el.2.length)

/-- `AssignULRBG`. -/
def tdmaAssignULRBG (c : SchedConf) (symAvail : Nat) (activeUl : ActiveUeMap) : List AssignedBeam :=
  splitBeams c activeUl ((symService c).run symAvail (activeUl.flatMap Prod.snd))

/-- `CreateUlDci` (and `CreateUlCGConfig`, which is the same). -/
def tdmaCreateUlDci (c : SchedConf) (spoint : PointInFTPlane) (ue : UeInfo) (maxSym : Nat) :
    Option DciInfoElementTdma × PointInFTPlane :=
  let tbs := c.ulTbs ue.ulMcs (ue.ulRBG * c.numRbPerRbg)
  if tbs < 7 then (none, spoint)
  else
    let numSym := min (max (ue.ulRBG / c.ulAssignable) 1 % 256) (maxSym % 256)
    let dci : DciInfoElementTdma :=
      { rnti := ue.rnti
        format := .UL
        symStart := spoint.sym
        numSym := numSym
        mcs := [ue.ulMcs]
        tbSize := [tbs]
        ndi := [1]
        rv := [0]
        type := .DATA
        bwpIndex := c.bwpId
        rbgBitmask := c.ulMask
        tpc := 1 }
    (some dci, ⟨0, (spoint.sym + numSym) % 256⟩)

def tdmaUl (c : SchedConf) : UlScheduler where
  assignULRBG := tdmaAssignULRBG c
  createUlDci := tdmaCreateUlDci c
  changeUlBeam spoint _ := spoint
  getScheduler := 1

/-! ## One UE -/

/-- A UE gets a DCI if its transport block has room for the headers and some data. -/
def Granted (c : SchedConf) (ue : UeInfo × Nat) : Prop :=
  ue.1.ulRBG ≠ 0 ∧ 7 ≤ c.ulTbs ue.1.ulMcs (ue.1.ulRBG * c.numRbPerRbg)

section Assign

variable {c : SchedConf}

theorem symsOf_giveSym (hn : 0 < c.ulAssignable) (ue : UeInfo × Nat) :
    symsOf c (ue.1.giveSym c, ue.2) = symsOf c ue + 1 :=
  Nat.add_div_right _ hn

theorem symsOf_notAssigned (ue : UeInfo × Nat) :
    symsOf c (c.notAssignedUlResources ue) = symsOf c ue :=
  congrArg (· / c.ulAssignable) (notAssignedUlResources_ulRBG c ue)

theorem symsOf_pos (hn : 0 < c.ulAssignable) {ue : UeInfo × Nat}
    (hdvd : c.ulAssignable ∣ ue.1.ulRBG) (hrbg : ue.1.ulRBG ≠ 0) : 0 < symsOf c ue :=
  Nat.div_pos (Nat.le_of_dvd (Nat.pos_of_ne_zero hrbg) hdvd) hn

/-- What a UE does to the variables of the loop. -/
theorem UlBeamState.tdma_step (hn : 0 < c.ulAssignable) {ue : UeInfo × Nat}
    (hdvd : c.ulAssignable ∣ ue.1.ulRBG) {st : UlBeamState} {sym beamSym : Nat}
    (hst : st.spoint = ⟨0, sym⟩) (hfit : symsOf c ue ≤ beamSym) (hbeam : beamSym < 256)
    (hend : sym + symsOf c ue < 256) :
    (¬ Granted c ue ∧ UlBeamState.step c (tdmaUl c) beamSym st ue = st) ∨
    Granted c ue ∧ ∃ dci : DciInfoElementTdma, dci.symStart = sym ∧ dci.numSym = symsOf c ue ∧
      dci.format = .UL ∧ dci.type = .DATA ∧
      UlBeamState.step c (tdmaUl c) beamSym st ue = st.push dci ⟨0, sym + symsOf c ue⟩ := by
  unfold UlBeamState.step
  by_cases hrbg : ue.1.ulRBG = 0
  · rw [if_pos hrbg]
    exact Or.inl ⟨fun h => h.1 hrbg, rfl⟩
  · rw [if_neg hrbg]
    have hpos := symsOf_pos hn hdvd hrbg
    have hnum : min (max (ue.1.ulRBG / c.ulAssignable) 1 % 256) (beamSym % 256) = symsOf c ue := by
      rw [← symsOf.eq_1 c ue]
      omega
    simp only [tdmaUl, tdmaCreateUlDci, hst, ne_eq, not_true, false_and, if_false]
    by_cases htbs : c.ulTbs ue.1.ulMcs (ue.1.ulRBG * c.numRbPerRbg) < 7
    · rw [if_pos htbs]
      refine Or.inl ⟨fun h => absurd h.2 (not_le.mpr htbs), ?_⟩
      rw [← hst]
    · rw [if_neg htbs]
      simp only [hnum, Nat.mod_eq_of_lt hend]
      refine Or.inr ⟨⟨hrbg, not_lt.mp htbs⟩, _, ?_, ?_, ?_, ?_, rfl⟩ <;> rfl

end Assign

/-! ## One beam -/

/-- What the UEs of a beam do from the symbol `sym` on. -/
structure TdmaDone (sym : Nat) (st st' : UlBeamState) (allocs : List VarTtiAllocInfo) : Prop where
  allocated : st'.varTtiAllocInfo = allocs ++ st.varTtiAllocInfo
  rbg : st'.spoint.rbg = 0
  stacked : Stacked sym st'.spoint.sym (allocs.map allocBlock)
  counted : st'.allocSym + sym = st.allocSym + st'.spoint.sym
  starts : ∀ s ∈ st'.symbStartDci, s < st'.spoint.sym
  assigned : st'.assigned = (st.assigned || !allocs.isEmpty)
  type : ∀ a ∈ allocs, a.dci.format = .UL ∧ a.dci.type = .DATA

theorem TdmaDone.push {sym num : Nat} {st st' : UlBeamState} {allocs : List VarTtiAllocInfo}
    {dci : DciInfoElementTdma} (h : TdmaDone (sym + num) (st.push dci ⟨0, sym + num⟩) st' allocs)
    (hstarts : ∀ s ∈ st.symbStartDci, s < sym) (hsym : dci.symStart = sym)
    (hnum : dci.numSym = num) (hpos : 0 < num) (htype : dci.format = .UL ∧ dci.type = .DATA) :
    TdmaDone sym st st' (allocs ++ [{ dci := dci }]) where
  allocated := by
    rw [h.allocated, List.append_assoc]
    rfl
  rbg := h.rbg
  stacked := by
    have hone : Stacked sym (sym + num) [allocBlock { dci := dci }] := by
      have hlen : (allocBlock { dci := dci }).len = num := hnum
      have := Stacked.nil.cons (b := allocBlock { dci := dci }) hsym (hlen ▸ hpos)
      rwa [hlen] at this
    rw [List.map_append]
    exact hone.append h.stacked
  counted := by
    have hnew : ¬ st.symbStartDci.contains dci.symStart = true := by
      rw [List.contains_iff_mem, hsym]
      exact fun hmem => lt_irrefl _ (hstarts sym hmem)
    have hcounted := h.counted
    rw [UlBeamState.push] at hcounted
    simp only [if_neg hnew, hnum] at hcounted
    omega
  starts := h.starts
  assigned := by
    rw [h.assigned]
    simp [UlBeamState.push]
  type a ha := by
    rcases List.mem_append.mp ha with ha | ha
    · exact h.type a ha
    · rw [List.mem_singleton.mp ha]
      exact htype

section Beam

variable {c : SchedConf}

theorem UlBeamState.foldl_tdma_step (hn : 0 < c.ulAssignable) {beamSym : Nat}
    (hbeam : beamSym < 256) {ues : List (UeInfo × Nat)}
    (hues : ∀ ue ∈ ues, c.ulAssignable ∣ ue.1.ulRBG) {st : UlBeamState} {sym : Nat}
    (hst : st.spoint = ⟨0, sym⟩) (hstarts : ∀ s ∈ st.symbStartDci, s < sym)
    (hfit : (ues.map (symsOf c)).sum ≤ beamSym) (hend : sym + (ues.map (symsOf c)).sum < 256) :
    ∃ allocs, TdmaDone sym st (ues.foldl (UlBeamState.step c (tdmaUl c) beamSym) st) allocs ∧
      (ues.foldl (UlBeamState.step c (tdmaUl c) beamSym) st).spoint.sym ≤
        sym + (ues.map (symsOf c)).sum ∧
      (allocs = [] ↔ ∀ ue ∈ ues, ¬ Granted c ue) := by
  induction ues generalizing st sym with
  | nil =>
    refine ⟨[], ⟨rfl, by rw [List.foldl_nil, hst], ?_, ?_, ?_, by simp, by simp⟩, ?_, by simp⟩
    · rw [List.foldl_nil, hst]
      exact Stacked.nil
    · rw [List.foldl_nil, hst]
    · rw [List.foldl_nil, hst]
      exact hstarts
    · rw [List.foldl_nil, hst]
      exact le_rfl
  | cons ue ues ih =>
    have hues' : ∀ u ∈ ues, c.ulAssignable ∣ u.1.ulRBG := fun u hu =>
      hues u (List.mem_cons_of_mem _ hu)
    rw [List.map_cons, List.sum_cons] at hfit hend ⊢
    rw [List.foldl_cons]
    rcases UlBeamState.tdma_step hn (hues ue List.mem_cons_self) hst
      (show symsOf c ue ≤ beamSym by omega) hbeam (by omega) with
      ⟨hnot, hstep⟩ | ⟨hgranted, dci, hsym, hnum, hformat, htype, hstep⟩
    · rw [hstep]
      obtain ⟨allocs, hdone, hle, hempty⟩ := ih hues' hst hstarts (by omega) (by omega)
      refine ⟨allocs, hdone, by omega, ?_⟩
      rw [hempty, List.forall_mem_cons, and_iff_right hnot]
    · rw [hstep]
      have hpos := symsOf_pos hn (hues ue List.mem_cons_self) hgranted.1
      have hstarts' : ∀ s ∈ (st.push dci ⟨0, sym + symsOf c ue⟩).symbStartDci,
          s < sym + symsOf c ue := by
        intro s hs
        rcases List.mem_cons.mp hs with rfl | hs
        · omega
        · have := hstarts s hs
          omega
      have hst' : (st.push dci ⟨0, sym + symsOf c ue⟩).spoint = ⟨0, sym + symsOf c ue⟩ := rfl
      obtain ⟨allocs, hdone, hle, -⟩ := ih hues' hst' hstarts' (by omega) (by omega)
      refine ⟨_, hdone.push hstarts hsym hnum hpos ⟨hformat, htype⟩, by omega, ?_⟩
      constructor
      · intro h
        exact absurd h (List.append_ne_nil_of_right_ne_nil _ (by simp))
      · intro h
        exact absurd hgranted (h ue List.mem_cons_self)

/-! ## All beams -/

/-- The symbols of a beam are those of its UEs. -/
def AssignedBeam.Split (c : SchedConf) (beam : AssignedBeam) : Prop :=
  beam.sym = (beam.ues.map (symsOf c)).sum ∧ ∀ ue ∈ beam.ues, c.ulAssignable ∣ ue.1.ulRBG

/-- What `DoScheduleUlData` does from the symbol `sym` on. -/
structure DataStacked (sym : Nat) (st st' : UlDataState) (allocs : List VarTtiAllocInfo) :
    Prop where
  allocated : st'.varTtiAllocInfo = allocs ++ st.varTtiAllocInfo
  rbg : st'.spoint.rbg = 0
  stacked : Stacked sym st'.spoint.sym (allocs.map allocBlock)
  used : st'.usedSym + sym = st.usedSym + st'.spoint.sym
  type : ∀ a ∈ allocs, a.dci.format = .UL ∧ a.dci.type = .DATA

theorem DataStacked.trans {sym : Nat} {st st' st'' : UlDataState}
    {allocs allocs' : List VarTtiAllocInfo} (h : DataStacked sym st st' allocs)
    (h' : DataStacked st'.spoint.sym st' st'' allocs') :
    DataStacked sym st st'' (allocs' ++ allocs) where
  allocated := by rw [h'.allocated, h.allocated, List.append_assoc]
  rbg := h'.rbg
  stacked := by
    rw [List.map_append]
    exact h.stacked.append h'.stacked
  used := by
    have := h.used
    have := h'.used
    omega
  type a ha := by
    rcases List.mem_append.mp ha with ha | ha
    · exact h'.type a ha
    · exact h.type a ha

theorem UlDataState.tdma_step (hn : 0 < c.ulAssignable) {beam : AssignedBeam}
    (hbeam : beam.Split c) {st : UlDataState} {sym : Nat} (hst : st.spoint = ⟨0, sym⟩)
    (hend : sym + beam.sym < 256) (hused : st.usedSym + beam.sym < 256) :
    ∃ allocs, DataStacked sym st (st.step c (tdmaUl c) beam) allocs ∧
      (st.step c (tdmaUl c) beam).spoint.sym ≤ sym + beam.sym ∧
      (allocs = [] ↔ ∀ ue ∈ beam.ues, ¬ Granted c ue) := by
  have hskip : ∀ st' : UlDataState, st'.varTtiAllocInfo = st.varTtiAllocInfo →
      st'.spoint = st.spoint → st'.usedSym = st.usedSym → DataStacked sym st st' [] := by
    intro st' halloc hpoint hused
    refine ⟨halloc, by rw [hpoint, hst], ?_, by rw [hused, hpoint, hst], by simp⟩
    rw [hpoint, hst]
    exact Stacked.nil
  unfold UlDataState.step
  by_cases hzero : beam.sym = 0
  · rw [if_pos hzero]
    refine ⟨[], hskip st rfl rfl rfl, by rw [hst]; exact Nat.le_add_right _ _, ?_⟩
    refine ⟨fun _ ue hue hgranted => ?_, fun _ => rfl⟩
    -- without symbols no UE has RBGs
    have hpos := symsOf_pos hn (hbeam.2 ue hue) hgranted.1
    have hle := List.single_le_sum (fun _ _ => Nat.zero_le _) _
      (List.mem_map_of_mem (f := symsOf c) hue)
    have := hbeam.1
    omega
  · rw [if_neg hzero]
    obtain ⟨allocs, hdone, hle, hempty⟩ := UlBeamState.foldl_tdma_step hn
      (show beam.sym < 256 by omega) hbeam.2
      (show (UlBeamState.mk st.spoint st.varTtiAllocInfo [] 0 false).spoint = ⟨0, sym⟩ from hst)
      (by simp) hbeam.1.ge (by rw [← hbeam.1]; exact hend)
    rw [← hbeam.1] at hle
    dsimp only
    generalize beam.ues.foldl (UlBeamState.step c (tdmaUl c) beam.sym)
      (UlBeamState.mk st.spoint st.varTtiAllocInfo [] 0 false) = b at hdone hle ⊢
    have hassigned := hdone.assigned
    rw [Bool.false_or] at hassigned
    rw [hassigned]
    cases allocs with
    | nil =>
      have hpoint : b.spoint = st.spoint := by
        have hstacked := hdone.stacked
        have hsym : b.spoint.sym = sym := (hstacked.tally_eq).symm
        rw [hst, ← hsym, ← hdone.rbg]
      exact ⟨[], hskip _ hdone.allocated hpoint rfl, hle, hempty⟩
    | cons a allocs =>
      refine ⟨a :: allocs, ⟨hdone.allocated, hdone.rbg, hdone.stacked, ?_, hdone.type⟩, hle, hempty⟩
      have hcounted : b.allocSym + sym = 0 + b.spoint.sym := hdone.counted
      change (st.usedSym + b.allocSym) % 256 + sym = st.usedSym + b.spoint.sym
      rw [Nat.mod_eq_of_lt (by omega)]
      omega

theorem UlDataState.foldl_tdma_step (hn : 0 < c.ulAssignable) {beams : List AssignedBeam}
    (hbeams : ∀ beam ∈ beams, beam.Split c) {st : UlDataState} {sym : Nat}
    (hst : st.spoint = ⟨0, sym⟩) (hend : sym + (beams.map AssignedBeam.sym).sum < 256)
    (hused : st.usedSym ≤ sym) :
    ∃ allocs, DataStacked sym st (beams.foldl (UlDataState.step c (tdmaUl c)) st) allocs ∧
      (beams.foldl (UlDataState.step c (tdmaUl c)) st).spoint.sym ≤
        sym + (beams.map AssignedBeam.sym).sum ∧
      (allocs = [] ↔ ∀ beam ∈ beams, ∀ ue ∈ beam.ues, ¬ Granted c ue) := by
  induction beams generalizing st sym with
  | nil =>
    refine ⟨[], ⟨rfl, by rw [List.foldl_nil, hst], ?_, ?_, by simp⟩, ?_, by simp⟩
    · rw [List.foldl_nil, hst]
      exact Stacked.nil
    · rw [List.foldl_nil, hst]
    · rw [List.foldl_nil, hst]
      exact le_rfl
  | cons beam beams ih =>
    rw [List.map_cons, List.sum_cons] at hend ⊢
    obtain ⟨allocs, hdone, hle, hempty⟩ := UlDataState.tdma_step hn
      (hbeams beam List.mem_cons_self) hst (by omega) (by omega)
    have hused' := hdone.used
    have hst' : (st.step c (tdmaUl c) beam).spoint =
        ⟨0, (st.step c (tdmaUl c) beam).spoint.sym⟩ := by rw [← hdone.rbg]
    obtain ⟨allocs', hdone', hle', hempty'⟩ :=
      ih (fun b hb => hbeams b (List.mem_cons_of_mem _ hb)) hst' (by omega) (by omega)
    refine ⟨allocs' ++ allocs, hdone.trans hdone', ?_, ?_⟩
    · rw [List.foldl_cons]
      omega
    · rw [List.append_eq_nil_iff, hempty, hempty', List.forall_mem_cons, and_comm]

/-! ## The assignment -/

theorem splitBeams_sum_le (active : ActiveUeMap) (ues : List (UeInfo × Nat)) :
    ((splitBeams c active ues).map AssignedBeam.sym).sum ≤ (ues.map (symsOf c)).sum := by
  induction active generalizing ues with
  | nil => exact Nat.zero_le _
  | cons el active ih =>
    have hsplit := congrArg (fun l => (l.map (symsOf c)).sum)
      (List.take_append_drop el.2.length ues)
    simp only [List.map_append, List.sum_append] at hsplit
    rw [splitBeams, List.map_cons, List.sum_cons]
    have := ih (ues.drop el.2.length)
    dsimp only
    omega

theorem split_of_mem_splitBeams {active : ActiveUeMap} {ues : List (UeInfo × Nat)}
    (hues : ∀ ue ∈ ues, c.ulAssignable ∣ ue.1.ulRBG) :
    ∀ beam ∈ splitBeams c active ues, beam.Split c := by
  induction active generalizing ues with
  | nil => simp [splitBeams]
  | cons el active ih =>
    rw [splitBeams, List.forall_mem_cons]
    refine ⟨⟨rfl, fun ue hue => hues ue (List.mem_of_mem_take hue)⟩, ?_⟩
    exact ih fun ue hue => hues ue (List.mem_of_mem_drop hue)

theorem flatMap_splitBeams {active : ActiveUeMap} {ues : List (UeInfo × Nat)}
    (h : ues.length = (active.flatMap Prod.snd).length) :
    (splitBeams c active ues).flatMap AssignedBeam.ues = ues := by
  induction active generalizing ues with
  | nil => exact (List.length_eq_zero_iff.mp h).symm
  | cons el active ih =>
    rw [List.flatMap_cons, List.length_append] at h
    rw [splitBeams, List.flatMap_cons, ih]
    · exact List.take_append_drop _ _
    · rw [List.length_drop]
      omega

end Beam

section Main

variable {c : SchedConf} {sym symAvail : Nat} {activeUl : ActiveUeMap}

/-- The UEs of all beams after the assignment. -/
def assignedUes (c : SchedConf) (symAvail : Nat) (activeUl : ActiveUeMap) : List (UeInfo × Nat) :=
  (symService c).run symAvail (activeUl.flatMap Prod.snd)

theorem fresh_flatMap (hfresh : ∀ el ∈ activeUl, Fresh el.2) :
    Fresh (activeUl.flatMap Prod.snd) := by
  intro ue hue
  obtain ⟨el, hel, hmem⟩ := List.mem_flatMap.mp hue
  exact hfresh el hel ue hmem

theorem sum_symsOf_fresh {ues : List (UeInfo × Nat)} (h : Fresh ues) :
    (ues.map (symsOf c)).sum = 0 := by
  rw [List.sum_eq_zero_iff]
  intro x hx
  obtain ⟨ue, hue, rfl⟩ := List.mem_map.mp hx
  rw [symsOf, (h ue hue).1, Nat.zero_div]

theorem dvd_of_mem_run {ues : List (UeInfo × Nat)} (hfresh : Fresh ues) :
    ∀ ue ∈ (symService c).run symAvail ues, c.ulAssignable ∣ ue.1.ulRBG := by
  refine Service.run_forall (fun ue hue => ?_) (fun _ h => h) (fun ue hue => ?_) symAvail
    fun ue hue => ?_
  · exact Nat.dvd_add hue (dvd_refl _)
  · exact (notAssignedUlResources_ulRBG c ue).symm ▸ hue
  · rw [(hfresh ue hue).1]
    exact dvd_zero _

theorem sum_run_le_symAvail (hn : 0 < c.ulAssignable) {ues : List (UeInfo × Nat)}
    (hfresh : Fresh ues) : (((symService c).run symAvail ues).map (symsOf c)).sum ≤ symAvail := by
  have hle := Service.sum_run_le (s := symService c) (symsOf_giveSym hn) (fun _ => rfl)
    symsOf_notAssigned symAvail ues
  rwa [sum_symsOf_fresh hfresh, Nat.zero_add] at hle

theorem dvd_of_mem_assignedUes (hfresh : ∀ el ∈ activeUl, Fresh el.2) :
    ∀ ue ∈ assignedUes c symAvail activeUl, c.ulAssignable ∣ ue.1.ulRBG :=
  dvd_of_mem_run (fresh_flatMap hfresh)

theorem sum_assignedUes_le (hn : 0 < c.ulAssignable) (hfresh : ∀ el ∈ activeUl, Fresh el.2) :
    ((assignedUes c symAvail activeUl).map (symsOf c)).sum ≤ symAvail :=
  sum_run_le_symAvail hn (fresh_flatMap hfresh)

/-- The DCIs of the TDMA scheduler follow each other from the starting point on, and no more
symbols are used than there are. -/
theorem tdma_doScheduleUlData (hn : 0 < c.ulAssignable) (hfresh : ∀ el ∈ activeUl, Fresh el.2)
    (hend : sym + symAvail < 256) (slotAlloc : List VarTtiAllocInfo) :
    ∃ allocs, DataStacked sym { spoint := ⟨0, sym⟩, varTtiAllocInfo := slotAlloc }
        (doScheduleUlData c (tdmaUl c) ⟨0, sym⟩ symAvail activeUl slotAlloc) allocs ∧
      (doScheduleUlData c (tdmaUl c) ⟨0, sym⟩ symAvail activeUl slotAlloc).spoint.sym ≤
        sym + symAvail ∧
      (allocs = [] ↔ ∀ ue ∈ assignedUes c symAvail activeUl, ¬ Granted c ue) := by
  have hsum := (splitBeams_sum_le activeUl (assignedUes c symAvail activeUl)).trans
    (sum_assignedUes_le hn hfresh)
  have hsplit : ∀ beam ∈ splitBeams c activeUl (assignedUes c symAvail activeUl), beam.Split c :=
    split_of_mem_splitBeams (dvd_of_mem_assignedUes hfresh)
  obtain ⟨allocs, hdone, hle, hempty⟩ := UlDataState.foldl_tdma_step hn hsplit
    (show (UlDataState.mk ⟨0, sym⟩ slotAlloc 0 0).spoint = ⟨0, sym⟩ from rfl) (by omega)
    (Nat.zero_le _)
  refine ⟨allocs, hdone, hle.trans (by omega), ?_⟩
  have hlen : (assignedUes c symAvail activeUl).length = (activeUl.flatMap Prod.snd).length :=
    Service.length_run _ _
  have hues := flatMap_splitBeams (c := c) hlen
  rw [hempty]
  conv_rhs => rw [← hues]
  simp only [List.mem_flatMap]
  constructor
  · rintro h ue ⟨beam, hbeam, hue⟩
    exact h beam hbeam ue hue
  · intro h beam hbeam ue hue
    exact h ue ⟨beam, hbeam, hue⟩

theorem DataStacked.placed {sym symAvail : Nat} {st' : UlDataState} {allocs : List VarTtiAllocInfo}
    (h : DataStacked sym { spoint := ⟨0, sym⟩, varTtiAllocInfo := [] } st' allocs)
    (hle : st'.spoint.sym ≤ sym + symAvail) : UlPlaced sym symAvail st' := by
  have halloc : st'.varTtiAllocInfo = allocs := h.allocated.trans (List.append_nil _)
  have htally := h.stacked.tally_eq
  have hused : st'.usedSym + sym = 0 + st'.spoint.sym := h.used
  refine ⟨?_, ?_, ?_, ?_, by omega, ?_⟩
  · rw [halloc]
    exact h.stacked.packed.mono hle
  · rw [halloc]
    intro a ha
    exact (h.stacked.start_mem (List.mem_map_of_mem ha)).2.2
  · rw [halloc]
    intro hne
    obtain ⟨b, hb, hstart⟩ := h.stacked.exists_start (by simpa using hne)
    obtain ⟨a, ha, rfl⟩ := List.mem_map.mp hb
    exact ⟨a, ha, hstart⟩
  · rw [halloc]
    omega
  · rw [halloc]
    exact h.type

/-! ## When no UE gets a DCI -/

/-- The transport block of `k` symbols for a UE. -/
def symsTbs (c : SchedConf) (ue : UeInfo) (k : Nat) : Nat :=
  c.ulTbs ue.ulMcs (k * c.ulAssignable * c.numRbPerRbg)

/-- A UE with `k` symbols. -/
structure HasSyms (c : SchedConf) (ue : UeInfo × Nat) (k : Nat) (ue' : UeInfo × Nat) : Prop where
  ulRBG : ue'.1.ulRBG = k * c.ulAssignable
  ulMcs : ue'.1.ulMcs = ue.1.ulMcs
  ulTbSize : ue'.1.ulTbSize = if k = 0 then 0 else symsTbs c ue.1 k
  buffer : ue'.2 = ue.2

theorem HasSyms.miss (hn : 0 < c.ulAssignable) {ue ue' : UeInfo × Nat} {k : Nat}
    (h : HasSyms c ue k ue') : c.notAssignedUlResources ue' = ue' := by
  unfold SchedConf.notAssignedUlResources
  split
  · have htbs : (if ue'.1.ulRBG = 0 then 0
        else c.ulTbs ue'.1.ulMcs (ue'.1.ulRBG * c.numRbPerRbg)) = ue'.1.ulTbSize := by
      rw [h.ulTbSize, h.ulRBG, h.ulMcs]
      by_cases hk : k = 0
      · rw [if_pos hk, hk, Nat.zero_mul, if_pos rfl]
      · rw [if_neg hk, if_neg (Nat.mul_ne_zero hk hn.ne')]
        rfl
    rw [UeInfo.updateUlMetric, htbs]
  · rfl

end Main

end Ns3.Nr.Sched
