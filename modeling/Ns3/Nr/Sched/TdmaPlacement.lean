import Ns3.Nr.Sched.DlData
import Ns3.Nr.Sched.Tdma

/-!
# The placement of the TDMA scheduler

In both directions the scheduler hands out whole symbols, puts the UEs back into their beams and
makes a DCI for each UE in turn. Only the UEs with a large enough transport block get one, and the
starting point stays where it is for the others. So the DCIs are those of the UEs that are granted
(`grantOf`), with the symbols each has been assigned, one behind the other from the starting point.
-/

namespace Ns3.Lib.Stacked

variable {lo hi : Nat} {bs : List Block}

theorem sum_len (h : Stacked lo hi bs) : lo + (bs.map Block.len).sum = hi := by
  induction h with
  | nil => rfl
  | cons _ _ _ ih =>
    rw [List.map_cons, List.sum_cons]
    omega

end Ns3.Lib.Stacked

namespace Ns3.Nr.Sched

open Lib

/-- The UE of a DCI and its symbols. -/
def grantOf (alloc : VarTtiAllocInfo) : Nat × Nat := (alloc.dci.rnti, alloc.dci.numSym)

/-- The DCIs in the order in which they are made: they belong to the granted UEs, follow each other
from the symbol `sym` on, end within the available symbols, and are counted. -/
structure TdmaPlaced (sym symAvail usedSym : Nat) (grants : List (Nat × Nat))
    (new : List VarTtiAllocInfo) : Prop where
  grants : new.map grantOf = grants
  stacked : Stacked sym (sym + usedSym) (new.reverse.map allocBlock)
  used : usedSym = (new.map fun alloc => alloc.dci.numSym).sum
  le : usedSym ≤ symAvail

theorem TdmaPlaced.of_stacked {sym symAvail usedSym hi : Nat} {grants : List (Nat × Nat)}
    {new : List VarTtiAllocInfo} (hgrants : new.map grantOf = grants)
    (hstacked : Stacked sym hi (new.reverse.map allocBlock)) (hused : usedSym + sym = hi)
    (hle : hi ≤ sym + symAvail) : TdmaPlaced sym symAvail usedSym grants new where
  grants := hgrants
  stacked := by rwa [Nat.add_comm, hused]
  used := by
    have hsum := hstacked.sum_len
    rw [List.map_map, List.map_reverse, List.sum_reverse] at hsum
    change sym + (new.map fun alloc => alloc.dci.numSym).sum = hi at hsum
    omega
  le := by omega

/-! ## Uplink -/

section Uplink

variable {c : SchedConf}

instance (ue : UeInfo × Nat) : Decidable (Granted c ue) := inferInstanceAs (Decidable (_ ∧ _))

/-- The UEs that get a DCI, with their symbols. -/
def ulGrants (c : SchedConf) (ues : List (UeInfo × Nat)) : List (Nat × Nat) :=
  (ues.filter fun ue => Granted c ue).map fun ue => (ue.1.rnti, symsOf c ue)

theorem ulGrants_append (ues ues' : List (UeInfo × Nat)) :
    ulGrants c (ues ++ ues') = ulGrants c ues ++ ulGrants c ues' := by
  unfold ulGrants
  rw [List.filter_append, List.map_append]

theorem ulGrants_granted {ue : UeInfo × Nat} (h : Granted c ue) :
    ulGrants c [ue] = [(ue.1.rnti, symsOf c ue)] := by
  simp [ulGrants, h]

theorem ulGrants_refused {ue : UeInfo × Nat} (h : ¬ Granted c ue) : ulGrants c [ue] = [] := by
  simp [ulGrants, h]

/-- The DCI of one UE has its RNTI and its symbols. -/
theorem UlBeamState.step_grants (hn : 0 < c.ulAssignable) {ue : UeInfo × Nat}
    (hdvd : c.ulAssignable ∣ ue.1.ulRBG) (st : UlBeamState) {beamSym : Nat}
    (hfit : symsOf c ue ≤ beamSym) (hbeam : beamSym < 256) :
    (UlBeamState.step c (tdmaUl c) beamSym st ue).varTtiAllocInfo.map grantOf =
      ulGrants c [ue] ++ st.varTtiAllocInfo.map grantOf := by
  unfold UlBeamState.step
  by_cases hrbg : ue.1.ulRBG = 0
  · rw [if_pos hrbg, ulGrants_refused fun h => h.1 hrbg]
    rfl
  · rw [if_neg hrbg]
    have hpos := symsOf_pos hn hdvd hrbg
    have hnum : min (max (ue.1.ulRBG / c.ulAssignable) 1 % 256) (beamSym % 256) = symsOf c ue := by
      rw [← symsOf.eq_1 c ue]
      omega
    simp only [tdmaUl, tdmaCreateUlDci, hnum]
    by_cases htbs : c.ulTbs ue.1.ulMcs (ue.1.ulRBG * c.numRbPerRbg) < 7
    · rw [if_pos htbs, ulGrants_refused fun h => absurd h.2 (not_le.mpr htbs)]
      rfl
    · rw [if_neg htbs, ulGrants_granted ⟨hrbg, not_lt.mp htbs⟩]
      rfl

theorem UlBeamState.foldl_grants (hn : 0 < c.ulAssignable) {beamSym : Nat} (hbeam : beamSym < 256)
    {ues : List (UeInfo × Nat)} (hues : ∀ ue ∈ ues, c.ulAssignable ∣ ue.1.ulRBG)
    (hfit : (ues.map (symsOf c)).sum ≤ beamSym) (st : UlBeamState) :
    (ues.foldl (UlBeamState.step c (tdmaUl c) beamSym) st).varTtiAllocInfo.map grantOf =
      (ulGrants c ues).reverse ++ st.varTtiAllocInfo.map grantOf := by
  induction ues generalizing st with
  | nil => rfl
  | cons ue ues ih =>
    rw [List.map_cons, List.sum_cons] at hfit
    have hone := UlBeamState.step_grants hn (hues ue List.mem_cons_self) st
      (show symsOf c ue ≤ beamSym by omega) hbeam
    have hrest := ih (fun u hu => hues u (List.mem_cons_of_mem _ hu)) (by omega)
      (UlBeamState.step c (tdmaUl c) beamSym st ue)
    have hsingle : (ulGrants c [ue]).reverse = ulGrants c [ue] := by
      by_cases hgranted : Granted c ue
      · rw [ulGrants_granted hgranted, List.reverse_singleton]
      · rw [ulGrants_refused hgranted, List.reverse_nil]
    have hsplit : ulGrants c (ue :: ues) = ulGrants c [ue] ++ ulGrants c ues :=
      ulGrants_append [ue] ues
    rw [List.foldl_cons, hrest, hone, hsplit, List.reverse_append, hsingle, List.append_assoc]

theorem UlDataState.step_grants (hn : 0 < c.ulAssignable) {beam : AssignedBeam}
    (hbeam : beam.Split c) (hlt : beam.sym < 256) (st : UlDataState) :
    (st.step c (tdmaUl c) beam).varTtiAllocInfo.map grantOf =
      (ulGrants c beam.ues).reverse ++ st.varTtiAllocInfo.map grantOf := by
  have hfold := UlBeamState.foldl_grants hn hlt hbeam.2 hbeam.1.ge
    (UlBeamState.mk st.spoint st.varTtiAllocInfo [] 0 false)
  unfold UlDataState.step
  by_cases hzero : beam.sym = 0
  · -- without symbols no UE has RBGs
    have hnone : ulGrants c beam.ues = [] := by
      unfold ulGrants
      rw [List.filter_eq_nil_iff.mpr, List.map_nil]
      intro ue hue hgranted
      have hpos := symsOf_pos hn (hbeam.2 ue hue) (of_decide_eq_true hgranted).1
      have hle := List.single_le_sum (fun _ _ => Nat.zero_le _) _
        (List.mem_map_of_mem (f := symsOf c) hue)
      have := hbeam.1
      omega
    rw [if_pos hzero, hnone]
    rfl
  · rw [if_neg hzero]
    dsimp only
    split <;> exact hfold

theorem UlDataState.foldl_grants (hn : 0 < c.ulAssignable) {beams : List AssignedBeam}
    (hbeams : ∀ beam ∈ beams, beam.Split c) (hlt : (beams.map AssignedBeam.sym).sum < 256)
    (st : UlDataState) :
    (beams.foldl (UlDataState.step c (tdmaUl c)) st).varTtiAllocInfo.map grantOf =
      (ulGrants c (beams.flatMap AssignedBeam.ues)).reverse ++ st.varTtiAllocInfo.map grantOf := by
  induction beams generalizing st with
  | nil => rfl
  | cons beam beams ih =>
    rw [List.map_cons, List.sum_cons] at hlt
    have hone := UlDataState.step_grants hn (hbeams beam List.mem_cons_self) (by omega) st
    have hrest := ih (fun b hb => hbeams b (List.mem_cons_of_mem _ hb)) (by omega)
      (st.step c (tdmaUl c) beam)
    rw [List.foldl_cons, hrest, hone, List.flatMap_cons, ulGrants_append, List.reverse_append,
      List.append_assoc]

variable {sym symAvail : Nat} {activeUl : ActiveUeMap}

/-- The placement in the uplink. -/
theorem tdmaPlaced_ul (hn : 0 < c.ulAssignable) (hfresh : ∀ el ∈ activeUl, Fresh el.2)
    (hend : sym + symAvail < 256) (slotAlloc : List VarTtiAllocInfo) :
    ∃ new, (doScheduleUlData c (tdmaUl c) ⟨0, sym⟩ symAvail activeUl slotAlloc).varTtiAllocInfo =
        new.reverse ++ slotAlloc ∧
      TdmaPlaced sym symAvail
        (doScheduleUlData c (tdmaUl c) ⟨0, sym⟩ symAvail activeUl slotAlloc).usedSym
        (ulGrants c (assignedUes c symAvail activeUl)) new := by
  obtain ⟨allocs, hdone, hle, -⟩ := tdma_doScheduleUlData hn hfresh hend slotAlloc
  have hsplit : ∀ beam ∈ splitBeams c activeUl (assignedUes c symAvail activeUl), beam.Split c :=
    split_of_mem_splitBeams (dvd_of_mem_assignedUes hfresh)
  have hsum := (splitBeams_sum_le activeUl (assignedUes c symAvail activeUl)).trans
    (sum_assignedUes_le hn hfresh)
  have hgrants := UlDataState.foldl_grants hn hsplit (by omega)
    (UlDataState.mk ⟨0, sym⟩ slotAlloc 0 0)
  have hlen : (assignedUes c symAvail activeUl).length = (activeUl.flatMap Prod.snd).length :=
    Service.length_run _ _
  rw [flatMap_splitBeams hlen] at hgrants
  refine ⟨allocs.reverse, ?_, ?_⟩
  · rw [List.reverse_reverse]
    exact hdone.allocated
  · refine TdmaPlaced.of_stacked ?_ ?_ (hdone.used.trans (Nat.zero_add _)) hle
    · have halloc : (doScheduleUlData c (tdmaUl c) ⟨0, sym⟩ symAvail activeUl
          slotAlloc).varTtiAllocInfo = allocs ++ slotAlloc := hdone.allocated
      unfold doScheduleUlData at halloc
      change (List.foldl (UlDataState.step c (tdmaUl c)) _
        (splitBeams c activeUl (assignedUes c symAvail activeUl))).varTtiAllocInfo = _ at halloc
      rw [halloc, List.map_append] at hgrants
      rw [List.map_reverse, List.append_cancel_right hgrants, List.reverse_reverse]
    · rw [List.reverse_reverse]
      exact hdone.stacked

end Uplink

/-! ## Downlink -/

section Downlink

variable {c : DlConf} {sym : Nat}

/-- The UEs that get a DCI, with their symbols. -/
def dlGrants (c : DlConf) (ues : List (DlUeInfo × Nat)) : List (Nat × Nat) :=
  (ues.filter dlGranted).map fun ue => (ue.1.rnti, dlSymsOf c ue)

theorem dlGrants_append (ues ues' : List (DlUeInfo × Nat)) :
    dlGrants c (ues ++ ues') = dlGrants c ues ++ dlGrants c ues' := by
  unfold dlGrants
  rw [List.filter_append, List.map_append]

theorem dlGrants_granted {ue : DlUeInfo × Nat} (h : dlGranted ue = true) :
    dlGrants c [ue] = [(ue.1.rnti, dlSymsOf c ue)] := by
  simp [dlGrants, h]

theorem dlGrants_refused {ue : DlUeInfo × Nat} (h : dlGranted ue = false) :
    dlGrants c [ue] = [] := by
  simp [dlGrants, h]

theorem dlSymsOf_pos (hn : 0 < c.dlAssignable) {ue : DlUeInfo × Nat}
    (hdvd : c.dlAssignable ∣ ue.1.dlRBG) (hrbg : ue.1.dlRBG ≠ 0) : 0 < dlSymsOf c ue :=
  Nat.div_pos (Nat.le_of_dvd (Nat.pos_of_ne_zero hrbg) hdvd) hn

/-- What a UE does to the variables of the loop. -/
theorem DlBeamState.tdma_cases (hn : 0 < c.dlAssignable) {ue : DlUeInfo × Nat}
    (hdvd : c.dlAssignable ∣ ue.1.dlRBG) (beamSym : Nat) {st : DlBeamState}
    (hst : st.spoint = ⟨0, sym⟩) (hend : sym + dlSymsOf c ue < 256) :
    (dlGranted ue = false ∧ DlBeamState.step (tdmaDl c) beamSym st ue = st) ∨
    (dlGranted ue = true ∧ 0 < dlSymsOf c ue ∧ ∃ dci : DciInfoElementTdma, dci.rnti = ue.1.rnti ∧
      dci.symStart = sym ∧ dci.numSym = dlSymsOf c ue ∧
      DlBeamState.step (tdmaDl c) beamSym st ue = st.push dci ⟨0, sym + dlSymsOf c ue⟩) := by
  unfold DlBeamState.step
  by_cases hrbg : ue.1.dlRBG = 0
  · rw [if_pos hrbg]
    exact Or.inl ⟨by simp [dlGranted, hrbg], rfl⟩
  · have hpos := dlSymsOf_pos hn hdvd hrbg
    have hnum : ue.1.dlRBG / c.dlAssignable % 256 = dlSymsOf c ue := by
      rw [← dlSymsOf.eq_1 c ue]
      omega
    rw [if_neg hrbg]
    simp only [tdmaDl, tdmaCreateDlDci, dlStreams, hnum, hst, Nat.mod_eq_of_lt hend,
      max_eq_left (Nat.succ_le_of_lt hpos)]
    by_cases hsmall : ue.1.dlTbSize.all (· < 7) = true
    · rw [if_pos hsmall]
      refine Or.inl ⟨by simp [dlGranted, hsmall], ?_⟩
      rw [← hst]
    · rw [if_neg hsmall]
      exact Or.inr ⟨by simp [dlGranted, hrbg, hsmall], hpos, _, rfl, rfl, rfl, rfl⟩

/-- What the UEs of a beam do from the symbol `sym` on. -/
structure DlTdmaDone (c : DlConf) (sym : Nat) (ues : List (DlUeInfo × Nat)) (st st' : DlBeamState)
    (new : List VarTtiAllocInfo) : Prop where
  allocated : st'.varTtiAllocInfo = st.varTtiAllocInfo ++ new
  rbg : st'.spoint.rbg = 0
  stacked : Stacked sym st'.spoint.sym (new.reverse.map allocBlock)
  counted : st'.allocSym + sym = st.allocSym + st'.spoint.sym
  assigned : st'.assigned = (st.assigned || !new.isEmpty)
  grants : new.map grantOf = dlGrants c ues
  le : st'.spoint.sym ≤ sym + (ues.map (dlSymsOf c)).sum

theorem DlBeamState.foldl_tdma_done (hn : 0 < c.dlAssignable) (beamSym : Nat)
    {ues : List (DlUeInfo × Nat)} (hues : ∀ ue ∈ ues, c.dlAssignable ∣ ue.1.dlRBG)
    {st : DlBeamState} (hst : st.spoint = ⟨0, sym⟩) (hstarts : ∀ s ∈ st.symbStartDci, s < sym)
    (hend : sym + (ues.map (dlSymsOf c)).sum < 256) :
    ∃ new, DlTdmaDone c sym ues st (ues.foldl (DlBeamState.step (tdmaDl c) beamSym) st) new := by
  induction ues generalizing st sym with
  | nil =>
    refine ⟨[], (List.append_nil _).symm, congrArg PointInFTPlane.rbg hst, ?_, ?_, by simp, rfl, ?_⟩
    · rw [List.foldl_nil, hst]
      exact Stacked.nil
    · rw [List.foldl_nil, hst]
    · rw [List.foldl_nil, hst]
      exact le_rfl
  | cons ue ues ih =>
    have hues' : ∀ u ∈ ues, c.dlAssignable ∣ u.1.dlRBG := fun u hu =>
      hues u (List.mem_cons_of_mem _ hu)
    have hsplit : dlGrants c (ue :: ues) = dlGrants c [ue] ++ dlGrants c ues :=
      dlGrants_append [ue] ues
    rw [List.map_cons, List.sum_cons] at hend
    rw [List.foldl_cons]
    rcases DlBeamState.tdma_cases hn (hues ue List.mem_cons_self) beamSym hst (by omega) with
      ⟨hrefused, hstep⟩ | ⟨hgranted, hpos, dci, hrnti, hsym, hnum, hstep⟩
    · obtain ⟨new, hdone⟩ := ih hues' hst hstarts (by omega)
      rw [hstep]
      refine ⟨new, hdone.allocated, hdone.rbg, hdone.stacked, hdone.counted, hdone.assigned, ?_, ?_⟩
      · rw [hdone.grants, hsplit, dlGrants_refused hrefused, List.nil_append]
      · rw [List.map_cons, List.sum_cons]
        exact hdone.le.trans (by omega)
    · have hstarts' : ∀ s ∈ (st.push dci ⟨0, sym + dlSymsOf c ue⟩).symbStartDci,
          s < sym + dlSymsOf c ue := by
        intro s hs
        rcases List.mem_cons.mp hs with rfl | hs
        · omega
        · have := hstarts s hs
          omega
      have hpoint : (st.push dci ⟨0, sym + dlSymsOf c ue⟩).spoint = ⟨0, sym + dlSymsOf c ue⟩ := rfl
      obtain ⟨new, hdone⟩ := ih hues' hpoint hstarts' (by omega)
      rw [hstep]
      refine ⟨{ dci := dci } :: new, ?_, hdone.rbg, ?_, ?_, ?_, ?_, ?_⟩
      · rw [hdone.allocated]
        exact List.append_assoc _ _ _
      · have hone : Stacked sym (sym + dlSymsOf c ue) [allocBlock { dci := dci }] := by
          have hlen : (allocBlock { dci := dci }).len = dlSymsOf c ue := hnum
          have := Stacked.nil.cons (b := allocBlock { dci := dci }) hsym (hlen ▸ hpos)
          rwa [hlen] at this
        rw [List.reverse_cons, List.map_append]
        exact hone.append hdone.stacked
      · have hnew : ¬ st.symbStartDci.contains dci.symStart = true := by
          rw [List.contains_iff_mem, hsym]
          exact fun hmem => lt_irrefl _ (hstarts sym hmem)
        have hcounted := hdone.counted
        have hpush : (st.push dci ⟨0, sym + dlSymsOf c ue⟩).allocSym =
            st.allocSym + dlSymsOf c ue := by
          unfold DlBeamState.push
          rw [if_neg hnew, hnum]
        omega
      · rw [hdone.assigned]
        simp [DlBeamState.push]
      · have hhead : grantOf { dci := dci } = (ue.1.rnti, dlSymsOf c ue) := Prod.ext hrnti hnum
        rw [List.map_cons, hdone.grants, hsplit, dlGrants_granted hgranted, hhead,
          List.singleton_append]
      · rw [List.map_cons, List.sum_cons]
        exact hdone.le.trans (by omega)

/-- What `DoScheduleDlData` does from the symbol `sym` on. -/
structure DlDataStacked (c : DlConf) (sym : Nat) (ues : List (DlUeInfo × Nat))
    (st st' : DlDataState) (new : List VarTtiAllocInfo) : Prop where
  allocated : st'.varTtiAllocInfo = st.varTtiAllocInfo ++ new
  rbg : st'.spoint.rbg = 0
  stacked : Stacked sym st'.spoint.sym (new.reverse.map allocBlock)
  used : st'.usedSym + sym = st.usedSym + st'.spoint.sym
  grants : new.map grantOf = dlGrants c ues
  le : st'.spoint.sym ≤ sym + (ues.map (dlSymsOf c)).sum

theorem DlDataState.tdma_stacked (hn : 0 < c.dlAssignable) {beam : DlBeam} (hbeam : beam.Split c)
    {st : DlDataState} (hst : st.spoint = ⟨0, sym⟩) (hend : sym + beam.sym < 256)
    (hused : st.usedSym + beam.sym < 256) :
    ∃ new, DlDataStacked c sym beam.ues st (st.step (tdmaDl c) beam) new := by
  obtain ⟨new, hdone⟩ := DlBeamState.foldl_tdma_done hn beam.sym hbeam.2
    (show (DlBeamState.mk st.spoint st.varTtiAllocInfo [] 0 false).spoint = ⟨0, sym⟩ from hst)
    (by simp) (by rw [← hbeam.1]; exact hend)
  have hle := hdone.le
  rw [← hbeam.1] at hle
  unfold DlDataState.step
  by_cases hzero : beam.sym = 0
  · -- without symbols no UE gets a DCI
    have hnone : new = [] := by
      have hstacked := hdone.stacked
      have hlo := hstacked.le
      have hlen := hstacked.sum_len
      by_contra hne
      obtain ⟨b, hb, -⟩ := hstacked.exists_start (by simpa using hne)
      have := hstacked.start_mem hb
      omega
    have hgrants := hdone.grants
    rw [hnone] at hgrants
    rw [if_pos hzero]
    refine ⟨[], (List.append_nil _).symm, congrArg PointInFTPlane.rbg hst, ?_, ?_, hgrants, ?_⟩
    · rw [hst]
      exact Stacked.nil
    · rw [hst]
    · rw [hst]
      exact Nat.le_add_right _ _
  · rw [if_neg hzero]
    dsimp only
    generalize beam.ues.foldl (DlBeamState.step (tdmaDl c) beam.sym)
      (DlBeamState.mk st.spoint st.varTtiAllocInfo [] 0 false) = b at hdone hle ⊢
    have hassigned := hdone.assigned
    have hcounted : b.allocSym + sym = 0 + b.spoint.sym := hdone.counted
    rw [Bool.false_or] at hassigned
    cases hnew : new with
    | nil =>
      rw [hnew] at hdone hassigned
      have hpoint : b.spoint.sym = sym := by
        have hlen := hdone.stacked.sum_len
        exact hlen.symm
      rw [hassigned]
      refine ⟨[], hdone.allocated, hdone.rbg, hdone.stacked, ?_, hdone.grants, hdone.le⟩
      change st.usedSym + sym = st.usedSym + b.spoint.sym
      rw [hpoint]
    | cons a rest =>
      rw [hnew] at hdone hassigned
      rw [hassigned]
      refine ⟨a :: rest, hdone.allocated, hdone.rbg, hdone.stacked, ?_, hdone.grants, hdone.le⟩
      change (st.usedSym + b.allocSym) % 256 + sym = st.usedSym + b.spoint.sym
      rw [Nat.mod_eq_of_lt (by omega)]
      omega

theorem DlDataState.foldl_tdma_stacked (hn : 0 < c.dlAssignable) {beams : List DlBeam}
    (hbeams : ∀ beam ∈ beams, beam.Split c) {st : DlDataState} (hst : st.spoint = ⟨0, sym⟩)
    (hend : sym + ((beams.flatMap DlBeam.ues).map (dlSymsOf c)).sum < 256)
    (hused : st.usedSym ≤ sym) :
    ∃ new, DlDataStacked c sym (beams.flatMap DlBeam.ues) st
      (beams.foldl (DlDataState.step (tdmaDl c)) st) new := by
  induction beams generalizing st sym with
  | nil =>
    refine ⟨[], (List.append_nil _).symm, congrArg PointInFTPlane.rbg hst, ?_, ?_, rfl, ?_⟩
    · rw [List.foldl_nil, hst]
      exact Stacked.nil
    · rw [List.foldl_nil, hst]
    · rw [List.foldl_nil, hst]
      exact le_rfl
  | cons beam beams ih =>
    have hbeam := hbeams beam List.mem_cons_self
    rw [List.flatMap_cons, List.map_append, List.sum_append, ← hbeam.1] at hend
    obtain ⟨new, hdone⟩ := DlDataState.tdma_stacked hn hbeam hst (by omega) (by omega)
    have hpoint : (st.step (tdmaDl c) beam).spoint =
        ⟨0, (st.step (tdmaDl c) beam).spoint.sym⟩ := by rw [← hdone.rbg]
    have hle := hdone.le
    have hused' := hdone.used
    rw [← hbeam.1] at hle
    obtain ⟨new', hdone'⟩ := ih (fun b hb => hbeams b (List.mem_cons_of_mem _ hb)) hpoint
      (by omega) (by omega)
    rw [List.foldl_cons]
    refine ⟨new ++ new', ?_, hdone'.rbg, ?_, ?_, ?_, ?_⟩
    · rw [hdone'.allocated, hdone.allocated, List.append_assoc]
    · rw [List.reverse_append, List.map_append]
      exact hdone.stacked.append hdone'.stacked
    · have := hdone'.used
      omega
    · rw [List.map_append, hdone.grants, hdone'.grants, List.flatMap_cons, dlGrants_append]
    · have := hdone'.le
      rw [List.flatMap_cons, List.map_append, List.sum_append, ← hbeam.1]
      omega

variable {symAvail : Nat} {active : BeamMap DlUeInfo}

/-- The placement in the downlink. -/
theorem tdmaPlaced_dl (hn : 0 < c.dlAssignable) (h : DlFresh active)
    (hend : sym + symAvail < 256) (slotAlloc : List VarTtiAllocInfo) :
    ∃ new, (doScheduleDlData (tdmaDl c) ⟨0, sym⟩ symAvail active slotAlloc).varTtiAllocInfo =
        slotAlloc ++ new ∧
      TdmaPlaced sym symAvail
        (doScheduleDlData (tdmaDl c) ⟨0, sym⟩ symAvail active slotAlloc).usedSym
        (dlGrants c (assignedDlUes c symAvail active)) new := by
  have hle := h.syms_le hn symAvail
  have hues : (splitDlBeams c active (assignedDlUes c symAvail active)).flatMap DlBeam.ues =
      assignedDlUes c symAvail active :=
    flatMap_splitDlBeams (Service.length_run _ _)
  have hsplit : ∀ beam ∈ splitDlBeams c active (assignedDlUes c symAvail active), beam.Split c :=
    split_of_mem_splitDlBeams h.dvd
  obtain ⟨new, hdone⟩ := DlDataState.foldl_tdma_stacked hn hsplit
    (show (DlDataState.mk ⟨0, sym⟩ slotAlloc 0 0).spoint = ⟨0, sym⟩ from rfl)
    (by rw [hues]; omega) (Nat.zero_le _)
  rw [hues] at hdone
  have hend := hdone.le
  exact ⟨new, hdone.allocated, TdmaPlaced.of_stacked hdone.grants hdone.stacked
    (hdone.used.trans (Nat.zero_add _)) (by omega)⟩

end Downlink

/-! ## Both directions -/

/-- In either direction no more symbols are handed out than there are, and the DCIs of the UEs that
are granted follow each other from the starting point on, each as long as its UE's share; the
symbols are counted in a `uint8_t`. -/
theorem tdma_placement {sym symAvail : Nat} (hend : sym + symAvail < 256)
    (slotAlloc : List VarTtiAllocInfo) :
    (∀ (c : SchedConf) (activeUl : ActiveUeMap), 0 < c.ulAssignable →
      (∀ el ∈ activeUl, Fresh el.2) →
      ((assignedUes c symAvail activeUl).map (symsOf c)).sum ≤ symAvail ∧
      ∃ new, (doScheduleUlData c (tdmaUl c) ⟨0, sym⟩ symAvail activeUl slotAlloc).varTtiAllocInfo =
          new.reverse ++ slotAlloc ∧
        TdmaPlaced sym symAvail
          (doScheduleUlData c (tdmaUl c) ⟨0, sym⟩ symAvail activeUl slotAlloc).usedSym
          (ulGrants c (assignedUes c symAvail activeUl)) new) ∧
    (∀ (c : DlConf) (activeDl : BeamMap DlUeInfo), 0 < c.dlAssignable → DlFresh activeDl →
      ((assignedDlUes c symAvail activeDl).map (dlSymsOf c)).sum ≤ symAvail ∧
      ∃ new, (doScheduleDlData (tdmaDl c) ⟨0, sym⟩ symAvail activeDl slotAlloc).varTtiAllocInfo =
          slotAlloc ++ new ∧
        TdmaPlaced sym symAvail
          (doScheduleDlData (tdmaDl c) ⟨0, sym⟩ symAvail activeDl slotAlloc).usedSym
          (dlGrants c (assignedDlUes c symAvail activeDl)) new) := by
  constructor
  · intro c activeUl hn hfresh
    exact ⟨sum_assignedUes_le hn hfresh, tdmaPlaced_ul hn hfresh hend slotAlloc⟩
  · intro c activeDl hn hfresh
    exact ⟨hfresh.syms_le hn symAvail, tdmaPlaced_dl hn hfresh hend slotAlloc⟩

/-- Two RBGs, of which one is notched. -/
def notchedUl : SchedConf := ⟨2, 1, [1, 0], fun _ rbs => 4 * rbs, 0, true⟩

/-- Two UEs in two beams get two symbols each. -/
theorem tdma_placement_two :
    ∃ new, (doScheduleUlData notchedUl (tdmaUl notchedUl) ⟨0, 1⟩ 4
        [(0, [({ rnti := 1 }, 8)]), (1, [({ rnti := 2 }, 8)])] []).varTtiAllocInfo =
        new.reverse ++ [] ∧
      TdmaPlaced 1 4 4 [(1, 2), (2, 2)] new :=
  ((tdma_placement (by decide : 1 + 4 < 256) []).1 notchedUl
    [(0, [({ rnti := 1 }, 8)]), (1, [({ rnti := 2 }, 8)])] (by decide) (by decide)).2

end Ns3.Nr.Sched
