import Ns3.Nr.Sched.Tdma
import Ns3.Nr.Sched.UlSlot

/-!
# The uplink phases of a slot

With the TDMA scheduler new data follows the retransmissions from the starting point up to
the UL CTRL symbol. SRS goes the other way: `DoScheduleSrs` moves the starting point back
before each of its symbols, although the starting point is the first symbol of the uplink.
So every SRS symbol lies outside the symbols of the uplink, at the symbols of the downlink
or, in a UL slot, at 255, and the phases stay in the uplink exactly when there is no SRS
symbol in the slot (`ul_phases_apart_iff`).
-/

namespace Ns3.Nr.Sched

open Lib

/-! ## The division of a slot -/

/-- One UL CTRL symbol, as `DoScheduleUl` asserts, and the others fit in the slot. -/
structure SlotConf.Fits (conf : SlotConf) : Prop where
  ulCtrl : conf.ulCtrlSymbols = 1
  fits : conf.dlCtrlSymbols + conf.dlDataSymbolsF + 1 ≤ conf.symbolsPerSlot
  small : conf.symbolsPerSlot < 256

theorem sub8_eq {a b : Nat} (ha : a < 256) (hb : b ≤ a) : sub8 a b = a - b := by
  unfold sub8
  omega

section Conf

variable {conf : SlotConf} {type : LteNrTddSlotType}

theorem SlotConf.Fits.dataSym (h : conf.Fits) (htype : type = .F ∨ type = .UL) :
    conf.dataSymPerSlot type =
      conf.symbolsPerSlot - 1 -
        if type = .F then conf.dlCtrlSymbols + conf.dlDataSymbolsF else 0 := by
  have hfits := h.fits
  have hsmall := h.small
  unfold SlotConf.dataSymPerSlot
  rw [h.ulCtrl, sub8_eq hsmall (by omega)]
  rcases htype with rfl | rfl
  · rw [if_pos rfl, if_pos rfl, sub8_eq (by omega) (by omega)]
  · rw [if_neg (by simp), if_neg (by simp), Nat.sub_zero]

theorem SlotConf.Fits.startSym (h : conf.Fits) (htype : type = .F ∨ type = .UL) :
    conf.startSym type =
      if type = .F then conf.dlCtrlSymbols + conf.dlDataSymbolsF else 0 := by
  have hfits := h.fits
  have hsmall := h.small
  rcases htype with rfl | rfl
  · have hdata := h.dataSym (Or.inl rfl)
    rw [if_pos rfl] at hdata ⊢
    change sub8 (sub8 conf.symbolsPerSlot conf.ulCtrlSymbols) (conf.dataSymPerSlot .F) = _
    rw [hdata, h.ulCtrl, sub8_eq hsmall (by omega), sub8_eq (by omega) (by omega)]
    omega
  · rfl

/-- The uplink reaches from the starting symbol to the UL CTRL symbol. -/
theorem SlotConf.Fits.start_add_data (h : conf.Fits) (htype : type = .F ∨ type = .UL) :
    conf.startSym type + conf.dataSymPerSlot type + 1 = conf.symbolsPerSlot := by
  have hfits := h.fits
  rw [h.startSym htype, h.dataSym htype]
  split <;> omega

theorem SlotConf.Fits.ctrl (h : conf.Fits) (c : SchedConf) (type : LteNrTddSlotType) :
    ∃ ctrl : VarTtiAllocInfo, (UlSlot.start conf c type).ctrl = [ctrl] ∧
      ctrl.dci.symStart = conf.symbolsPerSlot - 1 ∧ ctrl.dci.numSym = 1 ∧
      ctrl.dci.format = .UL ∧ ctrl.dci.type = .CTRL := by
  have hfits := h.fits
  refine ⟨_, by rw [UlSlot.start, h.ulCtrl]; rfl, ?_, rfl, rfl, rfl⟩
  change sub8 conf.symbolsPerSlot 1 + 0 = _
  rw [Nat.add_zero, sub8_eq h.small (by omega)]

end Conf

/-! ## SRS -/

/-- The number of SRS symbols in the slot. -/
def srsSyms (conf : SlotConf) (type : LteNrTddSlotType) (st : UlSchedState) : Nat :=
  if conf.srsEnabled type ∧ srsRnti (conf.srsCounter type st.srsSlotCounter) st.ueMap ≠ 0 then
    conf.srsCtrlSymbols
  else 0

/-- The allocations of `n` SRS symbols in front of `sym`. -/
def srsAllocs (c : SchedConf) (rnti sym n : Nat) : List VarTtiAllocInfo :=
  ((List.range n).map fun i => { dci := srsDci c rnti (sub8 sym (i + 1)) }).reverse

/-- The slot with `n` SRS symbols for a UE. -/
def UlSlot.afterSrs (conf : SlotConf) (c : SchedConf) (type : LteNrTddSlotType) (rnti n : Nat) :
    UlSlot :=
  { spoint := ⟨0, sub8 (conf.startSym type) n⟩
    ulSymAvail := conf.dataSymPerSlot type - n
    ctrl := (UlSlot.start conf c type).ctrl
    srs := srsAllocs c rnti (conf.startSym type) n
    numSymAlloc := conf.ulCtrlSymbols + n }

theorem sub8_sub8 (a n : Nat) : sub8 (sub8 a n) 1 = sub8 a (n + 1) := by
  unfold sub8
  omega

theorem UlSlot.srsSym_iterate (c : SchedConf) (rnti n : Nat) {slot : UlSlot}
    (hsym : slot.spoint.sym < 256) (hsrs : slot.srs = []) :
    (UlSlot.srsSym c rnti)^[n] slot =
      { slot with
        spoint := { slot.spoint with sym := sub8 slot.spoint.sym n }
        srs := srsAllocs c rnti slot.spoint.sym n
        numSymAlloc := slot.numSymAlloc + n } := by
  induction n with
  | zero =>
    rw [Function.iterate_zero_apply, sub8_eq hsym (Nat.zero_le _)]
    change slot = { slot with srs := [] }
    rw [← hsrs]
  | succ n ih =>
    rw [Function.iterate_succ_apply', ih]
    simp only [UlSlot.srsSym, sub8_sub8, srsAllocs, List.range_succ, List.map_append, List.map_cons,
      List.map_nil, List.reverse_append, List.reverse_cons, List.reverse_nil, List.nil_append,
      List.singleton_append, Nat.add_assoc]

section Srs

variable {conf : SlotConf} (c : SchedConf) {type : LteNrTddSlotType} (st : UlSchedState)

/-- The slot after the SRS phase. -/
theorem UlSlot.srsPhase_start (h : conf.Fits) (htype : type = .F ∨ type = .UL)
    (hsrs : conf.srsCtrlSymbols ≤ conf.dataSymPerSlot type) :
    ∃ rnti, (UlSlot.start conf c type).srsPhase conf c type st =
      UlSlot.afterSrs conf c type rnti (srsSyms conf type st) := by
  have hadd := h.start_add_data htype
  have hsmall := h.small
  have hstart : conf.startSym type < 256 := by omega
  refine ⟨srsRnti (conf.srsCounter type st.srsSlotCounter) st.ueMap, ?_⟩
  have hnone : ∀ rnti, UlSlot.start conf c type = UlSlot.afterSrs conf c type rnti 0 := by
    intro rnti
    rw [UlSlot.afterSrs, sub8_eq hstart (Nat.zero_le _)]
    rfl
  unfold UlSlot.srsPhase srsSyms doScheduleSrs
  by_cases hen : conf.srsEnabled type = true
  · rw [if_pos hen]
    by_cases hrnti : srsRnti (conf.srsCounter type st.srsSlotCounter) st.ueMap = 0
    · simp only [hrnti, if_true, ne_eq, not_true, and_false, if_false]
      have havail : sub8 (UlSlot.start conf c type).ulSymAvail 0 =
          (UlSlot.start conf c type).ulSymAvail :=
        (sub8_eq (show conf.dataSymPerSlot type < 256 by omega) (Nat.zero_le _))
      rw [havail]
      exact hnone _
    · simp only [hrnti, if_false, ne_eq, not_false_eq_true, and_true, hen, if_true]
      rw [UlSlot.srsSym_iterate c _ _ (show (UlSlot.start conf c type).spoint.sym < 256 from hstart)
        rfl]
      have havail : sub8 (UlSlot.start conf c type).ulSymAvail conf.srsCtrlSymbols =
          conf.dataSymPerSlot type - conf.srsCtrlSymbols :=
        sub8_eq (show conf.dataSymPerSlot type < 256 by omega) hsrs
      simp only [havail]
      rfl
  · rw [if_neg hen, if_neg fun h => hen h.1]
    exact hnone _

theorem UlSlot.srsPhase_of_no_srs (h : conf.Fits) (htype : type = .F ∨ type = .UL)
    {st : UlSchedState} (hzero : srsSyms conf type st = 0) :
    (UlSlot.start conf c type).srsPhase conf c type st = UlSlot.start conf c type := by
  have hadd := h.start_add_data htype
  have hsmall := h.small
  have havail : sub8 (conf.dataSymPerSlot type) 0 = conf.dataSymPerSlot type :=
    sub8_eq (by omega) (Nat.zero_le _)
  unfold UlSlot.srsPhase doScheduleSrs
  split
  · rename_i hen
    dsimp only
    split
    · exact congrArg (fun avail => { UlSlot.start conf c type with ulSymAvail := avail }) havail
    · rename_i hrnti
      rw [srsSyms, if_pos ⟨hen, hrnti⟩] at hzero
      rw [hzero]
      exact congrArg (fun avail => { UlSlot.start conf c type with ulSymAvail := avail }) havail
  · rfl

end Srs

/-! ## The RNTIs of the SRS -/

/-- The RNTIs of the SRS in a slot. -/
def srsServed (conf : SlotConf) (type : LteNrTddSlotType) (st : UlSchedState) : List Nat :=
  let rnti := srsRnti (conf.srsCounter type st.srsSlotCounter) st.ueMap
  if conf.srsEnabled type ∧ rnti ≠ 0 then List.replicate conf.srsCtrlSymbols rnti else []

/-- The symbols behind the SRS. -/
def SlotConf.symBehindSrs (conf : SlotConf) (type : LteNrTddSlotType) (st : UlSchedState) : Nat :=
  if conf.srsEnabled type then
    sub8 (conf.dataSymPerSlot type) (srsServed conf type st).length
  else conf.dataSymPerSlot type

/-- The RNTIs of allocations. -/
def allocRntis (allocs : List VarTtiAllocInfo) : List Nat := allocs.map fun alloc => alloc.dci.rnti

theorem allocRntis_appendCtrlSym (bandwidthInRbg symStart n : Nat) (mode : DciFormat) :
    allocRntis (appendCtrlSym bandwidthInRbg symStart n mode) = List.replicate n 0 := by
  rw [allocRntis, appendCtrlSym, List.map_map]
  exact List.map_const'.trans (by rw [List.length_range])

theorem UlSlot.srsSym_iterate_served (c : SchedConf) (rnti n : Nat) (slot : UlSlot) :
    allocRntis ((UlSlot.srsSym c rnti)^[n] slot).srs =
        List.replicate n rnti ++ allocRntis slot.srs ∧
      ((UlSlot.srsSym c rnti)^[n] slot).ctrl = slot.ctrl ∧
      ((UlSlot.srsSym c rnti)^[n] slot).harq = slot.harq ∧
      ((UlSlot.srsSym c rnti)^[n] slot).data = slot.data ∧
      ((UlSlot.srsSym c rnti)^[n] slot).ulSymAvail = slot.ulSymAvail := by
  induction n with
  | zero => exact ⟨rfl, rfl, rfl, rfl, rfl⟩
  | succ n ih =>
    rw [Function.iterate_succ_apply']
    obtain ⟨hsrs, hctrl, hharq, hdata, hsym⟩ := ih
    refine ⟨?_, hctrl, hharq, hdata, hsym⟩
    rw [List.replicate_succ, List.cons_append, ← hsrs]
    rfl

theorem UlSlot.allocRntis_eq (slot : UlSlot) :
    allocRntis slot.varTtiAllocInfo = allocRntis slot.data ++
      (allocRntis slot.harq ++ (allocRntis slot.srs ++ allocRntis slot.ctrl)) := by
  unfold UlSlot.varTtiAllocInfo allocRntis
  rw [List.map_append, List.map_append, List.map_append]

theorem UlSlot.srsPhase_served (conf : SlotConf) (c : SchedConf) (type : LteNrTddSlotType)
    (st : UlSchedState) :
    allocRntis ((UlSlot.start conf c type).srsPhase conf c type st).varTtiAllocInfo =
        srsServed conf type st ++ List.replicate conf.ulCtrlSymbols 0 ∧
      ((UlSlot.start conf c type).srsPhase conf c type st).ulSymAvail =
        conf.symBehindSrs type st ∧
      ((UlSlot.start conf c type).srsPhase conf c type st).data = [] ∧
      ((UlSlot.start conf c type).srsPhase conf c type st).harq = [] := by
  have hctrl : allocRntis (UlSlot.start conf c type).ctrl = List.replicate conf.ulCtrlSymbols 0 :=
    allocRntis_appendCtrlSym _ _ _ _
  unfold UlSlot.srsPhase SlotConf.symBehindSrs srsServed doScheduleSrs
  by_cases hen : conf.srsEnabled type = true
  · simp only [hen, if_true, true_and]
    by_cases hrnti : srsRnti (conf.srsCounter type st.srsSlotCounter) st.ueMap = 0
    · simp only [hrnti, if_true, ne_eq, not_true, if_false]
      exact ⟨hctrl, rfl, rfl, rfl⟩
    · simp only [hrnti, if_false, ne_eq, not_false_eq_true, if_true, List.length_replicate]
      obtain ⟨hsrs, hctrl', hharq, hdata, hsym⟩ := UlSlot.srsSym_iterate_served c
        (srsRnti (conf.srsCounter type st.srsSlotCounter) st.ueMap) conf.srsCtrlSymbols
        (UlSlot.start conf c type)
      refine ⟨?_, congrArg (sub8 · _) hsym, hdata, hharq⟩
      rw [UlSlot.allocRntis_eq, hdata, hharq, hctrl', hsrs, hctrl]
      exact congrArg (· ++ _) (List.append_nil _)
  · rw [if_neg hen, if_neg hen, if_neg fun h => hen h.1]
    exact ⟨hctrl, rfl, rfl, rfl⟩

/-! ## Retransmissions and data -/

section Phases

variable {conf : SlotConf} {c : SchedConf} {s : UlScheduler} {type : LteNrTddSlotType}
  {activeUl : ActiveUeMap} {st : UlSchedState} {slot : UlSlot}

@[simp]
theorem UlSlot.dataPhase_ctrl : (slot.dataPhase c s activeUl).ctrl = slot.ctrl := by
  unfold UlSlot.dataPhase
  dsimp only
  split <;> rfl

@[simp]
theorem UlSlot.dataPhase_srs : (slot.dataPhase c s activeUl).srs = slot.srs := by
  unfold UlSlot.dataPhase
  dsimp only
  split <;> rfl

theorem fresh_removeScheduled (allocs : List VarTtiAllocInfo)
    (hfresh : ∀ el ∈ activeUl, Fresh el.2) :
    ∀ el ∈ removeScheduled UeInfo.rnti allocs activeUl, Fresh el.2 :=
  mem_removeScheduled hfresh

/-- With the TDMA scheduler the data follows the starting point without gaps. -/
theorem UlSlot.tdma_dataPhase {p : Nat} (hpoint : slot.spoint = ⟨0, p⟩) (hdata : slot.data = [])
    (hn : 0 < c.ulAssignable) (hfresh : ∀ el ∈ activeUl, Fresh el.2)
    (hend : p + slot.ulSymAvail < 256) :
    ∃ e, Stacked p e ((slot.dataPhase c (tdmaUl c) activeUl).data.map allocBlock) ∧
      e ≤ p + slot.ulSymAvail ∧
      ((slot.dataPhase c (tdmaUl c) activeUl).data = [] ↔ ∀ ue ∈ assignedUes c slot.ulSymAvail
        (removeScheduled UeInfo.rnti slot.varTtiAllocInfo activeUl), ¬ Granted c ue) := by
  have hfresh' := fresh_removeScheduled slot.varTtiAllocInfo hfresh
  unfold UlSlot.dataPhase
  dsimp only
  split
  · rw [hpoint]
    obtain ⟨allocs, hdone, hle, hempty⟩ := tdma_doScheduleUlData hn hfresh' hend []
    have halloc := hdone.allocated.trans (List.append_nil _)
    refine ⟨_, ?_, hle, ?_⟩
    · rw [halloc]
      exact hdone.stacked
    · rw [halloc]
      exact hempty
  · rename_i h
    rw [hdata]
    refine ⟨p, Stacked.nil, Nat.le_add_right _ _,
      ⟨fun _ ue hue hgranted => hgranted.1 ?_, fun _ => rfl⟩⟩
    -- there are no symbols or no UEs
    have hue' :
        ue ∈ (removeScheduled UeInfo.rnti slot.varTtiAllocInfo activeUl).flatMap Prod.snd := by
      rcases Nat.eq_zero_or_pos slot.ulSymAvail with hzero | hpos
      · rw [hzero] at hue
        exact hue
      · have hnil : removeScheduled UeInfo.rnti slot.varTtiAllocInfo activeUl = [] := by
          by_contra hne
          exact h ⟨hpos, hne⟩
        rw [hnil, assignedUes] at hue
        have hlen := Service.isEmpty_run (s := symService c) slot.ulSymAvail []
        rw [List.isEmpty_nil, List.isEmpty_iff] at hlen
        rw [List.flatMap_nil, hlen] at hue
        cases hue
    exact (fresh_flatMap hfresh' ue hue').1

variable {xs : List Retx}

/-- Feedback for processes that were not received: the phases run to their end. -/
structure Nacks (ulHarq : HarqMap) (xs : List Retx) : Prop where
  pos : ∀ x ∈ xs, 0 < x.2.numSym
  nacked : ∀ x ∈ xs, Nacked ulHarq x
  once : (xs.map fun x => HarqInfo.key x.1).Nodup
  format : ∀ x ∈ xs, x.2.format = .UL

theorem ulPhases_eq (conf : SlotConf) (c : SchedConf) (s : UlScheduler) (type : LteNrTddSlotType)
    (activeUl : ActiveUeMap) (h : Nacks st.ulHarq xs)
    (hslot : (UlSlot.start conf c type).srsPhase conf c type st = slot) :
    ∃ r st', ulPhases conf c s type (xs.map Prod.fst) activeUl st =
        .ok ((slot.afterHarq r).dataPhase c s activeUl, st') ∧
      st'.ulAllocationMap = st.ulAllocationMap ∧
      r.varTtiAllocInfo =
        (placements { sym := slot.spoint.sym } (fitting slot.ulSymAvail xs)).reverse ∧
      r.place = placeAll { sym := slot.spoint.sym } (fitting slot.ulSymAvail xs) := by
  obtain ⟨r, hrun, halloc, -, hplace⟩ := UlHarqRound.run_eq xs (r :=
    { symAvail := slot.ulSymAvail
      place := { sym := slot.spoint.sym }
      ulHarq := st.ulHarq
      ulHarqToRetransmit := st.ulHarqToRetransmit
      numSymAlloc := slot.numSymAlloc }) h.pos h.nacked h.once
  unfold ulPhases
  simp only [hslot]
  rw [hrun]
  exact ⟨r, _, rfl, rfl, halloc.trans (List.append_nil _), hplace⟩

end Phases

/-! ## The phases are apart -/

/-- The symbols of an allocation, whatever its RBGs. -/
def symBlock (alloc : VarTtiAllocInfo) : Block := ⟨alloc.dci.symStart, alloc.dci.numSym, Set.univ⟩

section Apart

variable {conf : SlotConf} {c : SchedConf} {type : LteNrTddSlotType} {activeUl : ActiveUeMap}
  {st : UlSchedState} {xs : List Retx}

/-- The first SRS symbol is not in the uplink. -/
theorem srsAllocs_outside (h : conf.Fits) (htype : type = .F ∨ type = .UL) (rnti : Nat) {n : Nat}
    (hn : 0 < n) {bs : List Block} (hsub : ∀ b ∈ (srsAllocs c rnti (conf.startSym type) n).map
      symBlock, b ∈ bs) : ¬ Packed (conf.startSym type) conf.symbolsPerSlot bs := by
  intro hpacked
  have hmem : VarTtiAllocInfo.mk (srsDci c rnti (sub8 (conf.startSym type) 1)) [] ∈
      srsAllocs c rnti (conf.startSym type) n := by
    rw [srsAllocs, List.mem_reverse, List.mem_map]
    exact ⟨0, List.mem_range.mpr hn, rfl⟩
  have hin := hpacked.within _ (hsub _ (List.mem_map_of_mem hmem))
  change conf.startSym type ≤ sub8 (conf.startSym type) 1 ∧
    sub8 (conf.startSym type) 1 + 1 ≤ conf.symbolsPerSlot at hin
  have hadd := h.start_add_data htype
  have hsmall := h.small
  unfold sub8 at hin
  omega

/-- Without SRS the starting point and the symbols after the retransmissions. -/
theorem afterHarq_of_no_srs (h : conf.Fits) (htype : type = .F ∨ type = .UL)
    (hnacks : Nacks st.ulHarq xs)
    (hharq : HarqCloses (conf.startSym type) (conf.dataSymPerSlot type) xs) {r : UlHarqRound}
    (hplace : r.place = placeAll { sym := conf.startSym type }
      (fitting (conf.dataSymPerSlot type) xs)) :
    conf.startSym type ≤ r.place.sym ∧
      r.place.sym + sub8 (conf.dataSymPerSlot type) r.place.symUsed + 1 = conf.symbolsPerSlot ∧
      r.place.symUsed ≤ conf.dataSymPerSlot type := by
  have hadd := h.start_add_data htype
  have hsmall := h.small
  obtain ⟨-, hpoint, hused, -⟩ := hharq.counted hnacks.pos (by omega)
  rw [← hplace] at hpoint hused
  rw [sub8_eq (by omega) hused]
  omega

/-- The SRS, data and UL CTRL symbols are apart and in the uplink exactly when the slot has no
SRS symbol. -/
theorem ul_phases_apart_iff (h : conf.Fits) (htype : type = .F ∨ type = .UL)
    (hsrs : conf.srsCtrlSymbols ≤ conf.dataSymPerSlot type) (hn : 0 < c.ulAssignable)
    (hfresh : ∀ el ∈ activeUl, Fresh el.2) (hnacks : Nacks st.ulHarq xs)
    (hharq : HarqCloses (conf.startSym type) (conf.dataSymPerSlot type) xs) :
    ∃ slot st', ulPhases conf c (tdmaUl c) type (xs.map Prod.fst) activeUl st = .ok (slot, st') ∧
      (Packed (conf.startSym type) conf.symbolsPerSlot
        ((slot.data ++ (slot.srs ++ slot.ctrl)).map symBlock) ↔ srsSyms conf type st = 0) := by
  have hadd := h.start_add_data htype
  have hsmall := h.small
  by_cases hzero : srsSyms conf type st = 0
  · obtain ⟨r, st', hrun, -, -, hplace⟩ := ulPhases_eq conf c (tdmaUl c) type activeUl hnacks
      (UlSlot.srsPhase_of_no_srs c h htype hzero)
    refine ⟨_, st', hrun, iff_of_true ?_ hzero⟩
    obtain ⟨hle, hend, hused⟩ := afterHarq_of_no_srs h htype hnacks hharq hplace
    have hpoint : ((UlSlot.start conf c type).afterHarq r).spoint = ⟨0, r.place.sym⟩ := rfl
    obtain ⟨e, hstacked, he, -⟩ := UlSlot.tdma_dataPhase hpoint rfl hn hfresh
      (show r.place.sym + sub8 (conf.dataSymPerSlot type) r.place.symUsed < 256 by omega)
    change e ≤ r.place.sym + sub8 (conf.dataSymPerSlot type) r.place.symUsed at he
    have hdata := (hstacked.map_congr (f := allocBlock) (g := symBlock) (fun _ => rfl)
      fun _ => rfl).packed
    obtain ⟨ctrl, hctrl, hstart, hlen, -⟩ := h.ctrl c type
    have hlast : Packed (conf.symbolsPerSlot - 1) conf.symbolsPerSlot [symBlock ctrl] := by
      refine Packed.nil.cons_beside hstart.ge ?_ (by simp)
      change ctrl.dci.symStart + ctrl.dci.numSym ≤ _
      omega
    rw [UlSlot.dataPhase_srs, UlSlot.dataPhase_ctrl, List.map_append]
    change Packed _ _ (_ ++ (UlSlot.start conf c type).ctrl.map symBlock)
    rw [hctrl]
    have hsym := hstacked.le
    exact (hdata.mono_left hle |>.mono (show e ≤ conf.symbolsPerSlot - 1 by omega)).append hlast
      (by omega) (by omega)
  · obtain ⟨rnti, hphase⟩ := UlSlot.srsPhase_start c st h htype hsrs
    obtain ⟨r, st', hrun, -⟩ := ulPhases_eq conf c (tdmaUl c) type activeUl hnacks hphase
    refine ⟨_, st', hrun, iff_of_false ?_ hzero⟩
    refine srsAllocs_outside (c := c) h htype rnti (Nat.pos_of_ne_zero hzero) ?_
    intro b hb
    rw [List.map_append, List.map_append]
    refine List.mem_append_right _ (List.mem_append_left _ ?_)
    rw [UlSlot.dataPhase_srs]
    exact hb

end Apart

/-- The defaults, in a slot of 14 symbols. -/
def SlotConf.slot14 : SlotConf where
  symbolsPerSlot := 14
  dlCtrlSymbols := 1
  ulCtrlSymbols := 1
  srsCtrlSymbols := 1
  dlDataSymbolsF := 0
  enableSrsInFSlots := true
  enableSrsInUlSlots := true

theorem SlotConf.fits_slot14 : SlotConf.Fits .slot14 := ⟨rfl, by decide, by decide⟩

/-- Two RBGs of which all may be used, and four bytes for each of their RBs. -/
def SchedConf.twoRbgs : SchedConf where
  bandwidthInRbg := 2
  numRbPerRbg := 1
  ulNotchedRbgMask := []
  ulTbs := fun _ rbs => 4 * rbs

/-- One UE that sends its SRS in every second slot. -/
def UlSchedState.oneUe (srsSlotCounter : Nat) : UlSchedState where
  ueMap := [⟨1, 2, 0⟩]
  srsSlotCounter := srsSlotCounter
  ulHarq := fun _ => none

/-- Two UEs with data in two beams. -/
def twoActive : ActiveUeMap := [(0, [({ rnti := 1 }, 20)]), (1, [({ rnti := 2 }, 9)])]

theorem fresh_twoActive : ∀ el ∈ twoActive, Fresh el.2 := by decide

/-- In a slot without SRS both UEs send data behind each other. -/
theorem ul_phases_apart_iff_twoActive :
    ∃ slot st', ulPhases .slot14 .twoRbgs (tdmaUl .twoRbgs) .F [] twoActive (.oneUe 0) =
        .ok (slot, st') ∧
      Packed 1 14 ((slot.data ++ (slot.srs ++ slot.ctrl)).map symBlock) := by
  have hnacks : Nacks (UlSchedState.oneUe 0).ulHarq [] := ⟨by simp, by simp, by simp, by simp⟩
  obtain ⟨slot, st', hrun, hiff⟩ := ul_phases_apart_iff SlotConf.fits_slot14
    (Or.inl (rfl : LteNrTddSlotType.F = .F)) (by decide)
      (show 0 < SchedConf.twoRbgs.ulAssignable by decide) fresh_twoActive
    hnacks (Or.inl rfl)
  exact ⟨slot, st', hrun, hiff.mpr (by decide)⟩

/-- In the next UL slot the SRS symbol is 255. -/
theorem srs_behind_slot :
    ∃ slot st', ulPhases .slot14 .twoRbgs (tdmaUl .twoRbgs) .UL [] twoActive (.oneUe 1) =
        .ok (slot, st') ∧
      ¬ Packed 0 14 ((slot.data ++ (slot.srs ++ slot.ctrl)).map symBlock) := by
  refine ⟨_, _, rfl, ?_⟩
  intro hpacked
  have hin := hpacked.within ⟨255, 1, Set.univ⟩ ?_
  · exact absurd hin.2 (by decide)
  · rw [List.map_append, List.map_append]
    exact List.mem_append_right _ List.mem_cons_self

end Ns3.Nr.Sched
