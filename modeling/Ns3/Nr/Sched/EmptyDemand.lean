import Ns3.Nr.Sched.ActiveUe
import Ns3.Nr.Sched.DlHarqPlacement
import Ns3.Nr.Sched.DlSlot

/-!
# Slots in which all UEs of a beam are served

When the data phase starts, the UEs that have an allocation are those that send their SRS and
those with a retransmission. Which ones these are is known from the feedback and the DCIs of the
processes (`ulServed`, `dlServed`). The data phase has a demand for every beam exactly when no
beam has all its active UEs among them (`demand_defined_iff`).

One UE with data and a retransmission is enough for a demand of 0 (`demand_undefined`).
-/

namespace Ns3.Nr.Sched

open Lib

/-! ## What is served before the data -/

/-- The RNTI and the size of the DCI that a process holds. -/
def heldRetx (size : DciInfoElementTdma → Nat) (m : HarqMap) (key : Nat × Nat) :
    Option (Nat × Nat) :=
  match m.get key with
  | .ok p => p.dciElement.map fun dci => (dci.rnti, size dci)
  | .error _ => none

/-- The RNTIs of the uplink retransmissions that fit in the symbols, in order. -/
def ulRetx (held : Nat × Nat → Option (Nat × Nat)) : Nat → List UlHarqInfo → List Nat
  | _, [] => []
  | avail, fb :: fbs =>
    if avail = 0 then []
    else
      match held (HarqInfo.key fb) with
      | none => []
      | some (rnti, numSym) =>
        if numSym ≤ avail then rnti :: ulRetx held (avail - numSym) fbs else ulRetx held avail fbs

/-- The RNTIs of the downlink retransmissions of a beam that fit in its `B` RBGs of `k` symbols,
in order. A UE has one at most. -/
def dlRetx (B k : Nat) (held : Nat × Nat → Option (Nat × Nat)) :
    Nat → List Nat → List (Nat × Nat) → List Nat
  | _, _, [] => []
  | rbg, taken, key :: keys =>
    match held key with
    | none => []
    | some (rnti, units) =>
      if taken.contains rnti ∨ (B - rbg) * k < units then dlRetx B k held rbg taken keys
      else
        rnti :: dlRetx B k held ((rbg + rowsFor k units) % 2 ^ 32) (taken ++ [rnti]) keys

/-- The RNTIs with an allocation before the uplink data; CTRL has the RNTI 0. -/
def ulServed (conf : SlotConf) (type : LteNrTddSlotType) (fbs : List UlHarqInfo)
    (st : UlSchedState) : List Nat :=
  ulRetx (heldRetx DciInfoElementTdma.numSym st.ulHarq) (conf.symBehindSrs type st) fbs ++
    (srsServed conf type st ++ List.replicate conf.ulCtrlSymbols 0)

/-- The RNTIs with an allocation before the downlink data. -/
def dlServed (conf : SlotConf) (bandwidthInRbg : Nat) (type : LteNrTddSlotType)
    (beams : List (List (Nat × Nat))) (st : DlSchedState) : List Nat :=
  let numCtrl := if type = .S then conf.dlCtrlSymbols + conf.ulCtrlSymbols else conf.dlCtrlSymbols
  List.replicate numCtrl 0 ++
    beams.flatMap (dlRetx bandwidthInRbg (conf.dlSymAvail type / beams.length)
      (heldRetx dciUnits st.dlHarq) 0 [])

/-- `DoScheduleUl` up to the data phase. -/
def ulBeforeData (conf : SlotConf) (c : SchedConf) (type : LteNrTddSlotType)
    (ulHarqFeedback : List UlHarqInfo) (st : UlSchedState) : Result (UlSlot × UlSchedState) := do
  let slot := (UlSlot.start conf c type).srsPhase conf c type st
  let r ← UlHarqRound.run
    { symAvail := slot.ulSymAvail
      place := { sym := slot.spoint.sym }
      ulHarq := st.ulHarq
      ulHarqToRetransmit := st.ulHarqToRetransmit
      numSymAlloc := slot.numSymAlloc } ulHarqFeedback
  return (slot.afterHarq r,
    { st with
      srsSlotCounter := conf.srsCounter type st.srsSlotCounter
      ulHarq := r.ulHarq
      ulHarqToRetransmit := r.ulHarqToRetransmit })

theorem ulPhases_eq_dataPhase (conf : SlotConf) (c : SchedConf) (s : UlScheduler)
    (type : LteNrTddSlotType) (fbs : List UlHarqInfo) (activeUl : ActiveUeMap)
    (st : UlSchedState) :
    ulPhases conf c s type fbs activeUl st =
      (ulBeforeData conf c type fbs st).map fun r => (r.1.dataPhase c s activeUl, r.2) := by
  unfold ulPhases ulBeforeData
  dsimp only
  cases UlHarqRound.run _ fbs with
  | error e => rfl
  | ok r => rfl

/-! ## Uplink -/

section HeldRetx

variable {size : DciInfoElementTdma → Nat} {m : HarqMap} {key : Nat × Nat} {p q : HarqProcess}

theorem heldRetx_of_get (h : m.get key = .ok p) :
    heldRetx size m key = p.dciElement.map fun dci => (dci.rnti, size dci) := by
  rw [heldRetx, h]

theorem HarqMap.at_of_get (h : m.get key = .ok p) : m.At key p := by
  unfold HarqMap.get HarqMap.vector at h
  cases hv : m key.1 with
  | none =>
    rw [hv] at h
    cases h
  | some v =>
    rw [hv] at h
    change v.get key.2 = .ok p at h
    unfold HarqVector.get at h
    cases hp : v.procs[key.2]? with
    | none =>
      rw [hp] at h
      cases h
    | some p' =>
      rw [hp] at h
      cases h
      exact ⟨v, hv, hp⟩

/-- The other processes hold what they held. -/
theorem heldRetx_put_of_ne {other : Nat × Nat} (hne : other ≠ key) (q : HarqProcess) :
    heldRetx size (m.put key q) other = heldRetx size m other := by
  have hget : (m.put key q).get other = m.get other := by
    unfold HarqMap.get HarqMap.vector HarqMap.put
    by_cases hrnti : other.1 = key.1
    · rw [if_pos hrnti]
      cases hv : m other.1 with
      | none => rfl
      | some v =>
        change (v.put key.2 q).get other.2 = v.get other.2
        have hid : key.2 ≠ other.2 := fun heq => hne (Prod.ext hrnti heq.symm)
        unfold HarqVector.get HarqVector.put
        rw [List.getElem?_set_ne hid]
    · rw [if_neg hrnti]
  rw [heldRetx, hget, heldRetx]

theorem heldRetx_put_self (h : m.get key = .ok p) (q : HarqProcess) :
    heldRetx size (m.put key q) key = q.dciElement.map fun dci => (dci.rnti, size dci) :=
  heldRetx_of_get ((HarqMap.at_of_get h).put_self q).get

end HeldRetx

section Uplink

variable {r r' : UlHarqRound}

/-- A retransmission that fits gets its symbols, the others are passed over. The processes hold
what they held. -/
theorem UlHarqRound.step_served {fb : UlHarqInfo} (h : r.step fb = .ok r') :
    ∃ rnti numSym, heldRetx DciInfoElementTdma.numSym r.ulHarq (HarqInfo.key fb) =
        some (rnti, numSym) ∧
      heldRetx DciInfoElementTdma.numSym r'.ulHarq = heldRetx DciInfoElementTdma.numSym r.ulHarq ∧
      r'.symAvail = (if numSym ≤ r.symAvail then r.symAvail - numSym else r.symAvail) ∧
      allocRntis r'.varTtiAllocInfo =
        (if numSym ≤ r.symAvail then [rnti] else []) ++ allocRntis r.varTtiAllocInfo := by
  unfold UlHarqRound.step at h
  by_cases hok : HarqInfo.isReceivedOk fb = true
  · rw [if_pos hok] at h
    cases h
  · rw [if_neg hok] at h
    cases hget : r.ulHarq.get (HarqInfo.key fb) with
    | error e =>
      rw [hget] at h
      cases h
    | ok p =>
      rw [hget] at h
      dsimp only [bind, Except.bind] at h
      cases hdci : p.dciElement with
      | none =>
        rw [hdci] at h
        cases h
      | some dci =>
        rw [hdci] at h
        have hheld : heldRetx DciInfoElementTdma.numSym r.ulHarq (HarqInfo.key fb) = _ :=
          heldRetx_of_get hget
        rw [hdci] at hheld
        -- what is put back has the same RNTI and the same number of symbols
        have hput : ∀ q : HarqProcess, (q.dciElement.map fun d => (d.rnti, d.numSym)) =
            some (dci.rnti, dci.numSym) →
            heldRetx DciInfoElementTdma.numSym (r.ulHarq.put (HarqInfo.key fb) q) =
              heldRetx DciInfoElementTdma.numSym r.ulHarq := by
          intro q hq
          ext1 other
          by_cases hother : other = HarqInfo.key fb
          · rw [hother, heldRetx_put_self hget, hheld]
            exact hq
          · exact heldRetx_put_of_ne hother q
        refine ⟨dci.rnti, dci.numSym, hheld, ?_⟩
        dsimp only at h
        split at h
        · rename_i hfit
          cases h
          rw [if_pos hfit, if_pos hfit]
          exact ⟨hput _ rfl, rfl, rfl⟩
        · rename_i hfit
          cases h
          rw [if_neg hfit, if_neg hfit]
          exact ⟨hput _ rfl, rfl, rfl⟩

theorem UlHarqRound.run_served {fbs : List UlHarqInfo} (h : r.run fbs = .ok r') :
    allocRntis r'.varTtiAllocInfo =
      (ulRetx (heldRetx DciInfoElementTdma.numSym r.ulHarq) r.symAvail fbs).reverse ++
        allocRntis r.varTtiAllocInfo := by
  induction fbs generalizing r with
  | nil =>
    cases h
    rfl
  | cons fb fbs ih =>
    rw [UlHarqRound.run] at h
    rw [ulRetx]
    split at h
    · rename_i hpos
      rw [if_neg hpos.ne']
      cases hstep : r.step fb with
      | error e =>
        rw [hstep] at h
        cases h
      | ok r₁ =>
        rw [hstep] at h
        obtain ⟨rnti, numSym, hheld, hsame, hsym, halloc⟩ := UlHarqRound.step_served hstep
        rw [hheld, ih h, hsame, hsym, halloc]
        dsimp only
        split
        · rw [List.reverse_cons, List.append_assoc]
        · rfl
    · rename_i hzero
      cases h
      rw [if_pos (Nat.eq_zero_of_not_pos hzero)]
      rfl

/-- The allocations before the uplink data. -/
theorem ulBeforeData_served {conf : SlotConf} {c : SchedConf} {type : LteNrTddSlotType}
    {fbs : List UlHarqInfo} {st st' : UlSchedState} {slot : UlSlot}
    (h : ulBeforeData conf c type fbs st = .ok (slot, st')) :
    (∀ n, n ∈ allocRntis slot.varTtiAllocInfo ↔ n ∈ ulServed conf type fbs st) ∧
      slot.ulSymAvail < 256 := by
  obtain ⟨hsrs, hsym, hdata, hharq⟩ := UlSlot.srsPhase_served conf c type st
  unfold ulBeforeData at h
  generalize (UlSlot.start conf c type).srsPhase conf c type st = start at h hsrs hsym hdata hharq
  dsimp only at h
  cases hrun : UlHarqRound.run
      { symAvail := start.ulSymAvail
        place := { sym := start.spoint.sym }
        ulHarq := st.ulHarq
        ulHarqToRetransmit := st.ulHarqToRetransmit
        numSymAlloc := start.numSymAlloc } fbs with
  | error e =>
    rw [hrun] at h
    cases h
  | ok r =>
    rw [hrun] at h
    cases h
    have hretx := (UlHarqRound.run_served hrun).trans (List.append_nil _)
    rw [hsym] at hretx
    refine ⟨fun n => ?_, Nat.mod_lt _ (by norm_num)⟩
    have halloc : allocRntis (start.afterHarq r).varTtiAllocInfo =
        allocRntis r.varTtiAllocInfo ++ allocRntis start.varTtiAllocInfo := by
      rw [UlSlot.allocRntis_eq, UlSlot.allocRntis_eq start, hdata, hharq]
      change allocRntis start.data ++ _ = _
      rw [hdata]
      rfl
    rw [halloc, hretx, hsrs, ulServed]
    exact List.mem_append.trans ((or_congr_left List.mem_reverse).trans List.mem_append.symm)

end Uplink

/-! ## Downlink -/

section Downlink

variable {B k : Nat} {fbs : List DlHarqInfo} {r r' : DlHarqRound}

/-- What the processes of the keys add: the UEs that are served. The other processes hold what
they held. -/
structure DlHarqRound.Serves (served : List Nat) (keys : List (Nat × Nat)) (r r' : DlHarqRound) :
    Prop where
  allocs : allocRntis r'.varTtiAllocInfo = allocRntis r.varTtiAllocInfo ++ served
  allocated : r'.allocatedUe = r.allocatedUe ++ served
  rbg : served = [] → r'.startingPoint.rbg = r.startingPoint.rbg
  held : ∀ other ∉ keys, heldRetx dciUnits r'.dlHarq other = heldRetx dciUnits r.dlHarq other

theorem DlHarqRound.Serves.refl (r : DlHarqRound) : r.Serves [] [] r where
  allocs := (List.append_nil _).symm
  allocated := (List.append_nil _).symm
  rbg _ := rfl
  held _ _ := rfl

/-- A process is passed over, or its UE is served and the RBGs behind it are next. -/
theorem DlHarqRound.step_served {key : Nat × Nat} (h : r.step B k fbs key = .ok r') :
    ∃ rnti units, heldRetx dciUnits r.dlHarq key = some (rnti, units) ∧
      if r.allocatedUe.contains rnti ∨ (B - r.startingPoint.rbg) * k < units then
        r.Serves [] [key] r'
      else
        r.Serves [rnti] [key] r' ∧
          r'.startingPoint.rbg = (r.startingPoint.rbg + rowsFor k units) % 2 ^ 32 := by
  unfold DlHarqRound.step at h
  cases hget : r.dlHarq.get key with
  | error e =>
    rw [hget] at h
    cases h
  | ok p =>
    rw [hget] at h
    dsimp only [bind, Except.bind] at h
    cases hdci : p.dciElement with
    | none =>
      rw [hdci] at h
      cases h
    | some dci =>
      rw [hdci] at h
      have hheld : heldRetx dciUnits r.dlHarq key = _ := heldRetx_of_get hget
      rw [hdci] at hheld
      have hput : ∀ q, ∀ other ∉ [key], heldRetx dciUnits (r.dlHarq.put key q) other =
          heldRetx dciUnits r.dlHarq other :=
        fun q other hother => heldRetx_put_of_ne (fun heq => hother (List.mem_singleton.mpr heq)) q
      refine ⟨dci.rnti, dciUnits dci, hheld, ?_⟩
      dsimp only at h
      split at h
      · rename_i hout
        cases h
        rw [if_pos (show _ ∨ _ < dciUnits dci from hout)]
        exact ⟨(List.append_nil _).symm, (List.append_nil _).symm, fun _ => rfl, hput _⟩
      · rename_i hout
        rw [if_neg (show ¬ (_ ∨ _ < dciUnits dci) from hout)]
        split at h
        · cases h
        · generalize hrows : (if dci.rbgBitmask.count 1 * dci.numSym % k = 0 then
            dci.rbgBitmask.count 1 * dci.numSym / k
            else dci.rbgBitmask.count 1 * dci.numSym / k + 1) = rbgAssigned at h
          change (if _ < rbgAssigned then _ else _ : Result DlHarqRound) = _ at h
          split at h
          · cases h
          · cases h
            refine ⟨⟨?_, rfl, fun hnil => absurd hnil (List.cons_ne_nil _ _), hput _⟩, ?_⟩
            · exact List.map_append
            · rw [← hrows]
              rfl

theorem DlHarqRound.Serves.trans {served served' : List Nat} {keys keys' : List (Nat × Nat)}
    {r₁ : DlHarqRound} (h : r.Serves served keys r₁) (h' : r₁.Serves served' keys' r') :
    r.Serves (served ++ served') (keys ++ keys') r' where
  allocs := by rw [h'.allocs, h.allocs, List.append_assoc]
  allocated := by rw [h'.allocated, h.allocated, List.append_assoc]
  rbg := by
    intro hnil
    rw [List.append_eq_nil_iff] at hnil
    rw [h'.rbg hnil.2, h.rbg hnil.1]
  held := by
    intro other hother
    rw [List.mem_append, not_or] at hother
    rw [h'.held other hother.2, h.held other hother.1]

theorem dlRetx_congr {held held' : Nat × Nat → Option (Nat × Nat)} {keys : List (Nat × Nat)}
    (h : ∀ key ∈ keys, held key = held' key) (rbg : Nat) (taken : List Nat) :
    dlRetx B k held rbg taken keys = dlRetx B k held' rbg taken keys := by
  induction keys generalizing rbg taken with
  | nil => rfl
  | cons key keys ih =>
    have ih := ih fun other hother => h other (List.mem_cons_of_mem _ hother)
    rw [dlRetx, dlRetx, h key List.mem_cons_self]
    simp only [ih]

theorem DlHarqRound.steps_served {keys : List (Nat × Nat)} (hnd : keys.Nodup)
    (h : keys.foldlM (DlHarqRound.step B k fbs) r = .ok r') :
    r.Serves (dlRetx B k (heldRetx dciUnits r.dlHarq) r.startingPoint.rbg r.allocatedUe keys)
      keys r' := by
  induction keys generalizing r with
  | nil =>
    cases h
    exact .refl _
  | cons key keys ih =>
    obtain ⟨hnot, hnd⟩ := List.nodup_cons.mp hnd
    rw [List.foldlM_cons] at h
    cases hstep : r.step B k fbs key with
    | error e =>
      rw [hstep] at h
      cases h
    | ok r₁ =>
      rw [hstep] at h
      have hrest := ih hnd h
      obtain ⟨rnti, units, hheld, hserves⟩ := DlHarqRound.step_served hstep
      -- the processes of the other keys hold what they held
      have hsame : ∀ served, r.Serves served [key] r₁ → ∀ other ∈ keys,
          heldRetx dciUnits r₁.dlHarq other = heldRetx dciUnits r.dlHarq other := by
        intro served hs other hother
        exact hs.held other fun hmem => hnot (List.mem_singleton.mp hmem ▸ hother)
      rw [dlRetx, hheld]
      dsimp only
      split at hserves
      · rename_i hout
        have hpoint := hserves.rbg rfl
        rw [dlRetx_congr (hsame _ hserves), hpoint, hserves.allocated, List.append_nil] at hrest
        rw [if_pos hout]
        exact hserves.trans hrest
      · rename_i hout
        rw [dlRetx_congr (hsame _ hserves.1), hserves.2, hserves.1.allocated] at hrest
        rw [if_neg hout]
        exact hserves.1.trans hrest

/-- A beam starts at RBG 0 and leaves the starting point there. -/
theorem DlHarqRound.beam_served {keys : List (Nat × Nat)} (hnd : keys.Nodup)
    (hrbg : r.startingPoint.rbg = 0) (h : r.beam B k fbs keys = .ok r') :
    allocRntis r'.varTtiAllocInfo = allocRntis r.varTtiAllocInfo ++
        dlRetx B k (heldRetx dciUnits r.dlHarq) 0 [] keys ∧
      r'.startingPoint.rbg = 0 ∧
      ∀ other ∉ keys, heldRetx dciUnits r'.dlHarq other = heldRetx dciUnits r.dlHarq other := by
  unfold DlHarqRound.beam at h
  cases hsteps : keys.foldlM (DlHarqRound.step B k fbs) { r with allocatedUe := [] } with
  | error e =>
    rw [hsteps] at h
    cases h
  | ok r₁ =>
    rw [hsteps] at h
    have hserves := DlHarqRound.steps_served hnd hsteps
    rw [hrbg] at hserves
    change (if 0 < r₁.allocatedUe.length then _ else _ : Result DlHarqRound) = _ at h
    split at h
    · cases h
      exact ⟨hserves.allocs, rfl, hserves.held⟩
    · rename_i hnone
      cases h
      refine ⟨hserves.allocs, (hserves.rbg ?_).trans hrbg, hserves.held⟩
      have hlen := congrArg List.length hserves.allocated
      rw [List.nil_append] at hlen
      exact List.eq_nil_of_length_eq_zero (by omega)

theorem DlHarqRound.beams_served {beams : List (List (Nat × Nat))} (hnd : beams.flatten.Nodup)
    (hrbg : r.startingPoint.rbg = 0) (h : beams.foldlM (DlHarqRound.beam B k fbs) r = .ok r') :
    allocRntis r'.varTtiAllocInfo = allocRntis r.varTtiAllocInfo ++
      beams.flatMap (dlRetx B k (heldRetx dciUnits r.dlHarq) 0 []) := by
  induction beams generalizing r with
  | nil =>
    cases h
    exact (List.append_nil _).symm
  | cons keys beams ih =>
    rw [List.flatten_cons] at hnd
    obtain ⟨hnd₁, hnd₂, hdisj⟩ := List.nodup_append.mp hnd
    rw [List.foldlM_cons] at h
    cases hbeam : r.beam B k fbs keys with
    | error e =>
      rw [hbeam] at h
      cases h
    | ok r₁ =>
      rw [hbeam] at h
      obtain ⟨halloc, hrbg₁, hheld⟩ := DlHarqRound.beam_served hnd₁ hrbg hbeam
      rw [ih hnd₂ hrbg₁ h, halloc, List.append_assoc, List.flatMap_cons]
      congr 2
      rw [List.flatMap_def, List.flatMap_def]
      refine congrArg List.flatten (List.map_congr_left fun keys' hkeys' => ?_)
      apply dlRetx_congr
      intro key hkey
      apply hheld
      intro hmem
      exact hdisj key hmem key (List.mem_flatten.mpr ⟨keys', hkeys', hkey⟩) rfl

theorem DlSlot.start_served (conf : SlotConf) (bandwidthInRbg : Nat) (type : LteNrTddSlotType) :
    ∀ n, n ∈ allocRntis (DlSlot.start conf bandwidthInRbg type).varTtiAllocInfo ↔
      n ∈ List.replicate
        (if type = .S then conf.dlCtrlSymbols + conf.ulCtrlSymbols else conf.dlCtrlSymbols) 0 := by
  have hctrl : allocRntis (prependCtrlSym bandwidthInRbg 0 conf.dlCtrlSymbols .DL) =
      List.replicate conf.dlCtrlSymbols 0 := by
    rw [allocRntis, prependCtrlSym, List.map_reverse, ← allocRntis.eq_1,
      allocRntis_appendCtrlSym, List.reverse_replicate]
  intro n
  unfold DlSlot.start
  dsimp only
  split
  · rw [allocRntis, List.map_append, ← allocRntis.eq_1, ← allocRntis.eq_1, hctrl,
      allocRntis_appendCtrlSym, List.replicate_append_replicate]
  · rw [hctrl]

/-- The allocations before the downlink data. -/
theorem harqPhase_served {conf : SlotConf} {type : LteNrTddSlotType}
    {beams : List (List (Nat × Nat))} {st st' : DlSchedState} {slot : DlSlot}
    (hnd : beams.flatten.Nodup) (hsym : conf.dlDataSymbolsF < 256)
    (h : (DlSlot.start conf B type).harqPhase B fbs beams st = .ok (slot, st')) :
    (∀ n, n ∈ allocRntis slot.varTtiAllocInfo ↔ n ∈ dlServed conf B type beams st) ∧
      slot.dlSymAvail < 256 := by
  have hstart := DlSlot.start_served conf B type
  have havail : conf.dlSymAvail type < 256 := by
    unfold SlotConf.dlSymAvail
    split
    · split
      · exact Nat.mod_lt _ (by norm_num)
      · exact hsym
    · exact Nat.mod_lt _ (by norm_num)
  have hslot : (DlSlot.start conf B type).dlSymAvail = conf.dlSymAvail type ∧
      (DlSlot.start conf B type).spoint.rbg = 0 := by
    unfold DlSlot.start
    dsimp only
    split <;> exact ⟨rfl, rfl⟩
  unfold DlSlot.harqPhase at h
  generalize DlSlot.start conf B type = start at h hstart hslot
  unfold dlServed
  dsimp only
  split at h
  · cases hrun : scheduleDlHarq B start.dlSymAvail fbs beams
        { startingPoint := start.spoint
          dlHarq := st.dlHarq
          dlHarqToRetransmit := st.dlHarqToRetransmit
          varTtiAllocInfo := start.varTtiAllocInfo
          numSymAlloc := start.numSymAlloc } with
    | error e =>
      rw [hrun] at h
      cases h
    | ok r =>
      rw [hrun] at h
      cases h
      have hretx := DlHarqRound.beams_served hnd hslot.2 hrun
      refine ⟨fun n => ?_, Nat.mod_lt _ (by norm_num)⟩
      rw [hslot.1] at hretx
      dsimp only at hretx ⊢
      rw [hretx, List.mem_append, List.mem_append, hstart]
  · rename_i hnone
    cases h
    have hnil : beams = [] := List.eq_nil_of_length_eq_zero (Nat.eq_zero_of_not_pos hnone)
    refine ⟨fun n => ?_, hslot.1.trans_lt havail⟩
    rw [hnil, List.flatMap_nil, List.append_nil]
    exact hstart n

end Downlink

/-! ## The data phase -/

/-- When the data phase is reached, there is a demand for every beam exactly when each beam with
an active UE has one that is not served yet. A process has one feedback at most in the downlink. -/
theorem demand_defined_iff (minBeam : MinChoice) :
    (∀ (conf : SlotConf) (c : SchedConf) (type : LteNrTddSlotType) (fbs : List UlHarqInfo)
        (st st' : UlSchedState) (slot : UlSlot) (ueMap : List (SchedUe UeInfo))
        (activeUl : ActiveUeMap),
      (ueMap.map fun ue => ue.ue.rnti).Nodup → activeUl.Perm (computeActiveUe ueMap) →
      ulBeforeData conf c type fbs st = .ok (slot, st') → 0 < slot.ulSymAvail →
      removeScheduled UeInfo.rnti slot.varTtiAllocInfo activeUl ≠ [] →
      (DemandDefined minBeam slot.ulSymAvail
          (removeScheduled UeInfo.rnti slot.varTtiAllocInfo activeUl) ↔
        KeepsUes UeInfo.rnti (ulServed conf type fbs st) ueMap)) ∧
    (∀ (conf : SlotConf) (bandwidthInRbg : Nat) (type : LteNrTddSlotType) (fbs : List DlHarqInfo)
        (beams : List (List (Nat × Nat))) (st st' : DlSchedState) (slot : DlSlot)
        (ueMap : List (SchedUe DlUeInfo)) (activeDl : BeamMap DlUeInfo),
      (ueMap.map fun ue => ue.ue.rnti).Nodup → activeDl.Perm (computeActiveUe ueMap) →
      beams.flatten.Nodup → conf.dlDataSymbolsF < 256 →
      (DlSlot.start conf bandwidthInRbg type).harqPhase bandwidthInRbg fbs beams st =
        .ok (slot, st') → 0 < slot.dlSymAvail →
      removeScheduled DlUeInfo.rnti slot.varTtiAllocInfo activeDl ≠ [] →
      (DemandDefined minBeam slot.dlSymAvail
          (removeScheduled DlUeInfo.rnti slot.varTtiAllocInfo activeDl) ↔
        KeepsUes DlUeInfo.rnti (dlServed conf bandwidthInRbg type beams st) ueMap)) := by
  refine ⟨?_, ?_⟩
  · intro conf c type fbs st st' slot ueMap activeUl hrntis hperm hrun _ hne
    obtain ⟨hserved, hsym⟩ := ulBeforeData_served hrun
    exact demandDefined_iff minBeam hrntis hperm hsym hserved hne
  · intro conf B type fbs beams st st' slot ueMap activeDl hrntis hperm hnd hdata hrun _ hne
    obtain ⟨hserved, hsym⟩ := harqPhase_served hnd hdata hrun
    exact demandDefined_iff minBeam hrntis hperm hsym hserved hne

/-- Two processes, the first of which received a NACK for two symbols. -/
def halfNacked : HarqVector :=
  { maxSize := 2
    usedSize := 1
    order := [0, 1]
    procs := (nackedVector 1 0 2).procs ++ [{}] }

/-- A UE with 100 bytes in its LCG. -/
def hundredBytes (rnti : Nat) : SchedUe UeInfo :=
  { ue := { rnti := rnti }, beamConfId := 0, lcgSizes := [100], harq := halfNacked }

/-- The uplink of a UE with a block to repeat. -/
def UlSchedState.oneNacked : UlSchedState :=
  { UlSchedState.oneUe 0 with
    ulHarq := fun rnti => if rnti = 1 then some halfNacked else none }

/-- A second UE in the beam has no retransmission. -/
theorem demand_defined_iff_twoUes :
    ∃ slot st', ulBeforeData .slot14 .twoRbgs .UL [⟨1, 0, .NotOk⟩] .oneNacked = .ok (slot, st') ∧
      DemandDefined .first slot.ulSymAvail (removeScheduled UeInfo.rnti slot.varTtiAllocInfo
        (computeActiveUe [hundredBytes 1, hundredBytes 2])) := by
  refine ⟨_, _, rfl, ?_⟩
  refine ((demand_defined_iff .first).1 .slot14 .twoRbgs .UL [⟨1, 0, .NotOk⟩] .oneNacked _ _
    [hundredBytes 1, hundredBytes 2] _ (by decide) (List.Perm.refl _) rfl (by decide)
    (by decide)).mpr ?_
  intro ue hue hact
  refine ⟨hundredBytes 2, by simp, by decide, ?_, by decide⟩
  rcases List.mem_cons.mp hue with rfl | hue
  · rfl
  · rw [List.mem_singleton.mp hue]

/-- A UE alone in its beam is taken out for its retransmission. The beam stays, without a UE and
without data. -/
theorem demand_undefined :
    ∃ slot st', ulBeforeData .slot14 .twoRbgs .UL [⟨1, 0, .NotOk⟩] .oneNacked = .ok (slot, st') ∧
      0 < slot.ulSymAvail ∧
      removeScheduled UeInfo.rnti slot.varTtiAllocInfo (computeActiveUe [hundredBytes 1]) =
        [(0, [])] ∧
      ¬ DemandDefined .first slot.ulSymAvail (removeScheduled UeInfo.rnti slot.varTtiAllocInfo
        (computeActiveUe [hundredBytes 1])) := by
  refine ⟨_, _, rfl, by decide, by decide, ?_⟩
  intro h
  exact absurd h.bufTotal_pos (by decide)

end Ns3.Nr.Sched
