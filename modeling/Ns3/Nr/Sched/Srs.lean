import Ns3.Nr.Sched.UlSlot
import Ns3.Lib.Cyclic

/-!
# SRS offsets

All UEs send their SRS with the same periodicity, and each has an offset of its own.
`NrMacSchedulerSrsDefault` hands out the offsets from a shuffled list and takes them back
when a UE is released. When no offset is left it goes to the next standard periodicity and
gives every UE a new offset. `SrsState.Inv` says that the offsets of the UEs and those in the
list are together the numbers below the periodicity, each of them once.

`DoScheduleSrs` selects the UE whose offset is the slot counter modulo the periodicity. In a
period each UE has its turn once (`srs_each_once`), as long as the counter, a `uint32_t`, does
not wrap around in it: most standard periodicities do not divide `2 ^ 32`.
-/

namespace Ns3.Nr.Sched

/-! ## Embedding -/

/-- `StandardPeriodicity`. -/
def standardPeriodicity : List Nat :=
  [2, 4, 5, 8, 10, 16, 20, 32, 40, 64, 80, 160, 320, 640, 1280, 2560]

/-- `NrMacSchedulerSrsDefault`; the back of the vector is the end of the list. -/
structure SrsScheduler where
  periodicity : Nat := 0
  availableOffsetValues : List Nat := []
deriving DecidableEq, Repr

/-- `SrsPeriodicityAndOffset`; without an offset it is not valid. -/
structure SrsPeriodicityAndOffset where
  periodicity : Nat
  offset : Nat
deriving DecidableEq, Repr

def swapAt (l : List Nat) (i j : Nat) : List Nat := (l.toArray.swapIfInBounds i j).toList

/-- The loop that shuffles the offsets up to the position `i`; `draw i` is
`GetInteger (0, i)`. -/
def shuffle (draw : Nat → Nat) : (i : Nat) → List Nat → List Nat
  | 0, l => l
  | i + 1, l => shuffle draw i (swapAt l (i + 1) (draw (i + 1) % (i + 2)))

namespace SrsScheduler

/-- `AddUe`. -/
def addUe (s : SrsScheduler) : Option SrsPeriodicityAndOffset × SrsScheduler :=
  match s.availableOffsetValues.getLast? with
  | none => (none, s)
  | some offset => (some ⟨s.periodicity, offset⟩,
      { s with availableOffsetValues := s.availableOffsetValues.dropLast })

/-- `RemoveUe`. -/
def removeUe (s : SrsScheduler) (offset : Nat) : SrsScheduler :=
  { s with availableOffsetValues := s.availableOffsetValues ++ [offset] }

/-- `SetStartingPeriodicity`. -/
def setStartingPeriodicity (draw : Nat → Nat) (s : SrsScheduler) (start : Nat) :
    Result SrsScheduler :=
  if s.availableOffsetValues.length ≠ 0 then .error .abort
  else if start ∉ standardPeriodicity then .error .abort
  else .ok ⟨start, shuffle draw (start - 1) (List.range start)⟩

/-- `ReassignSrsValue`, in the order of the map. -/
def reassignSrsValue : List SrsUe → SrsScheduler → List SrsUe × SrsScheduler
  | [], s => ([], s)
  | ue :: ues, s =>
    let srs := s.addUe.1.getD ⟨0, 0⟩
    let r := reassignSrsValue ues s.addUe.2
    ({ ue with srsPeriodicity := srs.periodicity, srsOffset := srs.offset } :: r.1, r.2)

/-- `IncreasePeriodicity`; at the largest periodicity it only loses the offsets. -/
def increasePeriodicity (draw : Nat → Nat) (s : SrsScheduler) (ueMap : List SrsUe) :
    Result (List SrsUe × SrsScheduler) :=
  let s := { s with availableOffsetValues := [] }
  match standardPeriodicity.find? (s.periodicity < ·) with
  | none => .ok (ueMap, s)
  | some next => do
    let s ← s.setStartingPeriodicity draw next
    return reassignSrsValue ueMap s

end SrsScheduler

/-- The order of a map after an insertion. -/
structure MapOrder where
  arrange : List SrsUe → List SrsUe
  perm : ∀ ues, (arrange ues).Perm ues

/-- The UEs and their SRS scheduler. -/
structure SrsState where
  ueMap : List SrsUe := []
  schedulerSrs : SrsScheduler
deriving DecidableEq, Repr

/-- The part of `DoCschedUeConfigReq` that is about SRS. A UE that is registered already keeps
what it has. -/
def SrsState.cschedUeConfigReq (order : MapOrder) (draw : Nat → Nat) (rnti : Nat) (st : SrsState) :
    Result SrsState :=
  if st.ueMap.any fun ue => ue.rnti = rnti then .ok st
  else
    let ueMap := order.arrange (⟨rnti, 0, 0⟩ :: st.ueMap)
    match st.schedulerSrs.addUe with
    | (none, s) => do
      let r ← s.increasePeriodicity draw ueMap
      return ⟨r.1, r.2⟩
    | (some srs, s) =>
      .ok ⟨ueMap.map fun ue => if ue.rnti = rnti then ⟨rnti, srs.periodicity, srs.offset⟩ else ue,
        s⟩

/-- `DoCschedUeReleaseReq`. -/
def SrsState.cschedUeReleaseReq (rnti : Nat) (st : SrsState) : Result SrsState :=
  match st.ueMap.find? fun ue => ue.rnti = rnti with
  | none => .error .abort
  | some ue => .ok ⟨st.ueMap.eraseP fun ue => ue.rnti = rnti, st.schedulerSrs.removeUe ue.srsOffset⟩

/-- Registrations and releases; the order of the map and the random numbers are free. -/
inductive SrsRequest
  | config (order : MapOrder) (draw : Nat → Nat) (rnti : Nat)
  | release (rnti : Nat)

def SrsState.request (st : SrsState) : SrsRequest → Result SrsState
  | .config order draw rnti => st.cschedUeConfigReq order draw rnti
  | .release rnti => st.cschedUeReleaseReq rnti

def SrsState.run (st : SrsState) (reqs : List SrsRequest) : Result SrsState :=
  reqs.foldlM SrsState.request st

/-- The scheduler with the attribute `StartingPeriodicity`. -/
def SrsState.start (draw : Nat → Nat) (start : Nat) : Result SrsState := do
  return { schedulerSrs := ← ({} : SrsScheduler).setStartingPeriodicity draw start }

/-- The UE that `DoScheduleSrs` selects in the slot `i` after the counter was `c`. -/
def SrsState.selected (st : SrsState) (c i : Nat) : Nat :=
  srsRnti ((c + i + 1) % 2 ^ 32) st.ueMap

/-! ## Offsets -/

theorem swapAt_perm (l : List Nat) (i j : Nat) : (swapAt l i j).Perm l := by
  unfold swapAt Array.swapIfInBounds
  split
  · split
    · exact (Array.swap_perm _ _).toList
    · exact List.Perm.refl _
  · exact List.Perm.refl _

theorem shuffle_perm (draw : Nat → Nat) (i : Nat) (l : List Nat) : (shuffle draw i l).Perm l := by
  induction i generalizing l with
  | zero => exact List.Perm.refl l
  | succ i ih => exact (ih _).trans (swapAt_perm l _ _)

section Scheduler

variable {s : SrsScheduler} (draw : Nat → Nat)

theorem SrsScheduler.addUe_append {offsets : List Nat} {offset : Nat}
    (h : s.availableOffsetValues = offsets ++ [offset]) :
    s.addUe = (some ⟨s.periodicity, offset⟩, { s with availableOffsetValues := offsets }) := by
  unfold SrsScheduler.addUe
  rw [h, List.getLast?_concat, List.dropLast_concat]

theorem SrsScheduler.addUe_nil (h : s.availableOffsetValues = []) : s.addUe = (none, s) := by
  unfold SrsScheduler.addUe
  rw [h]
  rfl

/-- New offsets for all UEs. -/
structure Reassigned (ues : List SrsUe) (s : SrsScheduler) (r : List SrsUe × SrsScheduler) :
    Prop where
  rntis : r.1.map SrsUe.rnti = ues.map SrsUe.rnti
  periodicity : ∀ ue ∈ r.1, ue.srsPeriodicity = s.periodicity
  same : r.2.periodicity = s.periodicity
  offsets : (r.1.map SrsUe.srsOffset ++ r.2.availableOffsetValues).Perm s.availableOffsetValues

theorem SrsScheduler.reassigned (ues : List SrsUe)
    (h : ues.length ≤ s.availableOffsetValues.length) :
    Reassigned ues s (SrsScheduler.reassignSrsValue ues s) := by
  induction ues generalizing s with
  | nil => exact ⟨rfl, by simp [reassignSrsValue], rfl, List.Perm.refl _⟩
  | cons ue ues ih =>
    rw [List.length_cons] at h
    obtain ⟨offsets, offset, hsplit⟩ :=
      List.eq_nil_or_concat s.availableOffsetValues |>.resolve_left
      (List.ne_nil_of_length_pos (by omega))
    rw [List.concat_eq_append] at hsplit
    have hlen := congrArg List.length hsplit
    rw [List.length_append, List.length_singleton] at hlen
    have hrest := ih (s := { s with availableOffsetValues := offsets })
      (show ues.length ≤ offsets.length by omega)
    unfold SrsScheduler.reassignSrsValue
    rw [SrsScheduler.addUe_append hsplit]
    constructor
    · rw [List.map_cons, List.map_cons, hrest.rntis]
    · rw [List.forall_mem_cons]
      exact ⟨rfl, hrest.periodicity⟩
    · exact hrest.same
    · rw [List.map_cons, List.cons_append, hsplit]
      exact (hrest.offsets.cons offset).trans (List.perm_append_singleton offset offsets).symm

theorem SrsScheduler.setStartingPeriodicity_eq {start : Nat} (h : s.availableOffsetValues = [])
    (hstart : start ∈ standardPeriodicity) :
    s.setStartingPeriodicity draw start =
      .ok ⟨start, shuffle draw (start - 1) (List.range start)⟩ := by
  unfold SrsScheduler.setStartingPeriodicity
  rw [h, if_neg (by simp), if_neg (not_not.mpr hstart)]

/-- A larger periodicity has room for one more UE. -/
theorem SrsScheduler.increasePeriodicity_eq {ueMap : List SrsUe} (hmax : s.periodicity < 2560)
    (hlen : ueMap.length = s.periodicity + 1) :
    ∃ s' r, s.increasePeriodicity draw ueMap = .ok r ∧ s'.periodicity ∈ standardPeriodicity ∧
      s'.availableOffsetValues.Perm (List.range s'.periodicity) ∧ Reassigned ueMap s' r := by
  obtain ⟨next, hnext⟩ : ∃ next, standardPeriodicity.find? (s.periodicity < ·) = some next := by
    rw [← Option.isSome_iff_exists, List.find?_isSome]
    exact ⟨2560, by decide, decide_eq_true hmax⟩
  have hmem := List.mem_of_find?_eq_some hnext
  have hlt : s.periodicity < next := by simpa using List.find?_some hnext
  have hperm := shuffle_perm draw (next - 1) (List.range next)
  refine ⟨⟨next, shuffle draw (next - 1) (List.range next)⟩, _, ?_, hmem, hperm,
    SrsScheduler.reassigned ueMap ?_⟩
  · unfold SrsScheduler.increasePeriodicity
    dsimp only
    rw [hnext]
    dsimp only
    rw [SrsScheduler.setStartingPeriodicity_eq _ rfl hmem]
    rfl
  · change _ ≤ (shuffle draw (next - 1) (List.range next)).length
    rw [hperm.length_eq, List.length_range]
    omega

end Scheduler

/-! ## The invariant -/

/-- The UEs have the same standard periodicity, and their offsets and those in the list are the
numbers below it, each of them once. -/
structure SrsState.Inv (st : SrsState) : Prop where
  standard : st.schedulerSrs.periodicity ∈ standardPeriodicity
  rntis : (st.ueMap.map SrsUe.rnti).Nodup
  rnti_ne : ∀ ue ∈ st.ueMap, ue.rnti ≠ 0
  periodicity : ∀ ue ∈ st.ueMap, ue.srsPeriodicity = st.schedulerSrs.periodicity
  offsets : (st.ueMap.map SrsUe.srsOffset ++ st.schedulerSrs.availableOffsetValues).Perm
    (List.range st.schedulerSrs.periodicity)

/-- At most 2560 UEs are registered, none of them with the RNTI 0, and only registered UEs are
released. -/
def SrsState.Allowed (st : SrsState) : SrsRequest → Prop
  | .config _ _ rnti => rnti ≠ 0 ∧ ((∃ ue ∈ st.ueMap, ue.rnti = rnti) ∨ st.ueMap.length < 2560)
  | .release rnti => ∃ ue ∈ st.ueMap, ue.rnti = rnti

section Inv

variable {st : SrsState}

theorem SrsState.Inv.perm (h : st.Inv) {ueMap : List SrsUe} (hperm : ueMap.Perm st.ueMap) :
    SrsState.Inv { st with ueMap := ueMap } where
  standard := h.standard
  rntis := (hperm.map SrsUe.rnti).nodup_iff.mpr h.rntis
  rnti_ne ue hue := h.rnti_ne ue (hperm.mem_iff.mp hue)
  periodicity ue hue := h.periodicity ue (hperm.mem_iff.mp hue)
  offsets := ((hperm.map SrsUe.srsOffset).append_right _).trans h.offsets

theorem SrsState.Inv.length (h : st.Inv) :
    st.ueMap.length + st.schedulerSrs.availableOffsetValues.length =
      st.schedulerSrs.periodicity := by
  have := h.offsets.length_eq
  rwa [List.length_append, List.length_map, List.length_range] at this

/-- A UE that is registered takes an offset, or all UEs get new ones. -/
theorem SrsState.Inv.config (h : st.Inv) {order : MapOrder} {draw : Nat → Nat} {rnti : Nat}
    (hallowed : st.Allowed (.config order draw rnti)) :
    ∃ st', st.cschedUeConfigReq order draw rnti = .ok st' ∧ st'.Inv := by
  obtain ⟨hrnti, hroom⟩ := hallowed
  unfold SrsState.cschedUeConfigReq
  by_cases hreg : (st.ueMap.any fun ue => ue.rnti = rnti) = true
  · rw [if_pos hreg]
    exact ⟨st, rfl, h⟩
  · rw [if_neg hreg]
    have hnew : ∀ ue ∈ st.ueMap, ue.rnti ≠ rnti := by
      intro ue hue heq
      exact hreg (List.any_eq_true.mpr ⟨ue, hue, decide_eq_true heq⟩)
    replace hroom : st.ueMap.length < 2560 := by
      rcases hroom with ⟨ue, hue, heq⟩ | hlt
      · exact absurd heq (hnew ue hue)
      · exact hlt
    have hnodup : (rnti :: st.ueMap.map SrsUe.rnti).Nodup := by
      refine List.nodup_cons.mpr ⟨?_, h.rntis⟩
      intro hmem
      obtain ⟨ue, hue, heq⟩ := List.mem_map.mp hmem
      exact hnew ue hue heq
    have hperm := order.perm (⟨rnti, 0, 0⟩ :: st.ueMap)
    have hlen := h.length
    rcases List.eq_nil_or_concat st.schedulerSrs.availableOffsetValues with hnil | hsplit
    · -- all offsets are taken
      rw [SrsScheduler.addUe_nil hnil]
      rw [hnil, List.length_nil] at hlen
      obtain ⟨s', r, hok, hstandard, havail, hre⟩ := SrsScheduler.increasePeriodicity_eq
        draw (show st.schedulerSrs.periodicity < 2560 by omega)
        (show (order.arrange (⟨rnti, 0, 0⟩ :: st.ueMap)).length = _ by
          rw [hperm.length_eq, List.length_cons]
          omega)
      dsimp only
      rw [hok]
      have hrntis : (r.1.map SrsUe.rnti).Perm (rnti :: st.ueMap.map SrsUe.rnti) := by
        rw [hre.rntis]
        exact hperm.map SrsUe.rnti
      refine ⟨_, rfl, ?_⟩
      constructor
      · exact hre.same.symm ▸ hstandard
      · exact hrntis.nodup_iff.mpr hnodup
      · intro ue hue
        have hmem := hrntis.mem_iff.mp (List.mem_map_of_mem hue)
        rcases List.mem_cons.mp hmem with heq | hmem
        · rw [heq]
          exact hrnti
        · obtain ⟨old, hold, heq⟩ := List.mem_map.mp hmem
          rw [← heq]
          exact h.rnti_ne old hold
      · intro ue hue
        rw [hre.periodicity ue hue]
        exact hre.same.symm
      · change (_ ++ r.2.availableOffsetValues).Perm (List.range r.2.periodicity)
        rw [hre.same]
        exact hre.offsets.trans havail
    · obtain ⟨offsets, offset, hsplit⟩ := hsplit
      rw [List.concat_eq_append] at hsplit
      rw [SrsScheduler.addUe_append hsplit]
      dsimp only
      refine ⟨_, rfl, ?_⟩
      have hcons : SrsState.Inv
          ⟨⟨rnti, st.schedulerSrs.periodicity, offset⟩ :: st.ueMap,
            { st.schedulerSrs with availableOffsetValues := offsets }⟩ := by
        constructor
        · exact h.standard
        · exact hnodup
        · exact List.forall_mem_cons.mpr ⟨hrnti, h.rnti_ne⟩
        · exact List.forall_mem_cons.mpr ⟨rfl, h.periodicity⟩
        · have hoffsets := h.offsets
          rw [hsplit] at hoffsets
          refine List.Perm.trans ?_ hoffsets
          rw [List.map_cons, List.cons_append, ← List.append_assoc]
          exact (List.perm_append_singleton offset _).symm
      apply hcons.perm
      refine (hperm.map _).trans ?_
      rw [List.map_cons, if_pos rfl]
      refine List.Perm.of_eq (congrArg _ ?_)
      conv_rhs => rw [← List.map_id st.ueMap]
      apply List.map_congr_left
      intro ue hue
      exact if_neg (hnew ue hue)

/-- A UE that is released gives its offset back. -/
theorem SrsState.Inv.release (h : st.Inv) {rnti : Nat} (hallowed : st.Allowed (.release rnti)) :
    ∃ st', st.cschedUeReleaseReq rnti = .ok st' ∧ st'.Inv := by
  obtain ⟨ue, hue, heq⟩ := hallowed
  unfold SrsState.cschedUeReleaseReq
  obtain ⟨found, hfound⟩ : ∃ found, (st.ueMap.find? fun ue => ue.rnti = rnti) = some found := by
    rw [← Option.isSome_iff_exists, List.find?_isSome]
    exact ⟨ue, hue, decide_eq_true heq⟩
  rw [hfound]
  refine ⟨_, rfl, ?_⟩
  obtain ⟨-, before, after, hsplit, hbefore⟩ := List.find?_eq_some_iff_append.mp hfound
  have herase : (st.ueMap.eraseP fun ue => ue.rnti = rnti) = before ++ after := by
    rw [hsplit, List.eraseP_append_right _ (by simpa using hbefore),
      List.eraseP_cons_of_pos (by simpa using List.find?_some hfound)]
  have hperm : st.ueMap.Perm (found :: (before ++ after)) := by
    rw [hsplit]
    exact List.perm_middle
  have hcons := h.perm hperm.symm
  rw [herase]
  constructor
  · exact h.standard
  · exact (List.nodup_cons.mp hcons.rntis).2
  · exact fun ue hue => hcons.rnti_ne ue (List.mem_cons_of_mem _ hue)
  · exact fun ue hue => hcons.periodicity ue (List.mem_cons_of_mem _ hue)
  · refine List.Perm.trans ?_ hcons.offsets
    change (_ ++ (st.schedulerSrs.availableOffsetValues ++ [found.srsOffset])).Perm _
    rw [List.map_cons, ← List.append_assoc]
    exact List.perm_append_singleton found.srsOffset _

/-- Every request of the run is allowed in the state it is made in. -/
def SrsState.AllowedRun (st : SrsState) : List SrsRequest → Prop
  | [] => True
  | req :: reqs => st.Allowed req ∧ ∀ st', st.request req = .ok st' → st'.AllowedRun reqs

theorem SrsState.Inv.run (h : st.Inv) {reqs : List SrsRequest} (hallowed : st.AllowedRun reqs) :
    ∃ st', st.run reqs = .ok st' ∧ st'.Inv := by
  induction reqs generalizing st with
  | nil => exact ⟨st, rfl, h⟩
  | cons req reqs ih =>
    have hstep : ∃ st', st.request req = .ok st' ∧ st'.Inv := by
      cases req with
      | config order draw rnti => exact h.config hallowed.1
      | release rnti => exact h.release hallowed.1
    obtain ⟨st₁, hreq, hinv⟩ := hstep
    obtain ⟨st₂, hrun, hinv'⟩ := ih hinv (hallowed.2 st₁ hreq)
    refine ⟨st₂, ?_, hinv'⟩
    rw [SrsState.run, List.foldlM_cons, hreq]
    exact hrun

theorem SrsState.start_inv (draw : Nat → Nat) {start : Nat} (h : start ∈ standardPeriodicity) :
    ∃ st, SrsState.start draw start = .ok st ∧ st.Inv := by
  unfold SrsState.start
  rw [SrsScheduler.setStartingPeriodicity_eq _ rfl h]
  refine ⟨_, rfl, h, List.nodup_nil, by simp, by simp, ?_⟩
  exact shuffle_perm draw _ _

end Inv

/-! ## Turns -/

section Turns

variable {ues : List SrsUe} {ue : SrsUe} {offset : Nat}

theorem foldl_select_of_none (rnti : Nat) (h : ∀ ue ∈ ues, ue.srsOffset ≠ offset) :
    ues.foldl (fun rnti ue => if ue.srsOffset = offset then ue.rnti else rnti) rnti = rnti := by
  induction ues generalizing rnti with
  | nil => rfl
  | cons ue ues ih =>
    rw [List.foldl_cons, if_neg (h ue List.mem_cons_self)]
    exact ih rnti fun u hu => h u (List.mem_cons_of_mem _ hu)

theorem foldl_select (rnti : Nat) (hnodup : (ues.map SrsUe.srsOffset).Nodup) (hue : ue ∈ ues) :
    ues.foldl (fun rnti u => if u.srsOffset = ue.srsOffset then u.rnti else rnti) rnti =
      ue.rnti := by
  obtain ⟨before, after, rfl⟩ := List.append_of_mem hue
  rw [List.map_append, List.map_cons, List.nodup_append, List.nodup_cons] at hnodup
  rw [List.foldl_append, List.foldl_cons, if_pos rfl]
  apply foldl_select_of_none
  intro u hu heq
  exact hnodup.2.1.1 (heq ▸ List.mem_map_of_mem hu)

variable {st : SrsState}

theorem SrsState.Inv.nodup_offsets (h : st.Inv) : (st.ueMap.map SrsUe.srsOffset).Nodup := by
  have hnodup := h.offsets.nodup_iff.mpr List.nodup_range
  exact (List.nodup_append.mp hnodup).1

theorem SrsState.Inv.offset_lt (h : st.Inv) (hue : ue ∈ st.ueMap) :
    ue.srsOffset < st.schedulerSrs.periodicity := by
  have hmem := h.offsets.mem_iff.mp (List.mem_append_left _ (List.mem_map_of_mem hue))
  exact List.mem_range.mp hmem

/-- A UE is selected exactly when the counter is at its offset. -/
theorem SrsState.Inv.srsRnti_eq_iff (h : st.Inv) (hue : ue ∈ st.ueMap) (counter : Nat) :
    srsRnti counter st.ueMap = ue.rnti ↔ counter % st.schedulerSrs.periodicity = ue.srsOffset := by
  have hselect : srsRnti counter st.ueMap = st.ueMap.foldl (fun rnti u =>
      if u.srsOffset = counter % st.schedulerSrs.periodicity then u.rnti else rnti) 0 := by
    unfold srsRnti
    split
    · rename_i hnil
      rw [hnil]
      rfl
    · rename_i first rest hcons
      rw [h.periodicity first (hcons ▸ List.mem_cons_self)]
  rw [hselect]
  constructor
  · intro heq
    by_cases hsome : ∃ u ∈ st.ueMap, u.srsOffset = counter % st.schedulerSrs.periodicity
    · obtain ⟨u, hu, hoffset⟩ := hsome
      rw [← hoffset, foldl_select 0 h.nodup_offsets hu] at heq
      rw [← hoffset, List.inj_on_of_nodup_map h.rntis hu hue heq]
    · rw [foldl_select_of_none] at heq
      · exact absurd heq.symm (h.rnti_ne ue hue)
      · intro u hu hoffset
        exact hsome ⟨u, hu, hoffset⟩
  · intro heq
    rw [heq]
    exact foldl_select 0 h.nodup_offsets hue

/-- A period in which the counter does not wrap around, or whose length divides its range. -/
def SrsState.Steady (st : SrsState) (c : Nat) : Prop :=
  c + st.schedulerSrs.periodicity < 2 ^ 32 ∨ st.schedulerSrs.periodicity ∣ 2 ^ 32

theorem SrsState.Inv.countP_selected (h : st.Inv) (hue : ue ∈ st.ueMap) {c : Nat}
    (hsteady : st.Steady c) :
    ((List.range st.schedulerSrs.periodicity).countP fun i => st.selected c i = ue.rnti) = 1 := by
  rw [← Lib.Cyclic.countP_range_add_mod (h.offset_lt hue) (c + 1)]
  apply List.countP_congr
  intro i hi
  rw [decide_eq_true_eq, decide_eq_true_eq, SrsState.selected, h.srsRnti_eq_iff hue,
    Nat.add_right_comm c 1 i]
  rcases hsteady with hlt | hdvd
  · have := List.mem_range.mp hi
    rw [Nat.mod_eq_of_lt (show c + i + 1 < 2 ^ 32 by omega)]
  · rw [Nat.mod_mod_of_dvd _ hdvd]

end Turns

/-- After every run of registrations and releases the offsets are a partition of the period, and
in a steady period each UE is selected once. -/
theorem srs_each_once {start : Nat} (hstart : start ∈ standardPeriodicity) (draw : Nat → Nat)
    {reqs : List SrsRequest}
    (hallowed : ∀ st, SrsState.start draw start = .ok st → st.AllowedRun reqs) :
    ∃ st st', SrsState.start draw start = .ok st ∧ st.run reqs = .ok st' ∧ st'.Inv ∧
      ∀ c, st'.Steady c → ∀ ue ∈ st'.ueMap,
        ((List.range st'.schedulerSrs.periodicity).countP fun i => st'.selected c i = ue.rnti) =
          1 := by
  obtain ⟨st, hst, hinv⟩ := SrsState.start_inv draw hstart
  obtain ⟨st', hrun, hinv'⟩ := hinv.run (hallowed st hst)
  exact ⟨st, st', hst, hrun, hinv', fun c hsteady ue hue => hinv'.countP_selected hue hsteady⟩

/-- The newest UE first. -/
def MapOrder.newest : MapOrder := ⟨id, fun _ => List.Perm.refl _⟩

/-- Two UEs are registered and the first one is released. -/
theorem srs_each_once_released :
    ∃ st st', SrsState.start (fun _ => 0) 2 = .ok st ∧
      st.run [.config .newest (fun _ => 0) 1, .config .newest (fun _ => 0) 2, .release 1] =
        .ok st' ∧ st'.Inv ∧ st'.Steady 0 ∧ ∀ ue ∈ st'.ueMap,
        ((List.range st'.schedulerSrs.periodicity).countP fun i => st'.selected 0 i = ue.rnti) =
          1 := by
  have hallowed : ∀ st, SrsState.start (fun _ => 0) 2 = .ok st → st.AllowedRun
      [.config .newest (fun _ => 0) 1, .config .newest (fun _ => 0) 2, .release 1] := by
    intro st hst
    cases hst
    refine ⟨⟨by decide, Or.inr (by decide)⟩, ?_⟩
    intro st₁ h₁
    cases h₁
    refine ⟨⟨by decide, Or.inr (by decide)⟩, ?_⟩
    intro st₂ h₂
    cases h₂
    exact ⟨⟨_, List.mem_cons_of_mem _ List.mem_cons_self, rfl⟩, fun _ _ => trivial⟩
  obtain ⟨st, st', hst, hrun, hinv, hsteady⟩ := srs_each_once (by decide) (fun _ => 0) hallowed
  have h2 : st'.Steady 0 := by
    cases hst
    cases hrun
    exact Or.inl (by decide)
  exact ⟨st, st', hst, hrun, hinv, h2, hsteady 0 h2⟩

/-- When the counter wraps around, the only UE is selected in two slots of a period of five. -/
theorem srs_selected_twice :
    ∃ st st', SrsState.start (fun _ => 0) 5 = .ok st ∧
      st.run [.config .newest (fun _ => 0) 1] = .ok st' ∧
      st'.ueMap = [⟨1, 5, 0⟩] ∧ st'.schedulerSrs.periodicity = 5 ∧
      ((List.range 5).countP fun i => st'.selected (2 ^ 32 - 2) i = 1) = 2 := by
  refine ⟨_, _, rfl, rfl, rfl, rfl, ?_⟩
  decide

end Ns3.Nr.Sched
