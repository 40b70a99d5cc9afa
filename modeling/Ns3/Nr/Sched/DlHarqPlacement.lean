import Ns3.Nr.Sched.HarqRr
import Ns3.Lib.FirstFit
import Mathlib.Data.List.Nodup

/-!
# The placement of downlink retransmissions

In each beam `ScheduleDlHarq` lays the retransmissions first fit into the RBGs, from RBG 0 on and
over all symbols of the beam (`steps_placed`); a beam with a retransmission moves the symbol on
(`scheduleDlHarq_places`). So every process is repeated or buffered, the DCIs share no cell and none
is smaller than the one it repeats. The notched RBGs are not looked at: they are respected if and
only if the first RBGs, as many as the beams fill, are not notched (`scheduleDlHarq_done_iff`).
-/

namespace Ns3.Nr.Sched

open Lib

/-! ## The steps of a beam -/

/-- The RBG x symbol units of a DCI. -/
def dciUnits (dci : DciInfoElementTdma) : Nat :=
  dci.rbgBitmask.count 1 * dci.numSym

/-- A process to repeat: it has its feedback, and its DCI has the mask of the bandwidth. -/
structure ActiveDlHarq (B : Nat) (fbs : List DlHarqInfo) (proc : Nat × Nat → HarqProcess)
    (dci : Nat × Nat → DciInfoElementTdma) (key : Nat × Nat) : Prop where
  status : (proc key).status = .RECEIVED_FEEDBACK
  element : (proc key).dciElement = some (dci key)
  rnti : (dci key).rnti = key.1
  harqProcess : (dci key).harqProcess = key.2
  mask : (dci key).rbgBitmask.length = B
  units : 0 < dciUnits (dci key)
  mcs : (dci key).mcs.length = (dci key).tbSize.length
  rv : (dci key).rv.length = (dci key).tbSize.length
  rv_lt : ∀ v ∈ (dci key).rv, v < 255
  feedback : ∃ fb ∈ fbs, HarqInfo.key fb = key

/-- The DCI of the retransmission at symbol `sym` and RBG `rbg`, over `k` symbols. -/
def retxAt (k sym rbg : Nat) (nack : List Nat) (dci : DciInfoElementTdma) : DciInfoElementTdma :=
  { retxDlDci dci nack sym k with
    rbgBitmask := (List.range dci.rbgBitmask.length).map fun i =>
      if rbg ≤ i ∧ i < rbg + rowsFor k (dciUnits dci) then 1 else 0 }

/-- The first feedback of a process. -/
def feedbackOf (fbs : List DlHarqInfo) (key : Nat × Nat) : Option DlHarqInfo :=
  fbs.find? fun fb => fb.rnti = key.1 ∧ fb.harqProcessId = key.2

section Beam

variable {B k : Nat} {fbs : List DlHarqInfo} {proc : Nat × Nat → HarqProcess}
  {dci : Nat × Nat → DciInfoElementTdma} {key : Nat × Nat} {keys : List (Nat × Nat)}
  {r : DlHarqRound}

theorem bufferHARQFeedback_eq (buf : List DlHarqInfo) :
    bufferHARQFeedback fbs buf key.1 key.2 = buf ++ (feedbackOf fbs key).toList := by
  unfold bufferHARQFeedback feedbackOf
  split
  · next h =>
    rw [h]
    rfl
  · next h =>
    rw [h]
    exact (List.append_nil buf).symm

/-- A process that has no place. -/
theorem DlHarqRound.step_buffered (h : ActiveDlHarq B fbs proc dci key)
    (hp : r.dlHarq.At key (proc key))
    (hout : key.1 ∈ r.allocatedUe ∨ (B - r.startingPoint.rbg) * k < dciUnits (dci key)) :
    r.step B k fbs key = .ok { r with
      dlHarq := r.dlHarq.put key { proc key with
        status := .WAITING_FEEDBACK
        timer := 0
        dciElement := some (dci key) }
      dlHarqToRetransmit := r.dlHarqToRetransmit ++ (feedbackOf fbs key).toList } := by
  unfold DlHarqRound.step
  rw [hp.get]
  dsimp only [bind, Except.bind]
  rw [h.element]
  dsimp only
  rw [if_pos, h.rnti, h.harqProcess, bufferHARQFeedback_eq]
  · rfl
  · rw [h.rnti, List.contains_iff_mem]
    exact hout

/-- A process that has a place. -/
theorem DlHarqRound.step_active (h : ActiveDlHarq B fbs proc dci key)
    (hp : r.dlHarq.At key (proc key)) (hB : B < 2 ^ 32) (hrbg : r.startingPoint.rbg ≤ B)
    (hfit : ¬(key.1 ∈ r.allocatedUe ∨ (B - r.startingPoint.rbg) * k < dciUnits (dci key))) :
    r.step B k fbs key = .ok { r with
      startingPoint :=
        ⟨r.startingPoint.rbg + rowsFor k (dciUnits (dci key)), r.startingPoint.sym⟩
      dlHarq := r.dlHarq.put key { proc key with
        status := .WAITING_FEEDBACK
        timer := 0
        dciElement := some (retxAt k r.startingPoint.sym r.startingPoint.rbg
          (proc key).nackStreamIndexes (dci key)) }
      varTtiAllocInfo := r.varTtiAllocInfo ++ [⟨retxAt k r.startingPoint.sym r.startingPoint.rbg
        (proc key).nackStreamIndexes (dci key), (proc key).rlcPduInfo⟩]
      allocatedUe := r.allocatedUe ++ [key.1] } := by
  have hroom : dciUnits (dci key) ≤ (B - r.startingPoint.rbg) * k :=
    Nat.le_of_not_lt fun hlt => hfit (Or.inr hlt)
  have hk : k ≠ 0 := by
    rintro rfl
    have := h.units
    omega
  have hrows := rowsFor_le hroom
  unfold DlHarqRound.step
  rw [hp.get]
  dsimp only [bind, Except.bind]
  rw [h.element]
  dsimp only
  rw [if_neg, if_neg hk]
  · change (if (dci key).rbgBitmask.length < rowsFor k (dciUnits (dci key)) then _ else _ :
      Result DlHarqRound) = _
    rw [h.mask, if_neg (by omega), h.rnti]
    have hmod : (r.startingPoint.rbg + rowsFor k (dciUnits (dci key))) % 2 ^ 32 =
        r.startingPoint.rbg + rowsFor k (dciUnits (dci key)) := Nat.mod_eq_of_lt (by omega)
    congr 1
    congr 1
    exact congrArg (fun n => (⟨n, r.startingPoint.sym⟩ : PointInFTPlane)) hmod
  · rw [h.rnti, List.contains_iff_mem]
    exact hfit

/-- The retransmission of a process that has a place. -/
def retxOf (k : Nat) (proc : Nat × Nat → HarqProcess) (dci : Nat × Nat → DciInfoElementTdma)
    (sym : Nat) (place : (Nat × Nat) × Option Nat) : Option VarTtiAllocInfo :=
  place.2.map fun rbg =>
    ⟨retxAt k sym rbg (proc place.1).nackStreamIndexes (dci place.1), (proc place.1).rlcPduInfo⟩

/-- The feedback of a process that has none. -/
def bufferOf (fbs : List DlHarqInfo) (place : (Nat × Nat) × Option Nat) : Option DlHarqInfo :=
  if place.2.isSome then none else feedbackOf fbs place.1

/-- The places of the processes of a beam. -/
def beamPlaces (B k : Nat) (dci : Nat × Nat → DciInfoElementTdma) (rbg : Nat) (taken : List Nat)
    (keys : List (Nat × Nat)) : List ((Nat × Nat) × Option Nat) :=
  firstFit B k Prod.fst (fun key => dciUnits (dci key)) rbg taken keys

/-- The RBGs that the retransmissions of a beam fill. -/
def beamRbgs (B k : Nat) (dci : Nat × Nat → DciInfoElementTdma) (rbg : Nat) (taken : List Nat)
    (keys : List (Nat × Nat)) : Nat :=
  filledRows B k Prod.fst (fun key => dciUnits (dci key)) rbg taken keys

/-- What the processes of a beam leave behind. -/
structure DlHarqRound.Placed (B k : Nat) (fbs : List DlHarqInfo) (proc : Nat × Nat → HarqProcess)
    (dci : Nat × Nat → DciInfoElementTdma) (keys : List (Nat × Nat)) (r r' : DlHarqRound) :
    Prop where
  sym : r'.startingPoint.sym = r.startingPoint.sym
  rbg : r'.startingPoint.rbg = beamRbgs B k dci r.startingPoint.rbg r.allocatedUe keys
  allocated : r'.allocatedUe.length = r.allocatedUe.length +
    (beamPlaces B k dci r.startingPoint.rbg r.allocatedUe keys).countP (·.2.isSome)
  retx : r'.varTtiAllocInfo = r.varTtiAllocInfo ++
    (beamPlaces B k dci r.startingPoint.rbg r.allocatedUe keys).filterMap
      (retxOf k proc dci r.startingPoint.sym)
  buffered : r'.dlHarqToRetransmit = r.dlHarqToRetransmit ++
    (beamPlaces B k dci r.startingPoint.rbg r.allocatedUe keys).filterMap (bufferOf fbs)
  others : ∀ other ∉ keys, ∀ p, r.dlHarq.At other p → r'.dlHarq.At other p

theorem DlHarqRound.steps_active (hB : B < 2 ^ 32)
    (h : ∀ key ∈ keys, ActiveDlHarq B fbs proc dci key)
    (hp : ∀ key ∈ keys, r.dlHarq.At key (proc key)) (hnd : keys.Nodup)
    (hrbg : r.startingPoint.rbg ≤ B) :
    ∃ r', keys.foldlM (DlHarqRound.step B k fbs) r = .ok r' ∧
    r.Placed B k fbs proc dci keys r' := by
  induction keys generalizing r with
  | nil =>
    refine ⟨r, rfl, rfl, rfl, rfl, ?_, ?_, fun _ _ _ hp => hp⟩
    · exact (List.append_nil _).symm
    · exact (List.append_nil _).symm
  | cons key keys ih =>
    obtain ⟨hnot, hnd⟩ := List.nodup_cons.mp hnd
    have hkey := h key List.mem_cons_self
    have hpk := hp key List.mem_cons_self
    have hne : ∀ other ∈ keys, other ≠ key := fun other ho heq => hnot (heq ▸ ho)
    by_cases hout : key.1 ∈ r.allocatedUe ∨ (B - r.startingPoint.rbg) * k < dciUnits (dci key)
    · have hstep := DlHarqRound.step_buffered hkey hpk hout
      generalize hr₁ : ({ r with
        dlHarq := r.dlHarq.put key { proc key with
        status := .WAITING_FEEDBACK
        timer := 0
        dciElement := some (dci key) }
        dlHarqToRetransmit := r.dlHarqToRetransmit ++ (feedbackOf fbs key).toList } :
        DlHarqRound) = r₁ at hstep
      have hp₁ : ∀ other ≠ key, ∀ p, r.dlHarq.At other p → r₁.dlHarq.At other p := by
        intro other hother p hpo
        rw [← hr₁]
        exact hpo.put_of_ne hother _
      have hrbg₁ : r₁.startingPoint.rbg ≤ B := by
        rw [← hr₁]
        exact hrbg
      obtain ⟨r', hrun, hplaced⟩ := ih (fun o ho => h o (List.mem_cons_of_mem _ ho))
        (fun o ho => hp₁ o (hne o ho) _ (hp o (List.mem_cons_of_mem _ ho))) hnd hrbg₁
      have hplaces : beamPlaces B k dci r.startingPoint.rbg r.allocatedUe (key :: keys) =
          (key, none) :: beamPlaces B k dci r.startingPoint.rbg r.allocatedUe keys := if_pos hout
      have hfill : beamRbgs B k dci r.startingPoint.rbg r.allocatedUe (key :: keys) =
          beamRbgs B k dci r.startingPoint.rbg r.allocatedUe keys := if_pos hout
      refine ⟨r', ?_, ?_⟩
      · rw [List.foldlM_cons, hstep]
        exact hrun
      · subst hr₁
        refine ⟨hplaced.sym, ?_, ?_, ?_, ?_, ?_⟩
        · rw [hfill]
          exact hplaced.rbg
        · rw [hplaces]
          exact hplaced.allocated
        · rw [hplaces]
          exact hplaced.retx
        · rw [hplaces, hplaced.buffered, List.append_assoc]
          congr 1
          cases hf : feedbackOf fbs key <;> simp [bufferOf, hf]
        · intro other hother p hpo
          obtain ⟨hk, hother⟩ := not_or.mp (fun hm => hother (List.mem_cons.mpr hm))
          exact hplaced.others other hother p (hp₁ other hk p hpo)
    · have hstep := DlHarqRound.step_active hkey hpk hB hrbg hout
      have hrows := rowsFor_le (Nat.le_of_not_lt fun hlt => hout (Or.inr hlt))
      generalize hr₁ : (DlHarqRound.mk _ _ _ _ _ _ _) = r₁ at hstep
      have hp₁ : ∀ other ≠ key, ∀ p, r.dlHarq.At other p → r₁.dlHarq.At other p := by
        intro other hother p hpo
        rw [← hr₁]
        exact hpo.put_of_ne hother _
      have hrbg₁ : r₁.startingPoint.rbg ≤ B := by
        rw [← hr₁]
        dsimp only
        omega
      obtain ⟨r', hrun, hplaced⟩ := ih (fun o ho => h o (List.mem_cons_of_mem _ ho))
        (fun o ho => hp₁ o (hne o ho) _ (hp o (List.mem_cons_of_mem _ ho))) hnd hrbg₁
      have hplaces : beamPlaces B k dci r.startingPoint.rbg r.allocatedUe (key :: keys) =
          (key, some r.startingPoint.rbg) ::
            beamPlaces B k dci (r.startingPoint.rbg + rowsFor k (dciUnits (dci key)))
              (r.allocatedUe ++ [key.1]) keys := if_neg hout
      have hfill : beamRbgs B k dci r.startingPoint.rbg r.allocatedUe (key :: keys) =
          beamRbgs B k dci (r.startingPoint.rbg + rowsFor k (dciUnits (dci key)))
            (r.allocatedUe ++ [key.1]) keys := if_neg hout
      refine ⟨r', ?_, ?_⟩
      · rw [List.foldlM_cons, hstep]
        exact hrun
      · subst hr₁
        refine ⟨hplaced.sym, ?_, ?_, ?_, ?_, ?_⟩
        · rw [hfill]
          exact hplaced.rbg
        · rw [hplaces, hplaced.allocated]
          simp only [List.length_append, List.length_singleton, List.countP_cons,
            Option.isSome_some, if_true]
          omega
        · rw [hplaces, hplaced.retx, List.append_assoc]
          rfl
        · rw [hplaces, hplaced.buffered]
          rfl
        · intro other hother p hpo
          obtain ⟨hk, hother⟩ := not_or.mp (fun hm => hother (List.mem_cons.mpr hm))
          exact hplaced.others other hother p (hp₁ other hk p hpo)

end Beam

/-! ## The beams -/

/-- The symbol and the place of every process, with `k` symbols for each beam. -/
def harqPlaces (B k : Nat) (dci : Nat × Nat → DciInfoElementTdma) :
    Nat → List (List (Nat × Nat)) → List (Nat × (Nat × Nat) × Option Nat)
  | _, [] => []
  | sym, keys :: beams =>
    (beamPlaces B k dci 0 [] keys).map (Prod.mk sym) ++
      harqPlaces B k dci
        (if 0 < (beamPlaces B k dci 0 [] keys).countP (·.2.isSome) then sym + k else sym) beams

section Beams

variable {B k sym : Nat} {fbs : List DlHarqInfo} {proc : Nat × Nat → HarqProcess}
  {dci : Nat × Nat → DciInfoElementTdma} {keys : List (Nat × Nat)} {beams : List (List (Nat × Nat))}
  {r : DlHarqRound}

theorem DlHarqRound.beam_placed (hB : B < 2 ^ 32)
    (h : ∀ key ∈ keys, ActiveDlHarq B fbs proc dci key)
    (hp : ∀ key ∈ keys, r.dlHarq.At key (proc key)) (hnd : keys.Nodup)
    (hstart : r.startingPoint = ⟨0, sym⟩) (hsym : sym + k < 256) :
    ∃ r', r.beam B k fbs keys = .ok r' ∧
      r'.startingPoint =
        ⟨0, if 0 < (beamPlaces B k dci 0 [] keys).countP (·.2.isSome) then sym + k else sym⟩ ∧
      r'.varTtiAllocInfo = r.varTtiAllocInfo ++
        (beamPlaces B k dci 0 [] keys).filterMap (retxOf k proc dci sym) ∧
      r'.dlHarqToRetransmit = r.dlHarqToRetransmit ++
        (beamPlaces B k dci 0 [] keys).filterMap (bufferOf fbs) ∧
      ∀ other ∉ keys, ∀ p, r.dlHarq.At other p → r'.dlHarq.At other p := by
  obtain ⟨r₁, hrun, hplaced⟩ :=
    DlHarqRound.steps_active (r := { r with allocatedUe := [] }) (k := k)
    hB h hp hnd (by rw [hstart]; exact Nat.zero_le _)
  have hrbg := hplaced.rbg
  have hr₁ := hplaced.sym
  have halloc := hplaced.allocated
  have hretx := hplaced.retx
  have hbuf := hplaced.buffered
  dsimp only at hrbg hr₁ halloc hretx hbuf
  rw [hstart] at hrbg hr₁ halloc hretx hbuf
  rw [List.length_nil, Nat.zero_add] at halloc
  unfold DlHarqRound.beam
  rw [hrun]
  change ∃ r', (if 0 < r₁.allocatedUe.length then _ else _ : Result DlHarqRound) = _ ∧ _
  rw [halloc]
  by_cases hpos : 0 < (beamPlaces B k dci 0 [] keys).countP (·.2.isSome)
  · rw [if_pos hpos, if_pos hpos]
    refine ⟨_, rfl, ?_, hretx, hbuf, hplaced.others⟩
    dsimp only
    rw [hr₁, Nat.mod_eq_of_lt hsym]
  · rw [if_neg hpos, if_neg hpos]
    have hzero := filledRows_of_none (Nat.eq_zero_of_not_pos hpos)
    refine ⟨r₁, rfl, ?_, hretx, hbuf, hplaced.others⟩
    have hrbg' : r₁.startingPoint.rbg = 0 := hrbg.trans hzero
    have hsym' : r₁.startingPoint.sym = sym := hr₁
    rw [← hrbg', ← hsym']

theorem scheduleDlHarq_places (hB : B < 2 ^ 32)
    (h : ∀ key ∈ beams.flatten, ActiveDlHarq B fbs proc dci key)
    (hp : ∀ key ∈ beams.flatten, r.dlHarq.At key (proc key)) (hnd : beams.flatten.Nodup)
    (hstart : r.startingPoint = ⟨0, sym⟩) (hsym : sym + k * beams.length < 256) :
    ∃ r', beams.foldlM (DlHarqRound.beam B k fbs) r = .ok r' ∧
      r'.varTtiAllocInfo = r.varTtiAllocInfo ++
        (harqPlaces B k dci sym beams).filterMap (fun x => retxOf k proc dci x.1 x.2) ∧
      r'.dlHarqToRetransmit = r.dlHarqToRetransmit ++
        (harqPlaces B k dci sym beams).filterMap (fun x => bufferOf fbs x.2) := by
  induction beams generalizing r sym with
  | nil =>
    refine ⟨r, rfl, ?_, ?_⟩
    · exact (List.append_nil _).symm
    · exact (List.append_nil _).symm
  | cons keys beams ih =>
    rw [List.flatten_cons] at h hp hnd
    rw [List.length_cons, Nat.mul_add, Nat.mul_one] at hsym
    obtain ⟨hnd₁, hnd₂, hdisj⟩ := List.nodup_append.mp hnd
    obtain ⟨r₁, hrun₁, hstart₁, hretx₁, hbuf₁, hothers⟩ :=
      DlHarqRound.beam_placed (r := r) (k := k) hB
      (fun key hk => h key (List.mem_append_left _ hk))
      (fun key hk => hp key (List.mem_append_left _ hk)) hnd₁ hstart (by omega)
    obtain ⟨r₂, hrun₂, hretx₂, hbuf₂⟩ :=
      ih (r := r₁) (fun key hk => h key (List.mem_append_right _ hk))
      (fun key hk => hothers key (fun hk' => hdisj key hk' key hk rfl) _
        (hp key (List.mem_append_right _ hk))) hnd₂ hstart₁ (by split <;> omega)
    refine ⟨r₂, ?_, ?_, ?_⟩
    · rw [List.foldlM_cons, hrun₁]
      exact hrun₂
    · rw [hretx₂, hretx₁, harqPlaces, List.filterMap_append, List.filterMap_map, List.append_assoc]
      rfl
    · rw [hbuf₂, hbuf₁, harqPlaces, List.filterMap_append, List.filterMap_map, List.append_assoc]
      rfl

/-! ## The places -/

theorem map_harqPlaces (B k : Nat) (dci : Nat × Nat → DciInfoElementTdma) (sym : Nat)
    (beams : List (List (Nat × Nat))) :
    (harqPlaces B k dci sym beams).map (fun x => x.2.1) = beams.flatten := by
  induction beams generalizing sym with
  | nil => rfl
  | cons keys beams ih =>
    rw [harqPlaces, List.map_append, ih, List.map_map, List.flatten_cons]
    congr 1
    exact map_firstFit _ _ _ _ _ _ _

theorem mem_harqPlaces {x : Nat × (Nat × Nat) × Option Nat}
    (hx : x ∈ harqPlaces B k dci sym beams) : ∃ beam ∈ beams,
    x.2 ∈ beamPlaces B k dci 0 [] beam := by
  induction beams generalizing sym with
  | nil => cases hx
  | cons keys beams ih =>
    rw [harqPlaces] at hx
    rcases List.mem_append.mp hx with hx | hx
    · obtain ⟨p, hp, rfl⟩ := List.mem_map.mp hx
      exact ⟨keys, List.mem_cons_self, hp⟩
    · obtain ⟨beam, hb, hp⟩ := ih hx
      exact ⟨beam, List.mem_cons_of_mem _ hb, hp⟩

theorem exists_mem_harqPlaces (sym : Nat) {beam : List (Nat × Nat)} (hb : beam ∈ beams)
    {p : (Nat × Nat) × Option Nat} (hp : p ∈ beamPlaces B k dci 0 [] beam) :
    ∃ s, (s, p) ∈ harqPlaces B k dci sym beams := by
  induction beams generalizing sym with
  | nil => cases hb
  | cons keys beams ih =>
    rw [harqPlaces]
    rcases List.mem_cons.mp hb with rfl | hb
    · exact ⟨sym, List.mem_append_left _ (List.mem_map_of_mem hp)⟩
    · obtain ⟨s, hs⟩ := ih
        (if 0 < (beamPlaces B k dci 0 [] keys).countP (·.2.isSome) then sym + k else sym) hb
      exact ⟨s, List.mem_append_right _ hs⟩

theorem fst_mem_of_beamPlaces {rbg : Nat} {taken : List Nat} {p : (Nat × Nat) × Option Nat}
    (hp : p ∈ beamPlaces B k dci rbg taken keys) : p.1 ∈ keys := by
  have hmap : (beamPlaces B k dci rbg taken keys).map Prod.fst = keys := map_firstFit _ _ _ _ _ _ _
  rw [← hmap]
  exact List.mem_map_of_mem hp

/-- Two retransmissions of one RNTI in one beam are the same. -/
theorem harqPlaces_unique (hnd : beams.flatten.Nodup) {beam : List (Nat × Nat)} (hb : beam ∈ beams)
    {x y : Nat × (Nat × Nat) × Option Nat} (hx : x ∈ harqPlaces B k dci sym beams)
    (hy : y ∈ harqPlaces B k dci sym beams) (hxb : x.2.1 ∈ beam) (hyb : y.2.1 ∈ beam)
    (hxs : x.2.2.isSome) (hys : y.2.2.isSome) (heq : x.2.1.1 = y.2.1.1) : x = y := by
  induction beams generalizing sym with
  | nil => cases hb
  | cons keys beams ih =>
    rw [List.flatten_cons] at hnd
    obtain ⟨hnd₁, hnd₂, hdisj⟩ := List.nodup_append.mp hnd
    rw [harqPlaces] at hx hy
    generalize (if 0 < (beamPlaces B k dci 0 [] keys).countP (·.2.isSome) then sym + k else sym) =
      next at hx hy
    have hhead : ∀ z ∈ (beamPlaces B k dci 0 [] keys).map (Prod.mk sym), z.2.1 ∈ keys := by
      intro z hz
      obtain ⟨p, hp, rfl⟩ := List.mem_map.mp hz
      exact fst_mem_of_beamPlaces hp
    have htail : ∀ s, ∀ z ∈ harqPlaces B k dci s beams, z.2.1 ∈ beams.flatten := by
      intro s z hz
      rw [← map_harqPlaces B k dci s beams]
      exact List.mem_map.mpr ⟨z, hz, rfl⟩
    rcases List.mem_cons.mp hb with rfl | hb
    · have hin : ∀ z ∈ (beamPlaces B k dci 0 [] beam).map (Prod.mk sym) ++
          harqPlaces B k dci next beams, z.2.1 ∈ beam →
            z ∈ (beamPlaces B k dci 0 [] beam).map (Prod.mk sym) := by
        intro z hz hzb
        rcases List.mem_append.mp hz with hz | hz
        · exact hz
        · exact absurd rfl (hdisj _ hzb _ (htail _ z hz))
      obtain ⟨⟨a, s⟩, hp, rfl⟩ := List.mem_map.mp (hin x hx hxb)
      obtain ⟨⟨b, t⟩, hq, rfl⟩ := List.mem_map.mp (hin y hy hyb)
      obtain ⟨s, rfl⟩ := Option.isSome_iff_exists.mp hxs
      obtain ⟨t, rfl⟩ := Option.isSome_iff_exists.mp hys
      exact congrArg (Prod.mk sym) (firstFit_group_inj (Nat.zero_le B) hp hq heq)
    · have hin : ∀ z ∈ (beamPlaces B k dci 0 [] keys).map (Prod.mk sym) ++
          harqPlaces B k dci next beams, z.2.1 ∈ beam → z ∈ harqPlaces B k dci next beams := by
        intro z hz hzb
        rcases List.mem_append.mp hz with hz | hz
        · exact absurd rfl (hdisj _ (hhead z hz) _ (List.mem_flatten.mpr ⟨beam, hb, hzb⟩))
        · exact hz
      exact ih hnd₂ hb (hin x hx hxb) (hin y hy hyb)

end Beams

/-! ## The retransmitted DCIs -/

section Retx

variable {B k sym rbg i : Nat} {nack : List Nat} {d : DciInfoElementTdma}

theorem mem_maskRows_retxAt :
    i ∈ maskRows (retxAt k sym rbg nack d).rbgBitmask ↔
      i < d.rbgBitmask.length ∧ rbg ≤ i ∧ i < rbg + rowsFor k (dciUnits d) := by
  change (retxAt k sym rbg nack d).rbgBitmask[i]? = some 1 ↔ _
  rw [retxAt, List.getElem?_map]
  by_cases hi : i < d.rbgBitmask.length
  · rw [List.getElem?_range hi, Option.map_some]
    by_cases hin : rbg ≤ i ∧ i < rbg + rowsFor k (dciUnits d)
    · rw [if_pos hin]
      exact ⟨fun _ => ⟨hi, hin⟩, fun _ => rfl⟩
    · rw [if_neg hin]
      constructor
      · intro h
        cases h
      · intro h
        exact absurd h.2 hin
  · rw [List.getElem?_eq_none (by simpa using Nat.le_of_not_lt hi), Option.map_none]
    constructor
    · intro h
      cases h
    · intro h
      exact absurd h.1 hi

theorem count_interval (n rbg w : Nat) :
    ((List.range n).map fun i => if rbg ≤ i ∧ i < rbg + w then 1 else 0).count 1 =
      min n (rbg + w) - min n rbg := by
  induction n with
  | zero => simp
  | succ n ih =>
    rw [List.range_succ, List.map_append, List.count_append, ih, List.map_singleton,
      List.count_singleton]
    by_cases hin : rbg ≤ n ∧ n < rbg + w
    · rw [if_pos hin, beq_self_eq_true, if_pos rfl]
      omega
    · rw [if_neg hin, if_neg (by decide)]
      omega

/-- What a retransmission keeps of a DCI: it is no smaller, streams that got a NACK keep the MCS
and the block and get the next version, the others carry nothing. -/
structure Repeats (nack : List Nat) (old new : DciInfoElementTdma) : Prop where
  units : dciUnits old ≤ dciUnits new
  streams : new.tbSize.length = old.tbSize.length
  nacked : ∀ s ∈ nack, s < old.tbSize.length →
    new.mcs[s]? = old.mcs[s]? ∧ new.tbSize[s]? = old.tbSize[s]? ∧
      new.rv[s]? = old.rv[s]?.map (· + 1)
  acked : ∀ s ∉ nack, s < old.tbSize.length → new.tbSize[s]? = some 0

theorem getElem?_streams {f : Nat → Nat} {n s : Nat} (hs : s < n) :
    ((List.range n).map f)[s]? = some (f s) := by
  rw [List.getElem?_map, List.getElem?_range hs]
  rfl

theorem repeats_retxAt {fbs : List DlHarqInfo} {proc : Nat × Nat → HarqProcess}
    {dci : Nat × Nat → DciInfoElementTdma} {key : Nat × Nat} (h : ActiveDlHarq B fbs proc dci key)
    (hk : 0 < k) (hfit : rbg + rowsFor k (dciUnits (dci key)) ≤ B) :
    Repeats nack (dci key) (retxAt k sym rbg nack (dci key)) where
  units := by
    have hcount : (retxAt k sym rbg nack (dci key)).rbgBitmask.count 1 =
        rowsFor k (dciUnits (dci key)) := by
      rw [retxAt, count_interval, h.mask]
      omega
    unfold dciUnits at hcount ⊢
    rw [hcount]
    change (dci key).rbgBitmask.count 1 * (dci key).numSym ≤ rowsFor k _ * k
    exact le_rowsFor_mul hk
  streams := by simp [retxAt, retxDlDci]
  nacked := by
    intro s hmem hs
    have hmcs : s < (dci key).mcs.length := by rw [h.mcs]; exact hs
    have hrv : s < (dci key).rv.length := by rw [h.rv]; exact hs
    have hlt := h.rv_lt _ (List.getElem_mem hrv)
    have hc : nack.contains s = true := List.contains_iff_mem.mpr hmem
    refine ⟨?_, ?_, ?_⟩
    · rw [retxAt, retxDlDci, getElem?_streams hs, if_pos hc, List.getElem?_eq_getElem hmcs]
      simp [hmcs]
    · rw [retxAt, retxDlDci, getElem?_streams hs, if_pos hc, List.getElem?_eq_getElem hs]
      simp [hs]
    · rw [retxAt, retxDlDci, getElem?_streams hs, if_pos hc, List.getElem?_eq_getElem hrv]
      simp [hrv, Nat.mod_eq_of_lt (show (dci key).rv[s] + 1 < 256 by omega)]
  acked := by
    intro s hmem hs
    have hc : ¬nack.contains s = true := fun hc => hmem (List.contains_iff_mem.mp hc)
    rw [retxAt, retxDlDci, getElem?_streams hs, if_neg hc]

end Retx

/-! ## All retransmissions -/

/-- The process of a retransmission. -/
def retxKey (alloc : VarTtiAllocInfo) : Nat × Nat := (alloc.dci.rnti, alloc.dci.harqProcess)

/-- What `ScheduleDlHarq` should leave behind, from symbol `S` on with `symAvail` symbols, when the
RBGs with a zero in `notched` may not be used. -/
structure DlHarqDone (B S symAvail : Nat) (notched : List Nat) (fbs : List DlHarqInfo)
    (proc : Nat × Nat → HarqProcess) (dci : Nat × Nat → DciInfoElementTdma)
    (beams : List (List (Nat × Nat))) (r : DlHarqRound) : Prop where
  split : ∀ key ∈ beams.flatten,
    Xor (∃ alloc ∈ r.varTtiAllocInfo, retxKey alloc = key)
      (∃ fb ∈ fbs, HarqInfo.key fb = key ∧ fb ∈ r.dlHarqToRetransmit)
  once : (r.varTtiAllocInfo.map retxKey).Nodup ∧ ∀ alloc ∈ r.varTtiAllocInfo,
    retxKey alloc ∈ beams.flatten
  oneEach : ∀ beam ∈ beams, ∀ a ∈ r.varTtiAllocInfo, ∀ b ∈ r.varTtiAllocInfo,
    retxKey a ∈ beam → retxKey b ∈ beam → a.dci.rnti = b.dci.rnti → a = b
  packed : Packed S (S + symAvail) (r.varTtiAllocInfo.map allocBlock)
  within : ∀ alloc ∈ r.varTtiAllocInfo, ∀ i ∈ maskRows alloc.dci.rbgBitmask, i < B
  allowed : ∀ alloc ∈ r.varTtiAllocInfo, ∀ i ∈ maskRows alloc.dci.rbgBitmask, notched[i]? ≠ some 0
  repeats : ∀ alloc ∈ r.varTtiAllocInfo,
    Repeats (proc (retxKey alloc)).nackStreamIndexes (dci (retxKey alloc)) alloc.dci

/-- The first RBGs are free, as many as the retransmissions of any beam fill. -/
def FirstRbgsFree (B k : Nat) (notched : List Nat) (dci : Nat × Nat → DciInfoElementTdma)
    (beams : List (List (Nat × Nat))) : Prop :=
  ∀ beam ∈ beams, ∀ i < beamRbgs B k dci 0 [] beam, notched[i]? ≠ some 0

section Done

variable {B k S symAvail sym : Nat} {notched : List Nat} {fbs : List DlHarqInfo}
  {proc : Nat × Nat → HarqProcess} {dci : Nat × Nat → DciInfoElementTdma}
  {beams : List (List (Nat × Nat))} {m : HarqMap} {alloc : VarTtiAllocInfo}

/-- The retransmissions of the places. -/
def placedRetx (B k : Nat) (proc : Nat × Nat → HarqProcess) (dci : Nat × Nat → DciInfoElementTdma)
    (sym : Nat) (beams : List (List (Nat × Nat))) : List VarTtiAllocInfo :=
  (harqPlaces B k dci sym beams).filterMap fun x => retxOf k proc dci x.1 x.2

theorem mem_placedRetx : alloc ∈ placedRetx B k proc dci sym beams ↔
    ∃ s key rbg, (s, key, some rbg) ∈ harqPlaces B k dci sym beams ∧
      alloc = ⟨retxAt k s rbg (proc key).nackStreamIndexes (dci key), (proc key).rlcPduInfo⟩ := by
  rw [placedRetx, List.mem_filterMap]
  constructor
  · rintro ⟨⟨s, key, place⟩, hx, hr⟩
    obtain ⟨rbg, rfl, hr⟩ := Option.map_eq_some_iff.mp hr
    exact ⟨s, key, rbg, hx, hr.symm⟩
  · rintro ⟨s, key, rbg, hx, rfl⟩
    exact ⟨_, hx, rfl⟩

theorem retxKey_retxAt {key : Nat × Nat} (h : ActiveDlHarq B fbs proc dci key) (s rbg : Nat)
    (nack : List Nat) (pdus : List (List RlcPduInfo)) :
    retxKey ⟨retxAt k s rbg nack (dci key), pdus⟩ = key :=
  Prod.ext h.rnti h.harqProcess

/-- The blocks of the beams follow each other. -/
theorem packed_placedRetx (h : ∀ key ∈ beams.flatten, ActiveDlHarq B fbs proc dci key) :
    Packed sym (sym + k * beams.length) ((placedRetx B k proc dci sym beams).map allocBlock) := by
  induction beams generalizing sym with
  | nil => exact Packed.nil
  | cons keys beams ih =>
    rw [List.flatten_cons] at h
    have hbeam : Packed sym (sym + k)
        (((beamPlaces B k dci 0 [] keys).filterMap (retxOf k proc dci sym)).map allocBlock) := by
      constructor
      · rw [List.pairwise_map, List.pairwise_filterMap]
        apply (firstFit_pairwise k Prod.fst (fun key => dciUnits (dci key)) [] keys
          (Nat.zero_le B)).imp
        intro x y hxy a ha b hb
        obtain ⟨s, hs, rfl⟩ := Option.map_eq_some_iff.mp ha
        obtain ⟨t, ht, rfl⟩ := Option.map_eq_some_iff.mp hb
        have hle := (hxy s t hs ht).1
        apply Block.disjoint_of_rows
        rw [Set.disjoint_left]
        intro i hi hj
        have hi' := (mem_maskRows_retxAt.mp hi).2
        have hj' := (mem_maskRows_retxAt.mp hj).2
        omega
      · intro b hb
        obtain ⟨a, ha, rfl⟩ := List.mem_map.mp hb
        obtain ⟨x, hx, hr⟩ := List.mem_filterMap.mp ha
        obtain ⟨s, hs, rfl⟩ := Option.map_eq_some_iff.mp hr
        exact ⟨le_rfl, le_rfl⟩
    have htail : ∀ key ∈ beams.flatten, ActiveDlHarq B fbs proc dci key :=
      fun key hk => h key (List.mem_append_right _ hk)
    rw [placedRetx, harqPlaces, List.filterMap_append, List.filterMap_map, List.map_append,
      List.length_cons, Nat.mul_add, Nat.mul_one]
    split
    · exact (Packed.append hbeam (@ih (sym + k) htail) (by omega) (by omega)).mono (by omega)
    · next hnone =>
      have hnil : (beamPlaces B k dci 0 [] keys).filterMap (retxOf k proc dci sym) = [] := by
        rw [List.filterMap_eq_nil_iff]
        intro x hx
        have hcount := List.countP_eq_zero.mp (Nat.eq_zero_of_not_pos hnone) x hx
        unfold retxOf
        rw [Option.not_isSome_iff_eq_none.mp hcount]
        rfl
      change Packed _ _ ((((beamPlaces B k dci 0 [] keys).filterMap (retxOf k proc dci sym)).map
        allocBlock) ++ _)
      rw [hnil]
      exact (ih htail).mono (by omega)

theorem fst_mem_of_harqPlaces {x : Nat × (Nat × Nat) × Option Nat}
    (hx : x ∈ harqPlaces B k dci sym beams) : x.2.1 ∈ beams.flatten := by
  rw [← map_harqPlaces B k dci sym beams]
  exact List.mem_map.mpr ⟨x, hx, rfl⟩

theorem harqPlaces_inj (hnd : beams.flatten.Nodup) {x y : Nat × (Nat × Nat) × Option Nat}
    (hx : x ∈ harqPlaces B k dci sym beams) (hy : y ∈ harqPlaces B k dci sym beams)
    (heq : x.2.1 = y.2.1) : x = y := by
  rw [← map_harqPlaces B k dci sym beams] at hnd
  exact List.inj_on_of_nodup_map hnd hx hy heq

/-- A retransmission with its place in its beam. -/
theorem exists_place (h : ∀ key ∈ beams.flatten, ActiveDlHarq B fbs proc dci key)
    (halloc : alloc ∈ placedRetx B k proc dci sym beams) :
    ∃ s rbg beam, beam ∈ beams ∧ (retxKey alloc, some rbg) ∈ beamPlaces B k dci 0 [] beam ∧
      (s, retxKey alloc, some rbg) ∈ harqPlaces B k dci sym beams ∧
      ActiveDlHarq B fbs proc dci (retxKey alloc) ∧
      alloc = ⟨retxAt k s rbg (proc (retxKey alloc)).nackStreamIndexes (dci (retxKey alloc)),
        (proc (retxKey alloc)).rlcPduInfo⟩ := by
  obtain ⟨s, key, rbg, hx, heq⟩ := mem_placedRetx.mp halloc
  have hkey := h key (fst_mem_of_harqPlaces hx)
  have hk : retxKey alloc = key := by
    rw [heq]
    exact retxKey_retxAt hkey s rbg _ _
  obtain ⟨beam, hb, hplace⟩ := mem_harqPlaces hx
  rw [hk]
  exact ⟨s, rbg, beam, hb, hplace, hx, hkey, heq⟩

theorem feedbackOf_some {key : Nat × Nat} {fb : DlHarqInfo} (h : feedbackOf fbs key = some fb) :
    fb ∈ fbs ∧ HarqInfo.key fb = key := by
  have hkey := List.find?_some h
  simp only [decide_eq_true_eq] at hkey
  exact ⟨List.mem_of_find?_eq_some h, Prod.ext hkey.1 hkey.2⟩

theorem exists_feedbackOf {key : Nat × Nat} (h : ActiveDlHarq B fbs proc dci key) :
    ∃ fb, feedbackOf fbs key = some fb := by
  obtain ⟨fb, hmem, hkey⟩ := h.feedback
  unfold feedbackOf
  rw [← Option.isSome_iff_exists, List.find?_isSome]
  refine ⟨fb, hmem, ?_⟩
  rw [← hkey]
  simp [HarqInfo.key, HarqInfo.rnti, HarqInfo.harqProcessId]

/-- A process is either repeated or buffered. -/
theorem placed_or_buffered (h : ∀ key ∈ beams.flatten, ActiveDlHarq B fbs proc dci key)
    (hnd : beams.flatten.Nodup) {key : Nat × Nat} (hkey : key ∈ beams.flatten) :
    Xor (∃ alloc ∈ placedRetx B k proc dci sym beams, retxKey alloc = key)
      (∃ fb ∈ fbs, HarqInfo.key fb = key ∧
        fb ∈ (harqPlaces B k dci sym beams).filterMap fun x => bufferOf fbs x.2) := by
  have hmap := map_harqPlaces B k dci sym beams
  rw [← hmap] at hkey
  obtain ⟨⟨s, key, place⟩, hx, rfl⟩ := List.mem_map.mp hkey
  have hactive := h key (fst_mem_of_harqPlaces hx)
  cases place with
  | some rbg =>
    refine Or.inl ⟨⟨_, mem_placedRetx.mpr ⟨s, key, rbg, hx, rfl⟩, retxKey_retxAt hactive _ _ _ _⟩,
      ?_⟩
    rintro ⟨fb, -, hfb, hmem⟩
    obtain ⟨⟨s', key', place'⟩, hy, hbuf⟩ := List.mem_filterMap.mp hmem
    unfold bufferOf at hbuf
    split at hbuf
    · cases hbuf
    · next hnone =>
      have heq := harqPlaces_inj hnd hx hy (hfb.symm.trans (feedbackOf_some hbuf).2)
      apply hnone
      rw [← heq]
      rfl
  | none =>
    obtain ⟨fb, hfb⟩ := exists_feedbackOf hactive
    refine Or.inr ⟨⟨fb, (feedbackOf_some hfb).1, (feedbackOf_some hfb).2, ?_⟩, ?_⟩
    · exact List.mem_filterMap.mpr ⟨_, hx, hfb⟩
    · rintro ⟨alloc, halloc, hk⟩
      obtain ⟨s', rbg, beam, -, -, hy, -⟩ := exists_place h halloc
      have heq := harqPlaces_inj hnd hx hy hk.symm
      cases heq

theorem nodup_placedRetx (h : ∀ key ∈ beams.flatten, ActiveDlHarq B fbs proc dci key)
    (hnd : beams.flatten.Nodup) : ((placedRetx B k proc dci sym beams).map retxKey).Nodup := by
  rw [List.Nodup, List.pairwise_map, placedRetx, List.pairwise_filterMap]
  have hpair : (harqPlaces B k dci sym beams).Pairwise fun x y => x.2.1 ≠ y.2.1 := by
    rw [← List.pairwise_map, map_harqPlaces]
    exact hnd
  apply hpair.imp_of_mem
  intro x y hx hy hne a ha b hb
  obtain ⟨s, hs, rfl⟩ := Option.map_eq_some_iff.mp ha
  obtain ⟨t, ht, rfl⟩ := Option.map_eq_some_iff.mp hb
  rw [retxKey_retxAt (h _ (fst_mem_of_harqPlaces hx)),
    retxKey_retxAt (h _ (fst_mem_of_harqPlaces hy))]
  exact hne

/-- The retransmissions keep off the notched RBGs exactly when the first RBGs are free. -/
theorem allowed_iff (sym : Nat) (h : ∀ key ∈ beams.flatten, ActiveDlHarq B fbs proc dci key) :
    (∀ alloc ∈ placedRetx B k proc dci sym beams, ∀ i ∈ maskRows alloc.dci.rbgBitmask,
      notched[i]? ≠ some 0) ↔ FirstRbgsFree B k notched dci beams := by
  constructor
  · intro hall beam hb i hi
    obtain ⟨key, rbg, hplace, hle, hlt⟩ := filledRows_iff.mp ⟨Nat.zero_le i, hi⟩
    obtain ⟨s, hx⟩ := exists_mem_harqPlaces sym hb hplace
    have hkey := h key (fst_mem_of_harqPlaces hx)
    have hfit := (firstFit_some (Nat.zero_le B) hplace).2.1
    refine hall _ (mem_placedRetx.mpr ⟨s, key, rbg, hx, rfl⟩) i
      (mem_maskRows_retxAt.mpr ⟨?_, hle, hlt⟩)
    rw [hkey.mask]
    omega
  · intro hfree alloc halloc i hi
    obtain ⟨s, rbg, beam, hb, hplace, -, -, heq⟩ := exists_place h halloc
    rw [heq] at hi
    have hin := (mem_maskRows_retxAt.mp hi).2
    exact hfree beam hb i (filledRows_iff.mpr ⟨_, rbg, hplace, hin⟩).2

/-- Over any map of active processes `ScheduleDlHarq` repeats or buffers every process, at most one
for each RNTI of a beam, in cells of their own and no smaller than before; the notched RBGs are kept
free if and only if the RBGs that the beams fill from RBG 0 on are not notched. -/
theorem scheduleDlHarq_done_iff (hB : B < 2 ^ 32) (hsym : S + symAvail < 256)
    (h : ∀ key ∈ beams.flatten, ActiveDlHarq B fbs proc dci key)
    (hp : ∀ key ∈ beams.flatten, m.At key (proc key)) (hnd : beams.flatten.Nodup) :
    ∃ r, scheduleDlHarq B symAvail fbs beams { startingPoint := ⟨0, S⟩, dlHarq := m } = .ok r ∧
      (DlHarqDone B S symAvail notched fbs proc dci beams r ↔
        FirstRbgsFree B (symAvail / beams.length) notched dci beams) := by
  have hroom : symAvail / beams.length * beams.length ≤ symAvail := Nat.div_mul_le_self _ _
  obtain ⟨r, hrun, hretx, hbuf⟩ := scheduleDlHarq_places (k := symAvail / beams.length)
    (r := { startingPoint := ⟨0, S⟩, dlHarq := m }) hB h hp hnd rfl (by omega)
  change r.varTtiAllocInfo = placedRetx B _ proc dci S beams at hretx
  change r.dlHarqToRetransmit = (harqPlaces B _ dci S beams).filterMap _ at hbuf
  refine ⟨r, hrun, ?_⟩
  rw [← allowed_iff S h]
  constructor
  · intro hdone
    rw [← hretx]
    exact hdone.allowed
  · intro hallowed
    refine ⟨?_, ⟨?_, ?_⟩, ?_, ?_, ?_, ?_, ?_⟩
    · intro key hkey
      rw [hretx, hbuf]
      exact placed_or_buffered h hnd hkey
    · rw [hretx]
      exact nodup_placedRetx h hnd
    · intro alloc halloc
      obtain ⟨s, rbg, beam, -, -, hx, -⟩ := exists_place h (hretx ▸ halloc)
      exact fst_mem_of_harqPlaces hx
    · intro beam hb a ha b hb' hab hbb heq
      obtain ⟨s, rbg, -, -, -, hx, -, ha'⟩ := exists_place h (hretx ▸ ha)
      obtain ⟨t, rbg', -, -, -, hy, -, hb''⟩ := exists_place h (hretx ▸ hb')
      have hsame := harqPlaces_unique hnd hb hx hy hab hbb rfl rfl heq
      simp only [Prod.mk.injEq, Option.some.injEq] at hsame
      obtain ⟨rfl, hkey, rfl⟩ := hsame
      rw [hkey] at ha'
      exact ha'.trans hb''.symm
    · rw [hretx]
      exact (packed_placedRetx h).mono (by omega)
    · intro alloc halloc i hi
      obtain ⟨s, rbg, beam, -, -, -, hkey, heq⟩ := exists_place h (hretx ▸ halloc)
      rw [heq] at hi
      rw [← hkey.mask]
      exact (mem_maskRows_retxAt.mp hi).1
    · rw [hretx]
      exact hallowed
    · intro alloc halloc
      obtain ⟨s, rbg, beam, -, hplace, -, hkey, heq⟩ := exists_place h (hretx ▸ halloc)
      obtain ⟨-, hfit, -, hroom'⟩ := firstFit_some (Nat.zero_le B) hplace
      have hk : 0 < symAvail / beams.length := by
        apply Nat.pos_of_ne_zero
        intro hz
        rw [hz, Nat.mul_zero] at hroom'
        have := hkey.units
        omega
      have hdci : alloc.dci = retxAt (symAvail / beams.length) s rbg
          (proc (retxKey alloc)).nackStreamIndexes (dci (retxKey alloc)) := congrArg _ heq
      rw [hdci]
      exact repeats_retxAt hkey hk hfit

end Done

/-! ## A notched RBG -/

/-- A block on RBG 1 of two RBGs and on 12 symbols, whose only stream got a NACK. -/
def upperDci : DciInfoElementTdma :=
  { rnti := 1
    symStart := 1
    numSym := 12
    mcs := [5]
    tbSize := [100]
    ndi := [1]
    rv := [0]
    type := .DATA
    rbgBitmask := [0, 1] }

def upperProcess : HarqProcess :=
  { active := true
    status := .RECEIVED_FEEDBACK
    dciElement := some upperDci
    nackStreamIndexes := [0] }

def upperMap : HarqMap := fun rnti =>
  if rnti = 1 then some { maxSize := 1, usedSize := 1, procs := [upperProcess], order := [0] }
  else none

theorem upper_active : ∀ key ∈ [[(1, 0)]].flatten,
    ActiveDlHarq 2 [⟨1, 0, [.NACK]⟩] (fun _ => upperProcess) (fun _ => upperDci) key := by
  intro key hkey
  obtain rfl := List.mem_singleton.mp hkey
  exact ⟨rfl, rfl, rfl, rfl,
    rfl, by decide, rfl, rfl, by decide, ⟨_, List.mem_singleton_self _, rfl⟩⟩

theorem upper_at : ∀ key ∈ [[(1, 0)]].flatten, upperMap.At key upperProcess := by
  intro key hkey
  obtain rfl := List.mem_singleton.mp hkey
  exact ⟨_, rfl, rfl⟩

/-- Without notched RBGs the block is repeated as it should be. -/
theorem scheduleDlHarq_done_upper :
    ∃ r, scheduleDlHarq 2 12 [⟨1, 0, [.NACK]⟩] [[(1, 0)]]
        { startingPoint := ⟨0, 1⟩, dlHarq := upperMap } = .ok r ∧
      DlHarqDone 2 1 12 [] [⟨1, 0, [.NACK]⟩] (fun _ => upperProcess) (fun _ => upperDci)
        [[(1, 0)]] r := by
  have hrepeat : ∃ r, scheduleDlHarq 2 12 [⟨1, 0, [.NACK]⟩] [[(1, 0)]]
        { startingPoint := ⟨0, 1⟩, dlHarq := upperMap } = .ok r ∧
      (DlHarqDone 2 1 12 [] [⟨1, 0, [.NACK]⟩] (fun _ => upperProcess) (fun _ => upperDci)
        [[(1, 0)]] r ↔ FirstRbgsFree 2 12 [] (fun _ => upperDci) [[(1, 0)]]) :=
    scheduleDlHarq_done_iff (by decide) (by decide) upper_active upper_at (by decide)
  obtain ⟨r, hrun, hiff⟩ := hrepeat
  refine ⟨r, hrun, hiff.mpr ?_⟩
  intro beam _ i _ h
  cases h

/-- RBG 0 is notched, and the block on RBG 1 is repeated on it. -/
theorem notched_retransmission :
    (∀ key ∈ [[(1, 0)]].flatten,
      ActiveDlHarq 2 [⟨1, 0, [.NACK]⟩] (fun _ => upperProcess) (fun _ => upperDci) key ∧
        upperMap.At key upperProcess) ∧
    ∃ r, scheduleDlHarq 2 12 [⟨1, 0, [.NACK]⟩] [[(1, 0)]]
        { startingPoint := ⟨0, 1⟩, dlHarq := upperMap } = .ok r ∧
      ¬DlHarqDone 2 1 12 [0, 1] [⟨1, 0, [.NACK]⟩] (fun _ => upperProcess) (fun _ => upperDci)
        [[(1, 0)]] r := by
  refine ⟨fun key hkey => ⟨upper_active key hkey, upper_at key hkey⟩, _, rfl, ?_⟩
  intro hdone
  exact hdone.allowed _ List.mem_cons_self 0 rfl rfl

end Ns3.Nr.Sched
