import Ns3.Lib.FirstFit
import Ns3.Nr.Sched.HarqVector

/-!
# Round robin scheduling of retransmissions

`NrMacSchedulerHarqRr` turns the processes that received a NACK into DCIs. In the downlink
the processes of each beam share the symbols of the beam; in the uplink the position of
each retransmission is derived from the previous one.
-/

namespace Ns3.Nr.Sched

open Lib

/-! ## Feedback -/

/-- `DlHarqInfo::HarqStatus`. -/
inductive DlStatus
  | ACK
  | NACK
  | NONE
deriving DecidableEq, Repr

structure DlHarqInfo where
  rnti : Nat
  harqProcessId : Nat
  harqStatus : List DlStatus
deriving DecidableEq, Repr

/-- `UlHarqInfo::ReceptionStatus`. -/
inductive ReceptionStatus
  | Ok
  | NotOk
  | NotValid
deriving DecidableEq, Repr

structure UlHarqInfo where
  rnti : Nat
  harqProcessId : Nat
  receptionStatus : ReceptionStatus
deriving DecidableEq, Repr

/-- What the feedback of both directions offers. -/
class HarqInfo (T : Type) where
  rnti : T → Nat
  harqProcessId : T → Nat
  isReceivedOk : T → Bool
  getNackStreamIndexes : T → List Nat

instance : HarqInfo DlHarqInfo where
  rnti := DlHarqInfo.rnti
  harqProcessId := DlHarqInfo.harqProcessId
  isReceivedOk fb := !fb.harqStatus.isEmpty && fb.harqStatus.all (· ≠ .NACK)
  getNackStreamIndexes fb :=
    (List.range fb.harqStatus.length).filter fun i => fb.harqStatus[i]? = some .NACK

instance : HarqInfo UlHarqInfo where
  rnti := UlHarqInfo.rnti
  harqProcessId := UlHarqInfo.harqProcessId
  isReceivedOk fb := fb.receptionStatus = .Ok
  getNackStreamIndexes fb := if fb.receptionStatus = .NotOk then [0] else []

/-- The process a feedback is about. -/
def HarqInfo.key {T : Type} [HarqInfo T] (fb : T) : Nat × Nat :=
  (HarqInfo.rnti fb, HarqInfo.harqProcessId fb)

/-- The HARQ vectors of one direction, by RNTI. -/
abbrev HarqMap := Nat → Option HarqVector

namespace HarqMap

def vector (m : HarqMap) (rnti : Nat) : Result HarqVector :=
  match m rnti with
  | some v => .ok v
  | none => .error .outOfRange

def get (m : HarqMap) (key : Nat × Nat) : Result HarqProcess := do
  (← m.vector key.1).get key.2

def put (m : HarqMap) (key : Nat × Nat) (p : HarqProcess) : HarqMap :=
  fun rnti => if rnti = key.1 then (m rnti).map (·.put key.2 p) else m rnti

def setVector (m : HarqMap) (rnti : Nat) (v : HarqVector) : HarqMap :=
  Function.update m rnti (some v)

end HarqMap

/-! ## Uplink -/

/-- The variables of `ScheduleUlHarq` that decide where the next retransmission goes;
`sym` is the symbol of the starting point. -/
structure UlPlacement where
  sym : Nat
  symUsed : Nat := 0
  priorSym : Nat := 0
  operationModeFDD : Bool := false
deriving DecidableEq, Repr

/-- The case distinction of `ScheduleUlHarq` for a DCI that started at `symStart` and has
`numSym` symbols. It is put at `priorSym` of the result. -/
def UlPlacement.next (pl : UlPlacement) (symStart numSym : Nat) : UlPlacement :=
  let pl :=
    if (pl.sym = 1 ∨ pl.sym = 0) ∧ pl.priorSym = 0 then
      if pl.sym = 1 then
        { pl with
          priorSym := pl.sym
          symUsed := (pl.sym + numSym + 255) % 256
          operationModeFDD := false }
      else
        { pl with
          priorSym := pl.sym
          symUsed := (pl.sym + numSym) % 256
          operationModeFDD := true }
    else if pl.priorSym = symStart ∧ 0 < pl.priorSym then pl
    else if pl.symUsed + 1 < symStart then
      { pl with
        priorSym := if pl.operationModeFDD then pl.symUsed else (pl.symUsed + 1) % 256
        symUsed := (pl.symUsed + numSym) % 256 }
    else
      { pl with
        symUsed := (symStart + numSym + 255) % 256
        priorSym := symStart }
  { pl with sym := if pl.operationModeFDD then pl.symUsed else (pl.symUsed + 1) % 256 }

/-- The state of the loop of `ScheduleUlHarq`. -/
structure UlHarqRound where
  symAvail : Nat
  place : UlPlacement
  ulHarq : HarqMap
  ulHarqToRetransmit : List UlHarqInfo := []
  varTtiAllocInfo : List VarTtiAllocInfo := []
  numSymAlloc : Nat := 0

/-- The DCI of a retransmission at symbol `symStart`. -/
def retxUlDci (dci : DciInfoElementTdma) (harqId symStart : Nat) : DciInfoElementTdma :=
  { rnti := dci.rnti
    format := dci.format
    symStart := symStart
    numSym := dci.numSym
    mcs := dci.mcs
    tbSize := dci.tbSize
    ndi := [0]
    rv := [((dci.rv.headD 0) + 1) % 256]
    type := .DATA
    bwpIndex := dci.bwpIndex
    harqProcess := harqId
    rbgBitmask := dci.rbgBitmask
    tpc := dci.tpc }

/-- One feedback of the list. -/
def UlHarqRound.step (r : UlHarqRound) (harqInfo : UlHarqInfo) : Result UlHarqRound := do
  if HarqInfo.isReceivedOk harqInfo then throw .abort
  let harqProcess ← r.ulHarq.get (HarqInfo.key harqInfo)
  let harqProcess := { harqProcess with status := .WAITING_FEEDBACK, timer := 0 }
  match harqProcess.dciElement with
  | none => throw .abort
  | some dciInfoReTx =>
    if dciInfoReTx.numSym ≤ r.symAvail then
      let place := r.place.next dciInfoReTx.symStart dciInfoReTx.numSym
      let dci := retxUlDci dciInfoReTx harqInfo.harqProcessId place.priorSym
      return { r with
        symAvail := r.symAvail - dciInfoReTx.numSym
        place := place
        ulHarq := r.ulHarq.put (HarqInfo.key harqInfo) { harqProcess with dciElement := some dci }
        varTtiAllocInfo := { dci := dci } :: r.varTtiAllocInfo
        numSymAlloc := place.symUsed + 1 }
    else
      return { r with
        ulHarq := r.ulHarq.put (HarqInfo.key harqInfo) harqProcess
        ulHarqToRetransmit := r.ulHarqToRetransmit ++ [harqInfo] }

/-- The loop of `ScheduleUlHarq`: it also ends when no symbol is left. -/
def UlHarqRound.run (r : UlHarqRound) : List UlHarqInfo → Result UlHarqRound
  | [] => return r
  | harqInfo :: rest => do
    if 0 < r.symAvail then
      (← r.step harqInfo).run rest
    else return r

/-! ## Downlink -/

/-- The state of the loops of `ScheduleDlHarq`. -/
structure DlHarqRound where
  startingPoint : PointInFTPlane
  usedSym : Nat := 0
  dlHarq : HarqMap
  dlHarqToRetransmit : List DlHarqInfo := []
  varTtiAllocInfo : List VarTtiAllocInfo := []
  numSymAlloc : Nat := 0
  allocatedUe : List Nat := []

/-- The DCI of a retransmission before its mask is placed: streams that got a NACK are
repeated with the next redundancy version, the others are left out. -/
def retxDlDci (dci : DciInfoElementTdma) (nackStreamIndexes : List Nat) (symStart numSym : Nat) :
    DciInfoElementTdma :=
  let streams := List.range dci.tbSize.length
  let nack (stream : Nat) : Bool := nackStreamIndexes.contains stream
  { rnti := dci.rnti
    format := dci.format
    symStart := symStart
    numSym := numSym
    mcs := streams.map fun s => if nack s then dci.mcs.getD s 0 else 255
    tbSize := streams.map fun s => if nack s then dci.tbSize.getD s 0 else 0
    ndi := streams.map fun s => if nack s then 0 else 255
    rv := streams.map fun s => if nack s then (dci.rv.getD s 0 + 1) % 256 else 0
    type := .DATA
    bwpIndex := dci.bwpIndex
    harqProcess := dci.harqProcess
    rbgBitmask := dci.rbgBitmask
    tpc := dci.tpc }

/-- `BufferHARQFeedback`. -/
def bufferHARQFeedback (dlHarqFeedback toRetransmit : List DlHarqInfo) (rnti harqProcess : Nat) :
    List DlHarqInfo :=
  match dlHarqFeedback.find? fun fb => fb.rnti = rnti ∧ fb.harqProcessId = harqProcess with
  | some fb => toRetransmit ++ [fb]
  | none => toRetransmit

/-- One process of a beam. -/
def DlHarqRound.step (bandwidthInRbg symPerBeam : Nat) (dlHarqFeedback : List DlHarqInfo)
    (r : DlHarqRound) (key : Nat × Nat) : Result DlHarqRound := do
  let harqProcess ← r.dlHarq.get key
  let harqProcess := { harqProcess with status := .WAITING_FEEDBACK, timer := 0 }
  match harqProcess.dciElement with
  | none => throw .abort
  | some dciInfoReTx =>
    let rbgAssigned := dciInfoReTx.rbgBitmask.count 1 * dciInfoReTx.numSym
    let rbgAvail := (bandwidthInRbg - r.startingPoint.rbg) * symPerBeam
    if r.allocatedUe.contains dciInfoReTx.rnti ∨ rbgAvail < rbgAssigned then
      return { r with
        dlHarq := r.dlHarq.put key harqProcess
        dlHarqToRetransmit := bufferHARQFeedback dlHarqFeedback r.dlHarqToRetransmit
          dciInfoReTx.rnti dciInfoReTx.harqProcess }
    else
      let dci := retxDlDci dciInfoReTx harqProcess.nackStreamIndexes r.startingPoint.sym symPerBeam
      if symPerBeam = 0 then throw .abort
      let rbgAssigned :=
        if rbgAssigned % symPerBeam = 0 then rbgAssigned / symPerBeam
        else rbgAssigned / symPerBeam + 1
      if dci.rbgBitmask.length < rbgAssigned then throw .abort
      let dci := { dci with
        rbgBitmask := (List.range dci.rbgBitmask.length).map fun i =>
          if r.startingPoint.rbg ≤ i ∧ i < r.startingPoint.rbg + rbgAssigned then 1 else 0 }
      return { r with
        startingPoint :=
          { r.startingPoint with rbg := (r.startingPoint.rbg + rbgAssigned) % 2 ^ 32 }
        dlHarq := r.dlHarq.put key { harqProcess with dciElement := some dci }
        varTtiAllocInfo := r.varTtiAllocInfo ++ [⟨dci, harqProcess.rlcPduInfo⟩]
        allocatedUe := r.allocatedUe ++ [dciInfoReTx.rnti] }

/-- One beam. -/
def DlHarqRound.beam (bandwidthInRbg symPerBeam : Nat) (dlHarqFeedback : List DlHarqInfo)
    (r : DlHarqRound) (keys : List (Nat × Nat)) : Result DlHarqRound := do
  let r ← keys.foldlM (DlHarqRound.step bandwidthInRbg symPerBeam dlHarqFeedback)
    { r with allocatedUe := [] }
  if 0 < r.allocatedUe.length then
    return { r with
      startingPoint := ⟨0, (r.startingPoint.sym + symPerBeam) % 256⟩
      usedSym := (r.usedSym + symPerBeam) % 256
      numSymAlloc := r.numSymAlloc + symPerBeam }
  else return r

/-- `ScheduleDlHarq` over the processes to repeat, grouped by beam. -/
def scheduleDlHarq (bandwidthInRbg symAvail : Nat) (dlHarqFeedback : List DlHarqInfo)
    (activeDlHarq : List (List (Nat × Nat))) (r : DlHarqRound) : Result DlHarqRound :=
  activeDlHarq.foldlM
    (DlHarqRound.beam bandwidthInRbg (symAvail / activeDlHarq.length) dlHarqFeedback) r

/-! ## The tables of all UEs -/

/-- Every registered UE has a vector of `numHarqProcess` processes that keeps its
invariant. -/
def HarqMap.Inv (ues : List Nat) (numHarqProcess : Nat) (D : DciInfoElementTdma → Prop)
    (m : HarqMap) : Prop :=
  ∀ rnti ∈ ues, ∃ v, m rnti = some v ∧ v.maxSize = numHarqProcess ∧ v.Inv numHarqProcess D

/-- A process of a registered UE. -/
def Registered (ues : List Nat) (numHarqProcess : Nat) (key : Nat × Nat) : Prop :=
  key.1 ∈ ues ∧ key.2 < numHarqProcess

/-- The process at `key`. -/
def HarqMap.At (m : HarqMap) (key : Nat × Nat) (p : HarqProcess) : Prop :=
  ∃ v, m key.1 = some v ∧ v.procs[key.2]? = some p

section Tables

variable {ues : List Nat} {N : Nat} {D : DciInfoElementTdma → Prop} {m : HarqMap}
  {key key' : Nat × Nat} {p p' : HarqProcess}

theorem HarqMap.At.get (h : m.At key p) : m.get key = .ok p := by
  obtain ⟨v, hv, hp⟩ := h
  rw [HarqMap.get, HarqMap.vector, hv]
  exact HarqVector.get_eq_ok hp

theorem HarqMap.Inv.at (h : m.Inv ues N D) (hk : Registered ues N key) :
    ∃ p, m.At key p ∧ p.Ok N D := by
  obtain ⟨v, hv, hmax, hinv⟩ := h key.1 hk.1
  obtain ⟨p, hp⟩ := hinv.exists_get (hmax.symm ▸ hk.2)
  exact ⟨p, ⟨v, hv, hp⟩, hinv.ok hp⟩

theorem HarqMap.At.ok (h : m.Inv ues N D) (hk : key.1 ∈ ues) (hp : m.At key p) : p.Ok N D := by
  obtain ⟨v, hv, hget⟩ := hp
  obtain ⟨v', hv', -, hinv⟩ := h key.1 hk
  obtain rfl := Option.some.inj (hv.symm.trans hv')
  exact hinv.ok hget

theorem HarqMap.At.put_self (hp : m.At key p) (q : HarqProcess) : (m.put key q).At key q := by
  obtain ⟨v, hv, hget⟩ := hp
  refine ⟨v.put key.2 q, ?_, ?_⟩
  · rw [HarqMap.put, if_pos rfl, hv]
    rfl
  · exact List.getElem?_set_self (List.getElem?_eq_some_iff.mp hget).1

theorem HarqMap.At.put_of_ne (hne : key' ≠ key) (hp : m.At key' p) (q : HarqProcess) :
    (m.put key q).At key' p := by
  obtain ⟨v, hv, hget⟩ := hp
  by_cases hr : key'.1 = key.1
  · refine ⟨v.put key.2 q, ?_, ?_⟩
    · rw [HarqMap.put, if_pos hr, hv]
      rfl
    · have hid : key.2 ≠ key'.2 := fun hid => hne (Prod.ext hr hid.symm)
      exact (List.getElem?_set_ne hid).trans hget
  · refine ⟨v, ?_, hget⟩
    rw [HarqMap.put, if_neg hr, hv]

theorem HarqMap.Inv.put (h : m.Inv ues N D) (hp : m.At key p) (hact : p'.active = p.active)
    (hok : p'.Ok N D) : (m.put key p').Inv ues N D := by
  intro rnti hr
  obtain ⟨v, hv, hmax, hinv⟩ := h rnti hr
  obtain ⟨w, hw, hget⟩ := hp
  by_cases hk : rnti = key.1
  · subst hk
    obtain rfl := Option.some.inj (hv.symm.trans hw)
    refine ⟨v.put key.2 p', ?_, hmax, hinv.put hget hact hok⟩
    rw [HarqMap.put, if_pos rfl, hv]
    rfl
  · refine ⟨v, ?_, hmax, hinv⟩
    rw [HarqMap.put, if_neg hk, hv]

theorem HarqMap.Inv.setVector (h : m.Inv ues N D) {rnti : Nat} {v : HarqVector}
    (hmax : v.maxSize = N) (hinv : v.Inv N D) : (m.setVector rnti v).Inv ues N D := by
  intro r hr
  by_cases hk : r = rnti
  · subst hk
    refine ⟨v, ?_, hmax, hinv⟩
    rw [HarqMap.setVector, Function.update_self]
  · rw [HarqMap.setVector, Function.update_of_ne hk]
    exact h r hr

/-- Erasing an active process leaves the others where they are. -/
theorem HarqMap.Inv.erase (h : m.Inv ues N D) (hk : key.1 ∈ ues) (hp : m.At key p)
    (hact : p.active = true) :
    ∃ v v', m.vector key.1 = .ok v ∧ v.erase key.2 = .ok v' ∧
      (m.setVector key.1 v').Inv ues N D ∧
      ∀ k q, k ≠ key → m.At k q → (m.setVector key.1 v').At k q := by
  obtain ⟨v, hv, hget⟩ := hp
  obtain ⟨w, hw, hmax, hinv⟩ := h key.1 hk
  obtain rfl := Option.some.inj (hv.symm.trans hw)
  obtain ⟨v', hv', hinv', hprocs, hmax'⟩ := hinv.erase hget hact
  refine ⟨v, v', ?_, hv', h.setVector (hmax'.trans hmax) hinv', ?_⟩
  · rw [HarqMap.vector, hv]
  · rintro k q hne ⟨u, hu, hq⟩
    by_cases hr : k.1 = key.1
    · rw [hr] at hu
      obtain rfl := Option.some.inj (hv.symm.trans hu)
      refine ⟨v', ?_, ?_⟩
      · rw [HarqMap.setVector, hr, Function.update_self]
      · have hid : key.2 ≠ k.2 := fun hid => hne (Prod.ext hr hid.symm)
        rw [hprocs, List.getElem?_set_ne hid]
        exact hq
    · refine ⟨u, ?_, hq⟩
      rw [HarqMap.setVector, Function.update_of_ne hr]
      exact hu

end Tables

/-! ## What retransmissions do to the tables -/

/-- The DCIs of uplink processes: redundancy versions up to `maxRv`. -/
structure UlDciOk (maxRv : Nat) (dci : DciInfoElementTdma) : Prop where
  rv_ne_nil : dci.rv ≠ []
  rv_le : ∀ rv ∈ dci.rv, rv ≤ maxRv

/-- The DCIs of downlink processes: also one redundancy version for each stream, and a block
that is not empty. -/
structure DlDciOk (bandwidthInRbg maxRv : Nat) (dci : DciInfoElementTdma) : Prop where
  rv_ne_nil : dci.rv ≠ []
  rv_le : ∀ rv ∈ dci.rv, rv ≤ maxRv
  streams : dci.rv.length = dci.tbSize.length
  numSym : 0 < dci.numSym
  mask : dci.rbgBitmask.length = bandwidthInRbg
  rbg : 0 < dci.rbgBitmask.count 1

/-- A process that can be repeated once more: its versions are below `maxRv`. -/
def HarqMap.Ready (maxRv : Nat) (m : HarqMap) (key : Nat × Nat) : Prop :=
  ∃ p dci, m.At key p ∧ p.active = true ∧ p.dciElement = some dci ∧ ∀ rv ∈ dci.rv, rv < maxRv

theorem HarqMap.Ready.put_of_ne {maxRv : Nat} {m : HarqMap} {key key' : Nat × Nat}
    (hne : key' ≠ key) (h : m.Ready maxRv key') (q : HarqProcess) :
    (m.put key q).Ready maxRv key' := by
  obtain ⟨p, dci, hp, hact, hdci, hrv⟩ := h
  exact ⟨p, dci, hp.put_of_ne hne q, hact, hdci, hrv⟩

/-- A process that waits again keeps its invariant, with any DCI that is fine. -/
theorem HarqProcess.Ok.wait {N : Nat} {D : DciInfoElementTdma → Prop} {p : HarqProcess}
    (hact : p.active = true) {dci : DciInfoElementTdma} (hdci : D dci) :
    ({ p with status := .WAITING_FEEDBACK, timer := 0, dciElement := some dci } :
      HarqProcess).Ok N D where
  status_iff := by simp [hact]
  dci_iff := by simp [hact]
  timer_le := Nat.zero_le _
  dci d hd := by
    obtain rfl := Option.some.inj hd
    exact hdci

theorem UlDciOk.retx {M : Nat} (hM : M ≤ 3) {dci : DciInfoElementTdma} (h : UlDciOk M dci)
    (hrv : ∀ rv ∈ dci.rv, rv < M) (harqId symStart : Nat) :
    UlDciOk M (retxUlDci dci harqId symStart) where
  rv_ne_nil := by simp [retxUlDci]
  rv_le := by
    intro rv hmem
    obtain ⟨x, xs, hx⟩ := List.exists_cons_of_ne_nil h.rv_ne_nil
    have hlt := hrv x (by rw [hx]; exact List.mem_cons_self)
    rw [retxUlDci, List.mem_singleton, hx, List.headD_cons] at hmem
    omega

section Uplink

variable {ues : List Nat} {N M : Nat} {r : UlHarqRound}

theorem UlHarqRound.step_ok (hM : M ≤ 3) (h : r.ulHarq.Inv ues N (UlDciOk M)) {fb : UlHarqInfo}
    (hue : fb.rnti ∈ ues) (hnack : HarqInfo.isReceivedOk fb = false)
    (hready : r.ulHarq.Ready M (HarqInfo.key fb)) :
    ∃ r', r.step fb = .ok r' ∧ r'.ulHarq.Inv ues N (UlDciOk M) ∧
      (∀ k, k ≠ HarqInfo.key fb → r.ulHarq.Ready M k → r'.ulHarq.Ready M k) ∧
      ∀ g ∈ r'.ulHarqToRetransmit, g ∈ r.ulHarqToRetransmit ∨ g = fb := by
  obtain ⟨p, dci, hp, hact, hdci, hrv⟩ := hready
  have hok := (HarqMap.At.ok h hue hp).dci dci hdci
  have hkeep : ∀ q k, k ≠ HarqInfo.key fb → r.ulHarq.Ready M k →
      (r.ulHarq.put (HarqInfo.key fb) q).Ready M k := fun q k hne hr => hr.put_of_ne hne q
  have hwait : ∀ d, UlDciOk M d → (r.ulHarq.put (HarqInfo.key fb)
      { p with status := .WAITING_FEEDBACK, timer := 0, dciElement := some d }).Inv ues N
        (UlDciOk M) := fun d hd => h.put hp rfl (HarqProcess.Ok.wait hact hd)
  unfold UlHarqRound.step
  rw [hnack, if_neg Bool.false_ne_true, hp.get]
  change ∃ r', (match p.dciElement with
    | none => _
    | some dciInfoReTx => _ : Result UlHarqRound) = _ ∧ _
  rw [hdci]
  dsimp only
  by_cases hfit : dci.numSym ≤ r.symAvail
  · rw [if_pos hfit]
    refine ⟨_, rfl, hwait _ (hok.retx hM hrv _ _), hkeep _, ?_⟩
    intro g hg
    exact Or.inl hg
  · rw [if_neg hfit]
    refine ⟨_, rfl, ?_, hkeep _, ?_⟩
    · exact h.put hp rfl (HarqProcess.Ok.wait hact hok)
    · intro g hg
      rcases List.mem_append.mp hg with hg | hg
      · exact Or.inl hg
      · exact Or.inr (List.mem_singleton.mp hg)

/-- A round over distinct processes that may all be repeated keeps the table. -/
theorem UlHarqRound.run_ok (hM : M ≤ 3) (fbs : List UlHarqInfo)
    (h : r.ulHarq.Inv ues N (UlDciOk M)) (hue : ∀ fb ∈ fbs, fb.rnti ∈ ues)
    (hnack : ∀ fb ∈ fbs, HarqInfo.isReceivedOk fb = false)
    (hready : ∀ fb ∈ fbs, r.ulHarq.Ready M (HarqInfo.key fb))
    (hnd : (fbs.map HarqInfo.key).Nodup) :
    ∃ r', r.run fbs = .ok r' ∧ r'.ulHarq.Inv ues N (UlDciOk M) ∧
      ∀ g ∈ r'.ulHarqToRetransmit, g ∈ r.ulHarqToRetransmit ∨ g ∈ fbs := by
  induction fbs generalizing r with
  | nil => exact ⟨r, rfl, h, fun g hg => Or.inl hg⟩
  | cons fb fbs ih =>
    rw [UlHarqRound.run]
    by_cases hsym : 0 < r.symAvail
    · rw [if_pos hsym]
      rw [List.map_cons, List.nodup_cons] at hnd
      obtain ⟨r₁, h₁, hinv₁, hkeep, hbuf₁⟩ := UlHarqRound.step_ok hM h
        (hue fb List.mem_cons_self) (hnack fb List.mem_cons_self) (hready fb List.mem_cons_self)
      have hready₁ : ∀ g ∈ fbs, r₁.ulHarq.Ready M (HarqInfo.key g) := by
        intro g hg
        refine hkeep _ ?_ (hready g (List.mem_cons_of_mem _ hg))
        intro heq
        exact hnd.1 (List.mem_map.mpr ⟨g, hg, heq⟩)
      obtain ⟨r₂, h₂, hinv₂, hbuf₂⟩ := ih hinv₁ (fun g hg => hue g (List.mem_cons_of_mem _ hg))
        (fun g hg => hnack g (List.mem_cons_of_mem _ hg)) hready₁ hnd.2
      refine ⟨r₂, ?_, hinv₂, ?_⟩
      · rw [h₁]
        exact h₂
      · intro g hg
        rcases hbuf₂ g hg with hg | hg
        · rcases hbuf₁ g hg with hg | rfl
          · exact Or.inl hg
          · exact Or.inr List.mem_cons_self
        · exact Or.inr (List.mem_cons_of_mem _ hg)
    · rw [if_neg hsym]
      exact ⟨r, rfl, h, fun g hg => Or.inl hg⟩

end Uplink

section Downlink

variable {ues : List Nat} {N M B : Nat} {r : DlHarqRound}

theorem DlDciOk.retx (hM : M ≤ 3) {dci : DciInfoElementTdma} (h : DlDciOk B M dci)
    (hrv : ∀ rv ∈ dci.rv, rv < M) (nack : List Nat) (symStart : Nat) {numSym rbg n : Nat}
    (hnum : 0 < numSym) (hn : 0 < n) (hfit : rbg + n ≤ B) :
    DlDciOk B M { retxDlDci dci nack symStart numSym with
      rbgBitmask := (List.range (retxDlDci dci nack symStart numSym).rbgBitmask.length).map
        fun i => if rbg ≤ i ∧ i < rbg + n then 1 else 0 } where
  rv_ne_nil := by
    have hpos : 0 < dci.tbSize.length := by
      rw [← h.streams]
      exact List.length_pos_of_ne_nil h.rv_ne_nil
    intro hnil
    have hlen := congrArg List.length hnil
    simp only [retxDlDci, List.length_map, List.length_range, List.length_nil] at hlen
    omega
  rv_le := by
    intro rv hmem
    simp only [retxDlDci, List.mem_map, List.mem_range] at hmem
    obtain ⟨s, hs, rfl⟩ := hmem
    split
    · rw [← h.streams] at hs
      have hlt := hrv dci.rv[s] (List.getElem_mem hs)
      rw [List.getD_eq_getElem?_getD, List.getElem?_eq_getElem hs, Option.getD_some]
      omega
    · exact Nat.zero_le _
  streams := by simp [retxDlDci]
  numSym := hnum
  mask := by simp [retxDlDci, h.mask]
  rbg := by
    rw [List.count_pos_iff, List.mem_map]
    refine ⟨rbg, List.mem_range.mpr ?_, ?_⟩
    · change rbg < dci.rbgBitmask.length
      rw [h.mask]
      omega
    · rw [if_pos ⟨le_rfl, by omega⟩]

theorem mem_bufferHARQFeedback {fbs buf : List DlHarqInfo} {rnti id : Nat} {g : DlHarqInfo}
    (h : g ∈ bufferHARQFeedback fbs buf rnti id) : g ∈ buf ∨ g ∈ fbs := by
  unfold bufferHARQFeedback at h
  split at h
  · rename_i fb hfb
    rcases List.mem_append.mp h with h | h
    · exact Or.inl h
    · obtain rfl := List.mem_singleton.mp h
      exact Or.inr (List.mem_of_find?_eq_some hfb)
  · exact Or.inl h

/-- What a round of downlink retransmissions keeps. -/
structure DlHarqRound.Good (ues : List Nat) (N M B : Nat) (fbs : List DlHarqInfo)
    (r : DlHarqRound) : Prop where
  inv : r.dlHarq.Inv ues N (DlDciOk B M)
  rbg : r.startingPoint.rbg ≤ B
  buffered : ∀ g ∈ r.dlHarqToRetransmit, g ∈ fbs

theorem DlHarqRound.step_ok (hM : M ≤ 3) {fbs : List DlHarqInfo} (symPerBeam : Nat)
    (h : r.Good ues N M B fbs) {key : Nat × Nat} (hue : key.1 ∈ ues)
    (hready : r.dlHarq.Ready M key) :
    ∃ r', r.step B symPerBeam fbs key = .ok r' ∧ r'.Good ues N M B fbs ∧
      ∀ k, k ≠ key → r.dlHarq.Ready M k → r'.dlHarq.Ready M k := by
  obtain ⟨p, dci, hp, hact, hdci, hrv⟩ := hready
  have hok := (HarqMap.At.ok h.inv hue hp).dci dci hdci
  have hkeep : ∀ q k, k ≠ key → r.dlHarq.Ready M k → (r.dlHarq.put key q).Ready M k :=
    fun q k hne hr => hr.put_of_ne hne q
  unfold DlHarqRound.step
  rw [hp.get]
  change ∃ r', (match p.dciElement with
    | none => _
    | some dciInfoReTx => _ : Result DlHarqRound) = _ ∧ _
  rw [hdci]
  dsimp only
  by_cases hbuf : r.allocatedUe.contains dci.rnti = true ∨
      (B - r.startingPoint.rbg) * symPerBeam < dci.rbgBitmask.count 1 * dci.numSym
  · rw [if_pos hbuf]
    refine ⟨_, rfl, ⟨h.inv.put hp rfl (HarqProcess.Ok.wait hact hok), h.rbg, ?_⟩, hkeep _⟩
    intro g hg
    rcases mem_bufferHARQFeedback hg with hg | hg
    · exact h.buffered g hg
    · exact hg
  · rw [if_neg hbuf]
    have hfit : dci.rbgBitmask.count 1 * dci.numSym ≤ (B - r.startingPoint.rbg) * symPerBeam :=
      Nat.le_of_not_lt fun hlt => hbuf (Or.inr hlt)
    have hpos : 0 < dci.rbgBitmask.count 1 * dci.numSym := Nat.mul_pos hok.rbg hok.numSym
    have hsym : 0 < symPerBeam := by
      rcases Nat.eq_zero_or_pos symPerBeam with hz | hz
      · rw [hz, Nat.mul_zero] at hfit
        omega
      · exact hz
    have hrows := rowsFor_le hfit
    have hrpos := rowsFor_pos hsym hpos
    have hrbg := h.rbg
    have hend :
        r.startingPoint.rbg + rowsFor symPerBeam (dci.rbgBitmask.count 1 * dci.numSym) ≤ B := by
      omega
    rw [if_neg hsym.ne']
    change ∃ r', (if dci.rbgBitmask.length <
      rowsFor symPerBeam (dci.rbgBitmask.count 1 * dci.numSym) then _ else _ :
        Result DlHarqRound) = _ ∧ _
    rw [hok.mask, if_neg (by omega)]
    refine ⟨_, rfl, ⟨?_, ?_, h.buffered⟩, hkeep _⟩
    · exact h.inv.put hp rfl (HarqProcess.Ok.wait hact
        (hok.retx hM hrv _ _ hsym hrpos hend))
    · exact (Nat.mod_le _ _).trans hend

theorem DlHarqRound.steps_ok (hM : M ≤ 3) {fbs : List DlHarqInfo} (symPerBeam : Nat)
    (keys : List (Nat × Nat)) (h : r.Good ues N M B fbs) (hue : ∀ k ∈ keys, k.1 ∈ ues)
    (hready : ∀ k ∈ keys, r.dlHarq.Ready M k) (hnd : keys.Nodup) :
    ∃ r', keys.foldlM (DlHarqRound.step B symPerBeam fbs) r = .ok r' ∧ r'.Good ues N M B fbs ∧
      ∀ k ∉ keys, r.dlHarq.Ready M k → r'.dlHarq.Ready M k := by
  induction keys generalizing r with
  | nil => exact ⟨r, rfl, h, fun _ _ hr => hr⟩
  | cons key keys ih =>
    rw [List.nodup_cons] at hnd
    obtain ⟨r₁, h₁, hgood₁, hkeep₁⟩ := DlHarqRound.step_ok hM symPerBeam h
      (hue key List.mem_cons_self) (hready key List.mem_cons_self)
    have hready₁ : ∀ k ∈ keys, r₁.dlHarq.Ready M k := by
      intro k hk
      refine hkeep₁ k ?_ (hready k (List.mem_cons_of_mem _ hk))
      rintro rfl
      exact hnd.1 hk
    obtain ⟨r₂, h₂, hgood₂, hkeep₂⟩ := ih hgood₁ (fun k hk => hue k (List.mem_cons_of_mem _ hk))
      hready₁ hnd.2
    refine ⟨r₂, ?_, hgood₂, ?_⟩
    · rw [List.foldlM_cons, h₁]
      exact h₂
    · intro k hk hr
      rw [List.mem_cons, not_or] at hk
      exact hkeep₂ k hk.2 (hkeep₁ k hk.1 hr)

theorem DlHarqRound.beam_ok (hM : M ≤ 3) {fbs : List DlHarqInfo} (symPerBeam : Nat)
    (keys : List (Nat × Nat)) (h : r.Good ues N M B fbs) (hue : ∀ k ∈ keys, k.1 ∈ ues)
    (hready : ∀ k ∈ keys, r.dlHarq.Ready M k) (hnd : keys.Nodup) :
    ∃ r', r.beam B symPerBeam fbs keys = .ok r' ∧ r'.Good ues N M B fbs ∧
      ∀ k ∉ keys, r.dlHarq.Ready M k → r'.dlHarq.Ready M k := by
  have hstart : DlHarqRound.Good ues N M B fbs { r with allocatedUe := [] } :=
    ⟨h.inv, h.rbg, h.buffered⟩
  obtain ⟨r₁, h₁, hgood₁, hkeep₁⟩ := DlHarqRound.steps_ok hM symPerBeam keys hstart hue hready hnd
  unfold DlHarqRound.beam
  rw [h₁]
  change ∃ r', (if 0 < r₁.allocatedUe.length then _ else _ : Result DlHarqRound) = _ ∧ _
  split
  · exact ⟨_, rfl, ⟨hgood₁.inv, Nat.zero_le _, hgood₁.buffered⟩, hkeep₁⟩
  · exact ⟨r₁, rfl, hgood₁, hkeep₁⟩

/-- A round over distinct processes that may all be repeated keeps the table. -/
theorem scheduleDlHarq_ok (hM : M ≤ 3) {fbs : List DlHarqInfo} (symAvail : Nat)
    (beams : List (List (Nat × Nat))) (h : r.Good ues N M B fbs)
    (hue : ∀ k ∈ beams.flatten, k.1 ∈ ues) (hready : ∀ k ∈ beams.flatten, r.dlHarq.Ready M k)
    (hnd : beams.flatten.Nodup) :
    ∃ r', scheduleDlHarq B symAvail fbs beams r = .ok r' ∧ r'.Good ues N M B fbs := by
  unfold scheduleDlHarq
  generalize symAvail / beams.length = symPerBeam
  induction beams generalizing r with
  | nil => exact ⟨r, rfl, h⟩
  | cons keys beams ih =>
    rw [List.flatten_cons] at hue hready hnd
    obtain ⟨hnd₁, hnd₂, hdisj⟩ := List.nodup_append.mp hnd
    obtain ⟨r₁, h₁, hgood₁, hkeep₁⟩ := DlHarqRound.beam_ok hM symPerBeam keys h
      (fun k hk => hue k (List.mem_append_left _ hk))
      (fun k hk => hready k (List.mem_append_left _ hk)) hnd₁
    obtain ⟨r₂, h₂, hgood₂⟩ := ih hgood₁ (fun k hk => hue k (List.mem_append_right _ hk))
      (fun k hk => hkeep₁ k (fun hk' => hdisj k hk' k hk rfl)
        (hready k (List.mem_append_right _ hk))) hnd₂
    refine ⟨r₂, ?_, hgood₂⟩
    rw [List.foldlM_cons, h₁]
    exact h₂

end Downlink

end Ns3.Nr.Sched
