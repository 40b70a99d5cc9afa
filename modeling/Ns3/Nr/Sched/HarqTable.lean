import Ns3.Nr.Sched.HarqRr

/-!
# The HARQ tables along a run of the scheduler

New data, DL and UL triggers act on the HARQ vectors of all UEs. A trigger ages the
processes, merges the buffered feedback with the received one, drops what is stale, reads
the feedback (`processHARQFeedbacks`) and repeats what got a NACK. The DL trigger also drops
a second feedback for a process; the UL trigger does not, and one such pair is enough to
reach the fatal error of `ProcessHARQFeedbacks` (`duplicate_ack_fatal`).

`harq_tables_keep` states what holds in every run in which no UL trigger meets two
feedbacks for one process (`Valid`).
-/

namespace Ns3.Nr.Sched

/-! ## Embedding -/

/-- The part of the scheduler's configuration that the HARQ tables depend on. `arrange` is
the order in which `ActiveHarqMap` is walked after `SortDlHarq`, which sorts by what the table
holds. -/
structure HarqConf where
  ues : List Nat
  numHarqProcess : Nat
  enableHarqReTx : Bool
  bandwidthInRbg : Nat
  beamConfId : Nat → Nat
  arrange : HarqMap → List (List (Nat × Nat)) → List (List (Nat × Nat))
  arrange_perm : ∀ m l, (arrange m l).flatten.Perm l.flatten

def HarqConf.maxHarqReTx (c : HarqConf) : Nat := if c.enableHarqReTx then 3 else 0

structure HarqState where
  dlHarq : HarqMap
  ulHarq : HarqMap
  dlHarqToRetransmit : List DlHarqInfo := []
  ulHarqToRetransmit : List UlHarqInfo := []

/-- `ResetExpiredHARQ` for all UEs. -/
def resetExpiredHARQ (c : HarqConf) (m : HarqMap) : Result HarqMap :=
  c.ues.foldlM (fun m rnti => do
    let v ← (← m.vector rnti).resetExpired c.numHarqProcess
    return m.setVector rnti v) m

/-- The largest redundancy version of a DCI. -/
def maxRv (dci : DciInfoElementTdma) : Nat := dci.rv.foldr max 0

/-- The process after a NACK for the given streams. -/
def HarqProcess.receivedNack (p : HarqProcess) (nackStreamIndexes : List Nat) : HarqProcess :=
  { p with status := .RECEIVED_FEEDBACK, nackStreamIndexes := nackStreamIndexes }

/-- `ProcessHARQFeedbacks`: the feedbacks that remain and the table. -/
def processHARQFeedbacks {T : Type} [HarqInfo T] (maxHarqReTx : Nat) :
    List T → HarqMap → Result (List T × HarqMap)
  | [], m => return ([], m)
  | fb :: rest, m => do
    let ueProcess ← m.get (HarqInfo.key fb)
    if !ueProcess.active then throw .notActive
    match ueProcess.dciElement with
    | none => throw .abort
    | some dci =>
      if HarqInfo.isReceivedOk fb ∨ maxRv dci = maxHarqReTx then
        let v ← (← m.vector (HarqInfo.rnti fb)).erase (HarqInfo.harqProcessId fb)
        processHARQFeedbacks maxHarqReTx rest (m.setVector (HarqInfo.rnti fb) v)
      else
        let m := m.put (HarqInfo.key fb)
          (ueProcess.receivedNack (HarqInfo.getNackStreamIndexes fb))
        let (kept, m) ← processHARQFeedbacks maxHarqReTx rest m
        return (fb :: kept, m)

/-- The UL filter: feedback for inactive processes is dropped. -/
def dropInactive {T : Type} [HarqInfo T] (m : HarqMap) : List T → Result (List T)
  | [] => return []
  | fb :: rest => do
    let process ← m.get (HarqInfo.key fb)
    let kept ← dropInactive m rest
    return if process.active then fb :: kept else kept

/-- The DL filter: feedback for inactive processes and feedback for a process that already
had one are dropped. -/
def dropInactiveAndDuplicated {T : Type} [HarqInfo T] (m : HarqMap)
    (feedbacksDup : List (Nat × Nat)) :
    List T → Result (List T)
  | [] => return []
  | fb :: rest => do
    let process ← m.get (HarqInfo.key fb)
    if !process.active then dropInactiveAndDuplicated m feedbacksDup rest
    else if feedbacksDup.contains (HarqInfo.key fb) then
      dropInactiveAndDuplicated m feedbacksDup rest
    else
      let kept ← dropInactiveAndDuplicated m (HarqInfo.key fb :: feedbacksDup) rest
      return fb :: kept

/-- A process is added to the list of its beam. -/
def addActive : List (Nat × List (Nat × Nat)) → Nat → Nat × Nat → List (Nat × List (Nat × Nat))
  | [], beam, key => [(beam, [key])]
  | e :: rest, beam, key =>
    if e.1 = beam then (e.1, e.2 ++ [key]) :: rest else e :: addActive rest beam key

/-- `ComputeActiveHarq`: the processes of the feedbacks grouped by beam. -/
def computeActiveHarq {T : Type} [HarqInfo T] (beamConfId : Nat → Nat) (fbs : List T) :
    List (Nat × List (Nat × Nat)) :=
  fbs.foldl (fun active fb =>
    addActive active (beamConfId (HarqInfo.rnti fb)) (HarqInfo.key fb)) []

/-- What happens to the HARQ tables. `symAvail` and `sym` are the symbols a trigger finds
available and the first of them. -/
inductive HarqEvent
  | newDlData (rnti : Nat) (dci : DciInfoElementTdma) (rlcPduInfo : List (List RlcPduInfo))
  | newUlData (rnti : Nat) (dci : DciInfoElementTdma)
  | dlTrigger (dlHarqInfoList : List DlHarqInfo) (symAvail sym : Nat)
  | ulTrigger (ulHarqInfoList : List UlHarqInfo) (symAvail sym : Nat)

/-- The process of a new transmission. -/
def HarqProcess.ofDci (dci : DciInfoElementTdma) (rlcPduInfo : List (List RlcPduInfo) := []) :
    HarqProcess :=
  { active := true, status := .WAITING_FEEDBACK, dciElement := some dci, rlcPduInfo := rlcPduInfo }

/-- A new transmission takes a process of the UE. `ComputeActiveUe` lists only UEs that have
one. -/
def insertProcess (m : HarqMap) (rnti : Nat) (dci : DciInfoElementTdma)
    (rlcPduInfo : List (List RlcPduInfo)) : Result HarqMap := do
  let v ← m.vector rnti
  if !v.canInsert then return m
  match ← v.insert (.ofDci dci) with
  | (none, _) => throw .noHarqSpace
  | (some id, v) =>
    return m.setVector rnti (v.put id (.ofDci { dci with harqProcess := id } rlcPduInfo))

def doSchedDlTriggerReq (c : HarqConf) (st : HarqState) (dlHarqInfoList : List DlHarqInfo)
    (symAvail sym : Nat) : Result HarqState := do
  let m ← resetExpiredHARQ c st.dlHarq
  let dlHarqFeedback ← dropInactiveAndDuplicated m [] (st.dlHarqToRetransmit ++ dlHarqInfoList)
  let (dlHarqFeedback, m) ← processHARQFeedbacks c.maxHarqReTx dlHarqFeedback m
  let activeDlHarq := c.arrange m ((computeActiveHarq c.beamConfId dlHarqFeedback).map Prod.snd)
  let r ← scheduleDlHarq c.bandwidthInRbg symAvail dlHarqFeedback activeDlHarq
    { startingPoint := ⟨0, sym⟩, dlHarq := m }
  return { st with dlHarq := r.dlHarq, dlHarqToRetransmit := r.dlHarqToRetransmit }

def doSchedUlTriggerReq (c : HarqConf) (st : HarqState) (ulHarqInfoList : List UlHarqInfo)
    (symAvail sym : Nat) : Result HarqState := do
  let m ← resetExpiredHARQ c st.ulHarq
  let ulHarqFeedback ← dropInactive m (st.ulHarqToRetransmit ++ ulHarqInfoList)
  let (ulHarqFeedback, m) ← processHARQFeedbacks c.maxHarqReTx ulHarqFeedback m
  let r ← UlHarqRound.run { symAvail := symAvail, place := { sym := sym }, ulHarq := m }
    ulHarqFeedback
  return { st with ulHarq := r.ulHarq, ulHarqToRetransmit := r.ulHarqToRetransmit }

def HarqState.step (c : HarqConf) (st : HarqState) : HarqEvent → Result HarqState
  | .newDlData rnti dci rlcPduInfo => do
    return { st with dlHarq := ← insertProcess st.dlHarq rnti dci rlcPduInfo }
  | .newUlData rnti dci => do
    return { st with ulHarq := ← insertProcess st.ulHarq rnti dci [] }
  | .dlTrigger fbs symAvail sym => doSchedDlTriggerReq c st fbs symAvail sym
  | .ulTrigger fbs symAvail sym => doSchedUlTriggerReq c st fbs symAvail sym

/-- The tables of UEs that have just been registered. -/
def HarqState.init (c : HarqConf) (order : List Nat) : HarqState :=
  let m : HarqMap := fun rnti =>
    if c.ues.contains rnti then some (HarqVector.setMaxSize c.numHarqProcess order) else none
  { dlHarq := m, ulHarq := m }

/-! ## What the parts of a trigger keep -/

section Parts

variable {ues : List Nat} {N M : Nat} {D : DciInfoElementTdma → Prop} {m : HarqMap}

/-- Active processes of `m'` were active in `m`. -/
def HarqMap.NoneActivated (ues : List Nat) (m m' : HarqMap) : Prop :=
  ∀ key p', key.1 ∈ ues → m'.At key p' → p'.active = true → ∃ p, m.At key p ∧ p.active = true

theorem resetOne_ok (h : m.Inv ues N D) {rnti : Nat} (hr : rnti ∈ ues) :
    ∃ m', (do
        let v ← (← m.vector rnti).resetExpired N
        return m.setVector rnti v : Result HarqMap) = .ok m' ∧
      m'.Inv ues N D ∧ m.NoneActivated ues m' := by
  obtain ⟨v, hv, hmax, hinv⟩ := h rnti hr
  obtain ⟨v', hv', hinv', hmax', hna⟩ := hinv.resetExpired
  refine ⟨m.setVector rnti v', ?_, h.setVector (hmax'.trans hmax) hinv', ?_⟩
  · rw [HarqMap.vector, hv]
    change (do
      let v ← v.resetExpired N
      return m.setVector rnti v : Result HarqMap) = _
    rw [hv']
    rfl
  · rintro key p' - ⟨w, hw, hp'⟩ hact
    by_cases hk : key.1 = rnti
    · rw [HarqMap.setVector, hk, Function.update_self] at hw
      obtain rfl := Option.some.inj hw
      obtain ⟨p, hp, hpact⟩ := hna key.2 p' hp' hact
      exact ⟨p, ⟨v, hk ▸ hv, hp⟩, hpact⟩
    · rw [HarqMap.setVector, Function.update_of_ne hk] at hw
      exact ⟨p', ⟨w, hw, hp'⟩, hact⟩

theorem resetExpiredHARQ_ok {c : HarqConf} (h : m.Inv c.ues c.numHarqProcess D) :
    ∃ m', resetExpiredHARQ c m = .ok m' ∧ m'.Inv c.ues c.numHarqProcess D ∧
      m.NoneActivated c.ues m' := by
  unfold resetExpiredHARQ
  have hsub : ∀ r ∈ c.ues, r ∈ c.ues := fun _ hr => hr
  generalize hues : c.ues = all at h hsub ⊢
  have hfold : ∀ rs : List Nat, (∀ r ∈ rs, r ∈ all) → ∀ m₀ : HarqMap,
      m₀.Inv all c.numHarqProcess D → ∃ m', rs.foldlM (fun m rnti => do
        let v ← (← m.vector rnti).resetExpired c.numHarqProcess
        return m.setVector rnti v) m₀ = (.ok m' : Result HarqMap) ∧
        m'.Inv all c.numHarqProcess D ∧ m₀.NoneActivated all m' := by
    intro rs
    induction rs with
    | nil => exact fun _ m₀ h₀ => ⟨m₀, rfl, h₀, fun key p' _ hp' hact => ⟨p', hp', hact⟩⟩
    | cons r rs ih =>
      intro hrs m₀ h₀
      obtain ⟨m₁, h₁, hinv₁, hna₁⟩ := resetOne_ok h₀ (hrs r List.mem_cons_self)
      obtain ⟨m₂, h₂, hinv₂, hna₂⟩ := ih (fun q hq => hrs q (List.mem_cons_of_mem _ hq)) m₁ hinv₁
      refine ⟨m₂, ?_, hinv₂, ?_⟩
      · rw [List.foldlM_cons, h₁]
        exact h₂
      · intro key p' hk hp' hact
        obtain ⟨p₁, hp₁, hact₁⟩ := hna₂ key p' hk hp' hact
        exact hna₁ key p₁ hk hp₁ hact₁
  exact hfold all hsub m h

variable {T : Type} [HarqInfo T]

/-- The process of a feedback is active. -/
def activeIn (m : HarqMap) (fb : T) : Bool :=
  match m.get (HarqInfo.key fb) with
  | .ok p => p.active
  | .error _ => false

theorem HarqMap.At.activeIn {fb : T} {p : HarqProcess} (h : m.At (HarqInfo.key fb) p) :
    activeIn m fb = p.active := by
  rw [Sched.activeIn, h.get]

theorem dropInactive_ok (h : m.Inv ues N D) {fbs : List T}
    (hreg : ∀ fb ∈ fbs, Registered ues N (HarqInfo.key fb)) :
    dropInactive m fbs = .ok (fbs.filter (activeIn m)) := by
  induction fbs with
  | nil => rfl
  | cons fb fbs ih =>
    obtain ⟨p, hp, -⟩ := h.at (hreg fb List.mem_cons_self)
    rw [dropInactive, hp.get, ih fun g hg => hreg g (List.mem_cons_of_mem _ hg), List.filter_cons,
      hp.activeIn]
    rfl

theorem dropInactiveAndDuplicated_ok (h : m.Inv ues N D) {fbs : List T}
    (hreg : ∀ fb ∈ fbs, Registered ues N (HarqInfo.key fb)) (seen : List (Nat × Nat)) :
    ∃ kept, dropInactiveAndDuplicated m seen fbs = .ok kept ∧
      (∀ fb ∈ kept, fb ∈ fbs ∧ activeIn m fb = true ∧ HarqInfo.key fb ∉ seen) ∧
      (kept.map HarqInfo.key).Nodup := by
  induction fbs generalizing seen with
  | nil => exact ⟨[], rfl, by simp, List.nodup_nil⟩
  | cons fb fbs ih =>
    obtain ⟨p, hp, -⟩ := h.at (hreg fb List.mem_cons_self)
    have hreg' : ∀ g ∈ fbs, Registered ues N (HarqInfo.key g) :=
      fun g hg => hreg g (List.mem_cons_of_mem _ hg)
    rw [dropInactiveAndDuplicated, hp.get]
    change ∃ kept, (if !p.active then _ else _ : Result (List T)) = _ ∧ _
    by_cases hact : p.active = true
    · rw [hact, Bool.not_true, if_neg Bool.false_ne_true]
      by_cases hdup : seen.contains (HarqInfo.key fb) = true
      · rw [if_pos hdup]
        obtain ⟨kept, hk, hmem, hnd⟩ := ih hreg' seen
        refine ⟨kept, hk, fun g hg => ?_, hnd⟩
        obtain ⟨h1, h2, h3⟩ := hmem g hg
        exact ⟨List.mem_cons_of_mem _ h1, h2, h3⟩
      · rw [if_neg hdup]
        obtain ⟨kept, hk, hmem, hnd⟩ := ih hreg' (HarqInfo.key fb :: seen)
        refine ⟨fb :: kept, by rw [hk]; rfl, ?_, ?_⟩
        · intro g hg
          rcases List.mem_cons.mp hg with rfl | hg
          · refine ⟨List.mem_cons_self, hp.activeIn.trans hact, ?_⟩
            simpa using hdup
          · obtain ⟨h1, h2, h3⟩ := hmem g hg
            rw [List.mem_cons, not_or] at h3
            exact ⟨List.mem_cons_of_mem _ h1, h2, h3.2⟩
        · rw [List.map_cons, List.nodup_cons]
          refine ⟨?_, hnd⟩
          intro hin
          obtain ⟨g, hg, heq⟩ := List.mem_map.mp hin
          exact (hmem g hg).2.2 (heq ▸ List.mem_cons_self)
    · rw [Bool.not_eq_true] at hact
      rw [hact, Bool.not_false, if_pos rfl]
      obtain ⟨kept, hk, hmem, hnd⟩ := ih hreg' seen
      refine ⟨kept, hk, fun g hg => ?_, hnd⟩
      obtain ⟨h1, h2, h3⟩ := hmem g hg
      exact ⟨List.mem_cons_of_mem _ h1, h2, h3⟩

theorem le_foldr_max {l : List Nat} {x : Nat} (h : x ∈ l) : x ≤ l.foldr max 0 := by
  induction l with
  | nil => cases h
  | cons y l ih =>
    rw [List.foldr_cons]
    rcases List.mem_cons.mp h with rfl | h
    · exact le_max_left _ _
    · exact (ih h).trans (le_max_right _ _)

theorem foldr_max_le {l : List Nat} {b : Nat} (h : ∀ x ∈ l, x ≤ b) : l.foldr max 0 ≤ b := by
  induction l with
  | nil => exact Nat.zero_le _
  | cons y l ih =>
    rw [List.foldr_cons]
    exact max_le (h y List.mem_cons_self) (ih fun x hx => h x (List.mem_cons_of_mem _ hx))

/-- Feedback for distinct active processes is read without a fault; what remains are NACKs of
processes that can be repeated. -/
theorem processHARQFeedbacks_ok (hD : ∀ dci, D dci → ∀ rv ∈ dci.rv, rv ≤ M) {fbs : List T}
    (h : m.Inv ues N D) (hreg : ∀ fb ∈ fbs, Registered ues N (HarqInfo.key fb))
    (hact : ∀ fb ∈ fbs, activeIn m fb = true) (hnd : (fbs.map HarqInfo.key).Nodup) :
    ∃ kept m', processHARQFeedbacks M fbs m = .ok (kept, m') ∧ m'.Inv ues N D ∧
      kept.Sublist fbs ∧
      (∀ fb ∈ kept, HarqInfo.isReceivedOk fb = false ∧ m'.Ready M (HarqInfo.key fb)) ∧
      ∀ k p, k ∉ fbs.map HarqInfo.key → m.At k p → m'.At k p := by
  induction fbs generalizing m with
  | nil => exact ⟨[], m, rfl, h, List.Sublist.refl _, by simp, fun _ _ _ hp => hp⟩
  | cons fb fbs ih =>
    rw [List.map_cons, List.nodup_cons] at hnd
    have hregfb := hreg fb List.mem_cons_self
    obtain ⟨p, hp, hok⟩ := h.at hregfb
    have hpact : p.active = true := hp.activeIn.symm.trans (hact fb List.mem_cons_self)
    obtain ⟨dci, hdci⟩ := Option.isSome_iff_exists.mp (hok.dci_iff.mp hpact)
    -- after the step on `fb` the other feedbacks are as before
    have hrest : ∀ m₁ : HarqMap,
        (∀ k q, k ≠ HarqInfo.key fb → m.At k q → m₁.At k q) → m₁.Inv ues N D →
        ∃ kept m', processHARQFeedbacks M fbs m₁ = .ok (kept, m') ∧ m'.Inv ues N D ∧
          kept.Sublist fbs ∧
          (∀ g ∈ kept, HarqInfo.isReceivedOk g = false ∧ m'.Ready M (HarqInfo.key g)) ∧
          ∀ k q, k ∉ fbs.map HarqInfo.key → m₁.At k q → m'.At k q := by
      intro m₁ hframe hinv₁
      refine ih hinv₁ (fun g hg => hreg g (List.mem_cons_of_mem _ hg)) ?_ hnd.2
      intro g hg
      obtain ⟨q, hq, -⟩ := h.at (hreg g (List.mem_cons_of_mem _ hg))
      have hqact := hq.activeIn.symm.trans (hact g (List.mem_cons_of_mem _ hg))
      have hne : HarqInfo.key g ≠ HarqInfo.key fb := by
        intro heq
        exact hnd.1 (List.mem_map.mpr ⟨g, hg, heq⟩)
      exact (hframe _ q hne hq).activeIn.trans hqact
    rw [processHARQFeedbacks, hp.get]
    change ∃ kept m', (if !p.active then _ else _ : Result (List T × HarqMap)) = _ ∧ _
    rw [hpact, Bool.not_true, if_neg Bool.false_ne_true, hdci]
    dsimp only
    by_cases herase : HarqInfo.isReceivedOk fb = true ∨ maxRv dci = M
    · rw [if_pos herase]
      obtain ⟨v, v', hv, hv', hinv₁, hframe⟩ := h.erase hregfb.1 hp hpact
      obtain ⟨kept, m', hrun, hinv', hsub, hready, hkeep⟩ := hrest _ hframe hinv₁
      refine ⟨kept, m', ?_, hinv', hsub.cons fb, hready, ?_⟩
      · rw [show m.vector (HarqInfo.rnti fb) = .ok v from hv]
        change (do
          let v ← v.erase (HarqInfo.harqProcessId fb)
          processHARQFeedbacks M fbs (m.setVector (HarqInfo.rnti fb) v) : Result _) = _
        rw [show v.erase (HarqInfo.harqProcessId fb) = .ok v' from hv']
        exact hrun
      · intro k q hk hq
        rw [List.map_cons, List.mem_cons, not_or] at hk
        exact hkeep k q hk.2 (hframe k q hk.1 hq)
    · rw [if_neg herase]
      rw [not_or] at herase
      -- the process is not at its last version
      have hrv : ∀ rv ∈ dci.rv, rv < M := by
        intro rv hmem
        have hle := foldr_max_le (hD dci (hok.dci dci hdci))
        have := le_foldr_max hmem
        have hne : dci.rv.foldr max 0 ≠ M := herase.2
        omega
      have hok₁ : (p.receivedNack (HarqInfo.getNackStreamIndexes fb)).Ok N D :=
        ⟨by simp [HarqProcess.receivedNack, hpact], hok.dci_iff, hok.timer_le, hok.dci⟩
      obtain ⟨kept, m', hrun, hinv', hsub, hready, hkeep⟩ := hrest
        (m.put (HarqInfo.key fb) (p.receivedNack (HarqInfo.getNackStreamIndexes fb)))
        (fun k q hne hq => hq.put_of_ne hne _) (h.put hp rfl hok₁)
      refine ⟨fb :: kept, m', by rw [hrun]; rfl, hinv', hsub.cons_cons fb, ?_, ?_⟩
      · intro g hg
        rcases List.mem_cons.mp hg with rfl | hg
        · refine ⟨Bool.not_eq_true _ ▸ herase.1, ?_⟩
          exact ⟨_, dci, hkeep _ _ hnd.1 (hp.put_self _), hpact, hdci, hrv⟩
        · exact hready g hg
      · intro k q hk hq
        rw [List.map_cons, List.mem_cons, not_or] at hk
        exact hkeep k q hk.2 (hq.put_of_ne hk.1 _)

theorem addActive_perm (active : List (Nat × List (Nat × Nat))) (beam : Nat) (key : Nat × Nat) :
    ((addActive active beam key).map Prod.snd).flatten.Perm
      ((active.map Prod.snd).flatten ++ [key]) := by
  induction active with
  | nil => exact List.Perm.refl _
  | cons e rest ih =>
    rw [addActive]
    split
    · rw [List.map_cons, List.flatten_cons, List.map_cons, List.flatten_cons, List.append_assoc,
        List.append_assoc]
      exact List.Perm.append_left _ List.perm_append_comm
    · rw [List.map_cons, List.flatten_cons, List.map_cons, List.flatten_cons, List.append_assoc]
      exact ih.append_left _

theorem computeActiveHarq_perm (beamConfId : Nat → Nat) (fbs : List T) :
    ((computeActiveHarq beamConfId fbs).map Prod.snd).flatten.Perm (fbs.map HarqInfo.key) := by
  have hfold : ∀ (active : List (Nat × List (Nat × Nat))),
      ((fbs.foldl (fun active fb => addActive active (beamConfId (HarqInfo.rnti fb))
        (HarqInfo.key fb)) active).map Prod.snd).flatten.Perm
        ((active.map Prod.snd).flatten ++ fbs.map HarqInfo.key) := by
    induction fbs with
    | nil => simp
    | cons fb fbs ih =>
      intro active
      rw [List.foldl_cons]
      refine (ih _).trans ?_
      refine ((addActive_perm active _ _).append_right _).trans ?_
      rw [List.append_assoc]
      rfl
  exact hfold []

/-- New data is stored unless all processes of the UE are busy. -/
theorem insertProcess_ok (h : m.Inv ues N D) {rnti : Nat} (hr : rnti ∈ ues)
    {dci : DciInfoElementTdma} (hdci : ∀ id, D { dci with harqProcess := id })
    (rlcPduInfo : List (List RlcPduInfo)) :
    ∃ m', insertProcess m rnti dci rlcPduInfo = .ok m' ∧ m'.Inv ues N D := by
  obtain ⟨v, hv, hmax, hinv⟩ := h rnti hr
  have hnew : ∀ (d : DciInfoElementTdma) (pdus : List (List RlcPduInfo)), D d →
      (HarqProcess.ofDci d pdus).Ok N D := by
    intro d pdus hd
    refine ⟨by simp [HarqProcess.ofDci], by simp [HarqProcess.ofDci], Nat.zero_le _, ?_⟩
    intro d' hd'
    exact Option.some.inj hd' ▸ hd
  unfold insertProcess
  rw [HarqMap.vector, hv]
  change ∃ m', (if !v.canInsert then _ else _ : Result HarqMap) = _ ∧ _
  by_cases hcan : v.canInsert = true
  · rw [hcan, Bool.not_true, if_neg Bool.false_ne_true]
    obtain ⟨id, v', hins, hinv', hid, hprocs, hmax'⟩ :=
      hinv.insert hcan rfl (hnew dci [] (hdci dci.harqProcess))
    rw [hins]
    have hget : v'.procs[id]? = some (.ofDci dci) := by
      rw [hprocs, List.getElem?_set_self (by rw [hinv.length]; exact hid)]
    exact ⟨_, rfl, h.setVector (hmax'.trans hmax) (hinv'.put hget rfl (hnew _ _ (hdci id)))⟩
  · rw [Bool.not_eq_true] at hcan
    rw [hcan, Bool.not_false, if_pos rfl]
    exact ⟨m, rfl, h⟩

end Parts

/-! ## Runs -/

/-- Both tables keep their invariant and the buffered feedback is for registered UEs. -/
structure HarqState.Inv (c : HarqConf) (st : HarqState) : Prop where
  dl : st.dlHarq.Inv c.ues c.numHarqProcess (DlDciOk c.bandwidthInRbg c.maxHarqReTx)
  ul : st.ulHarq.Inv c.ues c.numHarqProcess (UlDciOk c.maxHarqReTx)
  dlBuffered : ∀ fb ∈ st.dlHarqToRetransmit, Registered c.ues c.numHarqProcess (HarqInfo.key fb)
  ulBuffered : ∀ fb ∈ st.ulHarqToRetransmit, Registered c.ues c.numHarqProcess (HarqInfo.key fb)

theorem HarqConf.maxHarqReTx_le (c : HarqConf) : c.maxHarqReTx ≤ 3 := by
  unfold HarqConf.maxHarqReTx
  split <;> decide

section Run

variable {c : HarqConf} {st : HarqState}

theorem doSchedDlTriggerReq_ok (h : st.Inv c) {fbs : List DlHarqInfo}
    (hreg : ∀ fb ∈ fbs, Registered c.ues c.numHarqProcess (HarqInfo.key fb)) (symAvail sym : Nat) :
    ∃ st', doSchedDlTriggerReq c st fbs symAvail sym = .ok st' ∧ st'.Inv c := by
  have hregAll : ∀ fb ∈ st.dlHarqToRetransmit ++ fbs,
      Registered c.ues c.numHarqProcess (HarqInfo.key fb) := by
    intro fb hfb
    exact (List.mem_append.mp hfb).elim (h.dlBuffered fb) (hreg fb)
  obtain ⟨m₁, h₁, hinv₁, -⟩ := resetExpiredHARQ_ok h.dl
  obtain ⟨fbs₂, h₂, hmem₂, hnd₂⟩ := dropInactiveAndDuplicated_ok hinv₁ hregAll []
  have hreg₂ : ∀ fb ∈ fbs₂, Registered c.ues c.numHarqProcess (HarqInfo.key fb) :=
    fun fb hfb => hregAll fb (hmem₂ fb hfb).1
  obtain ⟨fbs₃, m₃, h₃, hinv₃, hsub, hready, -⟩ := processHARQFeedbacks_ok
    (fun _ hd => hd.rv_le) hinv₁ hreg₂ (fun fb hfb => (hmem₂ fb hfb).2.1) hnd₂
  -- the beams list the processes of the feedbacks that remain, each once
  have hperm := (c.arrange_perm m₃ _).trans (computeActiveHarq_perm c.beamConfId fbs₃)
  have hkeys : ∀ k ∈ (c.arrange m₃
      ((computeActiveHarq c.beamConfId fbs₃).map Prod.snd)).flatten,
      k.1 ∈ c.ues ∧ m₃.Ready c.maxHarqReTx k := by
    intro k hk
    obtain ⟨fb, hfb, rfl⟩ := List.mem_map.mp (hperm.mem_iff.mp hk)
    exact ⟨(hreg₂ fb (hsub.subset hfb)).1, (hready fb hfb).2⟩
  have hstart : DlHarqRound.Good c.ues c.numHarqProcess c.maxHarqReTx c.bandwidthInRbg fbs₃
      { startingPoint := ⟨0, sym⟩, dlHarq := m₃ } := ⟨hinv₃, Nat.zero_le _, by simp⟩
  obtain ⟨r, hr, hgood⟩ := scheduleDlHarq_ok c.maxHarqReTx_le symAvail _ hstart
    (fun k hk => (hkeys k hk).1) (fun k hk => (hkeys k hk).2)
    (hperm.nodup_iff.mpr (hnd₂.sublist (hsub.map _)))
  refine ⟨{ st with dlHarq := r.dlHarq, dlHarqToRetransmit := r.dlHarqToRetransmit }, ?_,
    hgood.inv, h.ul, ?_, h.ulBuffered⟩
  · rw [doSchedDlTriggerReq, h₁]
    change (dropInactiveAndDuplicated m₁ [] _ >>= _) = _
    rw [h₂]
    change (processHARQFeedbacks c.maxHarqReTx fbs₂ m₁ >>= _) = _
    rw [h₃]
    change (scheduleDlHarq _ _ _ _ _ >>= _) = _
    rw [hr]
    rfl
  · intro fb hfb
    exact hreg₂ fb (hsub.subset (hgood.buffered fb hfb))

/-- The uplink needs what it does not check: at most one feedback for an active process. -/
theorem doSchedUlTriggerReq_ok (h : st.Inv c) {fbs : List UlHarqInfo}
    (hreg : ∀ fb ∈ fbs, Registered c.ues c.numHarqProcess (HarqInfo.key fb))
    (hnd : (((st.ulHarqToRetransmit ++ fbs).filter (activeIn st.ulHarq)).map HarqInfo.key).Nodup)
    (symAvail sym : Nat) :
    ∃ st', doSchedUlTriggerReq c st fbs symAvail sym = .ok st' ∧ st'.Inv c := by
  have hregAll : ∀ fb ∈ st.ulHarqToRetransmit ++ fbs,
      Registered c.ues c.numHarqProcess (HarqInfo.key fb) := by
    intro fb hfb
    exact (List.mem_append.mp hfb).elim (h.ulBuffered fb) (hreg fb)
  obtain ⟨m₁, h₁, hinv₁, hna⟩ := resetExpiredHARQ_ok h.ul
  have h₂ := dropInactive_ok hinv₁ hregAll
  generalize hall : st.ulHarqToRetransmit ++ fbs = all at hregAll hnd h₂
  -- what is active after the tick was active before it
  have hfilter : all.filter (activeIn m₁) =
      (all.filter (activeIn st.ulHarq)).filter (activeIn m₁) := by
    rw [List.filter_filter]
    apply List.filter_congr
    intro fb hfb
    obtain ⟨p', hp', -⟩ := hinv₁.at (hregAll fb hfb)
    rw [hp'.activeIn]
    cases hact : p'.active with
    | false => rfl
    | true =>
      obtain ⟨p, hp, hpact⟩ := hna _ p' (hregAll fb hfb).1 hp' hact
      rw [hp.activeIn, hpact]
      rfl
  have hnd₂ : ((all.filter (activeIn m₁)).map HarqInfo.key).Nodup := by
    rw [hfilter]
    exact hnd.sublist (List.filter_sublist.map _)
  have hreg₂ : ∀ fb ∈ all.filter (activeIn m₁),
      Registered c.ues c.numHarqProcess (HarqInfo.key fb) :=
    fun fb hfb => hregAll fb (List.mem_of_mem_filter hfb)
  obtain ⟨fbs₃, m₃, h₃, hinv₃, hsub, hready, -⟩ := processHARQFeedbacks_ok
    (fun _ hd => hd.rv_le) hinv₁ hreg₂ (fun fb hfb => (List.mem_filter.mp hfb).2) hnd₂
  obtain ⟨r, hr, hinv, hbuf⟩ := UlHarqRound.run_ok
    (r := { symAvail := symAvail, place := { sym := sym }, ulHarq := m₃ }) c.maxHarqReTx_le fbs₃
    hinv₃ (fun fb hfb => (hreg₂ fb (hsub.subset hfb)).1) (fun fb hfb => (hready fb hfb).1)
    (fun fb hfb => (hready fb hfb).2) (hnd₂.sublist (hsub.map _))
  refine ⟨{ st with ulHarq := r.ulHarq, ulHarqToRetransmit := r.ulHarqToRetransmit }, ?_,
    h.dl, hinv, h.dlBuffered, ?_⟩
  · rw [doSchedUlTriggerReq, h₁]
    change (dropInactive m₁ (st.ulHarqToRetransmit ++ fbs) >>= _) = _
    rw [hall, h₂]
    change (processHARQFeedbacks c.maxHarqReTx (all.filter (activeIn m₁)) m₁ >>= _) = _
    rw [h₃]
    change (UlHarqRound.run _ _ >>= _) = _
    rw [hr]
    rfl
  · intro fb hfb
    rcases hbuf fb hfb with hfb | hfb
    · simp at hfb
    · exact hreg₂ fb (hsub.subset hfb)

/-- What the callers of a step guarantee. New DCIs start with version 0 in each stream and
cover at least one RBG and one symbol; feedback is for processes of registered UEs. -/
def HarqEvent.WellFormed (c : HarqConf) : HarqEvent → Prop
  | .newDlData rnti dci _ => rnti ∈ c.ues ∧ dci.rv ≠ [] ∧ (∀ rv ∈ dci.rv, rv = 0) ∧
      dci.rv.length = dci.tbSize.length ∧ 0 < dci.numSym ∧
      dci.rbgBitmask.length = c.bandwidthInRbg ∧ 0 < dci.rbgBitmask.count 1
  | .newUlData rnti dci => rnti ∈ c.ues ∧ dci.rv ≠ [] ∧ ∀ rv ∈ dci.rv, rv = 0
  | .dlTrigger fbs _ _ => ∀ fb ∈ fbs, Registered c.ues c.numHarqProcess (HarqInfo.key fb)
  | .ulTrigger fbs _ _ => ∀ fb ∈ fbs, Registered c.ues c.numHarqProcess (HarqInfo.key fb)

/-- An UL trigger finds at most one feedback for each active process among the buffered and
the received ones. -/
def HarqEvent.NoDuplicate (st : HarqState) : HarqEvent → Prop
  | .ulTrigger fbs _ _ =>
      (((st.ulHarqToRetransmit ++ fbs).filter (activeIn st.ulHarq)).map HarqInfo.key).Nodup
  | _ => True

instance (ues : List Nat) (N : Nat) (key : Nat × Nat) : Decidable (Registered ues N key) :=
  inferInstanceAs (Decidable (_ ∧ _))

instance (c : HarqConf) : (e : HarqEvent) → Decidable (e.WellFormed c)
  | .newDlData rnti dci _ => inferInstanceAs (Decidable (rnti ∈ c.ues ∧ dci.rv ≠ [] ∧ _))
  | .newUlData rnti dci => inferInstanceAs (Decidable (rnti ∈ c.ues ∧ dci.rv ≠ [] ∧ _))
  | .dlTrigger fbs _ _ => inferInstanceAs (Decidable (∀ fb ∈ fbs, _))
  | .ulTrigger fbs _ _ => inferInstanceAs (Decidable (∀ fb ∈ fbs, _))

instance (st : HarqState) : (e : HarqEvent) → Decidable (e.NoDuplicate st)
  | .newDlData _ _ _ => inferInstanceAs (Decidable True)
  | .newUlData _ _ => inferInstanceAs (Decidable True)
  | .dlTrigger _ _ _ => inferInstanceAs (Decidable True)
  | .ulTrigger _ _ _ => inferInstanceAs (Decidable (List.Nodup _))

theorem HarqState.step_ok (h : st.Inv c) {e : HarqEvent} (hwf : e.WellFormed c)
    (hdup : e.NoDuplicate st) : ∃ st', st.step c e = .ok st' ∧ st'.Inv c := by
  cases e with
  | newDlData rnti dci rlcPduInfo =>
    obtain ⟨hr, hrv, hzero, hstreams, hsym, hmask, hrbg⟩ := hwf
    have hdci : ∀ id, DlDciOk c.bandwidthInRbg c.maxHarqReTx { dci with harqProcess := id } := by
      intro id
      refine ⟨hrv, fun rv hmem => ?_, hstreams, hsym, hmask, hrbg⟩
      rw [hzero rv hmem]
      exact Nat.zero_le _
    obtain ⟨m', hm', hinv⟩ := insertProcess_ok h.dl hr hdci rlcPduInfo
    refine ⟨{ st with dlHarq := m' }, ?_, hinv, h.ul, h.dlBuffered, h.ulBuffered⟩
    rw [HarqState.step, hm']
    rfl
  | newUlData rnti dci =>
    obtain ⟨hr, hrv, hzero⟩ := hwf
    have hdci : ∀ id, UlDciOk c.maxHarqReTx { dci with harqProcess := id } := by
      intro id
      refine ⟨hrv, fun rv hmem => ?_⟩
      rw [hzero rv hmem]
      exact Nat.zero_le _
    obtain ⟨m', hm', hinv⟩ := insertProcess_ok h.ul hr hdci []
    refine ⟨{ st with ulHarq := m' }, ?_, h.dl, hinv, h.dlBuffered, h.ulBuffered⟩
    rw [HarqState.step, hm']
    rfl
  | dlTrigger fbs symAvail sym => exact doSchedDlTriggerReq_ok h hwf symAvail sym
  | ulTrigger fbs symAvail sym => exact doSchedUlTriggerReq_ok h hwf hdup symAvail sym

theorem HarqState.inv_init {order : List Nat} (hsize : c.numHarqProcess ≤ 255)
    (horder : order.Perm (List.range c.numHarqProcess)) : (HarqState.init c order).Inv c := by
  have hmap : ∀ D, HarqMap.Inv c.ues c.numHarqProcess D (HarqState.init c order).dlHarq := by
    intro D rnti hr
    refine ⟨HarqVector.setMaxSize c.numHarqProcess order, ?_, rfl,
      HarqVector.inv_setMaxSize hsize horder⟩
    exact if_pos (List.contains_iff_mem.mpr hr)
  exact ⟨hmap _, hmap _, by simp [HarqState.init], by simp [HarqState.init]⟩

/-- A run of steps, each from the state the one before left. -/
def HarqState.run (c : HarqConf) (st : HarqState) (es : List HarqEvent) : Result HarqState :=
  es.foldlM (HarqState.step c) st

/-- The steps of a run are well formed and no UL trigger meets a duplicate. -/
def HarqState.ValidRun (c : HarqConf) : HarqState → List HarqEvent → Prop
  | _, [] => True
  | st, e :: es => e.WellFormed c ∧ e.NoDuplicate st ∧
      ∀ st', st.step c e = .ok st' → HarqState.ValidRun c st' es

theorem HarqState.run_ok (h : st.Inv c) {es : List HarqEvent} (hes : HarqState.ValidRun c st es) :
    ∃ st', st.run c es = .ok st' ∧ st'.Inv c := by
  induction es generalizing st with
  | nil => exact ⟨st, rfl, h⟩
  | cons e es ih =>
    obtain ⟨hwf, hdup, hrest⟩ := hes
    obtain ⟨st₁, h₁, hinv₁⟩ := HarqState.step_ok h hwf hdup
    obtain ⟨st₂, h₂, hinv₂⟩ := ih hinv₁ (hrest st₁ h₁)
    refine ⟨st₂, ?_, hinv₂⟩
    rw [HarqState.run, List.foldlM_cons, h₁]
    exact h₂

/-- A vector whose count, processes and free places fit together. -/
structure HarqVector.Consistent (numHarqProcess : Nat) (v : HarqVector) : Prop where
  used : v.usedSize = v.procs.countP HarqProcess.active
  used_le : v.usedSize ≤ v.maxSize
  status_iff : ∀ p ∈ v.procs, p.active = true ↔ p.status ≠ .INACTIVE
  dci_iff : ∀ p ∈ v.procs, p.active = true ↔ p.dciElement.isSome = true
  rv_le : ∀ p ∈ v.procs, ∀ dci, p.dciElement = some dci → ∀ rv ∈ dci.rv, rv ≤ 3
  timer_le : ∀ p ∈ v.procs, p.timer ≤ numHarqProcess
  canInsert_iff : v.canInsert = true ↔ ∃ p ∈ v.procs, p.active = false

theorem HarqVector.Inv.consistent {N : Nat} {D : DciInfoElementTdma → Prop} {v : HarqVector}
    (h : v.Inv N D) (hD : ∀ dci, D dci → ∀ rv ∈ dci.rv, rv ≤ 3) : v.Consistent N where
  used := h.used
  used_le := h.used_le
  status_iff p hp := (h.procs p hp).status_iff
  dci_iff p hp := (h.procs p hp).dci_iff
  rv_le p hp dci hdci := hD dci ((h.procs p hp).dci dci hdci)
  timer_le p hp := (h.procs p hp).timer_le
  canInsert_iff := h.canInsert_iff

/-- In a run in which no UL trigger meets two feedbacks for one active process, every step
succeeds and the vectors of every UE are consistent at its end. As every beginning of such a
run is such a run, they are consistent after every step. -/
theorem harq_tables_keep (hsize : c.numHarqProcess ≤ 255) {order : List Nat}
    (horder : order.Perm (List.range c.numHarqProcess)) {es : List HarqEvent}
    (hes : HarqState.ValidRun c (.init c order) es) :
    ∃ st, (HarqState.init c order).run c es = .ok st ∧
      ∀ rnti ∈ c.ues, (∃ v, st.dlHarq rnti = some v ∧ v.Consistent c.numHarqProcess) ∧
        ∃ v, st.ulHarq rnti = some v ∧ v.Consistent c.numHarqProcess := by
  obtain ⟨st, hrun, hinv⟩ := HarqState.run_ok (HarqState.inv_init hsize horder) hes
  refine ⟨st, hrun, ?_⟩
  intro rnti hr
  constructor
  · obtain ⟨v, hv, -, hvinv⟩ := hinv.dl rnti hr
    exact ⟨v, hv, hvinv.consistent fun dci hd rv hmem =>
      (hd.rv_le rv hmem).trans c.maxHarqReTx_le⟩
  · obtain ⟨v, hv, -, hvinv⟩ := hinv.ul rnti hr
    exact ⟨v, hv, hvinv.consistent fun dci hd rv hmem =>
      (hd.rv_le rv hmem).trans c.maxHarqReTx_le⟩

end Run

/-- One UE with two processes. -/
def HarqConf.oneUe : HarqConf where
  ues := [1]
  numHarqProcess := 2
  enableHarqReTx := true
  bandwidthInRbg := 1
  beamConfId := fun _ => 0
  arrange := fun _ => id
  arrange_perm := fun _ _ => List.Perm.refl _

/-- New data for the UE, then a NACK, then an ACK for its process. -/
def HarqEvent.nackThenAck : List HarqEvent :=
  [.newUlData 1 { rnti := 1, symStart := 1, numSym := 1, rv := [0] },
    .ulTrigger [⟨1, 0, .NotOk⟩] 5 1,
    .ulTrigger [⟨1, 0, .Ok⟩] 5 1]

theorem harq_tables_keep_oneUe :
    ∃ st, (HarqState.init .oneUe [0, 1]).run .oneUe HarqEvent.nackThenAck = .ok st ∧
      ∀ rnti ∈ [1], (∃ v, st.dlHarq rnti = some v ∧ v.Consistent 2) ∧
        ∃ v, st.ulHarq rnti = some v ∧ v.Consistent 2 := by
  refine harq_tables_keep (c := .oneUe) (by decide) (List.Perm.refl _) ?_
  refine ⟨by decide, trivial, ?_⟩
  intro st₁ h₁
  obtain rfl := Except.ok.inj h₁
  refine ⟨by decide, by decide, ?_⟩
  intro st₂ h₂
  obtain rfl := Except.ok.inj h₂
  refine ⟨by decide, by decide, ?_⟩
  exact fun _ _ => trivial

/-- The same process is acknowledged twice in one UL trigger. -/
def HarqEvent.duplicateAck : List HarqEvent :=
  [.newUlData 1 { rnti := 1, symStart := 1, numSym := 1, rv := [0] },
    .ulTrigger [⟨1, 0, .Ok⟩, ⟨1, 0, .Ok⟩] 5 1]

theorem duplicate_ack_fatal :
    (∀ e ∈ HarqEvent.duplicateAck, e.WellFormed .oneUe) ∧
      (HarqState.init .oneUe [0, 1]).run .oneUe HarqEvent.duplicateAck = .error .notActive := by
  exact ⟨by decide, rfl⟩

end Ns3.Nr.Sched
