import Mathlib.Data.Fintype.Basic
import Mathlib.Data.List.Basic
import Mathlib.Logic.Function.Basic

/-!
# Random access

A UE without an RNTI sends a preamble. The gNB asks the RRC for one RNTI for each preamble id
it has received, and broadcasts the RNTIs in a RAR; a UE takes the elements whose id is its
own. The ids come from `g_raPreambleId`, a `uint8_t` that all UEs share.

The state holds the UEs, the gNB and the messages under way, which arrive in any order. Two
things break the uniqueness of the RNTIs: a UE that has not sent a preamble yet waits for a
response to the id 0 already, and after 256 preambles the ids start again. `Cell.Alone` excludes
both, and `rntis_distinct` is the result for every run.
-/

namespace Ns3.Nr.RandomAccess

/-! ## Embedding -/

/-- `NrRarMessage::Rar`, with the RNTI of its payload. -/
structure Rar where
  rapId : Nat
  rnti : Nat
deriving DecidableEq, Repr

/-- The part of `NrUeMac` and of its PHY that takes part in random access. -/
structure NrUe where
  /-- `NrPhy::m_raPreambleId` -/
  phyRaPreambleId : Nat := 0
  raPreambleId : Nat := 0
  waitingForRaResponse : Bool := true
  rnti : Nat := 0
  /-- Whether `SendRaPreamble` has been called; the code does not keep this. -/
  preambleSent : Bool := false
deriving DecidableEq, Repr

namespace NrUe

def recvRaResponse (ue : NrUe) (raResponse : Rar) : NrUe :=
  { ue with waitingForRaResponse := false, rnti := raResponse.rnti }

/-- The loop over the RARs of a message; it does not stop at a match. -/
def takeRars (ue : NrUe) : List Rar → NrUe
  | [] => ue
  | rar :: rars =>
    if rar.rapId = ue.raPreambleId then (ue.recvRaResponse rar).takeRars rars
    else ue.takeRars rars

/-- `NrUeMac::DoReceiveControlMessage`, for a RAR message. -/
def doReceiveControlMessage (ue : NrUe) (msg : List Rar) : NrUe :=
  if ue.waitingForRaResponse then ue.takeRars msg else ue

/-- `NrUePhy::DoReceiveRar`: the message goes to the MAC once for each match. -/
def doReceiveRar (msg : List Rar) (ue : NrUe) : NrUe :=
  msg.foldl (fun ue rar =>
    if rar.rapId = ue.phyRaPreambleId then ue.doReceiveControlMessage msg else ue) ue

/-- `NrUeMac::SendRaPreamble` and `NrPhy::SendRachPreamble`. -/
def sendRaPreamble (ue : NrUe) (preambleId : Nat) : NrUe :=
  { ue with phyRaPreambleId := preambleId, raPreambleId := preambleId, preambleSent := true }

end NrUe

/-- `operator[]` of a map, then `++`. -/
def increment (key : Nat) : List (Nat × Nat) → List (Nat × Nat)
  | [] => [(key, 1)]
  | e :: m => if e.1 = key then (key, (e.2 + 1) % 2 ^ 32) :: m else e :: increment key m

/-- `insert` of a map keeps an element that is there. -/
def insertNew (m : List (Nat × Nat)) (e : Nat × Nat) : List (Nat × Nat) :=
  if m.any fun e' => e'.1 = e.1 then m else e :: m

/-- `NrGnbMac::SendRar`; it aborts if an RNTI is not in the map. The key of the map is a
`uint8_t`. -/
def sendRar (rapIdRntiMap : List (Nat × Nat)) : List Nat → Option (List Rar)
  | [] => some []
  | rnti :: rntis => do
    let rapId ← rapIdRntiMap.lookup (rnti % 256)
    let rars ← sendRar rapIdRntiMap rntis
    return ⟨rapId % 256, rnti⟩ :: rars

/-- The UEs, the gNB and the messages under way. -/
structure Cell (Ue : Type) where
  /-- `NrUeMac::g_raPreambleId` -/
  raPreambleId : Nat := 0
  ue : Ue → NrUe := fun _ => {}
  receivedRachPreambleCount : List (Nat × Nat) := []
  rapIdRntiMap : List (Nat × Nat) := []
  /-- The answers of `AllocateTemporaryCellRnti` so far. -/
  allocated : List Nat := []
  rachMsgs : List Nat := []
  rarMsgs : List (Ue × List Rar) := []

/-- The messages are given by their positions among those under way. The order is the one in
which `DoSlotDlIndication` meets the preambles, and the RNTIs are those that the RRC gives. -/
inductive Event (Ue : Type)
  | sendRaPreamble (ue : Ue)
  | receiveRachPreamble (i : Nat)
  | slotDlIndication (order : List (Nat × Nat)) (rntis : List Nat)
  | receiveRar (i : Nat)

namespace Cell

variable {Ue : Type} [DecidableEq Ue]

def sendRaPreamble (st : Cell Ue) (u : Ue) : Cell Ue :=
  { st with
    raPreambleId := (st.raPreambleId + 1) % 256
    ue := Function.update st.ue u ((st.ue u).sendRaPreamble st.raPreambleId)
    rachMsgs := st.raPreambleId :: st.rachMsgs }

def receiveRachPreamble (st : Cell Ue) (raId : Nat) : Cell Ue :=
  { st with
    receivedRachPreambleCount := increment (raId % 256) st.receivedRachPreambleCount }

/-- The part of `NrGnbMac::DoSlotDlIndication` that is about the preambles, with the RAR that the
scheduler builds from them in the same call. The message goes to all UEs. -/
def doSlotDlIndication (ues : List Ue) (order : List (Nat × Nat)) (rntis : List Nat)
    (st : Cell Ue) : Option (Cell Ue) := do
  let map := (rntis.zip order).foldl
    (fun m e => insertNew m (e.1 % 256, e.2.1)) st.rapIdRntiMap
  let rars ← sendRar map rntis
  return { st with
    receivedRachPreambleCount := []
    rapIdRntiMap := if rars = [] then map else []
    allocated := rntis ++ st.allocated
    rarMsgs := (if rars = [] then [] else ues.map fun u => (u, rars)) ++ st.rarMsgs }

def receiveRar (st : Cell Ue) (u : Ue) (msg : List Rar) : Cell Ue :=
  { st with ue := Function.update st.ue u ((st.ue u).doReceiveRar msg) }

/-- One event; `none` if it is not possible in the state. -/
def step (ues : List Ue) (st : Cell Ue) : Event Ue → Option (Cell Ue)
  | .sendRaPreamble u => some (st.sendRaPreamble u)
  | .receiveRachPreamble i => do
    let raId ← st.rachMsgs[i]?
    return { st with rachMsgs := st.rachMsgs.eraseIdx i }.receiveRachPreamble raId
  | .slotDlIndication order rntis =>
    if order.Perm st.receivedRachPreambleCount ∧ rntis.length = order.length then
      st.doSlotDlIndication ues order rntis
    else none
  | .receiveRar i => do
    let d ← st.rarMsgs[i]?
    return { st with rarMsgs := st.rarMsgs.eraseIdx i }.receiveRar d.1 d.2

def run (ues : List Ue) (st : Cell Ue) (es : List (Event Ue)) : Option (Cell Ue) :=
  es.foldlM (step ues) st

/-- Each event of the run has the property in the state in which it happens. -/
def Along (ues : List Ue) (p : Cell Ue → Event Ue → Prop) (st : Cell Ue) : List (Event Ue) → Prop
  | [] => True
  | e :: es => p st e ∧ ∀ st' ∈ st.step ues e, Along ues p st' es

/-- `AllocateTemporaryCellRnti` returns RNTIs that it has not returned before, and never 0. -/
def Fresh (st : Cell Ue) : Event Ue → Prop
  | .slotDlIndication _ rntis => rntis.Nodup ∧ ∀ rnti ∈ rntis, rnti ≠ 0 ∧ rnti ∉ st.allocated
  | _ => True

/-- A waiting UE that draws an id is the only one that waits with it, and no RAR with this id is
under way. A UE that waits takes a RAR only after its own preamble. -/
def Alone (st : Cell Ue) : Event Ue → Prop
  | .sendRaPreamble u => (st.ue u).waitingForRaResponse = true →
      (∀ v ≠ u, (st.ue v).waitingForRaResponse = true → (st.ue v).preambleSent = true →
        (st.ue v).raPreambleId ≠ st.raPreambleId) ∧
      ∀ d ∈ st.rarMsgs, ∀ rar ∈ d.2, rar.rapId ≠ st.raPreambleId
  | .receiveRar i => ∀ d ∈ st.rarMsgs[i]?, (st.ue d.1).waitingForRaResponse = true →
      (∃ rar ∈ d.2, rar.rapId = (st.ue d.1).raPreambleId) → (st.ue d.1).preambleSent = true
  | _ => True

instance (st : Cell Ue) : ∀ e, Decidable (st.Fresh e)
  | .sendRaPreamble _ => isTrue trivial
  | .receiveRachPreamble _ => isTrue trivial
  | .slotDlIndication _ rntis =>
    inferInstanceAs (Decidable (rntis.Nodup ∧ ∀ rnti ∈ rntis, rnti ≠ 0 ∧ rnti ∉ st.allocated))
  | .receiveRar _ => isTrue trivial

instance [Fintype Ue] (st : Cell Ue) : ∀ e, Decidable (st.Alone e)
  | .sendRaPreamble u => inferInstanceAs (Decidable ((st.ue u).waitingForRaResponse = true →
      (∀ v ≠ u, (st.ue v).waitingForRaResponse = true → (st.ue v).preambleSent = true →
        (st.ue v).raPreambleId ≠ st.raPreambleId) ∧
      ∀ d ∈ st.rarMsgs, ∀ rar ∈ d.2, rar.rapId ≠ st.raPreambleId))
  | .receiveRachPreamble _ => isTrue trivial
  | .slotDlIndication _ _ => isTrue trivial
  | .receiveRar i => inferInstanceAs (Decidable (∀ d ∈ st.rarMsgs[i]?,
      (st.ue d.1).waitingForRaResponse = true →
      (∃ rar ∈ d.2, rar.rapId = (st.ue d.1).raPreambleId) → (st.ue d.1).preambleSent = true))

instance decidableAlong (ues : List Ue) (p : Cell Ue → Event Ue → Prop)
    [∀ st e, Decidable (p st e)] : ∀ st es, Decidable (Along ues p st es)
  | _, [] => isTrue trivial
  | st, e :: es =>
    have := fun st' => decidableAlong ues p st' es
    inferInstanceAs (Decidable (p st e ∧ ∀ st' ∈ st.step ues e, Along ues p st' es))

end Cell

/-! ## What a UE takes -/

namespace NrUe

variable {ue : NrUe}

theorem takeRars_cases (ue : NrUe) (rars : List Rar) :
    ue.takeRars rars = ue ∨
      ∃ rar ∈ rars, rar.rapId = ue.raPreambleId ∧ ue.takeRars rars = ue.recvRaResponse rar := by
  induction rars generalizing ue with
  | nil => exact Or.inl rfl
  | cons rar rars ih =>
    unfold takeRars
    split
    · rename_i heq
      rcases ih (ue.recvRaResponse rar) with h | ⟨last, hlast, hid, h⟩
      · exact Or.inr ⟨rar, List.mem_cons_self, heq, h⟩
      · exact Or.inr ⟨last, List.mem_cons_of_mem _ hlast, hid, h⟩
    · rcases ih ue with h | ⟨last, hlast, hid, h⟩
      · exact Or.inl h
      · exact Or.inr ⟨last, List.mem_cons_of_mem _ hlast, hid, h⟩

/-- The UE waits, and the element of the message has its id. -/
structure Takes (ue : NrUe) (msg : List Rar) (rar : Rar) : Prop where
  waiting : ue.waitingForRaResponse = true
  mem : rar ∈ msg
  rapId : rar.rapId = ue.raPreambleId

/-- The UE after a message: it has taken one RNTI of it, or none. -/
def After (ue : NrUe) (msg : List Rar) (ue' : NrUe) : Prop :=
  ue' = ue ∨ ∃ rar, ue.Takes msg rar ∧ ue' = ue.recvRaResponse rar

theorem after_doReceiveControlMessage (ue : NrUe) (msg : List Rar) :
    ue.After msg (ue.doReceiveControlMessage msg) := by
  unfold doReceiveControlMessage
  split
  · rename_i hwaiting
    rcases ue.takeRars_cases msg with h | ⟨rar, hrar, hid, h⟩
    · exact Or.inl h
    · exact Or.inr ⟨rar, ⟨hwaiting, hrar, hid⟩, h⟩
  · exact Or.inl rfl

theorem after_doReceiveRar (ue : NrUe) (msg : List Rar) : ue.After msg (ue.doReceiveRar msg) := by
  -- the message is the same in all rounds of the loop; after a match the UE does not wait
  have hround : ∀ (rars : List Rar) (ue' : NrUe), ue.After msg ue' →
      ue.After msg (rars.foldl (fun u rar =>
        if rar.rapId = u.phyRaPreambleId then u.doReceiveControlMessage msg else u) ue') := by
    intro rars
    induction rars with
    | nil => exact fun ue' h => h
    | cons rar rars ih =>
      intro ue' h
      apply ih
      show ue.After msg
        (if rar.rapId = ue'.phyRaPreambleId then ue'.doReceiveControlMessage msg else ue')
      split
      · rcases h with rfl | ⟨taken, htaken, rfl⟩
        · exact after_doReceiveControlMessage ue' msg
        · exact Or.inr ⟨taken, htaken, rfl⟩
      · exact h
  exact hround msg ue (Or.inl rfl)

end NrUe

/-! ## The invariant -/

namespace Cell

variable {Ue : Type}

/-- The RNTI is on its way to the UEs with the id. -/
def Offered (st : Cell Ue) (rapId rnti : Nat) : Prop :=
  ∃ d ∈ st.rarMsgs, ⟨rapId, rnti⟩ ∈ d.2

/-- The UE has sent its preamble and waits for the response. -/
def Pending (st : Cell Ue) (u : Ue) : Prop :=
  (st.ue u).waitingForRaResponse = true ∧ (st.ue u).preambleSent = true

def Done (st : Cell Ue) (u : Ue) : Prop := (st.ue u).waitingForRaResponse = false

structure Inv (st : Cell Ue) : Prop where
  offered : ∀ rapId rnti, st.Offered rapId rnti → rnti ∈ st.allocated
  offered_inj : ∀ rapId rapId' rnti, st.Offered rapId rnti → st.Offered rapId' rnti →
    rapId = rapId'
  pending_inj : ∀ u v, st.Pending u → st.Pending v →
    (st.ue u).raPreambleId = (st.ue v).raPreambleId → u = v
  /-- an RNTI that is taken is not offered to a UE that still waits -/
  taken : ∀ u v, st.Done u → st.Pending v → ¬ st.Offered (st.ue v).raPreambleId (st.ue u).rnti
  done : ∀ u, st.Done u → (st.ue u).rnti ∈ st.allocated
  waiting : ∀ u, ¬ st.Done u → (st.ue u).rnti = 0
  nonzero : ∀ rnti ∈ st.allocated, rnti ≠ 0
  distinct : ∀ u v, u ≠ v → st.Done u → st.Done v → (st.ue u).rnti ≠ (st.ue v).rnti

theorem inv_init : ({} : Cell Ue).Inv where
  offered rapId rnti h := by
    obtain ⟨d, hd, -⟩ := h
    cases hd
  offered_inj rapId rapId' rnti h := by
    obtain ⟨d, hd, -⟩ := h
    cases hd
  pending_inj u v h := by cases h.2
  taken u v h := by cases h
  done u h := by cases h
  waiting u h := rfl
  nonzero rnti h := by cases h
  distinct u v huv h := by cases h

variable {st : Cell Ue}

/-- The invariant reads the UEs, the RARs under way and the allocated RNTIs. -/
theorem Inv.of_eq (h : st.Inv) {st' : Cell Ue} (hue : st'.ue = st.ue)
    (hrars : st'.rarMsgs = st.rarMsgs) (halloc : st'.allocated = st.allocated) : st'.Inv := by
  obtain ⟨g, ue, count, map, allocated, rachs, rars⟩ := st
  obtain ⟨g', ue', count', map', allocated', rachs', rars'⟩ := st'
  cases hue
  cases hrars
  cases halloc
  exact ⟨h.1, h.2, h.3, h.4, h.5, h.6, h.7, h.8⟩

/-- A RAR that is not under way any more is offered to nobody. -/
theorem Inv.of_subset (h : st.Inv) {rarMsgs : List (Ue × List Rar)}
    (hsub : ∀ d ∈ rarMsgs, d ∈ st.rarMsgs) : { st with rarMsgs := rarMsgs }.Inv := by
  have hoffered : ∀ rapId rnti, { st with rarMsgs := rarMsgs }.Offered rapId rnti →
      st.Offered rapId rnti := by
    rintro rapId rnti ⟨d, hd, hrar⟩
    exact ⟨d, hsub d hd, hrar⟩
  constructor
  · exact fun rapId rnti ho => h.offered rapId rnti (hoffered _ _ ho)
  · exact fun rapId rapId' rnti ho ho' =>
      h.offered_inj rapId rapId' rnti (hoffered _ _ ho) (hoffered _ _ ho')
  · exact h.pending_inj
  · exact fun u v hu hv ho => h.taken u v hu hv (hoffered _ _ ho)
  · exact h.done
  · exact h.waiting
  · exact h.nonzero
  · exact h.distinct

/-- The UEs that have completed random access have RNTIs of their own. -/
def Distinct (st : Cell Ue) : Prop :=
  ∀ u v, u ≠ v → st.Done u → (st.ue u).rnti ≠ (st.ue v).rnti

theorem Inv.distinct_all (h : st.Inv) : st.Distinct := by
  intro u v huv hu
  by_cases hv : st.Done v
  · exact h.distinct u v huv hu hv
  · rw [h.waiting v hv]
    exact h.nonzero _ (h.done u hu)

/-! ## Steps -/

theorem mem_sendRar {map : List (Nat × Nat)} {rntis : List Nat} {rars : List Rar}
    (h : sendRar map rntis = some rars) {rar : Rar} (hrar : rar ∈ rars) :
    rar.rnti ∈ rntis ∧ ∃ rapId, map.lookup (rar.rnti % 256) = some rapId ∧
      rar.rapId = rapId % 256 := by
  induction rntis generalizing rars with
  | nil =>
    cases h
    cases hrar
  | cons rnti rntis ih =>
    obtain ⟨rapId, hid, h⟩ := Option.bind_eq_some_iff.mp h
    obtain ⟨rest, hrest, h⟩ := Option.bind_eq_some_iff.mp h
    cases h
    rcases List.mem_cons.mp hrar with rfl | hmem
    · exact ⟨List.mem_cons_self, rapId, hid, rfl⟩
    · obtain ⟨hrnti, hlookup⟩ := ih hrest hmem
      exact ⟨List.mem_cons_of_mem _ hrnti, hlookup⟩

/-- The RNTIs of a new RAR are new, and the map gives each of them one id. -/
theorem Inv.doSlotDlIndication (h : st.Inv) {ues : List Ue} {order : List (Nat × Nat)}
    {rntis : List Nat} (hfresh : st.Fresh (.slotDlIndication order rntis)) {st' : Cell Ue}
    (hst' : st.doSlotDlIndication ues order rntis = some st') : st'.Inv := by
  obtain ⟨rars, hrars, hst'⟩ := Option.bind_eq_some_iff.mp hst'
  cases hst'
  have hnew : ∀ rapId rnti, ⟨rapId, rnti⟩ ∈ rars → rnti ≠ 0 ∧ rnti ∉ st.allocated :=
    fun rapId rnti hrar => hfresh.2 rnti (mem_sendRar hrars hrar).1
  have hinj : ∀ rapId rapId' rnti, ⟨rapId, rnti⟩ ∈ rars → ⟨rapId', rnti⟩ ∈ rars →
      rapId = rapId' := by
    intro rapId rapId' rnti hrar hrar'
    obtain ⟨-, id, hid, heq⟩ := mem_sendRar hrars hrar
    obtain ⟨-, id', hid', heq'⟩ := mem_sendRar hrars hrar'
    rw [hid] at hid'
    cases hid'
    exact heq.trans heq'.symm
  set st' : Cell Ue := { st with
    receivedRachPreambleCount := []
    rapIdRntiMap := _
    allocated := rntis ++ st.allocated
    rarMsgs := (if rars = [] then [] else ues.map fun u => (u, rars)) ++ st.rarMsgs } with hst'
  have hoffered : ∀ rapId rnti, st'.Offered rapId rnti →
      ⟨rapId, rnti⟩ ∈ rars ∨ st.Offered rapId rnti := by
    rintro rapId rnti ⟨d, hd, hrar⟩
    rcases List.mem_append.mp hd with hd | hd
    · split at hd
      · cases hd
      · obtain ⟨u, -, rfl⟩ := List.mem_map.mp hd
        exact Or.inl hrar
    · exact Or.inr ⟨d, hd, hrar⟩
  constructor
  · intro rapId rnti ho
    rcases hoffered rapId rnti ho with hrar | ho
    · exact List.mem_append_left _ (mem_sendRar hrars hrar).1
    · exact List.mem_append_right _ (h.offered rapId rnti ho)
  · intro rapId rapId' rnti ho ho'
    rcases hoffered rapId rnti ho with hrar | ho
    · rcases hoffered rapId' rnti ho' with hrar' | ho'
      · exact hinj rapId rapId' rnti hrar hrar'
      · exact absurd (h.offered rapId' rnti ho') (hnew rapId rnti hrar).2
    · rcases hoffered rapId' rnti ho' with hrar' | ho'
      · exact absurd (h.offered rapId rnti ho) (hnew rapId' rnti hrar').2
      · exact h.offered_inj rapId rapId' rnti ho ho'
  · exact h.pending_inj
  · intro u v hu hv ho
    rcases hoffered _ _ ho with hrar | ho
    · exact (hnew _ _ hrar).2 (h.done u hu)
    · exact h.taken u v hu hv ho
  · exact fun u hu => List.mem_append_right _ (h.done u hu)
  · exact h.waiting
  · intro rnti hrnti
    rcases List.mem_append.mp hrnti with hrnti | hrnti
    · exact (hfresh.2 rnti hrnti).1
    · exact h.nonzero rnti hrnti
  · exact h.distinct

variable [DecidableEq Ue]

theorem sendRaPreamble_ue_self (st : Cell Ue) (u : Ue) :
    (st.sendRaPreamble u).ue u = (st.ue u).sendRaPreamble st.raPreambleId :=
  Function.update_self u _ st.ue

theorem sendRaPreamble_ue_ne (st : Cell Ue) {u v : Ue} (h : v ≠ u) :
    (st.sendRaPreamble u).ue v = st.ue v :=
  Function.update_of_ne h _ st.ue

/-- A preamble changes neither who waits nor an RNTI. -/
theorem sendRaPreamble_same (st : Cell Ue) (u v : Ue) :
    ((st.sendRaPreamble u).ue v).waitingForRaResponse = (st.ue v).waitingForRaResponse ∧
      ((st.sendRaPreamble u).ue v).rnti = (st.ue v).rnti := by
  by_cases h : v = u
  · rw [h, sendRaPreamble_ue_self]
    exact ⟨rfl, rfl⟩
  · rw [sendRaPreamble_ue_ne st h]
    exact ⟨rfl, rfl⟩

theorem Inv.sendRaPreamble (h : st.Inv) {u : Ue} (halone : st.Alone (.sendRaPreamble u)) :
    (st.sendRaPreamble u).Inv := by
  have hdone : ∀ v, (st.sendRaPreamble u).Done v ↔ st.Done v := by
    intro v
    unfold Done
    rw [(sendRaPreamble_same st u v).1]
  have hrnti : ∀ v, ((st.sendRaPreamble u).ue v).rnti = (st.ue v).rnti :=
    fun v => (sendRaPreamble_same st u v).2
  have hold : ∀ v, v ≠ u → (st.sendRaPreamble u).Pending v → st.Pending v := by
    intro v hv hp
    unfold Pending at hp
    rwa [sendRaPreamble_ue_ne st hv] at hp
  have hself : (st.sendRaPreamble u).Pending u → (st.ue u).waitingForRaResponse = true := by
    intro hp
    have := hp.1
    rwa [(sendRaPreamble_same st u u).1] at this
  have hother : ∀ v, v ≠ u → (st.sendRaPreamble u).Pending u → (st.sendRaPreamble u).Pending v →
      ((st.sendRaPreamble u).ue u).raPreambleId ≠ ((st.sendRaPreamble u).ue v).raPreambleId := by
    intro v hv hu hp heq
    obtain ⟨hwaiting, hsent⟩ := hold v hv hp
    rw [sendRaPreamble_ue_self, sendRaPreamble_ue_ne st hv] at heq
    exact (halone (hself hu)).1 v hv hwaiting hsent heq.symm
  constructor
  · exact h.offered
  · exact h.offered_inj
  · intro v w hv hw heq
    by_cases hvu : v = u
    · by_cases hwu : w = u
      · rw [hvu, hwu]
      · rw [hvu] at hv heq
        exact absurd heq (hother w hwu hv hw)
    · by_cases hwu : w = u
      · rw [hwu] at hw heq
        exact absurd heq.symm (hother v hvu hw hv)
      · rw [sendRaPreamble_ue_ne st hvu, sendRaPreamble_ue_ne st hwu] at heq
        exact h.pending_inj v w (hold v hvu hv) (hold w hwu hw) heq
  · intro v w hv hw hoffered
    rw [hrnti] at hoffered
    by_cases hwu : w = u
    · rw [hwu] at hw hoffered
      rw [sendRaPreamble_ue_self] at hoffered
      obtain ⟨d, hd, hrar⟩ := hoffered
      exact (halone (hself hw)).2 d hd _ hrar rfl
    · rw [sendRaPreamble_ue_ne st hwu] at hoffered
      exact h.taken v w ((hdone v).mp hv) (hold w hwu hw) hoffered
  · intro v hv
    rw [hrnti]
    exact h.done v ((hdone v).mp hv)
  · intro v hv
    rw [hrnti]
    exact h.waiting v (fun hd => hv ((hdone v).mpr hd))
  · exact h.nonzero
  · intro v w hvw hv hw
    rw [hrnti, hrnti]
    exact h.distinct v w hvw ((hdone v).mp hv) ((hdone w).mp hw)

/-- The UE takes an RNTI that nobody has, and that is offered only to its own id. -/
theorem Inv.receiveRar (h : st.Inv) {u : Ue} {msg : List Rar}
    (hmsg : ∀ rar ∈ msg, st.Offered rar.rapId rar.rnti)
    (hsent : ∀ rar, (st.ue u).Takes msg rar → (st.ue u).preambleSent = true) :
    (st.receiveRar u msg).Inv := by
  rcases (st.ue u).after_doReceiveRar msg with heq | ⟨rar, htakes, heq⟩
  · have hsame : (st.receiveRar u msg).ue = st.ue := by
      show Function.update st.ue u _ = st.ue
      rw [heq, Function.update_eq_self]
    exact h.of_eq hsame rfl rfl
  · have hpending : st.Pending u := ⟨htakes.waiting, hsent rar htakes⟩
    have hoffered : st.Offered (st.ue u).raPreambleId rar.rnti :=
      htakes.rapId ▸ hmsg rar htakes.mem
    have hself : (st.receiveRar u msg).ue u = (st.ue u).recvRaResponse rar :=
      (Function.update_self u _ st.ue).trans heq
    have hne : ∀ v, v ≠ u → (st.receiveRar u msg).ue v = st.ue v :=
      fun v hv => Function.update_of_ne hv _ st.ue
    have hdone : ∀ v, v ≠ u → (st.receiveRar u msg).Done v → st.Done v := by
      intro v hv hd
      unfold Done at hd
      rwa [hne v hv] at hd
    have hdone_self : (st.receiveRar u msg).Done u := by
      unfold Done
      rw [hself]
      rfl
    have hstill : ∀ v, (st.receiveRar u msg).Pending v → v ≠ u ∧ st.Pending v := by
      intro v hp
      have hv : v ≠ u := by
        intro hv
        rw [hv] at hp
        have := hp.1
        rw [hdone_self] at this
        cases this
      unfold Pending at hp
      rw [hne v hv] at hp
      exact ⟨hv, hp⟩
    -- whoever has the RNTI already would have kept it from the UE
    have hnew : ∀ v, st.Done v → (st.ue v).rnti ≠ rar.rnti := by
      intro v hv hrnti
      exact h.taken v u hv hpending (hrnti ▸ hoffered)
    constructor
    · exact h.offered
    · exact h.offered_inj
    · intro v w hv hw hid
      obtain ⟨hvu, hv⟩ := hstill v hv
      obtain ⟨hwu, hw⟩ := hstill w hw
      rw [hne v hvu, hne w hwu] at hid
      exact h.pending_inj v w hv hw hid
    · intro v w hv hw ho
      obtain ⟨hwu, hw⟩ := hstill w hw
      rw [hne w hwu] at ho
      by_cases hvu : v = u
      · rw [hvu, hself] at ho
        have hid := h.offered_inj _ _ _ ho hoffered
        exact hwu (h.pending_inj w u hw hpending hid)
      · rw [hne v hvu] at ho
        exact h.taken v w (hdone v hvu hv) hw ho
    · intro v hv
      by_cases hvu : v = u
      · rw [hvu, hself]
        exact h.offered _ _ hoffered
      · rw [hne v hvu]
        exact h.done v (hdone v hvu hv)
    · intro v hv
      have hvu : v ≠ u := by
        intro hvu
        exact hv (hvu ▸ hdone_self)
      rw [hne v hvu]
      apply h.waiting v
      intro hd
      apply hv
      unfold Done
      rw [hne v hvu]
      exact hd
    · exact h.nonzero
    · intro v w hvw hv hw
      by_cases hvu : v = u
      · have hwu : w ≠ u := fun hwu => hvw (hvu.trans hwu.symm)
        rw [hvu, hself, hne w hwu]
        exact (hnew w (hdone w hwu hw)).symm
      · rw [hne v hvu]
        by_cases hwu : w = u
        · rw [hwu, hself]
          exact hnew v (hdone v hvu hv)
        · rw [hne w hwu]
          exact h.distinct v w hvw (hdone v hvu hv) (hdone w hwu hw)

theorem Inv.step (h : st.Inv) {ues : List Ue} {e : Event Ue} (hfresh : st.Fresh e)
    (halone : st.Alone e) {st' : Cell Ue} (hst' : st.step ues e = some st') : st'.Inv := by
  cases e with
  | sendRaPreamble u =>
    cases hst'
    exact h.sendRaPreamble halone
  | receiveRachPreamble i =>
    obtain ⟨raId, -, hst'⟩ := Option.bind_eq_some_iff.mp hst'
    cases hst'
    exact h.of_eq rfl rfl rfl
  | slotDlIndication order rntis =>
    simp only [Cell.step] at hst'
    split at hst'
    · exact h.doSlotDlIndication hfresh hst'
    · cases hst'
  | receiveRar i =>
    obtain ⟨d, hd, hst'⟩ := Option.bind_eq_some_iff.mp hst'
    cases hst'
    -- the message is still in the list when the UE takes it
    have hmem := List.mem_of_getElem? hd
    have hinv := h.receiveRar (u := d.1) (fun rar hrar => ⟨d, hmem, hrar⟩)
      (fun rar htakes => halone d hd htakes.waiting ⟨rar, htakes.mem, htakes.rapId⟩)
    exact hinv.of_subset fun d' hd' => List.mem_of_mem_eraseIdx hd'

theorem Inv.run (h : st.Inv) {ues : List Ue} {es : List (Event Ue)}
    (hfresh : st.Along ues Fresh es) (halone : st.Along ues Alone es) {st' : Cell Ue}
    (hst' : st.run ues es = some st') : st'.Inv := by
  induction es generalizing st with
  | nil =>
    cases hst'
    exact h
  | cons e es ih =>
    rw [Cell.run, List.foldlM_cons] at hst'
    obtain ⟨st₁, hst₁, hst'⟩ := Option.bind_eq_some_iff.mp hst'
    exact ih (h.step hfresh.1 halone.1 hst₁) (hfresh.2 st₁ hst₁) (halone.2 st₁ hst₁) hst'

end Cell

/-! ## Result -/

theorem rntis_distinct {Ue : Type} [DecidableEq Ue] {ues : List Ue} {es : List (Event Ue)}
    {st : Cell Ue} (hrun : ({} : Cell Ue).run ues es = some st)
    (hfresh : ({} : Cell Ue).Along ues Cell.Fresh es)
    (halone : ({} : Cell Ue).Along ues Cell.Alone es) : st.Distinct :=
  (Cell.inv_init.run hfresh halone hrun).distinct_all

/-- Two UEs in one slot. -/
theorem rntis_distinct_two :
    ∃ st, ({} : Cell Bool).run [false, true]
        [.sendRaPreamble false, .sendRaPreamble true, .receiveRachPreamble 0,
          .receiveRachPreamble 0, .slotDlIndication [(0, 1), (1, 1)] [1, 2], .receiveRar 0,
          .receiveRar 0] = some st ∧
      st.Done false ∧ st.Done true ∧ st.Distinct := by
  obtain ⟨st, hst⟩ : ∃ st, ({} : Cell Bool).run [false, true]
      [.sendRaPreamble false, .sendRaPreamble true, .receiveRachPreamble 0,
        .receiveRachPreamble 0, .slotDlIndication [(0, 1), (1, 1)] [1, 2], .receiveRar 0,
        .receiveRar 0] = some st := ⟨_, rfl⟩
  refine ⟨st, hst, ?_, ?_, rntis_distinct hst (by decide) (by decide)⟩
  · cases hst
    rfl
  · cases hst
    rfl

/-- The second UE has not sent a preamble and takes the RNTI of the first one. -/
theorem rnti_shared :
    ∃ st, ({} : Cell Bool).run [false, true]
        [.sendRaPreamble false, .receiveRachPreamble 0, .slotDlIndication [(0, 1)] [1],
          .receiveRar 0, .receiveRar 0] = some st ∧
      ({} : Cell Bool).Along [false, true] Cell.Fresh
        [.sendRaPreamble false, .receiveRachPreamble 0, .slotDlIndication [(0, 1)] [1],
          .receiveRar 0, .receiveRar 0] ∧
      st.Done false ∧ st.Done true ∧ (st.ue false).rnti = (st.ue true).rnti := by
  refine ⟨_, rfl, ?_, rfl, rfl, rfl⟩
  decide

end Ns3.Nr.RandomAccess
