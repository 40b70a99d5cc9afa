import Ns3.Nr.Alloc
import Mathlib.Data.List.Count
import Mathlib.Data.List.Range

/-!
# HARQ processes of one UE

`NrMacHarqVector` holds the processes of one UE and one direction together with a count of
those in use. `HarqVector.Inv` is what every operation keeps: the count is right, a process
is active exactly when it has a status and a DCI, timers stay in their range, and every
stored DCI keeps a property that depends on the direction.
-/

namespace Ns3.Nr.Sched

/-! ## Embedding -/

/-- The ways a step of the scheduler stops. -/
inductive Fault
  /-- "Received feedback for a process which is not active" -/
  | notActive
  /-- `m_usedSize` is decremented at zero. -/
  | usedSizeUnderflow
  /-- An entry that a map or a vector does not have. -/
  | outOfRange
  /-- `NS_ABORT_IF`, `NS_ASSERT`, and a division by zero. -/
  | abort
  /-- "UE does not have HARQ space" -/
  | noHarqSpace
deriving DecidableEq, Repr

abbrev Result := Except Fault

/-- `HarqProcess::Status`. -/
inductive HarqStatus
  | INACTIVE
  | WAITING_FEEDBACK
  | RECEIVED_FEEDBACK
deriving DecidableEq, Repr

structure HarqProcess where
  active : Bool := false
  status : HarqStatus := .INACTIVE
  timer : Nat := 0
  dciElement : Option DciInfoElementTdma := none
  rlcPduInfo : List (List RlcPduInfo) := []
  nackStreamIndexes : List Nat := []
deriving DecidableEq, Repr

def HarqProcess.erase (p : HarqProcess) : HarqProcess :=
  { p with active := false, status := .INACTIVE, timer := 0, dciElement := none, rlcPduInfo := [] }

/-- `NrMacHarqVector`. The processes are listed by their id; `order` is the order in which
the `unordered_map` behind it is walked. -/
structure HarqVector where
  maxSize : Nat := 0
  usedSize : Nat := 0
  procs : List HarqProcess := []
  order : List Nat := []
deriving DecidableEq, Repr

namespace HarqVector

def setMaxSize (size : Nat) (order : List Nat) : HarqVector :=
  { maxSize := size, procs := List.replicate size {}, order := order }

def get (v : HarqVector) (id : Nat) : Result HarqProcess :=
  match v.procs[id]? with
  | some p => .ok p
  | none => .error .outOfRange

def put (v : HarqVector) (id : Nat) (p : HarqProcess) : HarqVector :=
  { v with procs := v.procs.set id p }

def canInsert (v : HarqVector) : Bool := v.usedSize < v.maxSize

/-- The first inactive process in the order of the map, or 255. -/
def firstAvailableId (v : HarqVector) : Nat :=
  (v.order.find? fun id => (v.procs[id]?).any fun p => !p.active).getD 255

/-- `Erase`. The decrement of an empty count is reported. -/
def erase (v : HarqVector) (id : Nat) : Result HarqVector := do
  let p ← v.get id
  if v.usedSize = 0 then throw .usedSizeUnderflow
  return { v.put id p.erase with usedSize := v.usedSize - 1 }

/-- `Insert`: the id of the process that was used, or `none` if there is none. -/
def insert (v : HarqVector) (element : HarqProcess) : Result (Option Nat × HarqVector) := do
  if v.maxSize ≤ v.usedSize then return (none, v)
  if !element.active then throw .abort
  let id := v.firstAvailableId
  if id = 255 then return (none, v)
  let old ← v.get id
  if old.active then throw .abort
  let v := v.put id element
  if v.firstAvailableId = id then throw .abort
  return (some id, { v with usedSize := (v.usedSize + 1) % 256 })

/-- The body of `ResetExpiredHARQ` for one process. -/
def resetExpiredOne (numHarqProcess : Nat) (v : HarqVector) (id : Nat) : Result HarqVector := do
  let p ← v.get id
  if p.status = .INACTIVE then return v
  if p.timer < numHarqProcess then return v.put id { p with timer := p.timer + 1 }
  else v.erase id

def resetExpired (numHarqProcess : Nat) (v : HarqVector) : Result HarqVector :=
  v.order.foldlM (resetExpiredOne numHarqProcess) v

end HarqVector

/-! ## The invariant -/

/-- A process of a table whose DCIs have the property `D`. -/
structure HarqProcess.Ok (numHarqProcess : Nat) (D : DciInfoElementTdma → Prop)
    (p : HarqProcess) : Prop where
  status_iff : p.active = true ↔ p.status ≠ .INACTIVE
  dci_iff : p.active = true ↔ p.dciElement.isSome = true
  timer_le : p.timer ≤ numHarqProcess
  dci : ∀ dci, p.dciElement = some dci → D dci

structure HarqVector.Inv (numHarqProcess : Nat) (D : DciInfoElementTdma → Prop)
    (v : HarqVector) : Prop where
  length : v.procs.length = v.maxSize
  maxSize_le : v.maxSize ≤ 255
  used : v.usedSize = v.procs.countP HarqProcess.active
  order : v.order.Perm (List.range v.maxSize)
  procs : ∀ p ∈ v.procs, p.Ok numHarqProcess D

theorem HarqProcess.Ok.erase {N : Nat} {D : DciInfoElementTdma → Prop} (p : HarqProcess) :
    p.erase.Ok N D where
  status_iff := by simp [HarqProcess.erase]
  dci_iff := by simp [HarqProcess.erase]
  timer_le := Nat.zero_le _
  dci _ hdci := by cases hdci

/-- Replacing an element changes a count by the difference of the two elements. -/
theorem countP_set {α : Type} (c : α → Bool) {l : List α} {i : Nat} {a : α} (h : l[i]? = some a)
    (b : α) :
    (l.set i b).countP c + (if c a then 1 else 0) = l.countP c + if c b then 1 else 0 := by
  induction l generalizing i with
  | nil => simp at h
  | cons x l ih =>
    cases i with
    | zero =>
      obtain rfl := Option.some.inj h
      simp only [List.set_cons_zero, List.countP_cons]
      omega
    | succ i =>
      have hi := ih h
      simp only [List.set_cons_succ, List.countP_cons]
      omega

section Operations

variable {N : Nat} {D : DciInfoElementTdma → Prop} {v : HarqVector} {id : Nat} {p : HarqProcess}

theorem HarqVector.get_eq_ok (h : v.procs[id]? = some p) : v.get id = .ok p := by
  rw [HarqVector.get, h]

theorem HarqVector.Inv.exists_get (h : v.Inv N D) (hid : id < v.maxSize) :
    ∃ p, v.procs[id]? = some p := by
  rw [← h.length] at hid
  exact ⟨_, List.getElem?_eq_getElem hid⟩

theorem HarqVector.Inv.ok (h : v.Inv N D) (hp : v.procs[id]? = some p) : p.Ok N D :=
  h.procs p (List.mem_of_getElem? hp)

theorem HarqVector.Inv.used_le (h : v.Inv N D) : v.usedSize ≤ v.maxSize := by
  rw [h.used, ← h.length]
  exact List.countP_le_length

theorem HarqVector.Inv.canInsert_iff (h : v.Inv N D) :
    v.canInsert = true ↔ ∃ p ∈ v.procs, p.active = false := by
  rw [HarqVector.canInsert, decide_eq_true_eq, h.used, ← h.length]
  constructor
  · intro hlt
    by_contra hnone
    have hall : ∀ p ∈ v.procs, p.active = true := by
      intro p hp
      by_contra hf
      exact hnone ⟨p, hp, Bool.not_eq_true _ ▸ hf⟩
    rw [List.countP_eq_length.mpr hall] at hlt
    exact lt_irrefl _ hlt
  · rintro ⟨p, hp, hf⟩
    refine lt_of_le_of_ne List.countP_le_length ?_
    intro heq
    rw [List.countP_eq_length.mp heq p hp] at hf
    cases hf

/-- Writing back a process with the same activity. -/
theorem HarqVector.Inv.put (h : v.Inv N D) (hp : v.procs[id]? = some p) {p' : HarqProcess}
    (hact : p'.active = p.active) (hok : p'.Ok N D) : (v.put id p').Inv N D where
  length := List.length_set.trans h.length
  maxSize_le := h.maxSize_le
  used := by
    have := countP_set HarqProcess.active hp p'
    rw [hact] at this
    change v.usedSize = (v.procs.set id p').countP HarqProcess.active
    rw [h.used]
    omega
  order := h.order
  procs := by
    intro q hq
    rcases List.mem_or_eq_of_mem_set hq with hq | rfl
    · exact h.procs q hq
    · exact hok

/-- Erasing an active process. -/
theorem HarqVector.Inv.erase (h : v.Inv N D) (hp : v.procs[id]? = some p)
    (hact : p.active = true) :
    ∃ v', v.erase id = .ok v' ∧ v'.Inv N D ∧ v'.procs = v.procs.set id p.erase ∧
      v'.maxSize = v.maxSize := by
  have hcount := countP_set HarqProcess.active hp p.erase
  rw [if_pos hact, if_neg (show ¬ p.erase.active = true from Bool.false_ne_true)] at hcount
  have hpos : v.usedSize ≠ 0 := by
    rw [h.used]
    omega
  refine ⟨{ v.put id p.erase with usedSize := v.usedSize - 1 }, ?_, ?_, rfl, rfl⟩
  · rw [HarqVector.erase, HarqVector.get_eq_ok hp]
    change (if v.usedSize = 0 then _ else _) = _
    rw [if_neg hpos]
    rfl
  · refine ⟨List.length_set.trans h.length, h.maxSize_le, ?_, h.order, ?_⟩
    · change v.usedSize - 1 = (v.procs.set id p.erase).countP HarqProcess.active
      rw [h.used]
      omega
    · intro q hq
      rcases List.mem_or_eq_of_mem_set hq with hq | rfl
      · exact h.procs q hq
      · exact HarqProcess.Ok.erase p

/-- The id found for a new process is the id of an inactive one. -/
theorem HarqVector.Inv.firstAvailableId (h : v.Inv N D) (hcan : v.canInsert = true) :
    ∃ p, v.procs[v.firstAvailableId]? = some p ∧ p.active = false ∧
      v.firstAvailableId < v.maxSize := by
  obtain ⟨p, hp, hf⟩ := h.canInsert_iff.mp hcan
  obtain ⟨i, hi⟩ := List.mem_iff_getElem?.mp hp
  have hlt : i < v.maxSize := by
    rw [← h.length]
    exact (List.getElem?_eq_some_iff.mp hi).1
  have hsome : (v.order.find? fun id => (v.procs[id]?).any fun p => !p.active).isSome := by
    rw [List.find?_isSome]
    exact ⟨i, h.order.mem_iff.mpr (List.mem_range.mpr hlt), by rw [hi]; simp [hf]⟩
  obtain ⟨j, hj⟩ := Option.isSome_iff_exists.mp hsome
  have hfirst : v.firstAvailableId = j := by
    rw [HarqVector.firstAvailableId, hj]
    rfl
  have hmem := List.mem_range.mp (h.order.mem_iff.mp (List.mem_of_find?_eq_some hj))
  obtain ⟨q, hq⟩ := h.exists_get hmem
  have hinactive := List.find?_some hj
  rw [hq] at hinactive
  rw [hfirst]
  exact ⟨q, hq, by simpa using hinactive, hmem⟩

theorem HarqVector.Inv.insert (h : v.Inv N D) (hcan : v.canInsert = true) {element : HarqProcess}
    (hact : element.active = true) (hok : element.Ok N D) :
    ∃ id v', v.insert element = .ok (some id, v') ∧ v'.Inv N D ∧ id < v.maxSize ∧
      v'.procs = v.procs.set id element ∧ v'.maxSize = v.maxSize := by
  obtain ⟨old, hold, hinactive, hlt⟩ := h.firstAvailableId hcan
  have hmax := h.maxSize_le
  have hused : v.usedSize < v.maxSize := of_decide_eq_true hcan
  have hother : (v.put v.firstAvailableId element).firstAvailableId ≠ v.firstAvailableId := by
    intro heq
    rw [HarqVector.firstAvailableId] at heq
    cases hfind : (v.put v.firstAvailableId element).order.find? fun id =>
        ((v.put v.firstAvailableId element).procs[id]?).any fun p => !p.active with
    | none =>
      rw [hfind, Option.getD_none] at heq
      omega
    | some j =>
      rw [hfind, Option.getD_some] at heq
      have hj := List.find?_some hfind
      have hset : (v.put v.firstAvailableId element).procs[j]? = some element := by
        rw [heq]
        exact List.getElem?_set_self (by rw [h.length]; exact hlt)
      rw [hset] at hj
      simp [hact] at hj
  have hcount := countP_set HarqProcess.active hold element
  rw [if_pos hact, if_neg (by simp [hinactive])] at hcount
  refine ⟨v.firstAvailableId,
    { v.put v.firstAvailableId element with usedSize := (v.usedSize + 1) % 256 }, ?_, ?_, hlt,
    rfl, rfl⟩
  · unfold HarqVector.insert
    rw [if_neg (by omega), hact]
    simp only [Bool.not_true, Bool.false_eq_true, if_false]
    rw [if_neg (by omega), HarqVector.get_eq_ok hold]
    change (if old.active = true then _ else _) = _
    rw [hinactive, if_neg Bool.false_ne_true]
    rw [if_neg hother]
    rfl
  · refine ⟨List.length_set.trans h.length, hmax, ?_, h.order, ?_⟩
    · change (v.usedSize + 1) % 256 =
        (v.procs.set v.firstAvailableId element).countP HarqProcess.active
      rw [Nat.mod_eq_of_lt (by omega), h.used]
      omega
    · intro q hq
      rcases List.mem_or_eq_of_mem_set hq with hq | rfl
      · exact h.procs q hq
      · exact hok

/-- No process of `v'` is active that was not active in `v`. -/
def HarqVector.NoneActivated (v v' : HarqVector) : Prop :=
  ∀ (id : Nat) (p' : HarqProcess), v'.procs[id]? = some p' → p'.active = true →
    ∃ p, v.procs[id]? = some p ∧ p.active = true

theorem HarqVector.NoneActivated.set (p' : HarqProcess) (hp : v.procs[id]? = some p)
    (hact : p'.active = true → p.active = true) {v' : HarqVector}
    (hv' : v'.procs = v.procs.set id p') : v.NoneActivated v' := by
  intro j q hq hq'
  rw [hv'] at hq
  by_cases hj : id = j
  · subst hj
    rw [List.getElem?_set_self (List.getElem?_eq_some_iff.mp hp).1] at hq
    obtain rfl := Option.some.inj hq
    exact ⟨p, hp, hact hq'⟩
  · rw [List.getElem?_set_ne hj] at hq
    exact ⟨q, hq, hq'⟩

theorem HarqVector.Inv.resetExpiredOne (h : v.Inv N D) (hid : id < v.maxSize) :
    ∃ v', v.resetExpiredOne N id = .ok v' ∧ v'.Inv N D ∧ v'.maxSize = v.maxSize ∧
      v.NoneActivated v' := by
  obtain ⟨p, hp⟩ := h.exists_get hid
  have hok := h.ok hp
  unfold HarqVector.resetExpiredOne
  rw [HarqVector.get_eq_ok hp]
  change ∃ v', (if p.status = .INACTIVE then _ else _) = Except.ok v' ∧ _
  by_cases hst : p.status = .INACTIVE
  · rw [if_pos hst]
    exact ⟨v, rfl, h, rfl, fun j q hq hact => ⟨q, hq, hact⟩⟩
  · rw [if_neg hst]
    by_cases htimer : p.timer < N
    · refine ⟨v.put id { p with timer := p.timer + 1 }, ?_, h.put hp rfl ?_, rfl,
        HarqVector.NoneActivated.set { p with timer := p.timer + 1 } hp (fun hact => hact) rfl⟩
      · rw [if_pos htimer]
        rfl
      · exact ⟨hok.status_iff, hok.dci_iff, htimer, hok.dci⟩
    · obtain ⟨v', hv', hinv, hprocs, hmax⟩ := h.erase hp (hok.status_iff.mpr hst)
      refine ⟨v', ?_, hinv, hmax, HarqVector.NoneActivated.set _ hp (fun hact => ?_) hprocs⟩
      swap
      · exact absurd hact Bool.false_ne_true
      rw [if_neg htimer]
      exact hv'

theorem HarqVector.Inv.foldlM_resetExpiredOne (ids : List Nat) (h : v.Inv N D)
    (hids : ∀ id ∈ ids, id < v.maxSize) :
    ∃ v', ids.foldlM (HarqVector.resetExpiredOne N) v = .ok v' ∧ v'.Inv N D ∧
      v'.maxSize = v.maxSize ∧ v.NoneActivated v' := by
  induction ids generalizing v with
  | nil => exact ⟨v, rfl, h, rfl, fun j q hq hact => ⟨q, hq, hact⟩⟩
  | cons id ids ih =>
    obtain ⟨v₁, h₁, hinv₁, hmax₁, hna₁⟩ := h.resetExpiredOne (hids id List.mem_cons_self)
    obtain ⟨v₂, h₂, hinv₂, hmax₂, hna₂⟩ := ih hinv₁ fun j hj => by
      rw [hmax₁]
      exact hids j (List.mem_cons_of_mem _ hj)
    refine ⟨v₂, ?_, hinv₂, hmax₂.trans hmax₁, ?_⟩
    · rw [List.foldlM_cons, h₁]
      exact h₂
    · intro j q hq hact
      obtain ⟨q₁, hq₁, hact₁⟩ := hna₂ j q hq hact
      exact hna₁ j q₁ hq₁ hact₁

theorem HarqVector.Inv.resetExpired (h : v.Inv N D) :
    ∃ v', v.resetExpired N = .ok v' ∧ v'.Inv N D ∧ v'.maxSize = v.maxSize ∧
      v.NoneActivated v' :=
  h.foldlM_resetExpiredOne v.order fun _ hid =>
    List.mem_range.mp (h.order.mem_iff.mp hid)

theorem HarqVector.inv_setMaxSize {size : Nat} (hsize : size ≤ 255) {order : List Nat}
    (horder : order.Perm (List.range size)) : (HarqVector.setMaxSize size order).Inv N D where
  length := List.length_replicate
  maxSize_le := hsize
  used := by simp [HarqVector.setMaxSize, List.countP_replicate]
  order := horder
  procs := by
    intro p hp
    obtain rfl := List.eq_of_mem_replicate hp
    exact ⟨by simp, by simp, Nat.zero_le _, by simp⟩

end Operations

end Ns3.Nr.Sched
