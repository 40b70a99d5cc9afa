import Ns3.Lib.Periodic
import Ns3.Nr.SfnSf
import Mathlib.Data.List.Perm.Subperm

/-!
# Configured grants in the gNB MAC

During the configuration window `NrGnbMac::DoSlotUlIndication` stores the requests of each
slot in one entry of `paramsCG_rntiSlot`, with the slot of their next transmission. After
the window it looks in every slot for an entry that is due and repeats its requests with
`UlReceiveCgr`.

An entry has one next slot for all its requests, the lists of initial times and deadlines
are not advanced with the others, and the scan stops at the first entry that is due, so a
request keeps its own schedule only under conditions on the whole set of requests, which
`Separable` collects. `Inv.runSlot` states what follows for a slot of one MAC.
-/

namespace Ns3.Nr.GnbMac

open Lib

/-! ## Embedding -/

/-- The arguments of `UlReceiveCgr`; times are counted in a fixed unit. -/
structure Cgr where
  rnti : Nat
  bufSize : Nat
  lcid : Nat
  traffP : Nat
  traffInit : Nat
  traffDeadline : Nat
deriving DecidableEq, Repr

/-- `SchedUlCgrInfoReqParameters`. -/
structure SchedUlCgrInfoReqParameters where
  snfSf : SfnSf := ⟨0, 0, 0, 0⟩
  srList : List Nat := []
  bufCgr : List Nat := []
  lcid : Nat := 0
  traffPCgr : List Nat := []
  traffInitCgr : List Nat := []
  traffDeadlineCgr : List Nat := []
deriving DecidableEq, Repr

/-- The lists of requests that have arrived since the last indication. -/
structure Requests where
  srRntiList : List Nat := []
  cgrBufSizeList : List Nat := []
  lcidConfiguredGrant : Nat := 0
  cgrTraffP : List Nat := []
  cgrTraffInit : List Nat := []
  cgrTraffDeadline : List Nat := []

/-- The members of `NrGnbMac` that serve configured grants. -/
structure NrGnbMac where
  configurationTime : Nat
  currentSlot : SfnSf
  requests : Requests := {}
  paramsCG : Nat → SchedUlCgrInfoReqParameters := fun _ => {}
  countCGSlots : Nat := 0

/-- The variables of `DoSlotUlIndication` that are `static`: all MACs share them. -/
structure SlotStatics where
  cgrConfiguration : Bool := false
  cgrConfigurationSlot : SfnSf := ⟨0, 0, 0, 0⟩
  posCG : Nat := 0

/-- The variables that `DoSlotUlIndication` of one MAC can access. -/
structure MacScope extends NrGnbMac, SlotStatics

/-- The length of the array `paramsCG_rntiSlot`. -/
def maxCGSlots : Nat := 100

def Requests.push (rq : Requests) (r : Cgr) : Requests :=
  { srRntiList := rq.srRntiList ++ [r.rnti]
    cgrBufSizeList := rq.cgrBufSizeList ++ [r.bufSize]
    lcidConfiguredGrant := r.lcid
    cgrTraffP := rq.cgrTraffP ++ [r.traffP]
    cgrTraffInit := rq.cgrTraffInit ++ [r.traffInit]
    cgrTraffDeadline := rq.cgrTraffDeadline ++ [r.traffDeadline] }

/-- The lists are inserted at the front of those of an entry. -/
def Requests.insertInto (rq : Requests) (next : SfnSf) (p : SchedUlCgrInfoReqParameters) :
    SchedUlCgrInfoReqParameters :=
  { snfSf := next
    srList := rq.srRntiList ++ p.srList
    bufCgr := rq.cgrBufSizeList ++ p.bufCgr
    lcid := rq.lcidConfiguredGrant
    traffPCgr := rq.cgrTraffP ++ p.traffPCgr
    traffInitCgr := rq.cgrTraffInit ++ p.traffInitCgr
    traffDeadlineCgr := rq.cgrTraffDeadline ++ p.traffDeadlineCgr }

def Requests.clear (rq : Requests) : Requests :=
  { lcidConfiguredGrant := rq.lcidConfiguredGrant }

namespace MacScope

def doReportCgrToScheduler (mac : MacScope) (r : Cgr) : MacScope :=
  { mac with requests := mac.requests.push r }

/-- `UlReceiveCgr`: the bandwidth part manager reports the request back to the MAC of the
carrier it came from. -/
def ulReceiveCgr (mac : MacScope) (r : Cgr) : MacScope := mac.doReportCgrToScheduler r

def numberOfSlotInsideOneSubframe (mac : MacScope) : Nat :=
  2 ^ mac.currentSlot.numerology % 256

/-- `(m_configurationTime * numberOfSlot_insideOneSubframe) - 7` in a `uint8_t`. -/
def numberSlotsConfiguration (mac : MacScope) : Nat :=
  (mac.configurationTime * mac.numberOfSlotInsideOneSubframe + 249) % 256

def setParams (mac : MacScope) (pos : Nat) (p : SchedUlCgrInfoReqParameters) : MacScope :=
  { mac with paramsCG := Function.update mac.paramsCG pos p }

/-- The first request fixes the end of the window; later slots take the next position. -/
def openEntry (mac : MacScope) (next : SfnSf) : MacScope :=
  if !mac.cgrConfiguration then
    { mac with cgrConfiguration := true, cgrConfigurationSlot := next }
  else { mac with posCG := (mac.posCG + 1) % 256 }

/-- The body of the configuration branch for the first RNTI that is not zero. `none` is an
access outside the array. -/
def storeRequests (mac : MacScope) : Option MacScope :=
  let next := mac.currentSlot.add mac.numberSlotsConfiguration
  let mac := mac.openEntry next
  if mac.posCG < maxCGSlots then
    some { mac.setParams mac.posCG (mac.requests.insertInto next (mac.paramsCG mac.posCG)) with
      countCGSlots := mac.posCG }
  else none

/-- The loop over the requests of an entry. The iterators over the initial times and the
deadlines stay at the front of their lists. `none` is a read past the end of a list. -/
def replayLoop (traffInit traffDeadline : Option Nat) :
    List Nat → List Nat → List Nat → SfnSf → MacScope → Option (List Cgr × SfnSf × MacScope)
  | [], _, _, snfSf, mac => some ([], snfSf, mac)
  | rnti :: rntis, buf :: bufs, p :: ps, _, mac => do
    let call : Cgr := ⟨rnti, buf, mac.requests.lcidConfiguredGrant, p, ← traffInit, ← traffDeadline⟩
    let next := mac.currentSlot.add (p * mac.numberOfSlotInsideOneSubframe % 256)
    let (calls, snfSf, mac) ← replayLoop traffInit traffDeadline rntis bufs ps next
      (mac.ulReceiveCgr call)
    return (call :: calls, snfSf, mac)
  | _ :: _, _, _, _, _ => none

/-- The first position up to `countCG_slots` whose entry is due now. -/
def findDue (mac : MacScope) : Option Nat :=
  (List.range (mac.countCGSlots + 1)).find? fun pos =>
    (mac.paramsCG pos).snfSf.sameSlot mac.currentSlot

/-- The branch after the configuration window. -/
def replay (mac : MacScope) : Option (List Cgr × MacScope) :=
  if mac.countCGSlots < maxCGSlots then
    match mac.findDue with
    | some pos => do
      let p := mac.paramsCG pos
      let (calls, snfSf, mac) ← replayLoop p.traffInitCgr.head? p.traffDeadlineCgr.head?
        p.srList p.bufCgr p.traffPCgr p.snfSf mac
      return (calls, { mac.setParams pos { p with snfSf := snfSf } with posCG := 0 })
    | none => some ([], { mac with posCG := (mac.countCGSlots + 1) % 256 })
  else none

/-- What is sent to the scheduler in `SchedUlCgrInfoReq`. -/
def cgrInfoReq (mac : MacScope) : SchedUlCgrInfoReqParameters :=
  { snfSf := mac.currentSlot
    srList := mac.requests.srRntiList
    bufCgr := mac.requests.cgrBufSizeList
    lcid := mac.requests.lcidConfiguredGrant
    traffPCgr := mac.requests.cgrTraffP
    traffInitCgr := mac.requests.cgrTraffInit
    traffDeadlineCgr := mac.requests.cgrTraffDeadline }

/-- What one call does towards the other layers. -/
structure Output where
  ulReceiveCgr : List Cgr
  schedUlCgrInfoReq : SchedUlCgrInfoReqParameters

/-- `DoSlotUlIndication` with configured grant scheduling. -/
def doSlotUlIndication (mac : MacScope) : Option (Output × MacScope) := do
  let (calls, mac) ←
    if !mac.cgrConfiguration || mac.currentSlot.lt mac.cgrConfigurationSlot then
      if mac.requests.srRntiList.any (· ≠ 0) then
        (mac.storeRequests).map (Prod.mk [])
      else some ([], mac)
    else mac.replay
  return (⟨calls, mac.cgrInfoReq⟩, { mac with requests := mac.requests.clear })

end MacScope

/-! ## Slots -/

/-- What happens in a slot: the requests that arrive in it, and how often the PHY asks for
an UL slot in it. -/
structure SlotInput where
  requests : List Cgr := []
  indications : Nat := 1

def indicate : Nat → MacScope → Option (List Cgr × MacScope)
  | 0, mac => some ([], mac)
  | n + 1, mac => do
    let (out, mac) ← mac.doSlotUlIndication
    let (calls, mac) ← indicate n mac
    return (out.ulReceiveCgr ++ calls, mac)

/-- One slot: `SetCurrentSfn`, the requests, and the indications. -/
def runSlot (mac : MacScope) (slot : SfnSf) (i : SlotInput) : Option (List Cgr × MacScope) :=
  indicate i.indications (i.requests.foldl MacScope.ulReceiveCgr { mac with currentSlot := slot })

/-! ## Requests that keep their schedule -/

/-- `number_slots_configuration` in numerology `mu`. -/
def slotsConfiguration (configurationTime mu : Nat) : Nat :=
  (configurationTime * (2 ^ mu % 256) + 249) % 256

/-- The slots of the requests that are stored, when the first request arrives in `r₀`. -/
def Stored (configurationTime mu : Nat) (input : Nat → SlotInput) (r₀ r : Nat) : Prop :=
  (input r).requests ≠ [] ∧ r < r₀ + slotsConfiguration configurationTime mu

/-- What a request asks for, apart from the logical channel. -/
def Cgr.grant (r : Cgr) : Nat × Nat × Nat × Nat × Nat :=
  (r.rnti, r.bufSize, r.traffP, r.traffInit, r.traffDeadline)

/-- A run whose first request arrives in `r₀`, with at least one indication in each slot,
in which the requests stored by the MAC can all be replayed:
requests of one slot agree in their period and their times, periods fit in a byte, RNTIs are
distinct and not zero, no two entries are ever due in the same slot, and the entries fit in
the table. -/
structure Separable (configurationTime mu : Nat) (input : Nat → SlotInput) (r₀ : Nat) : Prop where
  numerology : mu ≤ 7
  window : 0 < slotsConfiguration configurationTime mu
  first : (input r₀).requests ≠ []
  before : ∀ r < r₀, (input r).requests = []
  indicated : ∀ t, 0 < (input t).indications
  rnti_ne_zero : ∀ r, Stored configurationTime mu input r₀ r →
    ∀ q ∈ (input r).requests, q.rnti ≠ 0
  period : ∀ r, Stored configurationTime mu input r₀ r →
    ∀ q ∈ (input r).requests, 0 < q.traffP ∧ q.traffP * 2 ^ mu < 256
  agree : ∀ r, Stored configurationTime mu input r₀ r →
    ∀ q ∈ (input r).requests, ∀ q' ∈ (input r).requests,
      q.traffP = q'.traffP ∧ q.traffInit = q'.traffInit ∧ q.traffDeadline = q'.traffDeadline
  rnti_nodup : ∀ r, Stored configurationTime mu input r₀ r →
    ((input r).requests.map Cgr.rnti).Nodup
  rnti_once : ∀ r r', Stored configurationTime mu input r₀ r →
    Stored configurationTime mu input r₀ r' → ∀ q ∈ (input r).requests,
      ∀ q' ∈ (input r').requests, q.rnti = q'.rnti → r = r'
  apart : ∀ r r', Stored configurationTime mu input r₀ r →
    Stored configurationTime mu input r₀ r' → r ≠ r' → ∀ q ∈ (input r).requests,
      ∀ q' ∈ (input r').requests, ∀ t,
        Due (r + slotsConfiguration configurationTime mu) (q.traffP * 2 ^ mu) t →
        ¬ Due (r' + slotsConfiguration configurationTime mu) (q'.traffP * 2 ^ mu) t
  few : ∀ rs : List Nat, rs.Nodup → (∀ r ∈ rs, Stored configurationTime mu input r₀ r) →
    rs.length ≤ maxCGSlots

/-! ## The request lists -/

theorem foldl_ulReceiveCgr (rs : List Cgr) (mac : MacScope) :
    rs.foldl MacScope.ulReceiveCgr mac =
      { mac with requests := rs.foldl Requests.push mac.requests } := by
  induction rs generalizing mac with
  | nil => rfl
  | cons r rs ih =>
    rw [List.foldl_cons, ih]
    rfl

/-- The lists after the requests `rs`, starting from empty ones. -/
structure Holds (rs : List Cgr) (rq : Requests) : Prop where
  rnti : rq.srRntiList = rs.map Cgr.rnti
  bufSize : rq.cgrBufSizeList = rs.map Cgr.bufSize
  traffP : rq.cgrTraffP = rs.map Cgr.traffP
  traffInit : rq.cgrTraffInit = rs.map Cgr.traffInit
  traffDeadline : rq.cgrTraffDeadline = rs.map Cgr.traffDeadline

theorem Holds.push {rs : List Cgr} {rq : Requests} (h : Holds rs rq) (r : Cgr) :
    Holds (rs ++ [r]) (rq.push r) := by
  constructor <;> simp [Requests.push, h.rnti, h.bufSize, h.traffP, h.traffInit, h.traffDeadline]

theorem Holds.foldl_push {rs : List Cgr} {rq : Requests} (h : Holds rs rq) (qs : List Cgr) :
    Holds (rs ++ qs) (qs.foldl Requests.push rq) := by
  induction qs generalizing rs rq with
  | nil => simpa using h
  | cons q qs ih =>
    have := ih (h.push q)
    rwa [List.append_assoc] at this

theorem Holds.clear (rq : Requests) : Holds [] rq.clear := ⟨rfl, rfl, rfl, rfl, rfl⟩

/-! ## Entries -/

/-- An entry of the table that stores the requests `rs` for slot `slot`. -/
structure EntryOf (rs : List Cgr) (slot : SfnSf) (p : SchedUlCgrInfoReqParameters) : Prop where
  snfSf : p.snfSf = slot
  srList : p.srList = rs.map Cgr.rnti
  bufCgr : p.bufCgr = rs.map Cgr.bufSize
  traffPCgr : p.traffPCgr = rs.map Cgr.traffP
  traffInitCgr : p.traffInitCgr = rs.map Cgr.traffInit
  traffDeadlineCgr : p.traffDeadlineCgr = rs.map Cgr.traffDeadline

/-- The loop over an entry whose requests agree in their period and their times repeats
them and moves the entry by the period. -/
theorem replayLoop_eq {P i d : Nat} {rs : List Cgr}
    (h : ∀ q ∈ rs, q.traffP = P ∧ q.traffInit = i ∧ q.traffDeadline = d) (snfSf : SfnSf)
    (mac : MacScope) :
    ∃ calls rq, MacScope.replayLoop (some i) (some d) (rs.map Cgr.rnti) (rs.map Cgr.bufSize)
        (rs.map Cgr.traffP) snfSf mac =
      some (calls, if rs = [] then snfSf
          else mac.currentSlot.add (P * mac.numberOfSlotInsideOneSubframe % 256),
        { mac with requests := rq }) ∧
      calls.map Cgr.grant = rs.map Cgr.grant := by
  induction rs generalizing snfSf mac with
  | nil => exact ⟨[], mac.requests, rfl, rfl⟩
  | cons q rs ih =>
    obtain ⟨rfl, rfl, rfl⟩ := h q List.mem_cons_self
    have hrest : ∀ q' ∈ rs, q'.traffP = q.traffP ∧ q'.traffInit = q.traffInit ∧
        q'.traffDeadline = q.traffDeadline := fun q' hq' => h q' (List.mem_cons_of_mem _ hq')
    obtain ⟨calls, rq, hloop, hcalls⟩ := ih hrest
      (mac.currentSlot.add (q.traffP * mac.numberOfSlotInsideOneSubframe % 256))
      (mac.ulReceiveCgr { q with lcid := mac.requests.lcidConfiguredGrant })
    refine ⟨{ q with lcid := mac.requests.lcidConfiguredGrant } :: calls, rq, ?_, ?_⟩
    · simp only [List.map_cons, MacScope.replayLoop, Option.bind_eq_bind, Option.bind_some]
      rw [hloop]
      by_cases hnil : rs = []
      · rw [if_pos hnil]
        rfl
      · rw [if_neg hnil]
        rfl
    · rw [List.map_cons, List.map_cons, hcalls]
      rfl

/-! ## The table along a run -/

/-- The slots before `t` that have an entry, in the order of the entries. -/
def storedSlots (configurationTime mu : Nat) (input : Nat → SlotInput) (r₀ t : Nat) : List Nat :=
  (List.range t).filter fun r =>
    !(input r).requests.isEmpty && r < r₀ + slotsConfiguration configurationTime mu

/-- The period of the requests of a slot, in slots. -/
def slotPeriod (mu : Nat) (input : Nat → SlotInput) (r : Nat) : Nat :=
  ((input r).requests.head?.elim 0 Cgr.traffP) * 2 ^ mu

/-- The state at the start of slot `t`. -/
structure Inv (configurationTime mu : Nat) (input : Nat → SlotInput) (r₀ t : Nat)
    (mac : MacScope) : Prop where
  time : mac.configurationTime = configurationTime
  holds : Holds [] mac.requests
  configuration : mac.cgrConfiguration = !(storedSlots configurationTime mu input r₀ t).isEmpty
  configurationSlot : storedSlots configurationTime mu input r₀ t ≠ [] →
    mac.cgrConfigurationSlot = SfnSf.slotAt mu (r₀ + slotsConfiguration configurationTime mu)
  count : mac.countCGSlots = (storedSlots configurationTime mu input r₀ t).length - 1
  pos : t < r₀ + slotsConfiguration configurationTime mu →
    mac.posCG = (storedSlots configurationTime mu input r₀ t).length - 1
  entry : ∀ i r, (storedSlots configurationTime mu input r₀ t)[i]? = some r →
    ∃ d, EntryOf (input r).requests (SfnSf.slotAt mu d) (mac.paramsCG i) ∧
      IsNext (r + slotsConfiguration configurationTime mu) (slotPeriod mu input r) t d ∧ d < t + 256
  fresh : ∀ i, (storedSlots configurationTime mu input r₀ t).length ≤ i → mac.paramsCG i = {}

section Run

variable {C mu r₀ t : Nat} {input : Nat → SlotInput} {mac : MacScope}

theorem mem_storedSlots {r : Nat} :
    r ∈ storedSlots C mu input r₀ t ↔ r < t ∧ Stored C mu input r₀ r := by
  simp [storedSlots, Stored]

theorem storedSlots_nodup : (storedSlots C mu input r₀ t).Nodup := List.nodup_range.filter _

theorem storedSlots_succ_of_stored (h : Stored C mu input r₀ t) :
    storedSlots C mu input r₀ (t + 1) = storedSlots C mu input r₀ t ++ [t] := by
  rw [storedSlots, List.range_succ, List.filter_append, List.filter_singleton]
  simp [List.isEmpty_eq_false_iff.mpr h.1, h.2, storedSlots]

theorem storedSlots_succ_of_not_stored (h : ¬ Stored C mu input r₀ t) :
    storedSlots C mu input r₀ (t + 1) = storedSlots C mu input r₀ t := by
  have hf : (!(input t).requests.isEmpty &&
      decide (t < r₀ + slotsConfiguration C mu)) = false := by
    rw [Bool.eq_false_iff]
    intro ht
    simp only [Bool.and_eq_true, Bool.not_eq_true', List.isEmpty_eq_false_iff,
      decide_eq_true_eq] at ht
    exact h ht
  rw [storedSlots, List.range_succ, List.filter_append, List.filter_singleton, hf]
  simp [storedSlots]

theorem slotsConfiguration_lt : slotsConfiguration C mu < 256 := Nat.mod_lt _ (by norm_num)

theorem Separable.period_eq (h : Separable C mu input r₀) {r : Nat} (hr : Stored C mu input r₀ r)
    {q : Cgr} (hq : q ∈ (input r).requests) : slotPeriod mu input r = q.traffP * 2 ^ mu := by
  unfold slotPeriod
  cases hreq : (input r).requests with
  | nil => rw [hreq] at hq; cases hq
  | cons q₀ rs =>
    have hmem : q₀ ∈ (input r).requests := by rw [hreq]; exact List.mem_cons_self
    rw [(h.agree r hr q hq q₀ hmem).1]
    rfl

theorem Separable.period_bounds (h : Separable C mu input r₀) {r : Nat}
    (hr : Stored C mu input r₀ r) : 0 < slotPeriod mu input r ∧ slotPeriod mu input r < 256 := by
  obtain ⟨q, hq⟩ := List.exists_mem_of_ne_nil _ hr.1
  obtain ⟨hpos, hlt⟩ := h.period r hr q hq
  rw [h.period_eq hr hq]
  exact ⟨Nat.mul_pos hpos (Nat.two_pow_pos mu), hlt⟩

theorem Separable.stored_first (h : Separable C mu input r₀) : Stored C mu input r₀ r₀ :=
  ⟨h.first, Nat.lt_add_of_pos_right h.window⟩

theorem Separable.first_le (h : Separable C mu input r₀) {r : Nat} (hr : Stored C mu input r₀ r) :
    r₀ ≤ r := by
  by_contra hlt
  exact hr.1 (h.before r (by omega))

/-- Nothing is due before the end of the window. -/
theorem Separable.not_due (h : Separable C mu input r₀) {r : Nat} (hr : Stored C mu input r₀ r)
    {p s : Nat} (hs : s < r₀ + slotsConfiguration C mu) :
    ¬ Due (r + slotsConfiguration C mu) p s := by
  intro hdue
  have := hdue.le
  have := h.first_le hr
  omega

theorem Separable.length_storedSlots (h : Separable C mu input r₀) :
    (storedSlots C mu input r₀ t).length ≤ maxCGSlots :=
  h.few _ storedSlots_nodup fun _ hr => (mem_storedSlots.mp hr).2

/-- Before the end of the window nothing has been stored or the end is known. -/
theorem Inv.configuring (h : Separable C mu input r₀) (hi : Inv C mu input r₀ t mac) {s : Nat}
    (hs : s < r₀ + slotsConfiguration C mu) (hwrap : t + 256 < SfnSf.totalSlots mu) :
    (!mac.cgrConfiguration || (SfnSf.slotAt mu s).lt mac.cgrConfigurationSlot) = true := by
  have hmu : mu ≤ 11 := h.numerology.trans (by norm_num)
  have hnc := @slotsConfiguration_lt C mu
  rw [hi.configuration]
  by_cases hnil : storedSlots C mu input r₀ t = []
  · simp [hnil]
  · obtain ⟨r, hr⟩ := List.exists_mem_of_ne_nil _ hnil
    obtain ⟨hlt, hst⟩ := mem_storedSlots.mp hr
    have hle := h.first_le hst
    rw [hi.configurationSlot hnil, (SfnSf.lt_slotAt hmu (by omega) (by omega)).mpr hs]
    simp

/-- After the window, with the first request stored, the MAC replays. -/
theorem Inv.replaying (h : Separable C mu input r₀) (hi : Inv C mu input r₀ t mac) {s : Nat}
    (ht : r₀ < t) (hs : r₀ + slotsConfiguration C mu ≤ s) (hlt : s < SfnSf.totalSlots mu) :
    (!mac.cgrConfiguration || (SfnSf.slotAt mu s).lt mac.cgrConfigurationSlot) = false := by
  have hmem : r₀ ∈ storedSlots C mu input r₀ t := mem_storedSlots.mpr ⟨ht, h.stored_first⟩
  have hne := List.ne_nil_of_mem hmem
  have hmu : mu ≤ 11 := h.numerology.trans (by norm_num)
  have hnot : ¬ (SfnSf.slotAt mu s).lt mac.cgrConfigurationSlot = true := by
    rw [hi.configurationSlot hne, SfnSf.lt_slotAt hmu hlt (by omega)]
    omega
  rw [hi.configuration, Bool.eq_false_iff.mpr hnot]
  simp [hne]

/-- Nothing is stored in slot `t`: the invariant carries over once due entries have moved. -/
theorem Inv.of_not_stored (hi : Inv C mu input r₀ t mac) (hns : ¬ Stored C mu input r₀ t)
    {mac' : MacScope} (htime : mac'.configurationTime = mac.configurationTime)
    (hholds : Holds [] mac'.requests) (hconf : mac'.cgrConfiguration = mac.cgrConfiguration)
    (hslot : mac'.cgrConfigurationSlot = mac.cgrConfigurationSlot)
    (hcount : mac'.countCGSlots = mac.countCGSlots)
    (hpos : t + 1 < r₀ + slotsConfiguration C mu → mac'.posCG = mac.posCG)
    (hentry : ∀ i r, (storedSlots C mu input r₀ t)[i]? = some r →
      ∃ d, EntryOf (input r).requests (SfnSf.slotAt mu d) (mac'.paramsCG i) ∧
        IsNext (r + slotsConfiguration C mu) (slotPeriod mu input r) (t + 1) d ∧ d < t + 1 + 256)
    (hfresh : ∀ i, (storedSlots C mu input r₀ t).length ≤ i →
      mac'.paramsCG i = mac.paramsCG i) : Inv C mu input r₀ (t + 1) mac' := by
  have hs := storedSlots_succ_of_not_stored hns
  refine ⟨htime.trans hi.time, hholds, ?_, ?_, ?_, ?_, ?_, ?_⟩
  · rw [hs, hconf, hi.configuration]
  · rw [hs, hslot]
    exact hi.configurationSlot
  · rw [hs, hcount, hi.count]
  · intro hle
    rw [hs, hpos hle, hi.pos (by omega)]
  · rw [hs]
    exact hentry
  · intro i hle
    rw [hs] at hle
    rw [hfresh i hle, hi.fresh i hle]

/-- Entries that are not due in slot `t` wait. -/
theorem Inv.entry_wait (hi : Inv C mu input r₀ t mac) {i r : Nat}
    (hr : (storedSlots C mu input r₀ t)[i]? = some r)
    (hnd : ¬ Due (r + slotsConfiguration C mu) (slotPeriod mu input r) t) :
    ∃ d, EntryOf (input r).requests (SfnSf.slotAt mu d) (mac.paramsCG i) ∧
      IsNext (r + slotsConfiguration C mu) (slotPeriod mu input r) (t + 1) d ∧ d < t + 1 + 256 := by
  obtain ⟨d, he, hd, hlt⟩ := hi.entry i r hr
  refine ⟨d, he, hd.wait ?_, by omega⟩
  intro hdt
  exact hnd (hd.eq_iff.mp hdt)

theorem stored_of_getElem? {i r : Nat} (hr : (storedSlots C mu input r₀ t)[i]? = some r) :
    r < t ∧ Stored C mu input r₀ r :=
  mem_storedSlots.mp (List.mem_of_getElem? hr)

/-- The calls of slot `t` are those of the one entry that is due, or none. -/
def CallsOf (configurationTime mu : Nat) (input : Nat → SlotInput) (r₀ t : Nat)
    (calls : List Cgr) : Prop :=
  (calls = [] ∧ ∀ r, Stored configurationTime mu input r₀ r →
    ¬ Due (r + slotsConfiguration configurationTime mu) (slotPeriod mu input r) t) ∨
  ∃ r, Stored configurationTime mu input r₀ r ∧
    Due (r + slotsConfiguration configurationTime mu) (slotPeriod mu input r) t ∧
    calls.map Cgr.grant = (input r).requests.map Cgr.grant

/-- The requests of slot `t` get the next entry of the table. -/
theorem Inv.of_stored (h : Separable C mu input r₀) (hi : Inv C mu input r₀ t mac)
    (hst : Stored C mu input r₀ t)
    {mac' : MacScope} {p : SchedUlCgrInfoReqParameters}
    (htime : mac'.configurationTime = mac.configurationTime) (hholds : Holds [] mac'.requests)
    (hconf : mac'.cgrConfiguration = true)
    (hslot : mac'.cgrConfigurationSlot = SfnSf.slotAt mu (r₀ + slotsConfiguration C mu))
    (hcount : mac'.countCGSlots = (storedSlots C mu input r₀ t).length)
    (hpos : mac'.posCG = (storedSlots C mu input r₀ t).length)
    (hparams : mac'.paramsCG =
      Function.update mac.paramsCG (storedSlots C mu input r₀ t).length p)
    (hp : EntryOf (input t).requests (SfnSf.slotAt mu (t + slotsConfiguration C mu)) p) :
    Inv C mu input r₀ (t + 1) mac' := by
  have hsucc := storedSlots_succ_of_stored hst
  have hnc := @slotsConfiguration_lt C mu
  refine ⟨htime.trans hi.time, hholds, ?_, fun _ => hslot, ?_, ?_, ?_, ?_⟩
  · rw [hconf, hsucc]
    simp
  · rw [hcount, hsucc]
    simp
  · intro _
    rw [hpos, hsucc]
    simp
  · intro i r hr
    rw [hsucc] at hr
    rw [hparams]
    by_cases hlast : i < (storedSlots C mu input r₀ t).length
    · rw [List.getElem?_append_left hlast] at hr
      rw [Function.update_of_ne (by omega)]
      exact hi.entry_wait hr (h.not_due (stored_of_getElem? hr).2 hst.2)
    · rw [List.getElem?_append_right (by omega)] at hr
      have hi0 : i = (storedSlots C mu input r₀ t).length := by
        by_contra hne
        rw [List.getElem?_eq_none (by simp; omega)] at hr
        cases hr
      rw [hi0, Nat.sub_self, List.getElem?_cons_zero] at hr
      obtain rfl := Option.some.inj hr
      rw [hi0, Function.update_self]
      have hwindow := h.window
      exact ⟨_, hp, IsNext.start (by omega), by omega⟩
  · intro i hle
    rw [hsucc, List.length_append, List.length_singleton] at hle
    rw [hparams, Function.update_of_ne (by omega)]
    exact hi.fresh i (by omega)

theorem EntryOf.of_holds {rs : List Cgr} {rq : Requests} (h : Holds rs rq) (slot : SfnSf) :
    EntryOf rs slot (rq.insertInto slot {}) := by
  constructor <;>
    simp [Requests.insertInto, h.rnti, h.bufSize, h.traffP, h.traffInit, h.traffDeadline]

theorem Inv.openEntry_eq (h : Separable C mu input r₀) (hi : Inv C mu input r₀ t mac)
    (hst : Stored C mu input r₀ t) (rq : Requests) (slot : SfnSf) :
    ({ mac with currentSlot := slot, requests := rq } : MacScope).openEntry
        (SfnSf.slotAt mu (t + slotsConfiguration C mu)) =
      { mac with
        currentSlot := slot
        requests := rq
        cgrConfiguration := true
        cgrConfigurationSlot := SfnSf.slotAt mu (r₀ + slotsConfiguration C mu)
        posCG := (storedSlots C mu input r₀ t).length } := by
  have hlen := @Separable.length_storedSlots C mu r₀ t input h
  rw [maxCGSlots] at hlen
  have hpos := hi.pos hst.2
  have hconf := hi.configuration
  unfold MacScope.openEntry
  dsimp only
  by_cases hnil : storedSlots C mu input r₀ t = []
  · -- the first request comes in slot `r₀`
    have ht : t = r₀ := by
      have hle := h.first_le hst
      by_contra hne
      have hmem := mem_storedSlots.mpr ⟨Nat.lt_of_le_of_ne hle (Ne.symm hne), h.stored_first⟩
      rw [hnil] at hmem
      cases hmem
    rw [hnil] at hconf hpos ⊢
    have hfalse : mac.cgrConfiguration = false := hconf
    rw [hfalse, hpos, ht]
    rfl
  · have htrue : mac.cgrConfiguration = true := by
      rw [hconf]
      simp [hnil]
    have hpos' : (mac.posCG + 1) % 256 = (storedSlots C mu input r₀ t).length := by
      have := List.length_pos_of_ne_nil hnil
      omega
    rw [hpos', htrue, hi.configurationSlot hnil]
    rfl

/-- An indication in the window in a slot with requests stores them in a new entry. -/
theorem Inv.store (h : Separable C mu input r₀) (hi : Inv C mu input r₀ t mac)
    (hst : Stored C mu input r₀ t) (hwrap : t + 256 < SfnSf.totalSlots mu) {rq : Requests}
    (hrq : Holds (input t).requests rq) :
    ∃ mac', ({ mac with currentSlot := SfnSf.slotAt mu t, requests := rq } :
        MacScope).storeRequests = some mac' ∧ mac'.currentSlot = SfnSf.slotAt mu t ∧
      Inv C mu input r₀ (t + 1) { mac' with requests := mac'.requests.clear } := by
  have hmu : mu ≤ 11 := h.numerology.trans (by norm_num)
  have hnc := @slotsConfiguration_lt C mu
  have hlen := @Separable.length_storedSlots C mu r₀ (t + 1) input h
  rw [storedSlots_succ_of_stored hst, List.length_append, List.length_singleton] at hlen
  have hslots : ({ mac with currentSlot := SfnSf.slotAt mu t, requests := rq } :
      MacScope).numberSlotsConfiguration = slotsConfiguration C mu := by
    unfold MacScope.numberSlotsConfiguration MacScope.numberOfSlotInsideOneSubframe
    dsimp only
    rw [hi.time, SfnSf.numerology_slotAt]
    rfl
  have hnext : (SfnSf.slotAt mu t).add (slotsConfiguration C mu) =
      SfnSf.slotAt mu (t + slotsConfiguration C mu) := SfnSf.add_slotAt hmu (by omega)
  unfold MacScope.storeRequests
  dsimp only
  rw [hslots, hnext, hi.openEntry_eq h hst, if_pos (by dsimp only; omega)]
  have hentry := EntryOf.of_holds hrq (SfnSf.slotAt mu (t + slotsConfiguration C mu))
  rw [← hi.fresh _ le_rfl] at hentry
  exact ⟨_, rfl, rfl, hi.of_stored h hst rfl (Holds.clear _) rfl rfl rfl rfl rfl hentry⟩

/-! ### After the window -/

/-- A position of the table is due when its requests are. -/
theorem Inv.sameSlot_iff (h : Separable C mu input r₀) (hi : Inv C mu input r₀ t mac)
    (hwrap : t + 256 < SfnSf.totalSlots mu) {i r s : Nat}
    (hr : (storedSlots C mu input r₀ t)[i]? = some r) (hs : s ≤ t) :
    (mac.paramsCG i).snfSf.sameSlot (SfnSf.slotAt mu s) = true ↔
      s = t ∧ Due (r + slotsConfiguration C mu) (slotPeriod mu input r) t := by
  have hmu : mu ≤ 11 := h.numerology.trans (by norm_num)
  obtain ⟨d, he, hd, hlt⟩ := hi.entry i r hr
  rw [he.snfSf, SfnSf.sameSlot_slotAt hmu (by omega) (by omega)]
  constructor
  · rintro rfl
    have ht := le_antisymm hs hd.le
    exact ⟨ht, hd.eq_iff.mp ht⟩
  · rintro ⟨rfl, hdue⟩
    exact hd.eq_iff.mpr hdue

/-- Stored requests of different slots are never due together. -/
theorem Separable.due_unique (h : Separable C mu input r₀) {r r' s : Nat}
    (hr : Stored C mu input r₀ r) (hr' : Stored C mu input r₀ r')
    (hdue : Due (r + slotsConfiguration C mu) (slotPeriod mu input r) s)
    (hdue' : Due (r' + slotsConfiguration C mu) (slotPeriod mu input r') s) : r = r' := by
  by_contra hne
  obtain ⟨q, hq⟩ := List.exists_mem_of_ne_nil _ hr.1
  obtain ⟨q', hq'⟩ := List.exists_mem_of_ne_nil _ hr'.1
  rw [h.period_eq hr hq] at hdue
  rw [h.period_eq hr' hq'] at hdue'
  exact h.apart r r' hr hr' hne q hq q' hq' s hdue hdue'

theorem Inv.lt_length_iff (hi : Inv C mu input r₀ t mac)
    (hne : storedSlots C mu input r₀ t ≠ []) {i : Nat} :
    i < mac.countCGSlots + 1 ↔ ∃ r, (storedSlots C mu input r₀ t)[i]? = some r := by
  have hpos := List.length_pos_of_ne_nil hne
  rw [hi.count, Nat.sub_add_cancel hpos]
  constructor
  · intro hlt
    exact ⟨_, List.getElem?_eq_getElem hlt⟩
  · rintro ⟨r, hr⟩
    exact (List.getElem?_eq_some_iff.mp hr).1

/-- No entry is due in slot `s`: the scan finds nothing. -/
theorem Inv.findDue_eq_none (h : Separable C mu input r₀) (hi : Inv C mu input r₀ t mac)
    (hwrap : t + 256 < SfnSf.totalSlots mu) (hne : storedSlots C mu input r₀ t ≠ []) {s : Nat}
    (hs : s ≤ t) (rq : Requests)
    (hnd : ∀ r, Stored C mu input r₀ r →
      ¬ (s = t ∧ Due (r + slotsConfiguration C mu) (slotPeriod mu input r) t)) :
    ({ mac with currentSlot := SfnSf.slotAt mu s, requests := rq } : MacScope).findDue = none := by
  unfold MacScope.findDue
  rw [List.find?_eq_none]
  intro i hi'
  obtain ⟨r, hr⟩ := (hi.lt_length_iff hne).mp (List.mem_range.mp hi')
  rw [hi.sameSlot_iff h hwrap hr hs]
  exact hnd r (stored_of_getElem? hr).2

/-- The scan finds the entry that is due. -/
theorem Inv.findDue_eq_some (h : Separable C mu input r₀) (hi : Inv C mu input r₀ t mac)
    (hwrap : t + 256 < SfnSf.totalSlots mu) (rq : Requests) {i r : Nat}
    (hr : (storedSlots C mu input r₀ t)[i]? = some r)
    (hdue : Due (r + slotsConfiguration C mu) (slotPeriod mu input r) t) :
    ({ mac with currentSlot := SfnSf.slotAt mu t, requests := rq } : MacScope).findDue =
      some i := by
  have hne := List.ne_nil_of_mem (List.mem_of_getElem? hr)
  unfold MacScope.findDue
  dsimp only
  have hsome : ((List.range (mac.countCGSlots + 1)).find? fun pos =>
      (mac.paramsCG pos).snfSf.sameSlot (SfnSf.slotAt mu t)).isSome := by
    rw [List.find?_isSome]
    refine ⟨i, List.mem_range.mpr ((hi.lt_length_iff hne).mpr ⟨r, hr⟩), ?_⟩
    exact (hi.sameSlot_iff h hwrap hr le_rfl).mpr ⟨rfl, hdue⟩
  obtain ⟨j, hj⟩ := Option.isSome_iff_exists.mp hsome
  rw [hj]
  obtain ⟨r', hr'⟩ := (hi.lt_length_iff hne).mp (List.mem_range.mp (List.mem_of_find?_eq_some hj))
  have hmatch := List.find?_some hj
  have hdue' := ((hi.sameSlot_iff h hwrap hr' le_rfl).mp hmatch).2
  have hrr := h.due_unique (stored_of_getElem? hr').2 (stored_of_getElem? hr).2 hdue' hdue
  rw [hrr] at hr'
  have hlt := (List.getElem?_eq_some_iff.mp hr').1
  exact congrArg some ((List.getElem?_inj hlt storedSlots_nodup).mp (hr'.trans hr.symm))

/-- The entry that is due is replayed and moves on by its period. -/
theorem Inv.replay_due (h : Separable C mu input r₀) (hi : Inv C mu input r₀ t mac)
    (hwrap : t + 256 < SfnSf.totalSlots mu) (hns : ¬ Stored C mu input r₀ t) (rq : Requests)
    {i r : Nat} (hr : (storedSlots C mu input r₀ t)[i]? = some r)
    (hdue : Due (r + slotsConfiguration C mu) (slotPeriod mu input r) t) :
    ∃ calls mac', ({ mac with currentSlot := SfnSf.slotAt mu t, requests := rq } :
        MacScope).replay = some (calls, mac') ∧ mac'.currentSlot = SfnSf.slotAt mu t ∧
      calls.map Cgr.grant = (input r).requests.map Cgr.grant ∧
      Inv C mu input r₀ (t + 1) { mac' with requests := mac'.requests.clear } := by
  have hmu : mu ≤ 11 := h.numerology.trans (by norm_num)
  have hst := (stored_of_getElem? hr).2
  obtain ⟨hppos, hplt⟩ := h.period_bounds hst
  obtain ⟨d, he, hd, -⟩ := hi.entry i r hr
  obtain rfl := hd.eq_iff.mpr hdue
  have hcount : mac.countCGSlots < maxCGSlots := by
    have hlen := @Separable.length_storedSlots C mu r₀ d input h
    have := List.length_pos_of_ne_nil (List.ne_nil_of_mem (List.mem_of_getElem? hr))
    rw [hi.count]
    omega
  -- all requests of the entry agree with its first one
  obtain ⟨q₀, rs, hreq⟩ := List.exists_cons_of_ne_nil hst.1
  have hmem : q₀ ∈ (input r).requests := by rw [hreq]; exact List.mem_cons_self
  have hagree : ∀ q ∈ (input r).requests, q.traffP = q₀.traffP ∧ q.traffInit = q₀.traffInit ∧
      q.traffDeadline = q₀.traffDeadline := fun q hq => h.agree r hst q hq q₀ hmem
  obtain ⟨calls, rq', hloop, hcalls⟩ := replayLoop_eq hagree (mac.paramsCG i).snfSf
    ({ mac with currentSlot := SfnSf.slotAt mu d, requests := rq } : MacScope)
  have hinit : (mac.paramsCG i).traffInitCgr.head? = some q₀.traffInit := by
    rw [he.traffInitCgr, hreq]
    rfl
  have hdead : (mac.paramsCG i).traffDeadlineCgr.head? = some q₀.traffDeadline := by
    rw [he.traffDeadlineCgr, hreq]
    rfl
  have hslot : (SfnSf.slotAt mu d).add (q₀.traffP *
      ({ mac with currentSlot := SfnSf.slotAt mu d, requests := rq } :
        MacScope).numberOfSlotInsideOneSubframe % 256) =
      SfnSf.slotAt mu (d + slotPeriod mu input r) := by
    have hpow : 2 ^ mu < 256 := by
      have := Nat.pow_le_pow_right (show 0 < 2 by norm_num) h.numerology
      omega
    rw [MacScope.numberOfSlotInsideOneSubframe, SfnSf.numerology_slotAt, Nat.mod_eq_of_lt hpow,
      ← h.period_eq hst hmem, Nat.mod_eq_of_lt hplt, SfnSf.add_slotAt hmu (by omega)]
  rw [if_neg hst.1, hslot] at hloop
  unfold MacScope.replay
  rw [if_pos hcount, hi.findDue_eq_some h hwrap rq hr hdue]
  dsimp only
  rw [hinit, hdead, he.srList, he.bufCgr, he.traffPCgr, hloop]
  refine ⟨calls, _, rfl, rfl, hcalls, hi.of_not_stored hns rfl (Holds.clear _) rfl rfl rfl ?_ ?_ ?_⟩
  · intro hle
    exact absurd hdue (h.not_due hst (by omega))
  · intro j r' hr'
    by_cases hij : j = i
    · subst hij
      obtain rfl := Option.some.inj (hr'.symm.trans hr)
      refine ⟨d + slotPeriod mu input r', ?_, hd.fire hppos, by omega⟩
      change EntryOf _ _ (Function.update mac.paramsCG j _ j)
      rw [Function.update_self]
      exact ⟨rfl, rfl, rfl, rfl, he.traffInitCgr, he.traffDeadlineCgr⟩
    · change ∃ d', EntryOf _ _ (Function.update mac.paramsCG i _ j) ∧ _
      rw [Function.update_of_ne hij]
      apply hi.entry_wait hr'
      intro hdue'
      have hrr := h.due_unique (stored_of_getElem? hr').2 hst hdue' hdue
      rw [hrr] at hr'
      have hlt := (List.getElem?_eq_some_iff.mp hr').1
      exact hij ((List.getElem?_inj hlt storedSlots_nodup).mp (hr'.trans hr.symm))
  · intro j hle
    have hlt := (List.getElem?_eq_some_iff.mp hr).1
    exact Function.update_of_ne (by omega) _ _

/-- With no entry due the scan leaves the table as it is. -/
theorem replay_of_findDue_none {m : MacScope} (hnone : m.findDue = none)
    (hcount : m.countCGSlots < maxCGSlots) :
    m.replay = some ([], { m with posCG := (m.countCGSlots + 1) % 256 }) := by
  unfold MacScope.replay
  rw [if_pos hcount, hnone]

theorem Inv.count_lt (h : Separable C mu input r₀) (hi : Inv C mu input r₀ t mac) :
    mac.countCGSlots < maxCGSlots := by
  have hlen := @Separable.length_storedSlots C mu r₀ t input h
  rw [maxCGSlots] at hlen ⊢
  rw [hi.count]
  omega

/-- What the first indication of slot `t` does. -/
theorem Inv.indication (h : Separable C mu input r₀) (hi : Inv C mu input r₀ t mac)
    (hwrap : t + 256 < SfnSf.totalSlots mu) {rq : Requests} (hrq : Holds (input t).requests rq) :
    ∃ out mac', ({ mac with currentSlot := SfnSf.slotAt mu t, requests := rq } :
        MacScope).doSlotUlIndication = some (out, mac') ∧
      mac'.currentSlot = SfnSf.slotAt mu t ∧ Inv C mu input r₀ (t + 1) mac' ∧
      CallsOf C mu input r₀ t out.ulReceiveCgr := by
  unfold MacScope.doSlotUlIndication
  dsimp only
  by_cases hwin : t < r₀ + slotsConfiguration C mu
  · have hcalls : CallsOf C mu input r₀ t [] :=
      Or.inl ⟨rfl, fun r hr => h.not_due hr hwin⟩
    rw [hi.configuring h hwin hwrap, if_pos rfl]
    by_cases hreq : (input t).requests = []
    · have hns : ¬ Stored C mu input r₀ t := fun hst => hst.1 hreq
      have hany : rq.srRntiList.any (· ≠ 0) = false := by rw [hrq.rnti, hreq]; rfl
      rw [hany]
      refine ⟨_, _, rfl, rfl, ?_, hcalls⟩
      exact hi.of_not_stored hns rfl (Holds.clear _) rfl rfl rfl (fun _ => rfl)
        (fun i r hr => hi.entry_wait hr (h.not_due (stored_of_getElem? hr).2 hwin)) fun _ _ => rfl
    · have hst : Stored C mu input r₀ t := ⟨hreq, hwin⟩
      have hany : rq.srRntiList.any (· ≠ 0) = true := by
        obtain ⟨q, hq⟩ := List.exists_mem_of_ne_nil _ hreq
        rw [hrq.rnti, List.any_eq_true]
        exact ⟨q.rnti, List.mem_map_of_mem hq, by simpa using h.rnti_ne_zero t hst q hq⟩
      obtain ⟨mac', hstore, hcur, hinv⟩ := hi.store h hst hwrap hrq
      rw [hany, if_pos rfl, hstore]
      exact ⟨_, _, rfl, hcur, hinv, hcalls⟩
  · have hns : ¬ Stored C mu input r₀ t := fun hst => hwin hst.2
    have hwindow := h.window
    have hne : storedSlots C mu input r₀ t ≠ [] :=
      List.ne_nil_of_mem (mem_storedSlots.mpr ⟨by omega, h.stored_first⟩)
    rw [hi.replaying h (by omega) (by omega) (by omega), if_neg Bool.false_ne_true]
    by_cases hex : ∃ i r : Nat, (storedSlots C mu input r₀ t)[i]? = some r ∧
        Due (r + slotsConfiguration C mu) (slotPeriod mu input r) t
    · obtain ⟨i, r, hr, hdue⟩ := hex
      obtain ⟨calls, mac', hrep, hcur, hcalls, hinv⟩ := hi.replay_due h hwrap hns rq hr hdue
      rw [hrep]
      exact ⟨_, _, rfl, hcur, hinv, Or.inr ⟨r, (stored_of_getElem? hr).2, hdue, hcalls⟩⟩
    · have hnone : ∀ r, Stored C mu input r₀ r →
          ¬ Due (r + slotsConfiguration C mu) (slotPeriod mu input r) t := by
        intro r hst hdue
        have hrt : r < t := by
          have := hst.2
          omega
        obtain ⟨i, hi'⟩ := List.mem_iff_getElem?.mp (mem_storedSlots.mpr ⟨hrt, hst⟩)
        exact hex ⟨i, r, hi', hdue⟩
      have hfind := hi.findDue_eq_none h hwrap hne le_rfl rq fun r hst hd => hnone r hst hd.2
      have hcount := hi.count_lt h
      rw [replay_of_findDue_none hfind hcount]
      refine ⟨_, _, rfl, rfl, ?_, Or.inl ⟨rfl, hnone⟩⟩
      exact hi.of_not_stored hns rfl (Holds.clear _) rfl rfl rfl (fun hle => absurd hle (by omega))
        (fun i r hr => hi.entry_wait hr (hnone r (stored_of_getElem? hr).2)) fun _ _ => rfl

/-- Further indications of the same slot do nothing. -/
theorem Inv.indication_again (h : Separable C mu input r₀) (hi : Inv C mu input r₀ (t + 1) mac)
    (hwrap : t + 1 + 256 < SfnSf.totalSlots mu) (hcur : mac.currentSlot = SfnSf.slotAt mu t) :
    ∃ out mac', mac.doSlotUlIndication = some (out, mac') ∧
      mac'.currentSlot = SfnSf.slotAt mu t ∧ Inv C mu input r₀ (t + 1) mac' ∧
      out.ulReceiveCgr = [] := by
  have hmac : mac = { mac with currentSlot := SfnSf.slotAt mu t, requests := mac.requests } := by
    rw [← hcur]
  unfold MacScope.doSlotUlIndication
  dsimp only
  rw [hcur]
  by_cases hwin : t < r₀ + slotsConfiguration C mu
  · rw [hi.configuring h hwin hwrap, if_pos rfl]
    have hany : mac.requests.srRntiList.any (· ≠ 0) = false := by rw [hi.holds.rnti]; rfl
    rw [hany]
    refine ⟨_, _, rfl, hcur, ?_, rfl⟩
    exact ⟨hi.time, Holds.clear _, hi.configuration, hi.configurationSlot, hi.count, hi.pos,
      hi.entry, hi.fresh⟩
  · have hwindow := h.window
    have hne : storedSlots C mu input r₀ (t + 1) ≠ [] :=
      List.ne_nil_of_mem (mem_storedSlots.mpr ⟨by omega, h.stored_first⟩)
    rw [hi.replaying h (by omega) (by omega) (by omega), if_neg Bool.false_ne_true]
    have hfind := hi.findDue_eq_none h hwrap hne (Nat.le_succ t) mac.requests
      fun r _ hd => absurd hd.1 (by omega)
    rw [← hmac] at hfind
    rw [replay_of_findDue_none hfind (hi.count_lt h)]
    refine ⟨_, _, rfl, hcur, ?_, rfl⟩
    exact ⟨hi.time, Holds.clear _, hi.configuration, hi.configurationSlot, hi.count,
      fun hle => absurd hle (by omega), hi.entry, hi.fresh⟩

theorem Inv.indicate_again (h : Separable C mu input r₀)
    (hwrap : t + 1 + 256 < SfnSf.totalSlots mu) {n : Nat} (hi : Inv C mu input r₀ (t + 1) mac)
    (hcur : mac.currentSlot = SfnSf.slotAt mu t) :
    ∃ mac', indicate n mac = some ([], mac') ∧ Inv C mu input r₀ (t + 1) mac' := by
  induction n generalizing mac with
  | zero => exact ⟨mac, rfl, hi⟩
  | succ n ih =>
    obtain ⟨out, mac₁, h₁, hcur₁, hi₁, hout⟩ := hi.indication_again h hwrap hcur
    obtain ⟨mac₂, h₂, hi₂⟩ := ih hi₁ hcur₁
    refine ⟨mac₂, ?_, hi₂⟩
    rw [indicate, h₁]
    simp [h₂, hout]

/-- One slot of the run. -/
theorem Inv.runSlot (h : Separable C mu input r₀) (hi : Inv C mu input r₀ t mac)
    (hwrap : t + 1 + 256 < SfnSf.totalSlots mu) :
    ∃ calls mac', runSlot mac (SfnSf.slotAt mu t) (input t) = some (calls, mac') ∧
      Inv C mu input r₀ (t + 1) mac' ∧ CallsOf C mu input r₀ t calls := by
  have hrq := hi.holds.foldl_push (input t).requests
  rw [List.nil_append] at hrq
  obtain ⟨out, mac₁, h₁, hcur, hi₁, hcalls⟩ := hi.indication h (by omega) hrq
  obtain ⟨n, hn⟩ := Nat.exists_eq_succ_of_ne_zero (h.indicated t).ne'
  obtain ⟨mac₂, h₂, hi₂⟩ := hi₁.indicate_again h hwrap (n := n) hcur
  refine ⟨out.ulReceiveCgr, mac₂, ?_, hi₂, hcalls⟩
  unfold GnbMac.runSlot
  rw [foldl_ulReceiveCgr, hn, indicate, h₁]
  simp [h₂]

end Run

end Ns3.Nr.GnbMac
