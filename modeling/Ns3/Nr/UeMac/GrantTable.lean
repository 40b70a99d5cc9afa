import Ns3.Lib.Family
import Ns3.Lib.Rota
import Ns3.Nr.UeMac.Transmit

/-!
# The configured grants of the UE MAC

`ProcessUlDci` stores the grants of the configuration with their first occasions. In the state
`SCH_CG_DATA` the MAC waits for the occasion of the grant at `cg_slot_counter_DCI_2`, moves the
grant to the next period and goes on to the next one; after the last one it returns to
`ACTIVE_CG`. This is the pointer of `Lib.Turn`, and `HasGrants` is the table with the pointer.

Nothing moves a grant whose occasion finds the MAC in another state: a UE without a packet loses
its grants for ever.
-/

namespace Ns3.Nr.UeMac

open Lib SfnSf

/-- The configuration of the MAC. -/
structure CgConf where
  mu : Nat
  configurationTime : Nat
  cgPeriod : Nat

/-- The DCIs of a configuration, with the slots in which they are received. -/
structure Grants where
  n : Nat
  received : Nat → Nat
  dci : Nat → DciInfoElementTdma

namespace CgConf

/-- From the DCI to the first occasion, in slots. -/
def toFirst (c : CgConf) : Nat := (c.configurationTime * (2 ^ c.mu % 256) + 251) % 256

/-- The period in slots. -/
def period (c : CgConf) : Nat := c.cgPeriod * 2 ^ c.mu

/-- The first occasion of a grant. -/
def occasion (c : CgConf) (g : Grants) (i : Nat) : Nat := g.received i + c.toFirst

/-- The key of a grant for its occasion in a slot. -/
def key (c : CgConf) (g : Grants) (slot i : Nat) : Nat :=
  (slotAt c.mu slot).encForStreamWithSymStart 0 (g.dci i).symStart

/-- The slot of the next occasion of a grant, when the pointer is at `j` in the period `k`. -/
def next (c : CgConf) (g : Grants) (k j i : Nat) : Nat :=
  deadline (c.occasion g) c.period k j i

def nextKey (c : CgConf) (g : Grants) (k j i : Nat) : Nat := c.key g (c.next g k j i) i

end CgConf

/-- Fewer than 100 grants, one in a slot. The last one is received before the first occasion, and
the occasions are in a window that ends two slots before the next period. -/
structure Setting (c : CgConf) (g : Grants) : Prop where
  period : 0 < c.cgPeriod ∧ c.period < 256
  few : g.n < maxGrants
  symStart : ∀ i < g.n, (g.dci i).symStart < 256
  rota : Rota g.n (c.occasion g) c.period
  received : ∀ i < g.n, g.received i < c.occasion g 0

namespace Setting

variable {c : CgConf} {g : Grants}

theorem pow_lt (h : Setting c g) : 2 ^ c.mu < 256 := by
  obtain ⟨hpos, hlt⟩ := h.period
  exact (Nat.le_mul_of_pos_left _ hpos).trans_lt hlt

theorem mu_le (h : Setting c g) : c.mu ≤ 11 := by
  by_contra hlt
  have := Nat.pow_le_pow_right (show 0 < 2 by decide) (show 12 ≤ c.mu by omega)
  have := h.pow_lt
  omega

theorem le_totalSlots (c : CgConf) : 2 ^ 19 ≤ totalSlots c.mu := by
  have : 1 ≤ 2 ^ c.mu := Nat.one_le_two_pow
  unfold totalSlots
  omega

/-- Near slots have different keys. -/
theorem eq_of_key (h : Setting c g) {x y i i' : Nat} (hi : i < g.n) (hi' : i' < g.n)
    (hle : x ≤ y) (hlt : y < x + 2 ^ 19) (heq : c.key g x i = c.key g y i') : x = y := by
  have hslot := (encForStreamWithSymStart_inj (valid_slotAt h.mu_le x) (valid_slotAt h.mu_le y)
    (by decide) (by decide) (h.symStart i hi) (h.symStart i' hi') heq).1
  exact slotAt_inj_of_lt h.mu_le hle (hlt.trans_le (Nat.add_le_add_left (le_totalSlots c) x)) hslot

end Setting

namespace NrUeMac

/-- Before the slot `t`, when `m` grants have been stored. The pointer is at `j` in the period
`k`. -/
structure HasGrants (c : CgConf) (g : Grants) (t m k j : Nat) (mac : NrUeMac) : Prop where
  turn : Turn g.n (c.occasion g) c.period t k j
  le : m ≤ g.n
  received : ∀ i < m, g.received i < t
  /-- until all grants are stored the first occasion is ahead -/
  early : m < g.n → k = 0 ∧ j = 0 ∧ t ≤ c.occasion g 0
  cgScheduling : mac.cgScheduling = true
  configurationTime : mac.configurationTime = c.configurationTime
  cgPeriod : mac.cgPeriod = c.cgPeriod
  stored : ∀ i, mac.dciGrantedStored i = if i < m then some (g.dci i) else none
  table : mac.dciCgMap.Holds m (c.nextKey g k j) g.dci
  counterDci : mac.cgSlotCounterDci = m
  counterDci2 : mac.cgSlotCounterDci2 = j
  /-- in the middle of a period the MAC has a packet -/
  busy : 0 < j → mac.srStateConfiguredGrant = .SCH_CG_DATA

variable {c : CgConf} {g : Grants} {t m k j : Nat} {mac mac' : NrUeMac} {rlc : Rlc}

theorem HasGrants.start (h : Setting c g) (numHarqProcess : Nat) (slot : SfnSf) :
    HasGrants c g 0 0 0 0 (start true c.configurationTime c.cgPeriod numHarqProcess slot) where
  turn := Turn.start h.rota (Nat.zero_le _)
  le := Nat.zero_le _
  received i hi := by omega
  early _ := ⟨rfl, rfl, Nat.zero_le _⟩
  cgScheduling := rfl
  configurationTime := rfl
  cgPeriod := rfl
  stored _ := rfl
  table := Table.holds_empty _ _
  counterDci := rfl
  counterDci2 := rfl
  busy hj := by omega

/-- The stored occasions are less than 256 slots ahead. -/
theorem HasGrants.next_lt (h : HasGrants c g t m k j mac) (hset : Setting c g) {i : Nat}
    (hi : i < m) : c.next g k j i < t + 256 := by
  have hperiod := hset.period.2
  unfold CgConf.next
  by_cases hk : i < j ∨ 0 < k
  · have := h.turn.deadline_lt hset.rota (hi.trans_le h.le) hk
    omega
  · have hzero : k = 0 := by omega
    have hreceived := h.received i hi
    have htoFirst : c.toFirst < 256 := Nat.mod_lt _ (by decide)
    rw [deadline_of_le (by omega), hzero, CgConf.occasion]
    omega

theorem HasGrants.le_next (h : HasGrants c g t m k j mac) (hset : Setting c g) {i : Nat}
    (hi : i < g.n) : t ≤ c.next g k j i :=
  h.turn.le_deadline hset.rota hi

/-- A stored grant has its occasion in the slot of its key. -/
theorem HasGrants.next_eq_of_key (h : HasGrants c g t m k j mac) (hset : Setting c g) {i i' x : Nat}
    (hi : i < m) (hi' : i' < g.n) (hle : t ≤ x) (hlt : x < t + 512)
    (heq : c.nextKey g k j i = c.key g x i') : c.next g k j i = x := by
  have hin := hi.trans_le h.le
  have h1 := h.le_next hset hin
  have h2 := h.next_lt hset hi
  rcases Nat.le_total (c.next g k j i) x with hx | hx
  · exact hset.eq_of_key hin hi' hx (by omega) heq
  · exact (hset.eq_of_key hi' hin hx (by omega) heq.symm).symm

theorem HasGrants.nextKey_inj (h : HasGrants c g t m k j mac) (hset : Setting c g) {i i' : Nat}
    (hi : i < m) (hi' : i' < m) (heq : c.nextKey g k j i = c.nextKey g k j i') : i = i' := by
  have hin' := hi'.trans_le h.le
  have hd := h.next_eq_of_key hset hi hin' (h.le_next hset hin')
    (by have := h.next_lt hset hi'; omega) heq
  exact hset.rota.deadline_inj (hi.trans_le h.le) hin' hd

/-! ## Events within a slot -/

/-- The grants depend only on some of the variables. -/
theorem HasGrants.of_fixed (h : HasGrants c g t m k j mac) (hfixed : mac'.fixed = mac.fixed)
    (hbusy : 0 < j → mac'.srStateConfiguredGrant = .SCH_CG_DATA) :
    HasGrants c g t m k j mac' where
  turn := h.turn
  le := h.le
  received := h.received
  early := h.early
  cgScheduling := (congrArg Fixed.cgScheduling hfixed).trans h.cgScheduling
  configurationTime := (congrArg Fixed.configurationTime hfixed).trans h.configurationTime
  cgPeriod := (congrArg Fixed.cgPeriod hfixed).trans h.cgPeriod
  stored i := (congrFun (congrArg Fixed.dciGrantedStored hfixed) i).trans (h.stored i)
  table := by
    rw [show mac'.dciCgMap = mac.dciCgMap from congrArg Fixed.dciCgMap hfixed]
    exact h.table
  counterDci := (congrArg Fixed.cgSlotCounterDci hfixed).trans h.counterDci
  counterDci2 := (congrArg Fixed.cgSlotCounterDci2 hfixed).trans h.counterDci2
  busy := hbusy

theorem reported_of_sch (h : mac.srStateConfiguredGrant = .SCH_CG_DATA)
    (hcg : mac.cgScheduling = true) : mac.machine.reported = mac.machine := by
  unfold Machine.reported machine
  simp [h, hcg]

theorem HasGrants.doReportBufferStatus (h : HasGrants c g t m k j mac) (order : BsrOrder)
    (params : Bsr) : HasGrants c g t m k j (mac.doReportBufferStatus order params) := by
  apply h.of_fixed
  · exact (kept_reported
      { mac with ulBsrReceived := updateBsr order params mac.ulBsrReceived }).fixed
  · intro hj
    have hsch := h.busy hj
    have hm := machine_reported
      { mac with ulBsrReceived := updateBsr order params mac.ulBsrReceived }
    have hsame := hm.trans (reported_of_sch hsch h.cgScheduling)
    exact (congrArg Machine.srStateConfiguredGrant hsame).trans hsch

theorem numberOfSlot_eq (hset : Setting c g) (hslot : mac.currentSlot = slotAt c.mu t) :
    mac.numberOfSlotInsideOneSubframe = 2 ^ c.mu := by
  unfold numberOfSlotInsideOneSubframe
  rw [hslot, numerology_slotAt, Nat.mod_eq_of_lt hset.pow_lt]

/-- The next grant of the configuration is stored for its first occasion. -/
theorem HasGrants.storeGrant (h : HasGrants c g (t + 1) m k j mac) (hset : Setting c g)
    (hslot : mac.currentSlot = slotAt c.mu t) (hm : m < g.n) (hreceived : g.received m = t)
    (hdci : mac.ulDci = g.dci m) (hmac' : mac.storeGrant = some mac') :
    HasGrants c g (t + 1) (m + 1) k j mac' := by
  obtain ⟨rfl, rfl, hfirst⟩ := h.early hm
  have htoFirst : c.toFirst < 256 := Nat.mod_lt _ (by decide)
  have hocc : c.next g 0 0 m = t + c.toFirst := by
    rw [CgConf.next, deadline_of_le (Nat.zero_le m), CgConf.occasion, hreceived]
    omega
  have hkey : mac.firstKey = c.nextKey g 0 0 m := by
    unfold firstKey
    dsimp only
    rw [h.configurationTime, numberOfSlot_eq hset hslot, hslot, hdci, CgConf.nextKey, hocc,
      CgConf.key, CgConf.toFirst, Nat.mod_eq_of_lt hset.pow_lt,
      add_slotAt_mod hset.mu_le _ ((Nat.mod_lt _ (by decide)).trans (by decide))]
  have hnew : ∀ i < m, c.nextKey g 0 0 i ≠ mac.firstKey := by
    intro i hi heq
    rw [hkey] at heq
    have hd := h.next_eq_of_key hset hi hm (h.le_next hset hm) (by omega) heq
    have := hset.rota.deadline_inj (hi.trans hm) hm hd
    omega
  have hcounter : mac.cgSlotCounterDci < maxGrants := by
    rw [h.counterDci]
    exact h.le.trans_lt hset.few
  have hstored : ∀ i, Function.update mac.dciGrantedStored mac.cgSlotCounterDci (some mac.ulDci) i =
      if i < m + 1 then some (g.dci i) else none := by
    intro i
    rw [h.counterDci, hdci]
    by_cases hi : i = m
    · rw [hi, Function.update_self, if_pos (Nat.lt_succ_self m)]
    · rw [Function.update_of_ne hi, h.stored i]
      by_cases hlt : i < m
      · rw [if_pos hlt, if_pos (by omega)]
      · rw [if_neg hlt, if_neg (by omega)]
  unfold NrUeMac.storeGrant at hmac'
  rw [if_pos hcounter] at hmac'
  dsimp only at hmac'
  rw [if_neg (h.table.not_mem hnew)] at hmac'
  cases hmac'
  constructor
  · exact h.turn
  · exact hm
  · intro i hi
    rcases Nat.lt_succ_iff_lt_or_eq.mp hi with hlt | rfl
    · exact h.received i hlt
    · omega
  · exact fun _ => ⟨rfl, rfl, hfirst⟩
  · exact h.cgScheduling
  · exact h.configurationTime
  · exact h.cgPeriod
  · exact hstored
  · show Table.Holds (AList.insert mac.firstKey mac.ulDci mac.dciCgMap) _ _ _
    rw [hkey] at hnew ⊢
    rw [hdci]
    exact h.table.insert hnew
  · show (mac.cgSlotCounterDci + 1) % 256 = m + 1
    have := hset.few
    unfold maxGrants at this
    rw [h.counterDci, Nat.mod_eq_of_lt (by omega)]
  · exact h.counterDci2
  · intro hj
    omega

theorem currentSlot_storeGrant (h : mac.storeGrant = some mac') :
    mac'.currentSlot = mac.currentSlot := by
  unfold NrUeMac.storeGrant at h
  split at h
  · dsimp only at h
    split at h
    · cases h
      rfl
    · cases h
      rfl
  · cases h

theorem HasGrants.processUlDci (h : HasGrants c g (t + 1) m k j mac) (hset : Setting c g)
    (hslot : mac.currentSlot = slotAt c.mu t) (hm : m < g.n) (hreceived : g.received m = t)
    {kDelay : Nat} (hmac' : mac.processUlDci rlc (g.dci m) kDelay = some mac') :
    HasGrants c g (t + 1) (m + 1) k j mac' ∧ mac'.currentSlot = mac.currentSlot := by
  obtain ⟨mac₁, h₁, hmac'⟩ := Option.bind_eq_some_iff.mp hmac'
  obtain ⟨-, rfl, -⟩ := h.early hm
  have hset₁ : HasGrants c g (t + 1) m k 0 (mac.setUlDci (mac.currentSlot.add kDelay) (g.dci m)) :=
    ⟨h.turn, h.le, h.received, h.early, h.cgScheduling, h.configurationTime, h.cgPeriod, h.stored,
      h.table, h.counterDci, h.counterDci2, h.busy⟩
  rw [if_pos hset₁.cgScheduling] at h₁
  have hstored := hset₁.storeGrant hset hslot hm hreceived rfl h₁
  have hkept := (transmit_cases ulBsrReceived_emptied machine_emptied kept_emptied hmac').1
  constructor
  · exact hstored.of_fixed hkept.fixed fun hj => by omega
  · have hsame := currentSlot_storeGrant h₁
    exact (congrArg Fixed.currentSlot hkept.fixed).trans hsame

/-! ## The slot indication -/

/-- The grant at the pointer moves to the next period, where no other grant has its occasion. -/
theorem HasGrants.moved (h : HasGrants c g t g.n k j mac) (hset : Setting c g) (hj : j < g.n)
    (hdue : c.next g k j j = t) :
    c.nextKey g k (j + 1) j ∉ mac.dciCgMap.erase (c.key g t j) ∧
      Table.Holds (AList.insert (c.nextKey g k (j + 1) j) (g.dci j)
        (mac.dciCgMap.erase (c.key g t j))) g.n (c.nextKey g k (j + 1)) g.dci := by
  have hkey : c.key g t j = c.nextKey g k j j := by rw [CgConf.nextKey, hdue]
  have hsucc : c.next g k (j + 1) j = t + c.period := by
    rw [← hdue]
    exact deadline_succ_self
  have hsame : ∀ i, i ≠ j → c.nextKey g k (j + 1) i = c.nextKey g k j i := by
    intro i hij
    rw [CgConf.nextKey, CgConf.nextKey, CgConf.next, deadline_succ hij]
    rfl
  have hnew : ∀ i < g.n, i ≠ j → c.nextKey g k j i ≠ c.nextKey g k (j + 1) j := by
    intro i hi hij heq
    have hlt := hset.period.2
    have hd := h.next_eq_of_key hset hi hj (show t ≤ c.next g k (j + 1) j by omega) (by omega) heq
    rw [CgConf.next, ← deadline_succ hij] at hd
    exact hij (hset.rota.deadline_inj hi hj hd)
  constructor
  · rw [AList.mem_erase]
    rintro ⟨hne, hmem⟩
    obtain ⟨d, hd⟩ := Option.isSome_iff_exists.mp (AList.lookup_isSome.mpr hmem)
    obtain ⟨i, hi, heq, -⟩ := (h.table _ _).mp hd
    by_cases hij : i = j
    · rw [hij, ← hkey] at heq
      exact hne heq
    · exact hnew i hi hij heq.symm
  · rw [hkey]
    exact h.table.move _ hj (fun i hi heq => h.nextKey_inj hset hi hj heq) hsame hnew

/-- An occasion that is found: the pointer goes on. -/
theorem HasGrants.useGrant (h : HasGrants c g t g.n k j mac) (hset : Setting c g)
    (hslot : mac.currentSlot = slotAt c.mu t) (hj : j < g.n)
    (hsch : mac.srStateConfiguredGrant = .SCH_CG_DATA) (hdue : c.next g k j j = t)
    (hmac' : mac.useGrant rlc (c.key g t j) (g.dci j) (g.dci j) = some mac') :
    HasGrants c g (t + 1) g.n k (j + 1) mac' := by
  obtain ⟨mac₁, h₁, rfl⟩ := Option.map_eq_some_iff.mp hmac'
  have hsent := transmit_id_sent h₁
  have hfixed := hsent.kept.fixed
  have htable : mac₁.dciCgMap = mac.dciCgMap.erase (c.key g t j) := congrArg Fixed.dciCgMap hfixed
  have hslot₁ : mac₁.currentSlot = slotAt c.mu t :=
    (congrArg Fixed.currentSlot hfixed).trans hslot
  have hperiod : mac₁.cgPeriod = c.cgPeriod := (congrArg Fixed.cgPeriod hfixed).trans h.cgPeriod
  have hnext : mac₁.nextKey (g.dci j) = c.nextKey g k (j + 1) j := by
    have hsucc : c.next g k (j + 1) j = t + c.period := by
      rw [← hdue]
      exact deadline_succ_self
    unfold NrUeMac.nextKey
    dsimp only
    rw [hperiod, numberOfSlot_eq hset hslot₁, hslot₁, CgConf.nextKey, hsucc, CgConf.key,
      show c.cgPeriod * 2 ^ c.mu = c.period from rfl, Nat.mod_eq_of_lt hset.period.2,
      add_slotAt_mod hset.mu_le _ (hset.period.2.trans (by decide))]
  have hsch₁ : mac₁.srStateConfiguredGrant = .SCH_CG_DATA := by
    have hsame := reported_of_sch hsch h.cgScheduling
    have hm : mac₁.machine = mac.machine := by
      rcases hsent.sent with ⟨hm, -⟩ | hm
      · exact hm
      · exact hm.trans hsame
    exact (congrArg Machine.srStateConfiguredGrant hm).trans hsch
  have hcounter : mac₁.cgSlotCounterDci2 = j :=
    (congrArg Fixed.cgSlotCounterDci2 hfixed).trans h.counterDci2
  obtain ⟨hnot, hmoved⟩ := h.moved hset hj hdue
  rw [← hnext, ← htable] at hnot hmoved
  unfold renewGrant
  rw [if_neg hnot]
  constructor
  · exact Turn.use hset.rota hj hdue
  · exact le_rfl
  · exact fun i hi => (h.received i hi).trans (Nat.lt_succ_self t)
  · exact fun hlt => absurd hlt (lt_irrefl _)
  · exact (congrArg Fixed.cgScheduling hfixed).trans h.cgScheduling
  · exact (congrArg Fixed.configurationTime hfixed).trans h.configurationTime
  · exact hperiod
  · exact fun i => (congrFun (congrArg Fixed.dciGrantedStored hfixed) i).trans (h.stored i)
  · exact hmoved
  · exact (congrArg Fixed.cgSlotCounterDci hfixed).trans h.counterDci
  · have := hset.few
    unfold maxGrants at this
    show (mac₁.cgSlotCounterDci2 + 1) % 256 = j + 1
    rw [hcounter, Nat.mod_eq_of_lt (by omega)]
  · exact fun _ => hsch₁

/-- What the slot indication sets without touching the grants. -/
theorem HasGrants.next_slot (h : HasGrants c g t m k j mac) {k' j' : Nat}
    (hturn : Turn g.n (c.occasion g) c.period (t + 1) k' j')
    (hkey : ∀ i < m, c.nextKey g k' j' i = c.nextKey g k j i)
    (hearly : m < g.n → k' = 0 ∧ j' = 0 ∧ t + 1 ≤ c.occasion g 0)
    (hfixed : { mac'.fixed with currentSlot := mac.currentSlot, cgSlotCounterDci2 := j } =
      { mac.fixed with cgSlotCounterDci2 := j })
    (hcounter : mac'.cgSlotCounterDci2 = j')
    (hbusy : 0 < j' → mac'.srStateConfiguredGrant = .SCH_CG_DATA) :
    HasGrants c g (t + 1) m k' j' mac' where
  turn := hturn
  le := h.le
  received i hi := (h.received i hi).trans (Nat.lt_succ_self t)
  early := hearly
  cgScheduling := (congrArg Fixed.cgScheduling hfixed).trans h.cgScheduling
  configurationTime := (congrArg Fixed.configurationTime hfixed).trans h.configurationTime
  cgPeriod := (congrArg Fixed.cgPeriod hfixed).trans h.cgPeriod
  stored i := (congrFun (congrArg Fixed.dciGrantedStored hfixed) i).trans (h.stored i)
  table := by
    rw [show mac'.dciCgMap = mac.dciCgMap from congrArg Fixed.dciCgMap hfixed]
    exact h.table.congr hkey
  counterDci := (congrArg Fixed.cgSlotCounterDci hfixed).trans h.counterDci
  counterDci2 := hcounter
  busy := hbusy

/-- A slot in which the pointer stays. -/
theorem HasGrants.wait (h : HasGrants c g t m k j mac) (hj : j < g.n) (hne : c.next g k j j ≠ t)
    (hearly : m < g.n → t < c.occasion g 0)
    (hfixed : { mac'.fixed with currentSlot := mac.currentSlot } = mac.fixed)
    (hbusy : 0 < j → mac'.srStateConfiguredGrant = .SCH_CG_DATA) :
    HasGrants c g (t + 1) m k j mac' := by
  apply h.next_slot (h.turn.wait hj hne)
  · exact fun i _ => rfl
  · intro hm
    obtain ⟨hk, hj', -⟩ := h.early hm
    exact ⟨hk, hj', hearly hm⟩
  · exact congrArg (fun f : Fixed => { f with cgSlotCounterDci2 := j }) hfixed
  · exact (congrArg Fixed.cgSlotCounterDci2 hfixed).trans h.counterDci2
  · exact hbusy

theorem fixed_sendRequest (mac : NrUeMac) : mac.sendRequest.fixed = mac.fixed := by
  unfold sendRequest
  split <;> rfl

theorem macPdus_sendRequest (mac : NrUeMac) : mac.sendRequest.macPdus = mac.macPdus := by
  unfold sendRequest
  split <;> rfl

theorem HasGrants.startSlot (h : HasGrants c g t m k j mac) (sfn : SfnSf) :
    HasGrants c g t m k j (mac.startSlot sfn) :=
  ⟨h.turn, h.le, h.received, h.early, h.cgScheduling, h.configurationTime, h.cgPeriod, h.stored,
    h.table, h.counterDci, h.counterDci2, h.busy⟩

/-- The MAC has left the states of the configuration. -/
def Configured (mac : NrUeMac) : Prop :=
  mac.srStateConfiguredGrant = .ACTIVE_CG ∨ mac.srStateConfiguredGrant = .SCH_CG_DATA

/-- What a slot indication does with the grants: an occasion is used, the pointer goes back, or
nothing changes. -/
inductive Indicated (c : CgConf) (g : Grants) (rlc : Rlc) (t m k j : Nat) (mac : NrUeMac) :
    (k' j' : Nat) → NrUeMac → Prop
  | use {mac' : NrUeMac} : m = g.n → j < g.n → c.next g k j j = t →
      (mac.startSlot (slotAt c.mu t)).useGrant rlc (c.key g t j) (g.dci j) (g.dci j) = some mac' →
      Indicated c g rlc t m k j mac k (j + 1) mac'
  | back {mac' : NrUeMac} : m = g.n → j = g.n → mac'.macPdus = mac.macPdus →
      mac'.srStateConfiguredGrant = .ACTIVE_CG →
      Indicated c g rlc t m k j mac (k + 1) 0 mac'
  | wait {mac' : NrUeMac} : j < g.n → c.next g k j j ≠ t → mac'.macPdus = mac.macPdus →
      (0 < m → mac.Configured → mac'.srStateConfiguredGrant = mac.srStateConfiguredGrant) →
      Indicated c g rlc t m k j mac k j mac'

/-- The MAC has to have a packet when the first occasion of a period comes. -/
theorem HasGrants.slotIndication (h : HasGrants c g t m k j mac) (hset : Setting c g)
    (hearly : m < g.n → t < c.occasion g 0)
    (hactive : m = g.n → j = 0 → c.next g k 0 0 = t → mac.srStateConfiguredGrant = .SCH_CG_DATA)
    {sch : Bool}
    (hmac' : mac.doSlotIndicationConfiguredGrant rlc (slotAt c.mu t) = some (sch, mac')) :
    (∃ k' j', HasGrants c g (t + 1) m k' j' mac' ∧ Indicated c g rlc t m k j mac k' j' mac') ∧
      mac'.currentSlot = slotAt c.mu t ∧
      sch = decide (mac.srStateConfiguredGrant = .SCH_CG_DATA) := by
  have hpos := hset.rota.pos
  -- in the other states the pointer is at the first grant, whose occasion is not now
  have hfirst : mac.srStateConfiguredGrant ≠ .SCH_CG_DATA → j = 0 ∧ c.next g k j j ≠ t := by
    intro hsch
    have hj : j = 0 := by
      by_contra hne
      exact hsch (h.busy (by omega))
    refine ⟨hj, ?_⟩
    intro heq
    rcases Nat.eq_or_lt_of_le h.le with hm | hm
    · rw [hj] at heq
      exact hsch (hactive hm hj heq)
    · obtain ⟨hk, -, -⟩ := h.early hm
      have hlt := hearly hm
      rw [hj, hk, CgConf.next, deadline_of_le le_rfl] at heq
      omega
  have hother : mac.srStateConfiguredGrant ≠ .SCH_CG_DATA →
      ({ mac'.fixed with currentSlot := mac.currentSlot } = mac.fixed) →
      mac'.macPdus = mac.macPdus →
      (mac.Configured → mac'.srStateConfiguredGrant = mac.srStateConfiguredGrant) →
      ∃ k' j', HasGrants c g (t + 1) m k' j' mac' ∧ Indicated c g rlc t m k j mac k' j' mac' := by
    intro hsch hfixed hpdus hstate
    obtain ⟨hj, hne⟩ := hfirst hsch
    exact ⟨k, j, h.wait (by omega) hne hearly hfixed (by omega),
      .wait (by omega) hne hpdus fun _ => hstate⟩
  unfold doSlotIndicationConfiguredGrant at hmac'
  dsimp only at hmac'
  split at hmac'
  · rename_i hstate
    have hsch : mac.srStateConfiguredGrant ≠ .SCH_CG_DATA := by
      rw [show mac.srStateConfiguredGrant = .TO_SEND_TrafficInfo from hstate]
      decide
    cases hmac'
    have hf := fixed_sendRequest (mac.startSlot (slotAt c.mu t))
    have hnot : ¬ mac.Configured := by
      unfold Configured
      rw [show mac.srStateConfiguredGrant = .TO_SEND_TrafficInfo from hstate]
      decide
    refine ⟨hother hsch ?_ (macPdus_sendRequest _) fun hconf => absurd hconf hnot,
      congrArg Fixed.currentSlot hf, (decide_eq_false hsch).symm⟩
    exact congrArg (fun f : Fixed => { f with currentSlot := mac.currentSlot }) hf
  · rename_i hstate
    have hsch : mac.srStateConfiguredGrant = .SCH_CG_DATA := hstate
    have hstart := h.startSlot (slotAt c.mu t)
    rw [hstart.counterDci2, if_pos (h.turn.le.trans_lt hset.few), hstart.stored j] at hmac'
    rcases Nat.lt_or_ge j m with hjm | hjm
    · have hj := hjm.trans_le h.le
      have hkey : (mac.startSlot (slotAt c.mu t)).currentSlot.encForStreamWithSymStart 0
          (g.dci j).symStart = c.key g t j := rfl
      rw [if_pos hjm] at hmac'
      dsimp only at hmac'
      rw [hkey] at hmac'
      by_cases hdue : c.next g k j j = t
      · have hm : m = g.n := by
          rcases Nat.eq_or_lt_of_le h.le with hm | hm
          · exact hm
          · obtain ⟨hk, hj0, -⟩ := h.early hm
            have hlt := hearly hm
            rw [hj0, hk, CgConf.next, deadline_of_le le_rfl] at hdue
            omega
        have hlookup : (mac.startSlot (slotAt c.mu t)).dciCgMap.lookup (c.key g t j) =
            some (g.dci j) := by
          rw [show c.key g t j = c.nextKey g k j j by rw [CgConf.nextKey, hdue]]
          exact hstart.table.lookup_self hjm
        rw [hlookup] at hmac'
        obtain ⟨mac₁, h₁, hmac'⟩ := Option.map_eq_some_iff.mp hmac'
        cases hmac'
        have hslot : mac'.currentSlot = slotAt c.mu t := by
          obtain ⟨mac₂, h₂, rfl⟩ := Option.map_eq_some_iff.mp h₁
          have hkept := congrArg Fixed.currentSlot (transmit_id_sent h₂).kept.fixed
          unfold renewGrant
          split
          · exact hkept
          · exact hkept
        refine ⟨⟨k, j + 1, ?_, .use hm hj hdue h₁⟩, hslot, (decide_eq_true hsch).symm⟩
        rw [hm] at hstart ⊢
        exact hstart.useGrant hset rfl hj hsch hdue h₁
      · -- no grant has its occasion in this slot
        have hlookup : (mac.startSlot (slotAt c.mu t)).dciCgMap.lookup (c.key g t j) = none := by
          apply hstart.table.lookup_eq_none
          intro i hi heq
          have hi' := h.next_eq_of_key hset hi hj le_rfl (by omega) heq
          have hij := h.turn.eq_of_deadline hset.rota (hi.trans_le h.le) hi'
          rw [hij] at hi'
          exact hdue hi'
        rw [hlookup] at hmac'
        cases hmac'
        exact ⟨⟨k, j, h.wait hj hdue hearly rfl (fun _ => hsch), .wait hj hdue rfl fun _ _ => rfl⟩,
          rfl, (decide_eq_true hsch).symm⟩
    · rw [if_neg (by omega)] at hmac'
      cases hmac'
      refine ⟨?_, rfl, (decide_eq_true hsch).symm⟩
      rcases Nat.eq_or_lt_of_le h.le with hm | hm
      · -- the slot after the last occasion
        have hj : j = g.n := le_antisymm h.turn.le (hm ▸ hjm)
        refine ⟨k + 1, 0, ?_, .back hm hj rfl rfl⟩
        apply h.next_slot ((hj ▸ h.turn).goBack hset.rota)
        · intro i hi
          rw [CgConf.nextKey, CgConf.next, deadline_back (hi.trans_le h.le), hj]
          rfl
        · exact fun hlt => absurd hlt (by omega)
        · rfl
        · rfl
        · exact fun h0 => absurd h0 (lt_irrefl 0)
      · -- no grant has been stored yet
        obtain ⟨hk, hj, -⟩ := h.early hm
        have hlt := hearly hm
        have hne : c.next g k j j ≠ t := by
          rw [hj, hk, CgConf.next, deadline_of_le le_rfl]
          omega
        refine ⟨k, j, ?_, .wait (by omega) hne rfl fun hpos => absurd hpos (by omega)⟩
        apply h.next_slot (h.turn.wait (by omega) hne)
        · exact fun i _ => rfl
        · exact fun _ => ⟨hk, hj, hlt⟩
        · rfl
        · exact hj.symm
        · intro h0
          omega
  · rename_i hne1 hne2
    have hsch : mac.srStateConfiguredGrant ≠ .SCH_CG_DATA := hne2
    cases hmac'
    exact ⟨hother hsch rfl rfl fun _ => rfl, rfl, (decide_eq_false hsch).symm⟩

end NrUeMac

/-! ## Runs of slots -/

def Event.isSlot : Event → Bool
  | .slotIndication _ _ => true
  | _ => false

/-- The DCIs among the events. -/
def dcis : List Event → List DciInfoElementTdma
  | [] => []
  | .ulDci _ dci _ :: es => dci :: dcis es
  | _ :: es => dcis es

/-- What happens in each slot after its indication: the DCIs of the configuration arrive in their
slots and there are no others; reports arrive at any time. -/
structure Input (g : Grants) (input : Nat → List Event) : Prop where
  isSlot : ∀ t, ∀ e ∈ input t, e.isSlot = false
  received : ∀ i < g.n, dcis (input (g.received i)) = [g.dci i]
  others : ∀ t, (∀ i < g.n, g.received i ≠ t) → dcis (input t) = []

namespace NrUeMac

variable {c : CgConf} {g : Grants} {t m k j : Nat} {mac mac' : NrUeMac}

/-- The slots before `t`. -/
def runSlots (mu : Nat) (rlc : Nat → Rlc) (input : Nat → List Event) (mac : NrUeMac) :
    Nat → Option NrUeMac
  | 0 => some mac
  | t + 1 => do
    let mac ← runSlots mu rlc input mac t
    mac.run (.slotIndication (rlc t) (slotAt mu t) :: input t)

theorem HasGrants.run_none (h : HasGrants c g t m k j mac) {es : List Event}
    (hslot : ∀ e ∈ es, e.isSlot = false) (hdcis : dcis es = []) (hmac' : mac.run es = some mac') :
    HasGrants c g t m k j mac' := by
  induction es generalizing mac with
  | nil =>
    cases hmac'
    exact h
  | cons e es ih =>
    rw [NrUeMac.run, List.foldlM_cons] at hmac'
    obtain ⟨mac₁, h₁, h₂⟩ := Option.bind_eq_some_iff.mp hmac'
    have hrest := fun e he => hslot e (List.mem_cons_of_mem _ he)
    cases e with
    | reportBufferStatus order params =>
      cases h₁
      exact ih (h.doReportBufferStatus order params) hrest hdcis h₂
    | slotIndication rlc sfn => cases hslot _ List.mem_cons_self
    | recvRaResponse rnti =>
      cases h₁
      have hrnti : HasGrants c g t m k j (mac.recvRaResponse rnti) :=
        ⟨h.turn, h.le, h.received, h.early, h.cgScheduling, h.configurationTime, h.cgPeriod,
          h.stored, h.table, h.counterDci, h.counterDci2, h.busy⟩
      exact ih hrnti hrest hdcis h₂
    | ulDci rlc dci kDelay => cases hdcis

theorem currentSlot_doReportBufferStatus (mac : NrUeMac) (order : BsrOrder) (params : Bsr) :
    (mac.doReportBufferStatus order params).currentSlot = mac.currentSlot :=
  congrArg Fixed.currentSlot
    (kept_reported { mac with ulBsrReceived := updateBsr order params mac.ulBsrReceived }).fixed

/-- The slot in which the next grant is received. -/
theorem HasGrants.run_one (h : HasGrants c g (t + 1) m k j mac) (hset : Setting c g)
    (hcurrent : mac.currentSlot = slotAt c.mu t) (hm : m < g.n) (hreceived : g.received m = t)
    {es : List Event} (hslot : ∀ e ∈ es, e.isSlot = false) (hdcis : dcis es = [g.dci m])
    (hmac' : mac.run es = some mac') : HasGrants c g (t + 1) (m + 1) k j mac' := by
  induction es generalizing mac with
  | nil => cases hdcis
  | cons e es ih =>
    rw [NrUeMac.run, List.foldlM_cons] at hmac'
    obtain ⟨mac₁, h₁, h₂⟩ := Option.bind_eq_some_iff.mp hmac'
    have hrest := fun e he => hslot e (List.mem_cons_of_mem _ he)
    cases e with
    | reportBufferStatus order params =>
      cases h₁
      exact ih (h.doReportBufferStatus order params)
        ((currentSlot_doReportBufferStatus mac order params).trans hcurrent) hrest hdcis h₂
    | slotIndication rlc sfn => cases hslot _ List.mem_cons_self
    | recvRaResponse rnti =>
      cases h₁
      have hrnti : HasGrants c g (t + 1) m k j (mac.recvRaResponse rnti) :=
        ⟨h.turn, h.le, h.received, h.early, h.cgScheduling, h.configurationTime, h.cgPeriod,
          h.stored, h.table, h.counterDci, h.counterDci2, h.busy⟩
      exact ih hrnti hcurrent hrest hdcis h₂
    | ulDci rlc dci kDelay =>
      obtain ⟨hdci, hnone⟩ := List.cons_eq_cons.mp hdcis
      rw [hdci] at h₁
      exact (h.processUlDci hset hcurrent hm hreceived h₁).1.run_none hrest hnone h₂

end NrUeMac

end Ns3.Nr.UeMac
