import Ns3.Nr.Sched.HarqVector
import Mathlib.Algebra.Order.BigOperators.Group.List

/-!
# Logical channel groups

The scheduler keeps the queue sizes of the logical channels of a group and, next to them,
their total. Reports of the RLC and of the UE overwrite the queues, and assigned bytes are
taken from them; each operation updates the total by a formula of its own.

The formulas agree unless a report shrinks a queue, which the total does not follow, or the
bytes assigned cover a queue but not its overhead, which empties the total and leaves the
overhead in the queue (`Lcg.Exact`). In a run without such operations the total is the sum of
the queues, so a group counts as active exactly when a channel has data (`lcg_active_iff`).
-/

namespace Ns3.Nr.Sched

/-! ## Embedding -/

/-- Subtraction of `uint32_t`. -/
def sub32 (a b : Nat) : Nat := (a + 2 ^ 32 - b % 2 ^ 32) % 2 ^ 32

/-- The queue sizes of `NrMacSchedulerLC`. -/
structure Lc where
  rlcTransmissionQueueSize : Nat := 0
  rlcRetransmissionQueueSize : Nat := 0
  rlcStatusPduSize : Nat := 0
deriving DecidableEq, Repr

/-- The bytes in all queues. -/
def Lc.bytes (lc : Lc) : Nat :=
  lc.rlcTransmissionQueueSize + lc.rlcRetransmissionQueueSize + lc.rlcStatusPduSize

/-- `NrMacSchedulerLC::GetTotalSize`. -/
def Lc.getTotalSize (lc : Lc) : Nat := lc.bytes % 2 ^ 32

/-- `NrMacSchedulerLCG`; the channels are in the order of the map. -/
structure Lcg where
  lcMap : List (Nat × Lc)
  totalSize : Nat
deriving DecidableEq, Repr

/-- `SchedDlRlcBufferReqParameters`. -/
structure RlcBufferReq where
  logicalChannelIdentity : Nat
  queues : Lc
deriving DecidableEq, Repr

/-- What `NrMacSchedulerLC::Update` adds up. Queues that shrink are not counted, the status PDU
is. -/
def Lc.grown (lc queues : Lc) : Int :=
  (if lc.rlcTransmissionQueueSize < queues.rlcTransmissionQueueSize then
    (queues.rlcTransmissionQueueSize : Int) - lc.rlcTransmissionQueueSize else 0) +
  (if lc.rlcRetransmissionQueueSize < queues.rlcRetransmissionQueueSize then
    (queues.rlcRetransmissionQueueSize : Int) - lc.rlcRetransmissionQueueSize else 0) +
  ((queues.rlcStatusPduSize : Int) - lc.rlcStatusPduSize)

/-- What it returns, an `int`. -/
def Lc.update (lc queues : Lc) : Int := (lc.grown queues).bmod (2 ^ 32)

namespace Lcg

/-- `m_lcMap.at`. -/
def lcAt (l : Lcg) (lcId : Nat) : Result Lc :=
  match l.lcMap.lookup lcId with
  | some lc => .ok lc
  | none => .error .outOfRange

/-- The map with another channel at `lcId`. -/
def put (l : Lcg) (lcId : Nat) (lc : Lc) : List (Nat × Lc) :=
  l.lcMap.map fun el => if el.1 = lcId then (lcId, lc) else el

/-- The bytes in the queues of all channels. -/
def bytes (l : Lcg) : Nat := (l.lcMap.map fun el => el.2.bytes).sum

/-- `UpdateInfo` for a report of the RLC. -/
def updateInfo (l : Lcg) (params : RlcBufferReq) : Result Lcg := do
  let lc ← l.lcAt params.logicalChannelIdentity
  let ret := lc.update params.queues
  if ret < 0 ∧ l.totalSize < ret.natAbs then .error .abort
  else
    return { lcMap := l.put params.logicalChannelIdentity params.queues
             totalSize := ((l.totalSize + ret) % 2 ^ 32).toNat }

/-- `UpdateInfo` for a BSR. -/
def updateInfoBsr (l : Lcg) (lcgQueueSize : Nat) : Result Lcg :=
  if 1 < l.lcMap.length then .error .abort
  else if l.lcMap.length = 0 then .error .outOfRange
  else
    .ok { lcMap := l.lcMap.map fun el => (el.1,
            { el.2 with rlcTransmissionQueueSize := lcgQueueSize / l.lcMap.length })
          totalSize := lcgQueueSize }

/-- `SanityCheck`. -/
def sanityCheck (l : Lcg) : Lcg := if l.bytes % 2 ^ 32 = 0 then { l with totalSize := 0 } else l

/-- The header of the RLC; it is estimated higher for SRB1 in the downlink. -/
def rlcOverhead (lcId : Nat) (dl : Bool) : Nat := if lcId = 1 ∧ dl then 4 else 2

/-- `AssignedData`; `dl` is `type == "DL"`. -/
def assignedData (l : Lcg) (lcId size : Nat) (dl : Bool) : Result Lcg := do
  let lc ← l.lcAt lcId
  let status := lc.rlcStatusPduSize
  let retx := lc.rlcRetransmissionQueueSize
  let tx := lc.rlcTransmissionQueueSize
  let data := sub32 size (rlcOverhead lcId dl + 5 + 3)
  return sanityCheck <|
    if 0 < status ∧ status ≤ size then
      { lcMap := l.put lcId { lc with rlcStatusPduSize := 0 }
        totalSize := sub32 l.totalSize status }
    else if 0 < retx ∧ retx ≤ size then
      { lcMap := l.put lcId { lc with rlcRetransmissionQueueSize := 0 }
        totalSize := if l.totalSize < retx then 0 else l.totalSize - retx }
    else if 0 < tx then
      { lcMap := l.put lcId
          { lc with rlcTransmissionQueueSize := if tx ≤ data then 0 else tx - data }
        totalSize :=
          if l.totalSize < tx then 0
          else if tx ≤ size then l.totalSize - tx
          else l.totalSize - min tx data }
    else l

/-- `GetTotalSizeOfLC`, for some channel of the group. -/
def hasData (l : Lcg) : Prop := ∃ el ∈ l.lcMap, 0 < el.2.getTotalSize

end Lcg

/-- The calls that change a group. -/
inductive LcgCall
  | report (params : RlcBufferReq)
  | bsr (lcgQueueSize : Nat)
  | assigned (lcId size : Nat) (dl : Bool)
deriving DecidableEq, Repr

def Lcg.call (l : Lcg) : LcgCall → Result Lcg
  | .report params => l.updateInfo params
  | .bsr lcgQueueSize => l.updateInfoBsr lcgQueueSize
  | .assigned lcId size dl => l.assignedData lcId size dl

def Lcg.run (l : Lcg) (calls : List LcgCall) : Result Lcg := calls.foldlM Lcg.call l

/-! ## The total is the sum of the queues -/

/-- Each channel is in the group once, and the total is the sum of the queues. -/
structure Lcg.Balanced (l : Lcg) : Prop where
  keys : (l.lcMap.map Prod.fst).Nodup
  total : l.totalSize = l.bytes
  small : l.bytes < 2 ^ 32

/-- The calls after which the total is right: a report does not shrink a queue of data and changes
the bytes by what an `int` holds, a BSR is for the only channel of the group, without other data,
and the bytes for new data leave the queue or cover the overhead as well. The channels are in the
group and the sizes in the range of the total. -/
def Lcg.Exact (l : Lcg) : LcgCall → Prop
  | .report params => ∃ lc, l.lcMap.lookup params.logicalChannelIdentity = some lc ∧
      lc.rlcTransmissionQueueSize ≤ params.queues.rlcTransmissionQueueSize ∧
      lc.rlcRetransmissionQueueSize ≤ params.queues.rlcRetransmissionQueueSize ∧
      params.queues.bytes < lc.bytes + 2 ^ 31 ∧ lc.bytes ≤ params.queues.bytes + 2 ^ 31 ∧
      l.bytes + params.queues.bytes < 2 ^ 32 + lc.bytes
  | .bsr lcgQueueSize => lcgQueueSize < 2 ^ 32 ∧ l.lcMap.length = 1 ∧ ∀ el ∈ l.lcMap,
      el.2.rlcRetransmissionQueueSize = 0 ∧ el.2.rlcStatusPduSize = 0
  | .assigned lcId size dl => size < 2 ^ 32 ∧ ∃ lc, l.lcMap.lookup lcId = some lc ∧
      (¬ (0 < lc.rlcStatusPduSize ∧ lc.rlcStatusPduSize ≤ size) →
        ¬ (0 < lc.rlcRetransmissionQueueSize ∧ lc.rlcRetransmissionQueueSize ≤ size) →
        size < lc.rlcTransmissionQueueSize ∨ size < Lcg.rlcOverhead lcId dl + 8 ∨
          lc.rlcTransmissionQueueSize + (Lcg.rlcOverhead lcId dl + 8) ≤ size)

section Balanced

variable {l l' : Lcg} {lcId : Nat} {lc lc' : Lc}

theorem bytes_put {m : List (Nat × Lc)} (hkeys : (m.map Prod.fst).Nodup)
    (hlookup : m.lookup lcId = some lc) :
    ((m.map fun el => if el.1 = lcId then (lcId, lc') else el).map fun el => el.2.bytes).sum +
      lc.bytes = (m.map fun el => el.2.bytes).sum + lc'.bytes := by
  induction m with
  | nil => cases hlookup
  | cons el m ih =>
    rw [List.map_cons, List.nodup_cons] at hkeys
    rw [List.lookup_cons] at hlookup
    by_cases hid : el.1 = lcId
    · -- the other channels have another identity
      have hrest : (m.map fun el => if el.1 = lcId then (lcId, lc') else el) = m := by
        conv_rhs => rw [← List.map_id m]
        apply List.map_congr_left
        intro other hother
        apply if_neg
        rintro hother'
        exact hkeys.1 (hid ▸ hother' ▸ List.mem_map_of_mem hother)
      rw [show (lcId == el.1) = true from beq_iff_eq.mpr hid.symm] at hlookup
      obtain rfl := Option.some.inj hlookup
      rw [List.map_cons, if_pos hid, hrest]
      simp only [List.map_cons, List.sum_cons]
      omega
    · rw [show (lcId == el.1) = false from beq_eq_false_iff_ne.mpr (Ne.symm hid)] at hlookup
      have := ih hkeys.2 hlookup
      rw [List.map_cons, if_neg hid]
      simp only [List.map_cons, List.sum_cons]
      omega

theorem keys_put (lc' : Lc) (m : List (Nat × Lc)) :
    (m.map fun el => if el.1 = lcId then (lcId, lc') else el).map Prod.fst = m.map Prod.fst := by
  rw [List.map_map]
  apply List.map_congr_left
  intro el _
  change (if el.1 = lcId then (lcId, lc') else el).1 = el.1
  split
  · rename_i h
    exact h.symm
  · rfl

/-- A channel is changed, and the total follows. -/
theorem Lcg.Balanced.put (h : l.Balanced) (hlookup : l.lcMap.lookup lcId = some lc) {tot : Nat}
    (htot : tot + lc.bytes = l.bytes + lc'.bytes) (hsmall : tot < 2 ^ 32) :
    Lcg.Balanced { lcMap := l.put lcId lc', totalSize := tot } := by
  have hsum : Lcg.bytes { lcMap := l.put lcId lc', totalSize := tot } + lc.bytes =
      l.bytes + lc'.bytes := bytes_put h.keys hlookup
  refine ⟨?_, ?_, ?_⟩
  · exact (keys_put lc' l.lcMap).symm ▸ h.keys
  · change tot = _
    omega
  · omega

theorem bytes_le_of_lookup (h : l.lcMap.lookup lcId = some lc) : lc.bytes ≤ l.bytes := by
  obtain ⟨before, after, heq, -⟩ := List.lookup_eq_some_iff.mp h
  rw [Lcg.bytes, heq, List.map_append, List.map_cons, List.sum_append, List.sum_cons]
  dsimp only
  omega

theorem lcAt_eq_ok (h : l.lcMap.lookup lcId = some lc) : l.lcAt lcId = .ok lc := by
  unfold Lcg.lcAt
  rw [h]

/-- A report that shrinks no queue of data counts the bytes that come and go. -/
theorem Lc.update_eq {queues : Lc}
    (htx : lc.rlcTransmissionQueueSize ≤ queues.rlcTransmissionQueueSize)
    (hretx : lc.rlcRetransmissionQueueSize ≤ queues.rlcRetransmissionQueueSize)
    (hgrow : queues.bytes < lc.bytes + 2 ^ 31) (hshrink : lc.bytes ≤ queues.bytes + 2 ^ 31) :
    lc.update queues = (queues.bytes : Int) - lc.bytes := by
  have hgrown : lc.grown queues = (queues.bytes : Int) - lc.bytes := by
    unfold Lc.grown Lc.bytes
    split <;> split <;> push_cast <;> omega
  rw [Lc.update, hgrown]
  apply Int.bmod_eq_of_le_mul_two <;> omega

theorem Lcg.Balanced.updateInfo (h : l.Balanced) {params : RlcBufferReq}
    (hexact : l.Exact (.report params)) : ∃ l', l.updateInfo params = .ok l' ∧ l'.Balanced := by
  obtain ⟨lc, hlookup, htx, hretx, hgrow, hshrink, hsmall⟩ := hexact
  have hle := bytes_le_of_lookup hlookup
  have htotal := h.total
  have hupdate := Lc.update_eq htx hretx hgrow hshrink
  have hassert : ¬(lc.update params.queues < 0 ∧
      l.totalSize < (lc.update params.queues).natAbs) := by
    rw [hupdate]
    omega
  have hnat : ((l.totalSize + lc.update params.queues) % 2 ^ 32).toNat =
      l.bytes + params.queues.bytes - lc.bytes := by
    rw [hupdate, htotal]
    omega
  refine ⟨{ lcMap := l.put params.logicalChannelIdentity params.queues
            totalSize := ((l.totalSize + lc.update params.queues) % 2 ^ 32).toNat }, ?_, ?_⟩
  · rw [Lcg.updateInfo, lcAt_eq_ok hlookup]
    exact if_neg hassert
  · apply h.put hlookup
    · rw [hnat]
      omega
    · rw [hnat]
      omega

theorem Lcg.Balanced.updateInfoBsr (h : l.Balanced) {lcgQueueSize : Nat}
    (hexact : l.Exact (.bsr lcgQueueSize)) :
    ∃ l', l.updateInfoBsr lcgQueueSize = .ok l' ∧ l'.Balanced := by
  obtain ⟨hsize, hone, hother⟩ := hexact
  obtain ⟨el, hel⟩ := List.length_eq_one_iff.mp hone
  have hbytes := hother el (hel ▸ List.mem_singleton_self el)
  refine ⟨⟨l.lcMap.map fun el => (el.1,
      { el.2 with rlcTransmissionQueueSize := lcgQueueSize / l.lcMap.length }), lcgQueueSize⟩,
    ?_, ?_⟩
  · unfold Lcg.updateInfoBsr
    rw [if_neg (by omega), if_neg (by omega)]
  · have hsum : Lcg.bytes ⟨l.lcMap.map fun el => (el.1,
        { el.2 with rlcTransmissionQueueSize := lcgQueueSize / l.lcMap.length }),
        lcgQueueSize⟩ = lcgQueueSize := by
      simp only [Lcg.bytes, hel, List.map_cons, List.map_nil, List.sum_cons, List.sum_nil,
        List.length_cons, List.length_nil, Lc.bytes, hbytes.1, hbytes.2, Nat.zero_add,
        Nat.div_one, Nat.add_zero]
    refine ⟨?_, hsum.symm, hsum.symm ▸ hsize⟩
    rw [List.map_map]
    exact h.keys

theorem Lcg.Balanced.sanityCheck (h : l.Balanced) : l.sanityCheck.Balanced := by
  unfold Lcg.sanityCheck
  split
  · rename_i hzero
    have hsmall := h.small
    rw [Nat.mod_eq_of_lt hsmall] at hzero
    exact ⟨h.keys, hzero.symm, hsmall⟩
  · exact h

theorem sub32_eq {a b : Nat} (ha : a < 2 ^ 32) (hb : b ≤ a) : sub32 a b = a - b := by
  unfold sub32
  omega

theorem Lcg.Balanced.assignedData (h : l.Balanced) {size : Nat} {dl : Bool}
    (hexact : l.Exact (.assigned lcId size dl)) :
    ∃ l', l.assignedData lcId size dl = .ok l' ∧ l'.Balanced := by
  obtain ⟨hsize, lc, hlookup, hnew⟩ := hexact
  rw [Lcg.assignedData, lcAt_eq_ok hlookup]
  refine ⟨_, rfl, ?_⟩
  have hle := bytes_le_of_lookup hlookup
  have htotal := h.total
  have hsmall := h.small
  apply Lcg.Balanced.sanityCheck
  unfold Lc.bytes at hle
  split
  · -- the status PDU
    refine h.put hlookup ?_ ?_
    · rw [sub32_eq (by omega) (by omega)]
      simp only [Lc.bytes]
      omega
    · rw [sub32_eq (by omega) (by omega)]
      omega
  · rename_i hstatus
    split
    · -- the retransmissions
      rw [if_neg (by omega)]
      refine h.put hlookup ?_ (by omega)
      simp only [Lc.bytes]
      omega
    · rename_i hretx
      split
      · -- new data
        have hcases := hnew hstatus hretx
        have hover : Lcg.rlcOverhead lcId dl ≤ 4 := by
          unfold Lcg.rlcOverhead
          split <;> omega
        have hdata : sub32 size (Lcg.rlcOverhead lcId dl + 5 + 3) =
            if size < Lcg.rlcOverhead lcId dl + 8 then
              size + 2 ^ 32 - (Lcg.rlcOverhead lcId dl + 8)
            else size - (Lcg.rlcOverhead lcId dl + 8) := by
          unfold sub32
          split <;> omega
        have henough : ¬ l.totalSize < lc.rlcTransmissionQueueSize := by omega
        generalize sub32 size (Lcg.rlcOverhead lcId dl + 5 + 3) = data at hdata ⊢
        have hqueue : (if lc.rlcTransmissionQueueSize ≤ data then 0
            else lc.rlcTransmissionQueueSize - data) = lc.rlcTransmissionQueueSize - data := by
          split <;> omega
        rw [if_neg henough, hqueue]
        refine h.put hlookup ?_ ?_
        · simp only [Lc.bytes]
          split at hdata <;> split <;> omega
        · split <;> omega
      · exact h

theorem Lcg.Balanced.call (h : l.Balanced) {call : LcgCall} (hexact : l.Exact call) :
    ∃ l', l.call call = .ok l' ∧ l'.Balanced := by
  cases call with
  | report params => exact h.updateInfo hexact
  | bsr lcgQueueSize => exact h.updateInfoBsr hexact
  | assigned lcId size dl => exact h.assignedData hexact

/-- Every call of the run is exact in the state it is made in. -/
def Lcg.ExactRun (l : Lcg) : List LcgCall → Prop
  | [] => True
  | call :: calls => l.Exact call ∧ ∀ l', l.call call = .ok l' → l'.ExactRun calls

theorem Lcg.Balanced.run (h : l.Balanced) {calls : List LcgCall} (hexact : l.ExactRun calls) :
    ∃ l', l.run calls = .ok l' ∧ l'.Balanced := by
  induction calls generalizing l with
  | nil => exact ⟨l, rfl, h⟩
  | cons call calls ih =>
    obtain ⟨l₁, hcall, h₁⟩ := h.call hexact.1
    obtain ⟨l₂, hrun, h₂⟩ := ih h₁ (hexact.2 l₁ hcall)
    refine ⟨l₂, ?_, h₂⟩
    rw [Lcg.run, List.foldlM_cons, hcall]
    exact hrun

theorem Lcg.bytes_eq_zero_iff : l.bytes = 0 ↔ ∀ el ∈ l.lcMap, el.2.bytes = 0 := by
  rw [Lcg.bytes, List.sum_eq_zero_iff]
  constructor
  · intro h el hel
    exact h _ (List.mem_map_of_mem hel)
  · intro h x hx
    obtain ⟨el, hel, rfl⟩ := List.mem_map.mp hx
    exact h el hel

theorem Lcg.Balanced.hasData_iff (h : l.Balanced) : l.hasData ↔ 0 < l.totalSize := by
  have hsize : ∀ el ∈ l.lcMap, el.2.getTotalSize = el.2.bytes := by
    intro el hel
    have hle : el.2.bytes ≤ l.bytes :=
      List.single_le_sum (fun _ _ => Nat.zero_le _) _ (List.mem_map_of_mem hel)
    exact Nat.mod_eq_of_lt (hle.trans_lt h.small)
  rw [h.total, Nat.pos_iff_ne_zero, ne_eq, Lcg.bytes_eq_zero_iff, Lcg.hasData]
  constructor
  · rintro ⟨el, hel, hpos⟩ hzero
    rw [hsize el hel, hzero el hel] at hpos
    exact lt_irrefl 0 hpos
  · intro hsome
    by_contra hnone
    apply hsome
    intro el hel
    by_contra hne
    exact hnone ⟨el, hel, hsize el hel ▸ Nat.pos_of_ne_zero hne⟩

/-- A group with empty queues. -/
structure Lcg.Empty (l : Lcg) : Prop where
  keys : (l.lcMap.map Prod.fst).Nodup
  total : l.totalSize = 0
  queues : ∀ el ∈ l.lcMap, el.2 = {}

theorem Lcg.Empty.balanced (h : l.Empty) : l.Balanced := by
  have hzero : l.bytes = 0 := by
    rw [Lcg.bytes_eq_zero_iff]
    intro el hel
    rw [h.queues el hel]
    rfl
  exact ⟨h.keys, h.total.trans hzero.symm, by omega⟩

end Balanced

/-- No exact call aborts, and in a run of them a group counts as active exactly when a channel has
data. -/
theorem lcg_active_iff {l : Lcg} {calls : List LcgCall} (h : l.Empty) (hexact : l.ExactRun calls) :
    ∃ l', l.run calls = .ok l' ∧ (0 < l'.totalSize ↔ l'.hasData) := by
  obtain ⟨l', hrun, hl'⟩ := h.balanced.run hexact
  exact ⟨l', hrun, hl'.hasData_iff.symm⟩

/-- A group with one channel. -/
def Lcg.one : Lcg := ⟨[(3, {})], 0⟩

theorem Lcg.empty_one : Lcg.one.Empty := by
  refine ⟨by simp [Lcg.one], rfl, ?_⟩
  intro el hel
  rw [List.mem_singleton.mp hel]

/-- The bytes cover the queue and the overhead. -/
theorem lcg_active_iff_one :
    ∃ l', Lcg.one.run [.report ⟨3, ⟨100, 0, 0⟩⟩, .assigned 3 60 true, .assigned 3 60 true] =
        .ok l' ∧
      (0 < l'.totalSize ↔ l'.hasData) := by
  apply lcg_active_iff Lcg.empty_one
  refine ⟨⟨_, rfl, by decide⟩, ?_⟩
  intro l₁ h₁
  cases h₁
  refine ⟨⟨by decide, _, rfl, by decide⟩, ?_⟩
  intro l₂ h₂
  cases h₂
  exact ⟨⟨by decide, _, rfl, by decide⟩, fun _ _ => trivial⟩

/-- Assigned bytes that cover the queue but not the overhead empty the total only, and a report
that empties the queue leaves the total. -/
theorem lcg_total_lost :
    (∃ l', Lcg.one.run [.report ⟨3, ⟨100, 0, 0⟩⟩, .assigned 3 105 true] = .ok l' ∧
      l'.totalSize = 0 ∧ l'.hasData) ∧
    ∃ l', Lcg.one.run [.report ⟨3, ⟨100, 0, 0⟩⟩, .report ⟨3, ⟨0, 0, 0⟩⟩] = .ok l' ∧
      0 < l'.totalSize ∧ ¬ l'.hasData := by
  refine ⟨⟨_, rfl, rfl, (3, ⟨5, 0, 0⟩), List.mem_singleton_self _, by decide⟩,
    ⟨_, rfl, by decide, ?_⟩⟩
  rintro ⟨el, hel, hpos⟩
  rw [List.mem_singleton.mp hel] at hpos
  exact absurd hpos (by decide)

/-- A first report of 3000000000 bytes is a negative number of bytes to add. -/
example : Lcg.one.run [.report ⟨3, ⟨3000000000, 0, 0⟩⟩] = .error .abort := by decide

end Ns3.Nr.Sched
