import Ns3.Nr.Sched.Lcg

/-!
# What `AssignedData` writes off

For new data, the bytes written off are the assigned ones without the headers of the RLC, of the
SHORT_BSR and of the subPDU. The difference is taken of unsigned numbers: with less bytes than
headers it wraps around, and the whole queue is written off.
-/

namespace Ns3.Nr.Sched

/-- `size - rlcOverhead - 5 - 3`, or with the last two the other way: minuends and subtrahends. -/
def headerSubtractions (size overhead first second : Nat) : List (Nat × Nat) :=
  [(size, overhead), (sub32 size overhead, first), (sub32 (sub32 size overhead) first, second)]

/-- The subtractions of `uint32_t` in `AssignedData` for the channel `lc`. -/
def Lcg.subtractions (l : Lcg) (lc : Lc) (lcId size : Nat) (dl : Bool) : List (Nat × Nat) :=
  let status := lc.rlcStatusPduSize
  let retx := lc.rlcRetransmissionQueueSize
  let tx := lc.rlcTransmissionQueueSize
  let overhead := rlcOverhead lcId dl
  let data := sub32 (sub32 (sub32 size overhead) 5) 3
  if 0 < status ∧ status ≤ size then [(l.totalSize, status)]
  else if 0 < retx ∧ retx ≤ size then
    if l.totalSize < retx then [] else [(l.totalSize, retx)]
  else if 0 < tx then
    (if l.totalSize < tx then []
      else if tx ≤ size then [(l.totalSize, tx)]
      else headerSubtractions size overhead 5 3 ++ [(l.totalSize, min tx data)]) ++
    headerSubtractions size overhead 3 5 ++
    if tx ≤ data then [] else headerSubtractions size overhead 5 3 ++ [(tx, data)]
  else []

/-- The total and the queues of the channel have decreased by at most `size`. -/
structure Lcg.WritesOff (l l' : Lcg) (lc : Lc) (lcId size : Nat) : Prop where
  total : l.totalSize ≤ l'.totalSize + size
  queues : ∃ lc', l'.lcMap.lookup lcId = some lc' ∧
    lc.rlcTransmissionQueueSize ≤ lc'.rlcTransmissionQueueSize + size ∧
    lc.rlcRetransmissionQueueSize ≤ lc'.rlcRetransmissionQueueSize + size ∧
    lc.rlcStatusPduSize ≤ lc'.rlcStatusPduSize + size

/-- The bytes are for new data: there is some, and neither a status PDU nor the retransmissions are
covered. -/
def Lc.NewData (lc : Lc) (size : Nat) : Prop :=
  ¬ (0 < lc.rlcStatusPduSize ∧ lc.rlcStatusPduSize ≤ size) ∧
  ¬ (0 < lc.rlcRetransmissionQueueSize ∧ lc.rlcRetransmissionQueueSize ≤ size) ∧
  0 < lc.rlcTransmissionQueueSize

section

variable {l : Lcg} {lc lc' : Lc} {lcId size : Nat} {dl : Bool}

theorem lookup_put {m : List (Nat × Lc)} (h : m.lookup lcId = some lc) (lc' : Lc) :
    (m.map fun el => if el.1 = lcId then (lcId, lc') else el).lookup lcId = some lc' := by
  induction m with
  | nil => cases h
  | cons el m ih =>
    rw [List.lookup_cons] at h
    rw [List.map_cons]
    by_cases hid : el.1 = lcId
    · rw [if_pos hid, List.lookup_cons, beq_self_eq_true]
    · have hne : (lcId == el.1) = false := beq_eq_false_iff_ne.mpr (Ne.symm hid)
      rw [hne] at h
      rw [if_neg hid, List.lookup_cons, hne]
      exact ih h

theorem lcAt_of_lookup (h : l.lcMap.lookup lcId = some lc) : l.lcAt lcId = .ok lc := by
  unfold Lcg.lcAt
  rw [h]

theorem rlcOverhead_le (lcId : Nat) (dl : Bool) :
    2 ≤ Lcg.rlcOverhead lcId dl ∧ Lcg.rlcOverhead lcId dl ≤ 4 := by
  unfold Lcg.rlcOverhead
  split
  · exact ⟨by decide, by decide⟩
  · exact ⟨by decide, by decide⟩

/-- A channel that loses at most `size` bytes. `SanityCheck` empties the total only when no queue
has bytes. -/
theorem Lcg.Balanced.writesOff (h : l.Balanced) (hlookup : l.lcMap.lookup lcId = some lc)
    {tot : Nat} (htotal : l.totalSize ≤ tot + size) (hle : lc'.bytes ≤ lc.bytes)
    (hbytes : lc.bytes ≤ lc'.bytes + size)
    (htx : lc.rlcTransmissionQueueSize ≤ lc'.rlcTransmissionQueueSize + size)
    (hretx : lc.rlcRetransmissionQueueSize ≤ lc'.rlcRetransmissionQueueSize + size)
    (hstatus : lc.rlcStatusPduSize ≤ lc'.rlcStatusPduSize + size) :
    l.WritesOff (Lcg.sanityCheck ⟨l.put lcId lc', tot⟩) lc lcId size := by
  have hsum : Lcg.bytes ⟨l.put lcId lc', tot⟩ + lc.bytes = l.bytes + lc'.bytes :=
    bytes_put h.keys hlookup
  have hmap : (l.put lcId lc').lookup lcId = some lc' := lookup_put hlookup lc'
  have hsmall := h.small
  have hold := h.total
  unfold Lcg.sanityCheck
  split
  · next hzero =>
    rw [Nat.mod_eq_of_lt (by omega)] at hzero
    refine ⟨?_, lc', hmap, htx, hretx, hstatus⟩
    dsimp only
    omega
  · exact ⟨htotal, lc', hmap, htx, hretx, hstatus⟩

theorem sub32_headers (hsize : size < 2 ^ 32) {overhead first second : Nat} (ho : overhead ≤ 4)
    (hf : first ≤ 5) (hs : second ≤ 5) :
    (∀ p ∈ headerSubtractions size overhead first second, p.2 ≤ p.1) ↔
      overhead + first + second ≤ size := by
  unfold headerSubtractions
  simp only [List.forall_mem_cons, List.not_mem_nil, false_implies, implies_true, and_true]
  constructor
  · rintro ⟨h1, h2, h3⟩
    rw [sub32_eq hsize h1] at h2 h3
    rw [sub32_eq (by omega) h2] at h3
    omega
  · intro h
    rw [sub32_eq hsize (by omega), sub32_eq (by omega) (by omega)]
    omega

theorem Lcg.Balanced.sanityCheck_eq (h : l.Balanced) : l.sanityCheck = l := by
  unfold Lcg.sanityCheck
  split
  · next hzero =>
    rw [Nat.mod_eq_of_lt h.small, ← h.total] at hzero
    rw [← hzero]
  · rfl

/-- What `AssignedData` writes off, when bytes for new data cover the headers. -/
theorem Lcg.Balanced.assignedData_writesOff (h : l.Balanced)
    (hlookup : l.lcMap.lookup lcId = some lc) (hsize : size < 2 ^ 32)
    (hcond : lc.NewData size → Lcg.rlcOverhead lcId dl + 8 ≤ size) :
    ∃ l', l.assignedData lcId size dl = .ok l' ∧ l.WritesOff l' lc lcId size := by
  have hle := bytes_le_of_lookup hlookup
  have htotal := h.total
  have hsmall := h.small
  unfold Lc.bytes at hle
  unfold Lcg.assignedData
  rw [lcAt_of_lookup hlookup]
  refine ⟨_, rfl, ?_⟩
  split
  · -- the status PDU
    rw [sub32_eq (by omega) (by omega)]
    refine h.writesOff hlookup (by omega) ?_ ?_ ?_ ?_ ?_
    all_goals
      simp only [Lc.bytes]
      omega
  · next hstatus =>
    split
    · -- the retransmissions
      rw [if_neg (by omega)]
      refine h.writesOff hlookup (by omega) ?_ ?_ ?_ ?_ ?_
      all_goals
        simp only [Lc.bytes]
        omega
    · next hretx =>
      split
      · -- new data
        next htx =>
        have hroom := hcond ⟨hstatus, hretx, htx⟩
        have henough : ¬ l.totalSize < lc.rlcTransmissionQueueSize := by omega
        rw [sub32_eq hsize (by omega), if_neg henough]
        have hqueue : lc.rlcTransmissionQueueSize ≤ (if lc.rlcTransmissionQueueSize ≤ size -
            (Lcg.rlcOverhead lcId dl + 5 + 3) then 0 else lc.rlcTransmissionQueueSize -
              (size - (Lcg.rlcOverhead lcId dl + 5 + 3))) + size := by
          split <;> omega
        have hqueue' : (if lc.rlcTransmissionQueueSize ≤ size - (Lcg.rlcOverhead lcId dl + 5 + 3)
            then 0 else lc.rlcTransmissionQueueSize - (size - (Lcg.rlcOverhead lcId dl + 5 + 3))) ≤
              lc.rlcTransmissionQueueSize := by
          split <;> omega
        refine h.writesOff hlookup (by split <;> omega) ?_ ?_ hqueue ?_ ?_
        all_goals
          simp only [Lc.bytes]
          omega
      · rw [h.sanityCheck_eq]
        exact ⟨by omega, lc, hlookup, by omega, by omega, by omega⟩

/-- Without a wrap, the subtractions of the first two branches are in the total. -/
theorem Lcg.Balanced.subtractions_le (h : l.Balanced) (hlookup : l.lcMap.lookup lcId = some lc)
    (hsize : size < 2 ^ 32) (hcond : lc.NewData size → Lcg.rlcOverhead lcId dl + 8 ≤ size) :
    ∀ p ∈ l.subtractions lc lcId size dl, p.2 ≤ p.1 := by
  have hle := bytes_le_of_lookup hlookup
  have htotal := h.total
  have hover := rlcOverhead_le lcId dl
  unfold Lc.bytes at hle
  unfold Lcg.subtractions
  dsimp only
  split
  · simp only [List.forall_mem_singleton]
    omega
  · next hstatus =>
    split
    · rw [if_neg (by omega), List.forall_mem_singleton]
      omega
    · next hretx =>
      split
      · next htx =>
        have hroom := hcond ⟨hstatus, hretx, htx⟩
        have h53 : ∀ p ∈ headerSubtractions size (Lcg.rlcOverhead lcId dl) 5 3, p.2 ≤ p.1 :=
          (sub32_headers hsize hover.2 (by decide) (by decide)).mpr (by omega)
        have h35 : ∀ p ∈ headerSubtractions size (Lcg.rlcOverhead lcId dl) 3 5, p.2 ≤ p.1 :=
          (sub32_headers hsize hover.2 (by decide) (by decide)).mpr (by omega)
        have henough : ¬ l.totalSize < lc.rlcTransmissionQueueSize := by omega
        rw [if_neg henough, List.forall_mem_append, List.forall_mem_append]
        refine ⟨⟨?_, h35⟩, ?_⟩
        · split
          · rw [List.forall_mem_singleton]
            omega
          · rw [List.forall_mem_append, List.forall_mem_singleton]
            exact ⟨h53, by omega⟩
        · split
          · exact fun p hp => absurd hp List.not_mem_nil
          · rw [List.forall_mem_append, List.forall_mem_singleton]
            exact ⟨h53, by omega⟩
      · exact fun p hp => absurd hp List.not_mem_nil

end

/-- `AssignedData` writes off at most what was assigned, with no wrap, exactly when bytes for new
data cover the headers. -/
theorem assignedData_writesOff_iff {l : Lcg} (h : l.Balanced) {lcId : Nat} {lc : Lc}
    (hlookup : l.lcMap.lookup lcId = some lc) {size : Nat} (hsize : size < 2 ^ 32) (dl : Bool) :
    ((∃ l', l.assignedData lcId size dl = .ok l' ∧ l.WritesOff l' lc lcId size) ∧
      ∀ p ∈ l.subtractions lc lcId size dl, p.2 ≤ p.1) ↔
    (lc.NewData size → Lcg.rlcOverhead lcId dl + 8 ≤ size) := by
  constructor
  · rintro ⟨-, hsub⟩ ⟨hstatus, hretx, htx⟩
    have hover := rlcOverhead_le lcId dl
    unfold Lcg.subtractions at hsub
    dsimp only at hsub
    rw [if_neg hstatus, if_neg hretx, if_pos htx, List.forall_mem_append,
      List.forall_mem_append] at hsub
    have := (sub32_headers hsize hover.2 (by decide) (by decide)).mp hsub.1.2
    omega
  · intro hcond
    exact ⟨h.assignedData_writesOff hlookup hsize hcond, h.subtractions_le hlookup hsize hcond⟩

/-- A group with 100 bytes to transmit. -/
def Lcg.hundred : Lcg := ⟨[(3, ⟨100, 0, 0⟩)], 100⟩

theorem Lcg.balanced_hundred : Lcg.hundred.Balanced := ⟨by decide, rfl, by decide⟩

theorem assignedData_writesOff_sixty :
    (∃ l', Lcg.hundred.assignedData 3 60 true = .ok l' ∧
      Lcg.hundred.WritesOff l' ⟨100, 0, 0⟩ 3 60) ∧
    ∀ p ∈ Lcg.hundred.subtractions ⟨100, 0, 0⟩ 3 60 true, p.2 ≤ p.1 :=
  (assignedData_writesOff_iff Lcg.balanced_hundred rfl (by decide) true).mpr fun _ => by decide

/-- Four bytes write off a queue of 100, and the subtraction of the headers wraps around. -/
theorem assignedData_wraps :
    (∃ l', Lcg.hundred.assignedData 3 4 true = .ok l' ∧ l'.totalSize = 0 ∧
      l'.lcMap.lookup 3 = some ⟨0, 0, 0⟩ ∧ ¬ Lcg.hundred.WritesOff l' ⟨100, 0, 0⟩ 3 4) ∧
    ¬ ∀ p ∈ Lcg.hundred.subtractions ⟨100, 0, 0⟩ 3 4 true, p.2 ≤ p.1 := by
  refine ⟨⟨_, rfl, rfl, rfl, ?_⟩, by decide⟩
  intro hoff
  exact absurd hoff.total (by decide)

end Ns3.Nr.Sched
