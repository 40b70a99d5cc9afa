import Ns3.Lte.Segmentation

/-!
# The size of a data field

The loop that fills a data field counts two octets for a length indicator after an odd number of
segments and one after an even number. That is what the packed list takes, so a data field that was
filled for some room leaves room for its list. What is in the data field was at the front of the
buffer, whatever the tags are.
-/

namespace Ns3.Lte

/-- The octets of `n` length indicators, from the one of the segment `id` on. -/
def listSize (id n : Nat) : Nat := n + (n + id % 2) / 2

theorem listSize_succ (id n : Nat) :
    listSize id (n + 1) = (if id % 2 = 1 then 2 else 1) + listSize (id + 1) n := by
  unfold listSize
  split <;> omega

theorem Announces.le {es lis : List Nat} (h : Announces es lis) : ∀ li ∈ lis, li ≤ 2047 := by
  induction h with
  | last => simp
  | more hli h ih =>
    intro li hmem
    rcases List.mem_cons.mp hmem with rfl | hmem
    · omega
    · exact ih li hmem

/-- The list behind the first extension bit takes what the loop has counted. -/
theorem length_writeLis_tail {es lis : List Nat} (h : Announces es lis) :
    (writeLis es.tail lis).length = listSize 1 lis.length := by
  unfold listSize
  cases h with
  | last => rfl
  | @more li es lis hli h =>
    rw [List.tail_cons, length_writeLis h li, List.length_cons]

/-- The bytes of the buffer, from the one that is sent next. -/
def queuedBytes (pdus : List TxPdu) : List UInt8 := (pdus.map TxPdu.pdu).flatten

@[simp] theorem queuedBytes_cons (e : TxPdu) (pdus : List TxPdu) :
    queuedBytes (e :: pdus) = e.pdu ++ queuedBytes pdus := rfl

@[simp] theorem queuedBytes_nil : queuedBytes [] = [] := rfl

/-- Each entry has at least one byte, and the size of the buffer is the sum of theirs. -/
structure TxBuffer.Sound (b : TxBuffer) : Prop where
  pdu_ne_nil : ∀ e ∈ b.pdus, e.pdu ≠ []
  size_eq : b.size = (b.pdus.map fun e => e.pdu.length).sum

/-- A data field that was filled from `queued`, of which `buffer` is left. -/
structure FillsRoom (queued : List TxPdu) (room id : Nat) (d : DataField) (buffer : TxBuffer) :
    Prop where
  ne_nil : d.segments ≠ []
  announces : Announces d.extensionBits d.lengthIndicators
  length_le : listSize id d.lengthIndicators.length + d.packet.length ≤ room
  conserves : d.packet ++ queuedBytes buffer.pdus = queuedBytes queued
  sound : buffer.Sound

section Fill

variable {first next : TxPdu} {pdus : List TxPdu} {size room id n : Nat} {d : DataField}
  {buffer : TxBuffer}

/-- The first segment is taken whole, whatever tag it goes with. -/
theorem FillsRoom.whole {status : SduStatus} (hsound : TxBuffer.Sound ⟨pdus, size⟩)
    (hfit : first.pdu.length ≤ room) :
    FillsRoom (first :: pdus) room id ⟨[⟨first.pdu, status⟩], [0], []⟩ ⟨pdus, size⟩ := by
  refine ⟨by simp, .last, ?_, ?_, hsound⟩
  · have hnone : listSize id 0 = 0 := by
      unfold listSize
      omega
    simp [DataField.packet, hnone, hfit]
  · simp [DataField.packet]

theorem FillsRoom.part {status status' : SduStatus} (hsound : TxBuffer.Sound ⟨pdus, size⟩)
    (hn : n ≤ room) (hrest : first.pdu.drop n ≠ []) :
    FillsRoom (first :: pdus) room id ⟨[⟨first.pdu.take n, status⟩], [0], []⟩
      ⟨⟨first.pdu.drop n, status'⟩ :: pdus, size + (first.pdu.drop n).length⟩ := by
  refine ⟨by simp, .last, ?_, ?_, ?_, ?_⟩
  · have hnone : listSize id 0 = 0 := by
      unfold listSize
      omega
    simp only [List.length_nil, hnone, DataField.packet, List.map_cons, List.map_nil,
      List.flatten_cons, List.flatten_nil, List.append_nil, List.length_take]
    omega
  · simp [DataField.packet, ← List.append_assoc]
  · intro e he
    rcases List.mem_cons.mp he with rfl | he
    · exact hrest
    · exact hsound.pdu_ne_nil e he
  · have hsize := hsound.size_eq
    simp only [List.map_cons, List.sum_cons] at hsize ⊢
    omega

/-- A segment in front of a data field that was filled for the room behind it. -/
theorem FillsRoom.cons {room' : Nat} (hli : first.pdu.length < 2048)
    (hroom : (if id % 2 = 1 then 2 else 1) + first.pdu.length + room' ≤ room)
    (hd : FillsRoom (next :: pdus) room' (id + 1) d buffer) :
    FillsRoom (first :: next :: pdus) room id
      ⟨first :: d.segments, 1 :: d.extensionBits, first.pdu.length :: d.lengthIndicators⟩
      buffer := by
  refine ⟨by simp, .more hli hd.announces, ?_, ?_, hd.sound⟩
  · have hlen := hd.length_le
    have hpacket : DataField.packet ⟨first :: d.segments, 1 :: d.extensionBits,
        first.pdu.length :: d.lengthIndicators⟩ = first.pdu ++ d.packet := rfl
    rw [List.length_cons, listSize_succ, hpacket, List.length_append]
    omega
  · have hrest := hd.conserves
    rw [queuedBytes_cons, ← hrest]
    simp [DataField.packet]

/-- The first segment does not fit, or is too long for a length indicator. -/
theorem fillsRoom_of_long (hsound : TxBuffer.Sound ⟨pdus, size⟩) (hfirst : 0 < first.pdu.length)
    (hroom : 0 < room) (hlong : first.pdu.length > room ∨ first.pdu.length > 2047) :
    FillsRoom (first :: pdus) room id (fillDataField pdus size first room id).1
      (fillDataField pdus size first room id).2 := by
  unfold fillDataField
  rw [if_pos ⟨hfirst, hroom⟩, if_pos hlong]
  have hn : min first.pdu.length room ≤ room := Nat.min_le_right _ _
  by_cases hrest : first.pdu.drop (min first.pdu.length room) = []
  · have htake : first.pdu.take (min first.pdu.length room) = first.pdu := by
      have happ := List.take_append_drop (min first.pdu.length room) first.pdu
      rwa [hrest, List.append_nil] at happ
    have hfit : first.pdu.length ≤ room := by
      have hlen := List.drop_eq_nil_iff.mp hrest
      omega
    simp only [hrest, List.length_nil, gt_iff_lt, Nat.lt_irrefl, if_false, htake]
    exact .whole hsound hfit
  · simp only [gt_iff_lt, List.length_pos_iff.mpr hrest, if_true]
    exact .part hsound hn hrest

/-- The loop fills a data field that leaves room for the list in front of it. -/
theorem fillsRoom_fillDataField (size id : Nat) (hne : ∀ e ∈ first :: pdus, e.pdu ≠ [])
    (hsize : size = (pdus.map fun e => e.pdu.length).sum) (hroom : 0 < room) :
    FillsRoom (first :: pdus) room id (fillDataField pdus size first room id).1
      (fillDataField pdus size first room id).2 := by
  induction pdus generalizing first size room id with
  | nil =>
    have hsound : TxBuffer.Sound ⟨[], size⟩ := ⟨by simp, hsize⟩
    have hfirst : 0 < first.pdu.length := List.length_pos_iff.mpr (hne first List.mem_cons_self)
    by_cases hlong : first.pdu.length > room ∨ first.pdu.length > 2047
    · exact fillsRoom_of_long hsound hfirst hroom hlong
    · unfold fillDataField
      rw [if_pos ⟨hfirst, hroom⟩, if_neg hlong]
      exact .whole hsound (by omega)
  | cons next rest ih =>
    have hfirst : 0 < first.pdu.length := List.length_pos_iff.mpr (hne first List.mem_cons_self)
    have hpdus : ∀ e ∈ next :: rest, e.pdu ≠ [] := fun e he => hne e (List.mem_cons_of_mem _ he)
    have hsound : TxBuffer.Sound ⟨next :: rest, size⟩ := ⟨hpdus, hsize⟩
    by_cases hlong : first.pdu.length > room ∨ first.pdu.length > 2047
    · exact fillsRoom_of_long hsound hfirst hroom hlong
    · unfold fillDataField
      rw [if_pos ⟨hfirst, hroom⟩, if_neg hlong]
      by_cases hroom' : room - first.pdu.length ≤ 2
      · simp only [if_pos hroom']
        exact .whole hsound (by omega)
      · simp only [if_neg hroom']
        have hnext : size - next.pdu.length = (rest.map fun e => e.pdu.length).sum := by
          rw [hsize, List.map_cons, List.sum_cons, Nat.add_sub_cancel_left]
        refine FillsRoom.cons (by omega) ?_ (ih _ _ hpdus hnext ?_)
        · split <;> omega
        · split <;> omega

/-! ## The number of length indicators -/

/-- The first `n` SDUs get length indicators in `room` octets: each is short enough for one, and
together with the list up to there they leave more than two octets for another SDU that waits. -/
structure HasIndicators (queued : List TxPdu) (room id n : Nat) : Prop where
  waits : n < queued.length
  le : ∀ e ∈ queued.take n, e.pdu.length ≤ 2047
  leaves : ((queued.take n).map fun e => e.pdu.length).sum + listSize id (n - 1) + 2 < room

theorem hasIndicators_cons {queued : List TxPdu} :
    HasIndicators (first :: queued) room id (n + 2) ↔
      first.pdu.length ≤ 2047 ∧ HasIndicators queued
        (room - ((if id % 2 = 1 then 2 else 1) + first.pdu.length)) (id + 1) (n + 1) := by
  have hsize : listSize id (n + 1) = _ := listSize_succ id n
  constructor
  · rintro ⟨hwaits, hle, hleaves⟩
    simp only [List.length_cons, List.take_succ_cons, List.forall_mem_cons, List.map_cons,
      List.sum_cons, hsize, Nat.reduceSubDiff] at hwaits hle hleaves
    refine ⟨hle.1, by omega, hle.2, ?_⟩
    rw [Nat.add_sub_cancel]
    omega
  · rintro ⟨hfirst, hwaits, hle, hleaves⟩
    rw [Nat.add_sub_cancel] at hleaves
    refine ⟨Nat.succ_lt_succ hwaits, ?_, ?_⟩
    · rw [List.take_succ_cons, List.forall_mem_cons]
      exact ⟨hfirst, hle⟩
    · simp only [List.take_succ_cons, List.map_cons, List.sum_cons, Nat.reduceSubDiff, hsize]
      omega

/-- What gets a length indicator is shorter than the room, and another SDU waits. -/
theorem HasIndicators.short {queued : List TxPdu}
    (h : HasIndicators (first :: queued) room id (n + 1)) :
    queued ≠ [] ∧ first.pdu.length ≤ 2047 ∧ first.pdu.length + 2 < room := by
  obtain ⟨hwaits, hle, hleaves⟩ := h
  rw [List.take_succ_cons, List.map_cons, List.sum_cons] at hleaves
  refine ⟨?_, hle first (by rw [List.take_succ_cons]; exact List.mem_cons_self), by omega⟩
  rintro rfl
  simp at hwaits

theorem hasIndicators_one {queued : List TxPdu} (hne : queued ≠ [])
    (hshort : first.pdu.length ≤ 2047) (hroom : first.pdu.length + 2 < room) :
    HasIndicators (first :: queued) room id 1 := by
  have hnone : listSize id 0 = 0 := by
    unfold listSize
    omega
  refine ⟨Nat.succ_lt_succ (List.length_pos_iff.mpr hne), ?_, ?_⟩
  · intro e he
    rw [List.mem_singleton.mp he]
    exact hshort
  · simpa [hnone] using hroom

/-- A segment at the end of the data field has no length indicator. -/
theorem lengthIndicators_of_long
    (hlong : first.pdu.length > room ∨ first.pdu.length > 2047) :
    (fillDataField pdus size first room id).1.lengthIndicators = [] := by
  rw [fillDataField.eq_def]
  simp only [if_pos hlong]
  by_cases hstops : first.pdu.length > 0 ∧ room > 0
  · rw [if_pos hstops]
    split <;> rfl
  · rw [if_neg hstops]

/-- The loop pushes more than `n` length indicators just when that many SDUs get one. -/
theorem lt_length_lengthIndicators_iff (size : Nat) (hne : ∀ e ∈ first :: pdus, e.pdu ≠ [])
    (hroom : 0 < room) :
    n < (fillDataField pdus size first room id).1.lengthIndicators.length ↔
      HasIndicators (first :: pdus) room id (n + 1) := by
  induction pdus generalizing first size room id n with
  | nil =>
    refine iff_of_false ?_ fun h => h.short.1 rfl
    have hnone : (fillDataField [] size first room id).1.lengthIndicators = [] := by
      by_cases hlong : first.pdu.length > room ∨ first.pdu.length > 2047
      · exact lengthIndicators_of_long hlong
      · unfold fillDataField
        rw [if_neg hlong]
        split <;> rfl
    rw [hnone]
    exact Nat.not_lt_zero n
  | cons next rest ih =>
    have hfirst : 0 < first.pdu.length := List.length_pos_iff.mpr (hne first List.mem_cons_self)
    have hpdus : ∀ e ∈ next :: rest, e.pdu ≠ [] := fun e he => hne e (List.mem_cons_of_mem _ he)
    by_cases hlong : first.pdu.length > room ∨ first.pdu.length > 2047
    · rw [lengthIndicators_of_long hlong]
      refine iff_of_false (Nat.not_lt_zero n) fun h => ?_
      have hshort := h.short
      omega
    · unfold fillDataField
      rw [if_pos ⟨hfirst, hroom⟩, if_neg hlong]
      by_cases hroom' : room - first.pdu.length ≤ 2
      · simp only [if_pos hroom']
        refine iff_of_false (Nat.not_lt_zero n) fun h => ?_
        have hshort := h.short
        omega
      · simp only [if_neg hroom', List.length_cons]
        cases n with
        | zero =>
          exact iff_of_true (Nat.succ_pos _)
            (hasIndicators_one (List.cons_ne_nil _ _) (by omega) (by omega))
        | succ n =>
          rw [Nat.succ_lt_succ_iff, hasIndicators_cons, and_iff_right (by omega)]
          refine ih (size - next.pdu.length) hpdus ?_
          split <;> omega

end Fill

end Ns3.Lte
