import Ns3.Lib.Reassembly
import Ns3.Lte.RlcHeader

/-!
# Segmentation and concatenation of SDUs

`LteRlcUm::DoNotifyTxOpportunity` and `LteRlcAm::DoNotifyTxOpportunity` fill the data field of a PDU
by the same loop. The SDU at the front of the buffer is cut when it does not fit, and the remainder
goes back to the front. Each SDU has at least one byte.
-/

namespace Ns3.Lte

open Ns3.Lib

/-- `LteRlcSduStatusTag`. -/
inductive SduStatus
  | fullSdu
  | firstSegment
  | middleSegment
  | lastSegment
deriving DecidableEq, Repr

namespace SduStatus

/-- The tags of the new segment and of the remaining one. -/
def cut : SduStatus → SduStatus × SduStatus
  | fullSdu => (firstSegment, lastSegment)
  | lastSegment => (middleSegment, lastSegment)
  | status => (status, status)

/-- The tag of a segment that was taken whole. -/
def adjust : SduStatus → SduStatus
  | firstSegment => fullSdu
  | middleSegment => lastSegment
  | status => status

/-- The first byte of the segment is that of its SDU. -/
def begins : SduStatus → Bool
  | fullSdu | firstSegment => true
  | _ => false

/-- The last byte of the segment is that of its SDU. -/
def ends : SduStatus → Bool
  | fullSdu | lastSegment => true
  | _ => false

end SduStatus

/-- An entry of the transmission buffer. -/
structure TxPdu where
  pdu : List UInt8
  status : SduStatus
deriving DecidableEq, Repr

/-- `m_txBuffer` and `m_txBufferSize`. -/
structure TxBuffer where
  pdus : List TxPdu := []
  size : Nat := 0
deriving DecidableEq, Repr

/-- The segments of a data field, with what they push to the header. -/
structure DataField where
  segments : List TxPdu := []
  extensionBits : List Nat := []
  lengthIndicators : List Nat := []
deriving DecidableEq, Repr

/-- The loop over the segments of a data field. `pdus` and `size` are those of the buffer without
the first segment. -/
def fillDataField (pdus : List TxPdu) (size : Nat) (firstSegment : TxPdu)
    (nextSegmentSize nextSegmentId : Nat) : DataField × TxBuffer :=
  if firstSegment.pdu.length > 0 ∧ nextSegmentSize > 0 then
    if firstSegment.pdu.length > nextSegmentSize ∨ firstSegment.pdu.length > 2047 then
      let currSegmentSize := min firstSegment.pdu.length nextSegmentSize
      let newSegment := firstSegment.pdu.take currSegmentSize
      let remaining := firstSegment.pdu.drop currSegmentSize
      if remaining.length > 0 then
        (⟨[⟨newSegment, firstSegment.status.cut.1⟩], [0], []⟩,
          ⟨⟨remaining, firstSegment.status.cut.2⟩ :: pdus, size + remaining.length⟩)
      else
        (⟨[⟨newSegment, firstSegment.status.cut.1.adjust⟩], [0], []⟩, ⟨pdus, size⟩)
    else
      match pdus with
      | [] => (⟨[firstSegment], [0], []⟩, ⟨[], size⟩)
      | next :: rest =>
        if nextSegmentSize - firstSegment.pdu.length ≤ 2 then
          (⟨[firstSegment], [0], []⟩, ⟨next :: rest, size⟩)
        else
          let r := fillDataField rest (size - next.pdu.length) next
            (nextSegmentSize -
              ((if nextSegmentId % 2 = 1 then 2 else 1) + firstSegment.pdu.length))
            (nextSegmentId + 1)
          (⟨firstSegment :: r.1.segments, 1 :: r.1.extensionBits,
            firstSegment.pdu.length :: r.1.lengthIndicators⟩, r.2)
  else (⟨[], [], []⟩, ⟨pdus, size⟩)

/-- `FIRST_BYTE` or `NO_FIRST_BYTE`, and `LAST_BYTE` or `NO_LAST_BYTE`. -/
def framingBits (first last : Bool) : Nat := (if first then 0 else 2) ||| (if last then 0 else 1)

@[simp] theorem framingBits_full : framingBits true true = 0 := by decide
@[simp] theorem framingBits_first : framingBits true false = 1 := by decide
@[simp] theorem framingBits_last : framingBits false true = 2 := by decide
@[simp] theorem framingBits_middle : framingBits false false = 3 := by decide

/-- The framing info of the segments of a data field. -/
def framingInfo (segments : List TxPdu) : Option Nat :=
  match segments.head?, segments.getLast? with
  | some first, some last => some (framingBits first.status.begins last.status.ends)
  | _, _ => none

namespace DataField

/-- The packet of the data field. -/
def packet (d : DataField) : List UInt8 := (d.segments.map TxPdu.pdu).flatten

/-- The data field as pieces of SDUs. -/
def segment (d : DataField) : Segment UInt8 where
  pieces := d.segments.map TxPdu.pdu
  first := (d.segments.head?.map fun e => e.status.begins).getD false
  last := (d.segments.getLast?.map fun e => e.status.ends).getD false

end DataField

theorem DataField.framingInfo_segments {d : DataField} (hne : d.segments ≠ []) :
    framingInfo d.segments = some (framingBits d.segment.first d.segment.last) := by
  obtain ⟨e, es, hes⟩ := List.exists_cons_of_ne_nil hne
  have hlast : d.segments.getLast? = some (d.segments.getLast hne) :=
    List.getLast?_eq_some_getLast hne
  have hhead : d.segments.head? = some e := by rw [hes, List.head?_cons]
  simp [framingInfo, DataField.segment, hlast, hhead]

theorem framingBits_lt (first last : Bool) : framingBits first last < 4 := by
  cases first <;> cases last <;> simp

/-- The buffer holds what remains of `sdus`, of which the sender has sent `kept`. -/
inductive Pending : Option (List UInt8) → List TxPdu → List (List UInt8) → Prop
  | fresh {pdus : List TxPdu} (h : ∀ e ∈ pdus, e.status = .fullSdu) :
    Pending none pdus (pdus.map TxPdu.pdu)
  | cut {pdus : List TxPdu} {sent rest : List UInt8} (h : ∀ e ∈ pdus, e.status = .fullSdu) :
    Pending (some sent) (⟨rest, .lastSegment⟩ :: pdus) ((sent ++ rest) :: pdus.map TxPdu.pdu)

theorem Pending.cons {kept : Option (List UInt8)} {first : TxPdu} {pdus : List TxPdu}
    {sdus : List (List UInt8)} (h : Pending kept (first :: pdus) sdus) :
    first.status = (if kept.isNone then .fullSdu else .lastSegment) ∧
      (∀ e ∈ pdus, e.status = .fullSdu) ∧
      sdus = (kept.getD [] ++ first.pdu) :: pdus.map TxPdu.pdu := by
  cases h with
  | fresh h => exact ⟨h _ List.mem_cons_self, fun e he => h e (List.mem_cons_of_mem _ he), rfl⟩
  | cut h => exact ⟨rfl, h, rfl⟩

/-- A new SDU goes to the end of the buffer. -/
theorem Pending.append {kept : Option (List UInt8)} {pdus : List TxPdu}
    {sdus : List (List UInt8)} (h : Pending kept pdus sdus) (p : List UInt8) :
    Pending kept (pdus ++ [⟨p, .fullSdu⟩]) (sdus ++ [p]) := by
  have hall : ∀ {pdus : List TxPdu}, (∀ e ∈ pdus, e.status = .fullSdu) →
      ∀ e ∈ pdus ++ [⟨p, .fullSdu⟩], e.status = .fullSdu := by
    intro pdus hpdus e he
    rcases List.mem_append.mp he with he | he
    · exact hpdus e he
    · rw [List.mem_singleton.mp he]
  cases h with
  | @fresh pdus h => simpa using Pending.fresh (hall h)
  | @cut pdus sent rest h => simpa using @Pending.cut _ sent rest (hall h)

/-- What a filled data field and the buffer behind it say of the SDUs. -/
structure Filled (kept : Option (List UInt8)) (sdus : List (List UInt8)) (d : DataField)
    (buffer : TxBuffer) : Prop where
  ne_nil : d.segments ≠ []
  announces : Announces d.extensionBits d.lengthIndicators
  lengths : d.lengthIndicators = d.segments.dropLast.map fun e => e.pdu.length
  absorbs : ∃ units kept' rest, d.segment.absorb kept = some (units, kept') ∧
    sdus = units ++ rest ∧ Pending kept' buffer.pdus rest
  pdu_ne_nil : ∀ e ∈ buffer.pdus, e.pdu ≠ []
  size_eq : buffer.size = (buffer.pdus.map fun e => e.pdu.length).sum

section Fill

variable {kept : Option (List UInt8)} {first : TxPdu} {pdus : List TxPdu}
  {sdus : List (List UInt8)} {size room id : Nat}

/-- The first segment is taken whole, and is the last one. -/
theorem Filled.whole (hp : Pending kept (first :: pdus) sdus) (hne : ∀ e ∈ pdus, e.pdu ≠ [])
    (hsize : size = (pdus.map fun e => e.pdu.length).sum) :
    Filled kept sdus ⟨[first], [0], []⟩ ⟨pdus, size⟩ := by
  obtain ⟨hstatus, hfull, hsdus⟩ := hp.cons
  refine ⟨by simp, .last, rfl, ⟨[kept.getD [] ++ first.pdu], none, _, ?_, hsdus, .fresh hfull⟩, hne,
    hsize⟩
  cases kept with
  | none => simp [DataField.segment, hstatus, SduStatus.begins, SduStatus.ends, Segment.absorb,
      Segment.close]
  | some sent => simp [DataField.segment, hstatus, SduStatus.begins, SduStatus.ends,
      Segment.absorb, Segment.close]

/-- The first segment is cut after `n` bytes. -/
theorem Filled.part {n : Nat} (hp : Pending kept (first :: pdus) sdus)
    (hne : ∀ e ∈ pdus, e.pdu ≠ []) (hsize : size = (pdus.map fun e => e.pdu.length).sum)
    (hrest : first.pdu.drop n ≠ []) :
    Filled kept sdus ⟨[⟨first.pdu.take n, first.status.cut.1⟩], [0], []⟩
      ⟨⟨first.pdu.drop n, first.status.cut.2⟩ :: pdus, size + (first.pdu.drop n).length⟩ := by
  obtain ⟨hstatus, hfull, hsdus⟩ := hp.cons
  refine ⟨by simp, .last, rfl, ⟨[], some (kept.getD [] ++ first.pdu.take n), sdus, ?_, rfl, ?_⟩, ?_,
    ?_⟩
  · cases kept with
    | none => simp [DataField.segment, hstatus, SduStatus.cut, SduStatus.begins, SduStatus.ends,
        Segment.absorb, Segment.close]
    | some sent => simp [DataField.segment, hstatus, SduStatus.cut, SduStatus.begins,
        SduStatus.ends, Segment.absorb, Segment.close]
  · have hcut : first.status.cut.2 = .lastSegment := by
      rw [hstatus]
      split <;> rfl
    have hjoin : kept.getD [] ++ first.pdu =
        (kept.getD [] ++ first.pdu.take n) ++ first.pdu.drop n := by
      rw [List.append_assoc, List.take_append_drop]
    rw [hcut, hsdus, hjoin]
    exact .cut hfull
  · intro e he
    rcases List.mem_cons.mp he with rfl | he
    · exact hrest
    · exact hne e he
  · rw [hsize, List.map_cons, List.sum_cons]
    exact Nat.add_comm _ _

/-- The first segment is taken whole, in front of a data field that is filled from the next one. -/
theorem Filled.cons {next : TxPdu} {d : DataField} {buffer : TxBuffer}
    (hp : Pending kept (first :: next :: pdus) sdus) (hlen : first.pdu.length < 2048)
    (hd : Filled none ((next :: pdus).map TxPdu.pdu) d buffer) :
    Filled kept sdus ⟨first :: d.segments, 1 :: d.extensionBits,
      first.pdu.length :: d.lengthIndicators⟩ buffer := by
  obtain ⟨hstatus, hfull, hsdus⟩ := hp.cons
  obtain ⟨units, kept', rest, habs, hunits, hrest⟩ := hd.absorbs
  refine ⟨by simp, .more hlen hd.announces, ?_, ⟨(kept.getD [] ++ first.pdu) :: units, kept', rest,
    ?_, ?_, hrest⟩, hd.pdu_ne_nil, hd.size_eq⟩
  · rw [List.dropLast_cons_of_ne_nil hd.ne_nil, List.map_cons, ← hd.lengths]
  · have hne : d.segment.pieces ≠ [] := by simpa [DataField.segment] using hd.ne_nil
    have hcons : DataField.segment ⟨first :: d.segments, 1 :: d.extensionBits,
        first.pdu.length :: d.lengthIndicators⟩ =
        ⟨first.pdu :: d.segment.pieces, kept.isNone, d.segment.last⟩ := by
      have hbegins : first.status.begins = kept.isNone := by
        rw [hstatus]
        cases kept <;> rfl
      obtain ⟨e, es, hes⟩ := List.exists_cons_of_ne_nil hd.ne_nil
      simp [DataField.segment, hbegins, hes]
    rw [hcons]
    exact Segment.absorb_cons kept first.pdu hne habs
  · rw [hsdus, hunits]
    rfl

theorem Pending.adjust (hp : Pending kept (first :: pdus) sdus) :
    first.status.cut.1.adjust = first.status := by
  rw [hp.cons.1]
  split <;> rfl

/-- A segment that was cut with nothing behind it is the whole one. -/
theorem take_adjust {n : Nat} (hp : Pending kept (first :: pdus) sdus)
    (hrest : first.pdu.drop n = []) :
    (⟨first.pdu.take n, first.status.cut.1.adjust⟩ : TxPdu) = first := by
  have htake : first.pdu.take n = first.pdu := by
    have happ := List.take_append_drop n first.pdu
    rwa [hrest, List.append_nil] at happ
  rw [htake, hp.adjust]

/-- The first segment does not fit, or is too long for a length indicator. -/
theorem filled_of_long (hp : Pending kept (first :: pdus) sdus) (hpdus : ∀ e ∈ pdus, e.pdu ≠ [])
    (hsize : size = (pdus.map fun e => e.pdu.length).sum) (hfirst : 0 < first.pdu.length)
    (hroom : 0 < room) (hlong : first.pdu.length > room ∨ first.pdu.length > 2047) :
    Filled kept sdus (fillDataField pdus size first room id).1
      (fillDataField pdus size first room id).2 := by
  unfold fillDataField
  rw [if_pos ⟨hfirst, hroom⟩, if_pos hlong]
  by_cases hrest : first.pdu.drop (min first.pdu.length room) = []
  · simp only [hrest, List.length_nil, gt_iff_lt, Nat.lt_irrefl, if_false, take_adjust hp hrest]
    exact .whole hp hpdus hsize
  · simp only [gt_iff_lt, List.length_pos_iff.mpr hrest, if_true]
    exact .part hp hpdus hsize hrest

/-- The loop fills the data field, and the buffer keeps the remainder of the SDUs. -/
theorem filled_fillDataField (size id : Nat) (hp : Pending kept (first :: pdus) sdus)
    (hne : ∀ e ∈ first :: pdus, e.pdu ≠ [])
    (hsize : size = (pdus.map fun e => e.pdu.length).sum) (hroom : 0 < room) :
    Filled kept sdus (fillDataField pdus size first room id).1
      (fillDataField pdus size first room id).2 := by
  induction pdus generalizing kept first sdus size room id with
  | nil =>
    have hfirst : 0 < first.pdu.length := List.length_pos_iff.mpr (hne first List.mem_cons_self)
    by_cases hlong : first.pdu.length > room ∨ first.pdu.length > 2047
    · exact filled_of_long hp (by simp) hsize hfirst hroom hlong
    · unfold fillDataField
      rw [if_pos ⟨hfirst, hroom⟩, if_neg hlong]
      exact .whole hp (by simp) hsize
  | cons next rest ih =>
    have hfirst : 0 < first.pdu.length := List.length_pos_iff.mpr (hne first List.mem_cons_self)
    have hpdus : ∀ e ∈ next :: rest, e.pdu ≠ [] := fun e he => hne e (List.mem_cons_of_mem _ he)
    by_cases hlong : first.pdu.length > room ∨ first.pdu.length > 2047
    · exact filled_of_long hp hpdus hsize hfirst hroom hlong
    · unfold fillDataField
      rw [if_pos ⟨hfirst, hroom⟩, if_neg hlong]
      by_cases hroom' : room - first.pdu.length ≤ 2
      · simp only [if_pos hroom']
        exact .whole hp hpdus hsize
      · simp only [if_neg hroom']
        have hfull := hp.cons.2.1
        apply Filled.cons hp (by omega)
        apply ih
        · exact .fresh hfull
        · exact hpdus
        · rw [hsize, List.map_cons, List.sum_cons, Nat.add_sub_cancel_left]
        · split <;> omega

end Fill

end Ns3.Lte
