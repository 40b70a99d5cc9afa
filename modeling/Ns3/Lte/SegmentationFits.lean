import Ns3.Lte.RlcAmSender
import Ns3.Lte.RlcUmSender

/-!
# Segmentation fits the grant and conserves bytes

A PDU of `LteRlcUm` or `LteRlcAm` has at most the octets of its transmission opportunity, and its
data field is what the buffer has lost, just when its header is shorter than `2 ^ 16` octets. The
PDUs of a sender whose headers all are, reassembled in their order, give the SDUs of which the last
byte was sent (`segmentation_fits`). With enough short SDUs in a large opportunity the size of the
header wraps (`segmentation_overflows`).
-/

namespace Ns3.Lte

open Ns3.Lib SduReassembly

/-- A PDU with this header and data field for `bytes` octets, and the buffer before and after it.
-/
structure FitsGrant (bytes : Nat) (header : List UInt8) (serializedSize : Nat) (lis : List Nat)
    (data : List UInt8) (before after : TxBuffer) : Prop where
  length_le : (header ++ data).length ≤ bytes
  serializedSize_eq : serializedSize = header.length
  lengthIndicator_le : ∀ li ∈ lis, li ≤ 2047
  conserves : data ++ queuedBytes after.pdus = queuedBytes before.pdus
  size_eq : after.size = (after.pdus.map fun e => e.pdu.length).sum

/-! ## LteRlcUm -/

namespace LteRlcUm

/-- The header and the data field of the PDU, before `AddHeader` joins them. -/
def buildPdu (u : LteRlcUm) (bytes : Nat) :
    Option (LteRlcUm × Option (LteRlcHeader × List UInt8)) :=
  if bytes ≤ 2 then some (u, none)
  else
    match u.txBuffer.pdus with
    | [] => some (u, none)
    | firstSegment :: pdus => do
      let (d, txBuffer) :=
        fillDataField pdus (u.txBuffer.size - firstSegment.pdu.length) firstSegment (bytes - 2) 1
      let framingInfo ← framingInfo d.segments
      some ({ u with txBuffer, sequenceNumber := u.sequenceNumber.succ },
        some (((LteRlcHeader.push d.extensionBits d.lengthIndicators).setSequenceNumber
          u.sequenceNumber).setFramingInfo framingInfo, d.packet))

theorem doNotifyTxOpportunity_of_buildPdu {u u' : LteRlcUm} {bytes : Nat} {h : LteRlcHeader}
    {data : List UInt8} (hbuild : u.buildPdu bytes = some (u', some (h, data))) :
    u.doNotifyTxOpportunity bytes =
      (addHeader h.headerLength h.serialize data).map fun pdu => (u', some pdu) := by
  unfold buildPdu at hbuild
  unfold doNotifyTxOpportunity
  split at hbuild
  · cases hbuild
  · next hbytes =>
    rw [if_neg hbytes]
    cases hpdus : u.txBuffer.pdus with
    | nil =>
      rw [hpdus] at hbuild
      cases hbuild
    | cons firstSegment pdus =>
      rw [hpdus] at hbuild
      obtain ⟨fi, hfi, heq⟩ := Option.bind_eq_some_iff.mp hbuild
      cases heq
      simp only [Option.bind_eq_bind, hfi, Option.bind_some]
      exact (Option.map_eq_bind).symm

/-- The PDU of a transmission opportunity. -/
theorem buildPdu_spec (u : LteRlcUm) {bytes : Nat} (hbytes : 2 < bytes)
    (hne : u.txBuffer.pdus ≠ []) (hsound : u.txBuffer.Sound) :
    ∃ u' rlcHeader data, u.buildPdu bytes = some (u', some (rlcHeader, data)) ∧
      (rlcHeader.headerLength = rlcHeader.serialize.length ↔ ¬u.LongHeader bytes) ∧
      (rlcHeader.headerLength = rlcHeader.serialize.length →
        FitsGrant bytes rlcHeader.serialize rlcHeader.headerLength rlcHeader.lengthIndicators
          data u.txBuffer u'.txBuffer) := by
  obtain ⟨first, pdus, hpdus⟩ := List.exists_cons_of_ne_nil hne
  obtain ⟨hpdu, hsize⟩ := hsound
  rw [hpdus] at hpdu hsize
  rw [List.map_cons, List.sum_cons] at hsize
  have hd := fillsRoom_fillDataField (u.txBuffer.size - first.pdu.length) 1 hpdu (by omega)
    (by omega : 0 < bytes - 2)
  have hcount : ∀ n, n < _ ↔ _ := fun n => @lt_length_lengthIndicators_iff _ _ _ 1 n
    (u.txBuffer.size - first.pdu.length) hpdu (by omega : 0 < bytes - 2)
  rcases hfill : fillDataField pdus (u.txBuffer.size - first.pdu.length) first (bytes - 2) 1
    with ⟨d, buffer⟩
  rw [hfill] at hd hcount
  change FillsRoom (first :: pdus) (bytes - 2) 1 d buffer at hd
  have hlen := length_header hd.announces u.sequenceNumber (framingBits d.segment.first
    d.segment.last)
  refine ⟨_, _, _, by simp [buildPdu, hpdus, hfill, Nat.not_le.mpr hbytes,
    DataField.framingInfo_segments hd.ne_nil]; exact ⟨rfl, rfl, rfl⟩, ?_, fun hlength => ?_⟩
  · rw [headerLength_eq_iff hd.announces, LongHeader, hpdus, ← hcount]
    exact Nat.lt_succ_iff.trans Nat.not_lt.symm
  constructor
  · have hroom := hd.length_le
    rw [List.length_append, hlen]
    omega
  · exact hlength
  · have hlis : ∀ sn fi, (((LteRlcHeader.push d.extensionBits d.lengthIndicators).setSequenceNumber
        sn).setFramingInfo fi).lengthIndicators = d.lengthIndicators :=
      fun _ _ => LteRlcHeader.lengthIndicators_push _ _
    rw [hlis]
    exact hd.announces.le
  · rw [hpdus]
    exact hd.conserves
  · exact hd.sound.size_eq

/-- It fits the grant just when its header is not too long. -/
theorem fitsGrant_iff (u : LteRlcUm) {bytes : Nat} (hbytes : 2 < bytes)
    (hne : u.txBuffer.pdus ≠ []) (hsound : u.txBuffer.Sound) :
    ∃ u' rlcHeader data, u.buildPdu bytes = some (u', some (rlcHeader, data)) ∧
      (FitsGrant bytes rlcHeader.serialize rlcHeader.headerLength rlcHeader.lengthIndicators data
          u.txBuffer u'.txBuffer ∧
        u.doNotifyTxOpportunity bytes = some (u', some (rlcHeader.serialize ++ data)) ↔
        ¬u.LongHeader bytes) := by
  obtain ⟨u', rlcHeader, data, hbuild, hiff, hfits⟩ := u.buildPdu_spec hbytes hne hsound
  refine ⟨u', rlcHeader, data, hbuild, ?_⟩
  rw [← hiff]
  constructor
  · exact fun h => h.1.serializedSize_eq
  · intro hlength
    refine ⟨hfits hlength, ?_⟩
    rw [doNotifyTxOpportunity_of_buildPdu hbuild, addHeader_eq hlength, Option.map_some]

end LteRlcUm

/-! ## LteRlcAm -/

namespace LteRlcAm

/-- The new PDU of a transmission opportunity. -/
theorem buildNewPdu_spec (u : LteRlcAm) {bytes : Nat} (hnew : u.sendsNewData bytes = true)
    (hsound : u.txonBuffer.Sound) :
    ∃ u' rlcAmHeader data, u.buildNewPdu bytes = some (u', some (rlcAmHeader, data)) ∧
      (rlcAmHeader.headerLength = rlcAmHeader.serialize.length ↔ ¬u.LongHeader bytes) ∧
      (rlcAmHeader.headerLength = rlcAmHeader.serialize.length →
        FitsGrant bytes rlcAmHeader.serialize rlcAmHeader.headerLength rlcAmHeader.lengthIndicators
          data u.txonBuffer u'.txonBuffer) := by
  obtain ⟨hpos, hbytes⟩ := sendsNewData_spec hnew
  obtain ⟨hpdu, hsize⟩ := hsound
  cases hpdus : u.txonBuffer.pdus with
  | nil => simp [hpdus] at hsize; omega
  | cons first pdus =>
    rw [hpdus] at hpdu hsize
    rw [List.map_cons, List.sum_cons] at hsize
    have hd := fillsRoom_fillDataField (u.txonBuffer.size - first.pdu.length) 1 hpdu (by omega)
      (by omega : 0 < bytes - 4)
    have hcount : ∀ n, n < _ ↔ _ := fun n => @lt_length_lengthIndicators_iff _ _ _ 1 n
      (u.txonBuffer.size - first.pdu.length) hpdu (by omega : 0 < bytes - 4)
    rcases hfill : fillDataField pdus (u.txonBuffer.size - first.pdu.length) first (bytes - 4) 1
      with ⟨d, buffer⟩
    rw [hfill] at hd hcount
    change FillsRoom (first :: pdus) (bytes - 4) 1 d buffer at hd
    obtain ⟨u', poll, hbuild, hbuffer, -⟩ := u.buildNewPdu_cons hpdus hfill hd.ne_nil
    refine ⟨u', _, _, hbuild, ?_, fun hlength => ?_⟩
    · rw [headerLength_eq_iff hd.announces, LongHeader, hpdus, ← hcount]
      exact Nat.lt_succ_iff.trans Nat.not_lt.symm
    rw [hbuffer]
    constructor
    · have hroom := hd.length_le
      rw [List.length_append, length_newDataHeader _ _ _ hd.announces]
      omega
    · exact hlength
    · rw [lengthIndicators_newDataHeader]
      exact hd.announces.le
    · rw [hpdus]
      exact hd.conserves
    · exact hd.sound.size_eq

theorem fitsGrant_iff (u : LteRlcAm) {bytes : Nat} (hnew : u.sendsNewData bytes = true)
    (hsound : u.txonBuffer.Sound) :
    ∃ u' rlcAmHeader data, u.buildNewPdu bytes = some (u', some (rlcAmHeader, data)) ∧
      (FitsGrant bytes rlcAmHeader.serialize rlcAmHeader.headerLength rlcAmHeader.lengthIndicators
          data u.txonBuffer u'.txonBuffer ∧
        u.doNotifyTxOpportunity bytes = some (u'.store rlcAmHeader.sequenceNumber.value
          (rlcAmHeader.serialize ++ data), some (rlcAmHeader.serialize ++ data)) ↔
        ¬u.LongHeader bytes) := by
  obtain ⟨u', rlcAmHeader, data, hbuild, hiff, hfits⟩ := u.buildNewPdu_spec hnew hsound
  refine ⟨u', rlcAmHeader, data, hbuild, ?_⟩
  rw [← hiff]
  constructor
  · exact fun h => h.1.serializedSize_eq
  · intro hlength
    refine ⟨hfits hlength, ?_⟩
    simp [doNotifyTxOpportunity, hnew, hbuild, addHeader_eq hlength]

end LteRlcAm

/-! ## Runs -/

/-- What a sender took from the upper layer is in the data fields of its PDUs or in its buffer, and
the SDUs that end in a data field are delivered. -/
structure Delivers (accepted data : List (List UInt8)) (buffer : TxBuffer)
    (delivered : List (List UInt8)) : Prop where
  conserves : data.flatten ++ queuedBytes buffer.pdus = accepted.flatten
  size_eq : buffer.size = (buffer.pdus.map fun e => e.pdu.length).sum
  delivered_eq : delivered = completed data.flatten.length accepted

theorem Sent.delivers {accepted : List (List UInt8)} {buffer : TxBuffer}
    {segs : List (Segment UInt8)} {r : SduReassembly} (h : Sent accepted buffer segs)
    (hr : Received segs r) : Delivers accepted (segs.map segmentBytes) buffer r.delivered where
  conserves := h.conserves
  size_eq := h.sound.size_eq
  delivered_eq := (h.completed hr.absorbs).symm

/-- Prefixes of segments that can be put together can be, too. -/
theorem absorbAll_take_isSome {segs : List (Segment UInt8)}
    {all : List (List UInt8) × Option (List UInt8)} (hall : absorbAll segs = some all) {k : Nat}
    (hk : k < segs.length) : ∃ r, absorbAll (segs.take k ++ [segs[k]]) = some r := by
  rw [← List.take_succ_eq_append_getElem hk]
  obtain ⟨_, _, _, _, -, -, h⟩ := absorbAll_get hk hall
  exact ⟨_, h⟩

namespace UmSender

variable {s : UmSender} {segs : List (Segment UInt8)}

/-- The data field of an UMD PDU. -/
def dataField (pdu : List UInt8) : Option (List UInt8) :=
  (LteRlcHeader.deserialize pdu).map fun h => pdu.drop h.headerLength

theorem Inv.sentSegments (h : Inv s segs) : Sent s.accepted s.entity.txBuffer segs where
  pending := h.pending
  sound := ⟨h.pdu_ne_nil, h.size_eq⟩

theorem Inv.dataFields (h : Inv s segs) :
    s.pdus.map dataField = (segs.map segmentBytes).map some := by
  apply List.ext_getElem
  · simp [h.length_eq]
  · intro k hk hk'
    rw [List.length_map] at hk
    obtain ⟨hd, hdes, -, -, hsplit⟩ := (h.carries k (h.length_eq ▸ hk) hk).header
    have hbytes := flatten_splitSdus hsplit
    simp [dataField, hdes, segmentBytes, hbytes]

/-- All the PDUs of a sender, in their order. -/
theorem Inv.received (h : Inv s segs) {packets : List Packet}
    (hpackets : packets.map Packet.bytes = s.pdus) :
    ∃ u, packets.foldlM LteRlcUm.reassembleAndDeliver {} = some u ∧
      Received segs u.reassembly := by
  obtain ⟨out, kept, rest, habs, -, -⟩ := h.pending
  have hlen : packets.length = s.pdus.length := by rw [← hpackets, List.length_map]
  apply received_foldlM (g := LteRlcUm.reassembly)
  · rw [hlen, h.length_eq]
  · exact .start
  · intro k hk hk' u hu
    have hbytes : packets[k].bytes = s.pdus[k] := by simp [← hpackets]
    obtain ⟨hne, hd, hdes, hfi, hsn, hsplit⟩ := h.carries k hk' (hlen ▸ hk)
    obtain ⟨all, hall⟩ := absorbAll_take_isSome habs hk'
    rw [← hbytes] at hdes hsplit
    obtain ⟨r', hr', hrec⟩ := hu.next true hall hsplit hne
    have htake : (segs.take k).length = k := List.length_take_of_le hk'.le
    rw [htake] at hr'
    refine ⟨{ u with reassembly := r', passed := u.passed ++ [packets[k].uid] }, ?_, hrec⟩
    simp [LteRlcUm.reassembleAndDeliver, hdes, hfi, hsn, hr']

end UmSender

namespace AmSender

variable {s : AmSender} {segs : List (Segment UInt8)}

/-- The data field of an AMD PDU. -/
def dataField (pdu : List UInt8) : Option (List UInt8) :=
  ((LteRlcAmHeader.fresh 0).deserialize pdu).map fun h => pdu.drop h.headerLength

theorem Inv.dataFields (h : Inv s segs) :
    s.pdus.map dataField = (segs.map segmentBytes).map some := by
  apply List.ext_getElem
  · simp [h.length_eq]
  · intro k hk hk'
    rw [List.length_map] at hk
    obtain ⟨hd, hdes, -, -, hsplit⟩ := (h.carries k (h.length_eq ▸ hk) hk).header 0
    have hbytes := flatten_splitSdus hsplit
    simp [dataField, hdes, segmentBytes, hbytes]

/-- All the PDUs of a sender, in their order. -/
theorem Inv.received (h : Inv s segs) (lastSegmentFlag : Nat) :
    ∃ r, s.pdus.foldlM (LteRlcAm.reassembleAndDeliver lastSegmentFlag) {} = some r ∧
      Received segs r := by
  obtain ⟨out, kept, rest, habs, -, -⟩ := h.sent.pending
  apply received_foldlM (g := id)
  · rw [h.length_eq]
  · exact .start
  · intro k hk hk' r hr
    obtain ⟨hne, hheader⟩ := h.carries k hk' hk
    obtain ⟨hd, hdes, hfi, hsn, hsplit⟩ := hheader lastSegmentFlag
    obtain ⟨all, hall⟩ := absorbAll_take_isSome habs hk'
    obtain ⟨r', hr', hrec⟩ := hr.next false hall hsplit hne
    have htake : (segs.take k).length = k := List.length_take_of_le hk'.le
    rw [htake] at hr'
    refine ⟨r', ?_, hrec⟩
    simp only [id_eq] at hr'
    simp [LteRlcAm.reassembleAndDeliver, hdes, hfi, hsn, hr']

end AmSender

/-- A PDU fits its grant and takes what the buffer loses just when its header is not too long, and a
receiver that reassembles the PDUs of a sender in their order delivers exactly the SDUs of which the
last byte was sent. -/
theorem segmentation_fits (bytes maxTxBufferSize : Nat) :
    (∀ u : LteRlcUm, 2 < bytes → u.txBuffer.pdus ≠ [] → u.txBuffer.Sound →
      ∃ u' rlcHeader data, u.buildPdu bytes = some (u', some (rlcHeader, data)) ∧
        (FitsGrant bytes rlcHeader.serialize rlcHeader.headerLength rlcHeader.lengthIndicators data
            u.txBuffer u'.txBuffer ∧
          u.doNotifyTxOpportunity bytes = some (u', some (rlcHeader.serialize ++ data)) ↔
          ¬u.LongHeader bytes)) ∧
    (∀ u : LteRlcAm, u.sendsNewData bytes = true → u.txonBuffer.Sound →
      ∃ u' rlcAmHeader data, u.buildNewPdu bytes = some (u', some (rlcAmHeader, data)) ∧
        (FitsGrant bytes rlcAmHeader.serialize rlcAmHeader.headerLength
            rlcAmHeader.lengthIndicators data u.txonBuffer u'.txonBuffer ∧
          u.doNotifyTxOpportunity bytes = some (u'.store rlcAmHeader.sequenceNumber.value
            (rlcAmHeader.serialize ++ data), some (rlcAmHeader.serialize ++ data)) ↔
          ¬u.LongHeader bytes)) ∧
    (∀ s : UmSender, UmSender.Reached maxTxBufferSize s →
      (∀ e, s.Allows e → (s.step e).isSome) ∧
      ∃ data, s.pdus.map UmSender.dataField = data.map some ∧
        ∀ packets : List Packet, packets.map Packet.bytes = s.pdus →
          ∃ u, packets.foldlM LteRlcUm.reassembleAndDeliver {} = some u ∧
            Delivers s.accepted data s.entity.txBuffer u.reassembly.delivered) ∧
    (∀ s : AmSender, AmSender.Reached maxTxBufferSize s →
      (∀ e, s.Allows e → (s.step e).isSome) ∧
      ∃ data, s.pdus.map AmSender.dataField = data.map some ∧
        ∀ lastSegmentFlag,
          ∃ r, s.pdus.foldlM (LteRlcAm.reassembleAndDeliver lastSegmentFlag) {} = some r ∧
            Delivers s.accepted data s.entity.txonBuffer r.delivered) := by
  refine ⟨?_, ?_, ?_, ?_⟩
  · exact fun u hbytes hne hsound => u.fitsGrant_iff hbytes hne hsound
  · exact fun u hnew hsound => u.fitsGrant_iff hnew hsound
  · intro s hs
    obtain ⟨segs, hinv⟩ := hs.inv
    refine ⟨fun e he => ?_, _, hinv.dataFields, fun packets hpackets => ?_⟩
    · obtain ⟨s', -, hs', -⟩ := UmSender.step_inv hinv he
      rw [hs']
      rfl
    · obtain ⟨u, hfold, hrec⟩ := hinv.received hpackets
      exact ⟨u, hfold, hinv.sentSegments.delivers hrec⟩
  · intro s hs
    obtain ⟨segs, hinv⟩ := hs.inv
    refine ⟨fun e he => ?_, _, hinv.dataFields, fun lastSegmentFlag => ?_⟩
    · obtain ⟨s', -, hs', -⟩ := AmSender.step_inv hinv he
      rw [hs']
      rfl
    · obtain ⟨r, hfold, hrec⟩ := hinv.received lastSegmentFlag
      exact ⟨r, hfold, hinv.sent.delivers hrec⟩

/-- A segment of three bytes and an SDU of two. -/
def fiveBytes : TxBuffer := ⟨[⟨[1, 2, 3], .lastSegment⟩, ⟨[4, 5], .fullSdu⟩], 5⟩

/-- Two SDUs in seven octets, in either mode, and senders that cut the first of them. -/
theorem segmentation_fits_seven :
    (∃ u' rlcHeader data,
      LteRlcUm.buildPdu { txBuffer := fiveBytes } 7 = some (u', some (rlcHeader, data)) ∧
      FitsGrant 7 rlcHeader.serialize rlcHeader.headerLength rlcHeader.lengthIndicators data
        fiveBytes u'.txBuffer) ∧
    (∃ u' rlcAmHeader data,
      LteRlcAm.buildNewPdu { txonBuffer := fiveBytes } 7 = some (u', some (rlcAmHeader, data)) ∧
      FitsGrant 7 rlcAmHeader.serialize rlcAmHeader.headerLength rlcAmHeader.lengthIndicators data
        fiveBytes u'.txonBuffer) ∧
    (∃ s : UmSender, UmSender.Reached 5 s ∧ s.accepted = [[1, 2, 3], [4, 5]] ∧
      s.pdus.length = 2 ∧ ∀ packets : List Packet, packets.map Packet.bytes = s.pdus →
        ∃ u, packets.foldlM LteRlcUm.reassembleAndDeliver {} = some u) ∧
    ∃ s : AmSender, AmSender.Reached 0 s ∧ s.accepted = [[1, 2, 3, 4]] ∧ s.pdus.length = 1 ∧
      ∃ r, s.pdus.foldlM (LteRlcAm.reassembleAndDeliver 1) {} = some r := by
  obtain ⟨um, am, umRun, -⟩ := segmentation_fits 7 5
  obtain ⟨-, -, -, amRun⟩ := segmentation_fits 7 0
  have hsound : fiveBytes.Sound := ⟨by simp [fiveBytes], rfl⟩
  have hfew : ∀ {queued : List TxPdu} {room id n : Nat}, queued.length < 3 →
      ¬HasIndicators queued room id (n + 3) := fun hlen h => by
    have hwaits := h.waits
    omega
  refine ⟨?_, ?_, ?_, ?_⟩
  · obtain ⟨u', h, data, hbuild, hiff⟩ :=
      um { txBuffer := fiveBytes } (by decide) (by simp [fiveBytes]) hsound
    exact ⟨u', h, data, hbuild, (hiff.mpr (hfew (by decide))).1⟩
  · obtain ⟨u', h, data, hbuild, hiff⟩ :=
      am { txonBuffer := fiveBytes } (by decide) hsound
    exact ⟨u', h, data, hbuild, (hiff.mpr (hfew (by decide))).1⟩
  · have h₁ : UmSender.Reached 5 { entity := { maxTxBufferSize := 5 } } := .start
    have h₂ := h₁.step (.pdcpPdu [1, 2, 3]) ⟨by simp, by decide⟩ rfl
    have h₃ := h₂.step (.pdcpPdu [4, 5]) ⟨by simp, by decide⟩ rfl
    have h₄ := h₃.step (.txOpportunity 4) (hfew (by decide)) rfl
    have h₅ := h₄.step (.txOpportunity 4) (hfew (by decide)) rfl
    obtain ⟨-, data, -, hread⟩ := umRun _ h₅
    refine ⟨_, h₅, rfl, rfl, fun packets hpackets => ?_⟩
    obtain ⟨u, hu, -⟩ := hread packets hpackets
    exact ⟨u, hu⟩
  · have h₁ : AmSender.Reached 0 { entity := { maxTxBufferSize := 0 } } := .start
    have h₂ := h₁.step (.pdcpPdu [1, 2, 3, 4]) ⟨by simp, by decide⟩ rfl
    have h₃ := h₂.step (.txOpportunity 7) (fun _ => hfew (by decide)) rfl
    have h₄ := h₃.step (.other { vtMs := .ofValue 600 }) trivial rfl
    obtain ⟨-, data, -, hread⟩ := amRun _ h₄
    obtain ⟨r, hr, -⟩ := hread 1
    exact ⟨_, h₄, rfl, rfl, r, hr⟩

/-- So many SDUs of one byte wait. -/
def oneByteSdus (n : Nat) : LteRlcUm :=
  { maxTxBufferSize := 999999999
    txBuffer := ⟨List.replicate n ⟨[0], .fullSdu⟩, n⟩ }

theorem oneByteSdus_sound (n : Nat) : (oneByteSdus n).txBuffer.Sound := by
  constructor
  · intro e he
    rw [List.eq_of_mem_replicate he]
    exact List.cons_ne_nil _ _
  · simp [oneByteSdus]

theorem length_oneByteSdus (n : Nat) : (oneByteSdus n).txBuffer.pdus.length = n :=
  List.length_replicate

/-- With more than 43689 of them, and octets for one indicator each. -/
theorem oneByteSdus_longHeader {n bytes : Nat} (hn : 43689 < n) (hbytes : 109226 ≤ bytes) :
    (oneByteSdus n).LongHeader bytes := by
  have hone : ∀ k, ((oneByteSdus n).txBuffer.pdus.take k).map (fun e => e.pdu.length) =
      List.replicate (min k n) 1 := fun k => by simp [oneByteSdus, List.take_replicate]
  constructor
  · rw [length_oneByteSdus]
    exact hn
  · intro e he
    rw [List.eq_of_mem_replicate (List.mem_of_mem_take he)]
    exact Nat.le_of_ble_eq_true rfl
  · rw [hone, List.sum_replicate_nat, Nat.min_eq_left hn.le, listSize]
    omega

/-- The header of 43690 SDUs of one byte has another size than the octets it serializes to. -/
theorem segmentation_overflows :
    ∃ u' rlcHeader data,
      (oneByteSdus 43690).buildPdu 109226 = some (u', some (rlcHeader, data)) ∧
      rlcHeader.headerLength ≠ rlcHeader.serialize.length ∧
      ¬FitsGrant 109226 rlcHeader.serialize rlcHeader.headerLength rlcHeader.lengthIndicators data
        (oneByteSdus 43690).txBuffer u'.txBuffer := by
  have hlong : (oneByteSdus 43690).LongHeader 109226 :=
    oneByteSdus_longHeader (Nat.lt_succ_self _) (Nat.le_refl _)
  have hne : (oneByteSdus 43690).txBuffer.pdus ≠ [] := by
    rw [← List.length_pos_iff, length_oneByteSdus]
    exact Nat.succ_pos _
  obtain ⟨u', h, data, hbuild, hiff, -⟩ := (oneByteSdus 43690).buildPdu_spec
    (by decide : 2 < 109226) hne (oneByteSdus_sound 43690)
  have hlength := mt hiff.mp (not_not.mpr hlong)
  exact ⟨u', h, data, hbuild, hlength, fun hfits => hlength hfits.serializedSize_eq⟩

end Ns3.Lte
