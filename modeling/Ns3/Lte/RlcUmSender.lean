import Ns3.Lte.InSequence
import Ns3.Lte.RlcUm

/-!
# The sender of the unacknowledged mode

The PDUs of a sender, in the order in which it sends them, carry consecutive segments of the SDUs
it accepted, as long as no header has `2 ^ 16` octets.
-/

namespace Ns3.Lte

open Ns3.Lib

/-- What the upper layer and the MAC ask of the sender. -/
inductive SendEvent
  | pdcpPdu (p : List UInt8)
  | txOpportunity (bytes : Nat)
deriving DecidableEq, Repr

/-- A sender with the SDUs it has accepted and the PDUs it has sent. -/
structure UmSender where
  entity : LteRlcUm := {}
  accepted : List (List UInt8) := []
  pdus : List (List UInt8) := []

namespace UmSender

def step (s : UmSender) : SendEvent → Option UmSender
  | .pdcpPdu p =>
    some { s with
      entity := s.entity.doTransmitPdcpPdu p
      accepted := if s.entity.accepts p then s.accepted ++ [p] else s.accepted }
  | .txOpportunity bytes => do
    let (entity, pdu) ← s.entity.doNotifyTxOpportunity bytes
    some { s with entity, pdus := s.pdus ++ pdu.toList }

end UmSender

namespace LteRlcUm

/-- The next PDU has so many length indicators that its header takes `2 ^ 16` octets. -/
def LongHeader (u : LteRlcUm) (bytes : Nat) : Prop :=
  HasIndicators u.txBuffer.pdus (bytes - 2) 1 43689

section Header

variable {es lis : List Nat} (h : Announces es lis) (sn : SequenceNumber10) (framingInfo : Nat)
include h

theorem length_header :
    (((LteRlcHeader.push es lis).setSequenceNumber sn).setFramingInfo
      framingInfo).serialize.length =
      2 + listSize 1 lis.length := by
  rw [← length_writeLis_tail h, LteRlcHeader.length_serialize]
  simp [LteRlcHeader.setSequenceNumber, LteRlcHeader.setFramingInfo]

theorem headerLength_header :
    (((LteRlcHeader.push es lis).setSequenceNumber sn).setFramingInfo framingInfo).headerLength =
      (2 + listSize 1 lis.length) % 2 ^ 16 := by
  rw [← length_writeLis_tail h]
  apply (LteRlcHeader.headerLength_push h).trans
  rw [LteRlcHeader.length_serialize, LteRlcHeader.extensionBits_push,
    LteRlcHeader.lengthIndicators_push]

/-- The size of a header is right when it has fewer length indicators. -/
theorem headerLength_eq_iff :
    (((LteRlcHeader.push es lis).setSequenceNumber sn).setFramingInfo framingInfo).headerLength =
      (((LteRlcHeader.push es lis).setSequenceNumber sn).setFramingInfo
        framingInfo).serialize.length ↔ lis.length < 43689 := by
  rw [headerLength_header h, length_header h, listSize]
  omega

end Header

end LteRlcUm

/-- The bytes of a PDU carry the segment `s` under the number of the position `k`. -/
structure UmCarries (k : Nat) (s : Segment UInt8) (bytes : List UInt8) : Prop where
  pieces_ne_nil : s.pieces ≠ []
  header : ∃ h, LteRlcHeader.deserialize bytes = some h ∧
    h.framingInfo = framingBits s.first s.last ∧ h.sequenceNumber = .pos k 0 ∧
    splitSdus h.extensionBits h.lengthIndicators (bytes.drop h.headerLength) = some s.pieces

section Carries

variable {kept : Option (List UInt8)} {sdus : List (List UInt8)} {d : DataField}
  {buffer : TxBuffer}

theorem Filled.umCarries (hd : Filled kept sdus d buffer)
    (hfew : d.lengthIndicators.length < 43689) (k : Nat) (base : Int) :
    UmCarries k d.segment
      ((((LteRlcHeader.push d.extensionBits d.lengthIndicators).setSequenceNumber
        (.pos k base)).setFramingInfo (framingBits d.segment.first d.segment.last)).serialize ++
        d.packet) := by
  have hfi := framingBits_lt d.segment.first d.segment.last
  have hfield : framingBits d.segment.first d.segment.last &&& 0x03 =
      framingBits d.segment.first d.segment.last := by
    rw [and_0x03]
    omega
  generalize hh : ((LteRlcHeader.push d.extensionBits d.lengthIndicators).setSequenceNumber
    (.pos k base)).setFramingInfo (framingBits d.segment.first d.segment.last) = h
  have hh_fi : h.framingInfo = framingBits d.segment.first d.segment.last := by
    rw [← hh]
    exact hfield
  have hh_sn : h.sequenceNumber = .pos k base := by rw [← hh]; rfl
  have hh_es : h.extensionBits = d.extensionBits := by
    rw [← hh]
    exact LteRlcHeader.extensionBits_push _ _
  have hh_lis : h.lengthIndicators = d.lengthIndicators := by
    rw [← hh]
    exact LteRlcHeader.lengthIndicators_push _ _
  have hh_len : h.headerLength = h.serialize.length := by
    rw [← hh]
    exact (LteRlcUm.headerLength_eq_iff hd.announces _ _).mpr hfew
  have hdes := LteRlcHeader.deserialize_serialize (h := h) (by omega)
    (by rw [hh_sn]; exact SequenceNumber10.value_pos_lt _ _)
    (by rw [hh_es, hh_lis]; exact hd.announces)
    (by rw [← hh, LteRlcUm.headerLength_header hd.announces, LteRlcUm.length_header hd.announces])
    d.packet
  refine ⟨by simpa [DataField.segment] using hd.ne_nil, _, hdes, hh_fi, ?_, ?_⟩
  · simp only [hh_sn, SequenceNumber10.ofValue_pos]
  · simp only [hh_es, hh_lis, hh_len, List.drop_left]
    exact hd.splitSdus

end Carries

namespace UmSender

/-- The condition on an event: an SDU has at least one byte and leaves the size of the buffer below
`2 ^ 32`, and a PDU has a header of fewer than `2 ^ 16` octets. -/
def Allows (s : UmSender) : SendEvent → Prop
  | .pdcpPdu p => p ≠ [] ∧ s.entity.txBuffer.size + p.length < 2 ^ 32
  | .txOpportunity bytes => ¬s.entity.LongHeader bytes

/-- The states of a sender with this maximum size. -/
inductive Reached (maxTxBufferSize : Nat) : UmSender → Prop
  | start : Reached maxTxBufferSize { entity := { maxTxBufferSize } }
  | step {s s' : UmSender} (h : Reached maxTxBufferSize s) (e : SendEvent) (he : s.Allows e)
    (hs : s.step e = some s') : Reached maxTxBufferSize s'

/-- The PDUs carry `segs`, which end where the buffer goes on. -/
structure Inv (s : UmSender) (segs : List (Segment UInt8)) : Prop where
  sequenceNumber : s.entity.sequenceNumber = .pos s.pdus.length 0
  length_eq : segs.length = s.pdus.length
  carries : ∀ k (hk : k < segs.length) (hk' : k < s.pdus.length), UmCarries k segs[k] s.pdus[k]
  pending : ∃ out kept rest, absorbAll segs = some (out, kept) ∧
    Pending kept s.entity.txBuffer.pdus rest ∧ s.accepted = out ++ rest
  pdu_ne_nil : ∀ e ∈ s.entity.txBuffer.pdus, e.pdu ≠ []
  size_eq : s.entity.txBuffer.size = (s.entity.txBuffer.pdus.map fun e => e.pdu.length).sum

variable {s : UmSender} {segs : List (Segment UInt8)}

theorem Inv.start (maxTxBufferSize : Nat) : Inv { entity := { maxTxBufferSize } } [] where
  sequenceNumber := rfl
  length_eq := rfl
  carries := fun k hk => absurd hk (Nat.not_lt_zero k)
  pending := ⟨[], none, [], rfl, .fresh (by simp), rfl⟩
  pdu_ne_nil := fun e he => absurd he List.not_mem_nil
  size_eq := rfl

theorem Inv.pdcpPdu (h : Inv s segs) {p : List UInt8} (hp : p ≠ [])
    (hsize : s.entity.txBuffer.size + p.length < 2 ^ 32) :
    ∃ s', s.step (.pdcpPdu p) = some s' ∧ Inv s' segs := by
  refine ⟨_, rfl, ?_⟩
  by_cases hacc : s.entity.accepts p = true
  · obtain ⟨out, kept, rest, habs, hpend, haccepted⟩ := h.pending
    simp only [LteRlcUm.doTransmitPdcpPdu, hacc, if_true]
    refine ⟨h.sequenceNumber, h.length_eq, h.carries, ⟨out, kept, rest ++ [p], habs,
      hpend.append p, ?_⟩, ?_, ?_⟩
    · rw [haccepted, List.append_assoc]
    · intro e he
      rcases List.mem_append.mp he with he | he
      · exact h.pdu_ne_nil e he
      · rw [List.mem_singleton.mp he]
        exact hp
    · rw [Nat.mod_eq_of_lt hsize]
      simp [h.size_eq]
  · simp only [LteRlcUm.doTransmitPdcpPdu, hacc]
    exact ⟨h.sequenceNumber, h.length_eq, h.carries, h.pending, h.pdu_ne_nil, h.size_eq⟩

/-- A PDU that was filled from the buffer is the next one. -/
theorem Inv.sent {d : DataField} {buffer : TxBuffer} {out rest : List (List UInt8)}
    {kept : Option (List UInt8)} (h : Inv s segs) (hd : Filled kept rest d buffer)
    (habs : absorbAll segs = some (out, kept)) (haccepted : s.accepted = out ++ rest)
    (hfew : d.lengthIndicators.length < 43689) :
    Inv { s with
      entity := { s.entity with
        txBuffer := buffer
        sequenceNumber := s.entity.sequenceNumber.succ }
      pdus := s.pdus ++ [(((LteRlcHeader.push d.extensionBits d.lengthIndicators).setSequenceNumber
        s.entity.sequenceNumber).setFramingInfo
          (framingBits d.segment.first d.segment.last)).serialize ++ d.packet] }
      (segs ++ [d.segment]) := by
  obtain ⟨units, kept', rest', hseg, hrest, hpend⟩ := hd.absorbs
  refine ⟨?_, ?_, ?_, ⟨out ++ units, kept', rest', absorbAll_concat habs hseg, hpend, ?_⟩,
    hd.pdu_ne_nil, hd.size_eq⟩
  · rw [h.sequenceNumber, SequenceNumber10.pos_succ, List.length_append, List.length_singleton]
    rfl
  · rw [List.length_append, List.length_append, h.length_eq]
    rfl
  · intro k hk hk'
    by_cases hlast : k < segs.length
    · rw [List.getElem_append_left hlast, List.getElem_append_left (h.length_eq ▸ hlast)]
      exact h.carries k hlast _
    · have hk_eq : k = segs.length := by
        rw [List.length_append, List.length_singleton] at hk
        omega
      subst hk_eq
      rw [List.getElem_append_right (by omega), List.getElem_append_right (by rw [h.length_eq])]
      simp only [Nat.sub_self, h.length_eq, List.getElem_cons_zero, h.sequenceNumber]
      exact hd.umCarries hfew _ 0
  · rw [haccepted, hrest, List.append_assoc]

/-- A transmission opportunity sends nothing, or the next segment. -/
theorem Inv.txOpportunity (h : Inv s segs) {bytes : Nat} (hshort : ¬s.entity.LongHeader bytes) :
    ∃ s' segs', s.step (.txOpportunity bytes) = some s' ∧ Inv s' (segs ++ segs') := by
  by_cases hbytes : bytes ≤ 2
  · refine ⟨_, [], by simp [step, LteRlcUm.doNotifyTxOpportunity, hbytes]; rfl, ?_⟩
    simpa using h
  · cases hpdus : s.entity.txBuffer.pdus with
    | nil =>
      refine ⟨_, [], by simp [step, LteRlcUm.doNotifyTxOpportunity, hbytes, hpdus]; rfl, ?_⟩
      simpa using h
    | cons first pdus =>
      obtain ⟨out, kept, rest, habs, hpend, haccepted⟩ := h.pending
      have hne := h.pdu_ne_nil
      have hsize := h.size_eq
      rw [hpdus] at hpend hne hsize
      rw [List.map_cons, List.sum_cons] at hsize
      have hd := filled_fillDataField (s.entity.txBuffer.size - first.pdu.length) 1
        hpend hne (by omega) (by omega : 0 < bytes - 2)
      rw [LteRlcUm.LongHeader, hpdus, ← lt_length_lengthIndicators_iff
        (s.entity.txBuffer.size - first.pdu.length) hne (by omega)] at hshort
      rcases hfill : fillDataField pdus (s.entity.txBuffer.size - first.pdu.length) first
        (bytes - 2) 1 with ⟨d, buffer⟩
      rw [hfill] at hd hshort
      have hfew : d.lengthIndicators.length < 43689 := Nat.lt_succ_of_le (Nat.le_of_not_lt hshort)
      have hadd := addHeader_eq ((LteRlcUm.headerLength_eq_iff hd.announces
        s.entity.sequenceNumber (framingBits d.segment.first d.segment.last)).mpr hfew) d.packet
      refine ⟨_, [d.segment], by simp [step, LteRlcUm.doNotifyTxOpportunity, hbytes, hpdus, hfill,
        DataField.framingInfo_segments hd.ne_nil, hadd]; rfl, ?_⟩
      exact h.sent hd habs haccepted hfew

theorem step_inv (h : Inv s segs) {e : SendEvent} (he : s.Allows e) :
    ∃ s' segs', s.step e = some s' ∧ Inv s' (segs ++ segs') := by
  cases e with
  | pdcpPdu p =>
    obtain ⟨s', hs', hinv⟩ := h.pdcpPdu he.1 he.2
    exact ⟨s', [], hs', by simpa using hinv⟩
  | txOpportunity bytes => exact h.txOpportunity he

/-- The PDUs of a sender carry the SDUs it accepted. -/
theorem Reached.inv {maxTxBufferSize : Nat} (h : Reached maxTxBufferSize s) :
    ∃ segs, Inv s segs := by
  induction h with
  | start => exact ⟨[], .start maxTxBufferSize⟩
  | step h e he hs ih =>
    obtain ⟨segs, hinv⟩ := ih
    obtain ⟨s', segs', hs', hinv'⟩ := step_inv hinv he
    cases hs.symm.trans hs'
    exact ⟨_, hinv'⟩

end UmSender

end Ns3.Lte
