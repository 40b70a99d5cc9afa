import Ns3.Lte.InSequence
import Ns3.Lte.RlcAm

/-!
# The sender of the acknowledged mode

The new PDUs of a sender, in the order in which it sends them, carry consecutive segments of the
SDUs it accepted, whatever STATUS PDUs and retransmissions come between them, as long as no header
has `2 ^ 16` octets.
-/

namespace Ns3.Lte

open Ns3.Lib SduReassembly

/-- What happens to a sender. `other` stands for STATUS PDUs, retransmissions and timers: they leave
the transmission buffer and the value of VT(S) as they are, and any fields for the rest. -/
inductive AmEvent
  | pdcpPdu (p : List UInt8)
  | txOpportunity (bytes : Nat)
  | other (fields : LteRlcAm)

/-- A sender with the SDUs it has accepted and the new PDUs it has sent. -/
structure AmSender where
  entity : LteRlcAm := {}
  accepted : List (List UInt8) := []
  pdus : List (List UInt8) := []

namespace AmSender

def step (s : AmSender) : AmEvent → Option AmSender
  | .pdcpPdu p =>
    some { s with
      entity := s.entity.doTransmitPdcpPdu p
      accepted := if s.entity.accepts p then s.accepted ++ [p] else s.accepted }
  | .txOpportunity bytes => do
    let (entity, pdu) ← s.entity.doNotifyTxOpportunity bytes
    some { s with entity, pdus := s.pdus ++ pdu.toList }
  | .other fields =>
    some { s with
      entity := { fields with
        txonBuffer := s.entity.txonBuffer
        vtS := { fields.vtS with value := s.entity.vtS.value } } }

end AmSender

namespace LteRlcAm

/-- The next new PDU has so many length indicators that its header takes `2 ^ 16` octets. -/
def LongHeader (u : LteRlcAm) (bytes : Nat) : Prop :=
  HasIndicators u.txonBuffer.pdus (bytes - 4) 1 43688

/-- The size of a header is right when it has fewer length indicators. -/
theorem headerLength_eq_iff {d : DataField} (h : Announces d.extensionBits d.lengthIndicators)
    (sn : SequenceNumber10) (framingInfo poll : Nat) :
    (newDataHeader d sn framingInfo poll).headerLength =
      (newDataHeader d sn framingInfo poll).serialize.length ↔
        d.lengthIndicators.length < 43688 := by
  rw [headerLength_newDataHeader _ _ _ h, length_newDataHeader _ _ _ h, listSize]
  omega

end LteRlcAm

/-- The bytes of a PDU carry the segment `s` under the number of the position `k`. -/
structure AmCarries (k : Nat) (s : Segment UInt8) (bytes : List UInt8) : Prop where
  pieces_ne_nil : s.pieces ≠ []
  header : ∀ lastSegmentFlag, ∃ h,
    (LteRlcAmHeader.fresh lastSegmentFlag).deserialize bytes = some h ∧
    h.framingInfo = framingBits s.first s.last ∧ h.sequenceNumber = .pos k 0 ∧
    splitSdus h.extensionBits h.lengthIndicators (bytes.drop h.headerLength) = some s.pieces

theorem Filled.amCarries {kept : Option (List UInt8)} {sdus : List (List UInt8)} {d : DataField}
    {buffer : TxBuffer} (hd : Filled kept sdus d buffer)
    (hfew : d.lengthIndicators.length < 43688) {k : Nat} {sn : SequenceNumber10}
    (hsn : sn.value = k % 1024) (poll : Nat) :
    AmCarries k d.segment ((LteRlcAm.newDataHeader d sn
      (framingBits d.segment.first d.segment.last) poll).serialize ++ d.packet) := by
  have hamd := LteRlcAm.amdPdu_newDataHeader sn (framingBits d.segment.first d.segment.last) poll
    hd.announces (by omega)
  refine ⟨by simpa [DataField.segment] using hd.ne_nil, fun lastSegmentFlag => ?_⟩
  obtain ⟨lastOffset, hdes⟩ :=
    LteRlcAmHeader.deserialize_serialize_data hamd lastSegmentFlag d.packet
  refine ⟨_, hdes, ?_, ?_, ?_⟩
  · have hfi := framingBits_lt d.segment.first d.segment.last
    change framingBits d.segment.first d.segment.last &&& 0x03 = _
    rw [and_0x03]
    omega
  · simp only [LteRlcAm.sequenceNumber_newDataHeader, hsn, SequenceNumber10.ofValue_mod]
  · simp only [LteRlcAm.extensionBits_newDataHeader, LteRlcAm.lengthIndicators_newDataHeader,
      (LteRlcAm.headerLength_eq_iff hd.announces sn _ poll).mpr hfew, List.drop_left]
    exact hd.splitSdus

namespace AmSender

/-- The condition on an event: an SDU has at least one byte and leaves the size of the buffer below
`2 ^ 32`, and a new PDU has a header of fewer than `2 ^ 16` octets. -/
def Allows (s : AmSender) : AmEvent → Prop
  | .pdcpPdu p => p ≠ [] ∧ s.entity.txonBuffer.size + p.length < 2 ^ 32
  | .txOpportunity bytes => s.entity.sendsNewData bytes → ¬s.entity.LongHeader bytes
  | .other _ => True

/-- The states of a sender with this maximum size. -/
inductive Reached (maxTxBufferSize : Nat) : AmSender → Prop
  | start : Reached maxTxBufferSize { entity := { maxTxBufferSize } }
  | step {s s' : AmSender} (h : Reached maxTxBufferSize s) (e : AmEvent) (he : s.Allows e)
    (hs : s.step e = some s') : Reached maxTxBufferSize s'

/-- The PDUs carry `segs`, which end where the buffer goes on. -/
structure Inv (s : AmSender) (segs : List (Segment UInt8)) : Prop where
  vtS : s.entity.vtS.value = s.pdus.length % 1024
  length_eq : segs.length = s.pdus.length
  carries : ∀ k (hk : k < segs.length) (hk' : k < s.pdus.length), AmCarries k segs[k] s.pdus[k]
  sent : Sent s.accepted s.entity.txonBuffer segs

variable {s : AmSender} {segs : List (Segment UInt8)}

theorem Inv.start (maxTxBufferSize : Nat) : Inv { entity := { maxTxBufferSize } } [] where
  vtS := rfl
  length_eq := rfl
  carries := fun k hk => absurd hk (Nat.not_lt_zero k)
  sent := .start

theorem Inv.pdcpPdu (h : Inv s segs) {p : List UInt8} (hp : p ≠ [])
    (hsize : s.entity.txonBuffer.size + p.length < 2 ^ 32) :
    ∃ s', s.step (.pdcpPdu p) = some s' ∧ Inv s' segs := by
  refine ⟨_, rfl, ?_⟩
  by_cases hacc : s.entity.accepts p = true
  · simp only [LteRlcAm.doTransmitPdcpPdu, hacc, if_true, Nat.mod_eq_of_lt hsize]
    exact ⟨h.vtS, h.length_eq, h.carries, h.sent.accept hp⟩
  · simp only [LteRlcAm.doTransmitPdcpPdu, hacc]
    exact ⟨h.vtS, h.length_eq, h.carries, h.sent⟩

/-- One more PDU under the number VT(S), with one more segment. -/
theorem Inv.concat (h : Inv s segs) {entity : LteRlcAm} {seg : Segment UInt8} {pdu : List UInt8}
    (hvtS : entity.vtS = s.entity.vtS.succ) (hcarries : AmCarries s.pdus.length seg pdu)
    (hsent : Sent s.accepted entity.txonBuffer (segs ++ [seg])) :
    Inv { s with entity, pdus := s.pdus ++ [pdu] } (segs ++ [seg]) := by
  refine ⟨?_, ?_, ?_, hsent⟩
  · simp only [hvtS, SequenceNumber10.succ, h.vtS, List.length_append, List.length_singleton]
    omega
  · rw [List.length_append, List.length_append, h.length_eq]
    rfl
  · intro k hk hk'
    by_cases hlast : k < segs.length
    · rw [List.getElem_append_left hlast, List.getElem_append_left (h.length_eq ▸ hlast)]
      exact h.carries k hlast _
    · have hk_eq : k = segs.length := by
        rw [List.length_append, List.length_singleton] at hk
        omega
      subst hk_eq
      rw [List.getElem_append_right (by omega), List.getElem_append_right (by rw [h.length_eq])]
      simpa [h.length_eq] using hcarries

/-- A transmission opportunity sends no new data, or the next segment. -/
theorem Inv.txOpportunity (h : Inv s segs) {bytes : Nat}
    (hshort : s.entity.sendsNewData bytes → ¬s.entity.LongHeader bytes) :
    ∃ s' segs', s.step (.txOpportunity bytes) = some s' ∧ Inv s' (segs ++ segs') := by
  by_cases hnew : s.entity.sendsNewData bytes = true
  · obtain ⟨hpos, hbytes⟩ := LteRlcAm.sendsNewData_spec hnew
    obtain ⟨out, kept, rest, habs, hpend, haccepted⟩ := h.sent.pending
    obtain ⟨hne, hsize⟩ := h.sent.sound
    cases hpdus : s.entity.txonBuffer.pdus with
    | nil => simp [hpdus] at hsize; omega
    | cons first pdus =>
      rw [hpdus] at hpend hne hsize
      rw [List.map_cons, List.sum_cons] at hsize
      have hd := filled_fillDataField (s.entity.txonBuffer.size - first.pdu.length) 1
        hpend hne (by omega) (by omega : 0 < bytes - 4)
      have hlong := hshort hnew
      rw [LteRlcAm.LongHeader, hpdus, ← lt_length_lengthIndicators_iff
        (s.entity.txonBuffer.size - first.pdu.length) hne (by omega)] at hlong
      rcases hfill : fillDataField pdus (s.entity.txonBuffer.size - first.pdu.length) first
        (bytes - 4) 1 with ⟨d, buffer⟩
      rw [hfill] at hd hlong
      change Filled kept rest d buffer at hd
      have hfew : d.lengthIndicators.length < 43688 := Nat.lt_succ_of_le (Nat.le_of_not_lt hlong)
      obtain ⟨u', poll, hbuild, hbuffer, hvtS⟩ :=
        s.entity.buildNewPdu_cons hpdus hfill hd.ne_nil
      have hadd := addHeader_eq ((LteRlcAm.headerLength_eq_iff hd.announces s.entity.vtS
        (framingBits d.segment.first d.segment.last) poll).mpr hfew) d.packet
      refine ⟨_, [d.segment], by
        simp [step, LteRlcAm.doNotifyTxOpportunity, hnew, hbuild, hadd]; rfl, ?_⟩
      apply h.concat
      · exact hvtS
      · exact hd.amCarries hfew h.vtS poll
      · have hsent := Sent.fill habs haccepted hd
        rw [← hbuffer] at hsent
        exact hsent
  · refine ⟨_, [], by simp [step, LteRlcAm.doNotifyTxOpportunity, hnew]; rfl, ?_⟩
    simpa using h

theorem step_inv (h : Inv s segs) {e : AmEvent} (he : s.Allows e) :
    ∃ s' segs', s.step e = some s' ∧ Inv s' (segs ++ segs') := by
  cases e with
  | pdcpPdu p =>
    obtain ⟨s', hs', hinv⟩ := h.pdcpPdu he.1 he.2
    exact ⟨s', [], hs', by simpa using hinv⟩
  | txOpportunity bytes => exact h.txOpportunity he
  | other fields =>
    refine ⟨_, [], rfl, ?_⟩
    rw [List.append_nil]
    exact ⟨h.vtS, h.length_eq, h.carries, h.sent⟩

/-- The new PDUs of a sender carry the SDUs it accepted. -/
theorem Reached.inv {maxTxBufferSize : Nat} (h : Reached maxTxBufferSize s) :
    ∃ segs, Inv s segs := by
  induction h with
  | start => exact ⟨[], .start maxTxBufferSize⟩
  | step h e he hs ih =>
    obtain ⟨segs, hinv⟩ := ih
    obtain ⟨s', segs', hs', hinv'⟩ := step_inv hinv he
    cases hs.symm.trans hs'
    exact ⟨_, hinv'⟩

end AmSender

end Ns3.Lte
