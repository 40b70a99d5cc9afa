import Ns3.Lte.DataFieldFits
import Ns3.Lte.SduReassembly

/-!
# PDUs that are received in sequence

A sender whose PDUs carry consecutive segments has sent a prefix of the bytes it accepted, and the
segments complete the SDUs that end in this prefix (`Sent`). A receiver that reads all of them in
their order delivers what they complete (`Received`).
-/

namespace Ns3.Lte

open Ns3.Lib

/-- The bytes of a segment. -/
def segmentBytes (s : Segment UInt8) : List UInt8 := s.pieces.flatten

/-- The segments that were sent end where the buffer goes on. -/
structure Sent (accepted : List (List UInt8)) (buffer : TxBuffer) (segs : List (Segment UInt8)) :
    Prop where
  pending : ∃ out kept rest, absorbAll segs = some (out, kept) ∧ Pending kept buffer.pdus rest ∧
    accepted = out ++ rest
  sound : buffer.Sound

section Sender

variable {accepted : List (List UInt8)} {buffer buffer' : TxBuffer} {segs : List (Segment UInt8)}
  {kept : Option (List UInt8)} {pdus : List TxPdu} {out rest : List (List UInt8)} {d : DataField}

theorem Sent.start : Sent [] {} [] where
  pending := ⟨[], none, [], rfl, .fresh (by simp), rfl⟩
  sound := ⟨fun e he => absurd he List.not_mem_nil, rfl⟩

/-- An SDU is accepted. -/
theorem Sent.accept (h : Sent accepted buffer segs) {p : List UInt8} (hp : p ≠ []) :
    Sent (accepted ++ [p]) ⟨buffer.pdus ++ [⟨p, .fullSdu⟩], buffer.size + p.length⟩ segs := by
  obtain ⟨out, kept, rest, habs, hpend, haccepted⟩ := h.pending
  refine ⟨⟨out, kept, rest ++ [p], habs, hpend.append p, ?_⟩, ?_, ?_⟩
  · rw [haccepted, List.append_assoc]
  · intro e he
    rcases List.mem_append.mp he with he | he
    · exact h.sound.pdu_ne_nil e he
    · rw [List.mem_singleton.mp he]
      exact hp
  · simp [h.sound.size_eq]

/-- One more data field is filled from the buffer. -/
theorem Sent.fill (h : absorbAll segs = some (out, kept)) (haccepted : accepted = out ++ rest)
    (hd : Filled kept rest d buffer) : Sent accepted buffer (segs ++ [d.segment]) := by
  obtain ⟨units, kept', rest', hseg, hrest, hpend⟩ := hd.absorbs
  refine ⟨⟨out ++ units, kept', rest', absorbAll_concat h hseg, hpend, ?_⟩, hd.pdu_ne_nil,
    hd.size_eq⟩
  rw [haccepted, hrest, List.append_assoc]

theorem Pending.flatten (h : Pending kept pdus rest) :
    rest.flatten = kept.getD [] ++ queuedBytes pdus := by
  cases h with
  | fresh h => rfl
  | cut h => simp [queuedBytes]

/-- The SDU at the front of the buffer has not been sent to its end. -/
theorem Pending.completed (h : Pending kept pdus rest) (hne : ∀ e ∈ pdus, e.pdu ≠ []) :
    completed (kept.getD []).length rest = [] := by
  apply completed_eq_nil
  intro unit hunit
  cases h with
  | fresh h =>
    cases pdus with
    | nil => cases hunit
    | cons e pdus =>
      cases hunit
      exact List.length_pos_iff.mpr (hne e List.mem_cons_self)
  | @cut pdus sent rest h =>
    cases hunit
    have hrest := List.length_pos_iff.mpr (hne _ List.mem_cons_self)
    simp only [Option.getD_some, List.length_append]
    exact Nat.lt_add_of_pos_right hrest

/-- The pieces of a packet are those that were put into its data field. -/
theorem Filled.splitSdus (hd : Filled kept sdus d buffer) :
    splitSdus d.extensionBits d.lengthIndicators d.packet = some d.segment.pieces := by
  apply SduReassembly.splitSdus_flatten hd.announces
  · simpa using hd.ne_nil
  · rw [hd.lengths, List.map_dropLast, List.map_dropLast, List.map_map]
    rfl

/-- The bytes that were sent and those of the buffer are all that were accepted. -/
theorem Sent.conserves (h : Sent accepted buffer segs) :
    (segs.map segmentBytes).flatten ++ queuedBytes buffer.pdus = accepted.flatten := by
  obtain ⟨out, kept, rest, habs, hpend, haccepted⟩ := h.pending
  have hsent := absorbAll_flatten habs
  have hrest := hpend.flatten
  calc (segs.map segmentBytes).flatten ++ queuedBytes buffer.pdus
      = (out.flatten ++ kept.getD []) ++ queuedBytes buffer.pdus := by rw [hsent]; rfl
    _ = out.flatten ++ rest.flatten := by rw [hrest, List.append_assoc]
    _ = accepted.flatten := by rw [haccepted, List.flatten_append]

/-- What the segments complete are the SDUs of which the last byte was sent. -/
theorem Sent.completed (h : Sent accepted buffer segs) (habs : absorbAll segs = some (out, kept)) :
    completed (segs.map segmentBytes).flatten.length accepted = out := by
  obtain ⟨out', kept', rest, habs', hpend, haccepted⟩ := h.pending
  rw [habs] at habs'
  cases habs'
  have hsent : (segs.map segmentBytes).flatten = out.flatten ++ kept.getD [] :=
    (absorbAll_flatten habs).symm
  rw [haccepted, hsent, List.length_append, completed_append,
    hpend.completed h.sound.pdu_ne_nil, List.append_nil]

end Sender

namespace SduReassembly

/-- The receiver has come past `segs` without a loss. -/
structure Received (segs : List (Segment UInt8)) (r : SduReassembly) : Prop where
  settled : r.Settled
  expected : r.expectedSeqNumber.value = segs.length % 1024
  absorbs : absorbAll segs = some (r.delivered, r.kept)

variable {segs : List (Segment UInt8)} {s : Segment UInt8} {r : SduReassembly}
  {all : List (List UInt8) × Option (List UInt8)} {es lis : List Nat} {packet : List UInt8}

theorem Received.start : Received [] {} where
  settled := ⟨rfl, nofun⟩
  expected := rfl
  absorbs := rfl

/-- The PDU that is expected, in either mode. -/
theorem Received.next (h : Received segs r) (um : Bool) (hall : absorbAll (segs ++ [s]) = some all)
    (hsplit : splitSdus es lis packet = some s.pieces) (hne : s.pieces ≠ []) :
    ∃ r', r.reassembleAndDeliver um (framingBits s.first s.last) (.pos segs.length 0) es lis
      packet = some r' ∧ Received (segs ++ [s]) r' := by
  obtain ⟨out, kept, units, hout, hunits, hnext⟩ := absorbAll_of_concat hall
  rw [h.absorbs] at hout
  cases hout
  have hexpected : (SequenceNumber10.pos segs.length 0).eq r.expectedSeqNumber = true := by
    simp [SequenceNumber10.eq, h.expected]
  obtain ⟨r', hr', hafter⟩ := deliver_absorb um h.settled hsplit hne hexpected hunits
  refine ⟨r', hr', hafter.settled, ?_, ?_⟩
  · simp only [hafter.expectedSeqNumber, SequenceNumber10.succ, h.expected, List.length_append,
      List.length_singleton]
    omega
  · rw [hafter.delivered, hafter.kept]
    exact absorbAll_concat h.absorbs hunits

/-- A receiver that takes each of the packets as the next segment takes all of them. -/
theorem received_foldlM {σ β : Type} {f : σ → β → Option σ} {g : σ → SduReassembly}
    {packets : List β} {x : σ} (hlen : packets.length = segs.length) (hx : Received [] (g x))
    (hstep : ∀ k (hk : k < packets.length) (hk' : k < segs.length) x, Received (segs.take k) (g x) →
      ∃ x', f x packets[k] = some x' ∧ Received (segs.take k ++ [segs[k]]) (g x')) :
    ∃ x', packets.foldlM f x = some x' ∧ Received segs (g x') := by
  have hprefix : ∀ n ≤ packets.length,
      ∃ x', (packets.take n).foldlM f x = some x' ∧ Received (segs.take n) (g x') := by
    intro n
    induction n with
    | zero => exact fun _ => ⟨x, by simp, by simpa using hx⟩
    | succ n ih =>
      intro hn
      obtain ⟨x1, hfold, hrec⟩ := ih (by omega)
      obtain ⟨x2, hf, hrec2⟩ := hstep n hn (by omega) x1 hrec
      refine ⟨x2, ?_, ?_⟩
      · rw [List.take_succ_eq_append_getElem hn, List.foldlM_append, hfold]
        simp [hf]
      · rw [List.take_succ_eq_append_getElem (by omega)]
        exact hrec2
  obtain ⟨x', hfold, hrec⟩ := hprefix packets.length (Nat.le_refl _)
  rw [List.take_length] at hfold
  rw [List.take_of_length_le (by omega)] at hrec
  exact ⟨x', hfold, hrec⟩

/-- The pieces of a packet hold its bytes. -/
theorem flatten_splitSdus {pieces : List (List UInt8)}
    (h : splitSdus es lis packet = some pieces) : pieces.flatten = packet := by
  induction es generalizing lis packet pieces with
  | nil => cases h
  | cons e es ih =>
    rw [splitSdus.eq_def] at h
    simp only at h
    split at h
    · cases h
      simp
    · cases lis with
      | nil => cases h
      | cons li lis =>
        simp only at h
        split at h
        · obtain ⟨rest, hrest, rfl⟩ := Option.map_eq_some_iff.mp h
          rw [List.flatten_cons, ih hrest, List.take_append_drop]
        · cases h

end SduReassembly

end Ns3.Lte
