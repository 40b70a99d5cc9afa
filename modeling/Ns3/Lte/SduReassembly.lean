import Ns3.Lte.Segmentation

/-!
# Reassembly of SDUs

`ReassembleAndDeliver` of `LteRlcUm` and of `LteRlcAm` takes the pieces of a PDU apart and joins
them with the SDU it keeps. The two differ in one place: after a PDU that was not lost, with no SDU
kept, `LteRlcUm` discards a piece that continues an SDU, and `LteRlcAm` holds this to be impossible.
-/

namespace Ns3.Lte

open Ns3.Lib

inductive ReassemblingState
  | waitingS0Full
  | waitingSiSf
deriving DecidableEq, Repr

/-- The fields of the SDU reassembling process. `delivered` is what `ReceivePdcpPdu` was called
with, `impossible` counts the transitions that are logged as not possible. -/
structure SduReassembly where
  sdusBuffer : List (List UInt8) := []
  reassemblingState : ReassemblingState := .waitingS0Full
  keepS0 : Option (List UInt8) := none
  expectedSeqNumber : SequenceNumber10 := .ofValue 0
  delivered : List (List UInt8) := []
  impossible : Nat := 0
deriving DecidableEq, Repr

/-- The loop that builds the list of SDUs: a length indicator for each extension bit but the last,
and the rest of the packet. -/
def splitSdus : List Nat → List Nat → List UInt8 → Option (List (List UInt8))
  | [], _, _ => none
  | e :: es, lis, packet =>
    if e = 0 then some [packet]
    else
      match lis with
      | [] => none
      | li :: lis =>
        if li ≤ packet.length then
          (splitSdus es lis (packet.drop li)).map fun sdus => packet.take li :: sdus
        else none

namespace SduReassembly

def setState (r : SduReassembly) (reassemblingState : ReassemblingState) : SduReassembly :=
  { r with reassemblingState }

/-- Deliver all SDUs of the list. -/
def deliverAll (r : SduReassembly) : SduReassembly :=
  { r with delivered := r.delivered ++ r.sdusBuffer, sdusBuffer := [] }

/-- Deliver all SDUs of the list but the last, and keep that one. -/
def deliverFull (r : SduReassembly) : SduReassembly :=
  { r with
    delivered := r.delivered ++ r.sdusBuffer.dropLast
    keepS0 := r.sdusBuffer.getLast?
    sdusBuffer := [] }

/-- Discard SI or SN. -/
def popFront (r : SduReassembly) : SduReassembly := { r with sdusBuffer := r.sdusBuffer.tail }

/-- The SDU that is kept with the front of the list. -/
def appendFront (r : SduReassembly) : Option SduReassembly :=
  match r.keepS0, r.sdusBuffer with
  | some s0, front :: sdus => some { r with keepS0 := some (s0 ++ front), sdusBuffer := sdus }
  | _, _ => none

/-- Deliver the SDU that is kept. -/
def deliverS0 (r : SduReassembly) : SduReassembly :=
  { r with delivered := r.delivered ++ r.keepS0.toList }

/-- The cases in which no kept SDU is continued. -/
def restart (r : SduReassembly) (framingInfo : Nat) : SduReassembly :=
  match framingInfo with
  | 0 => (r.setState .waitingS0Full).deliverAll
  | 1 => (r.setState .waitingSiSf).deliverFull
  | 2 => (r.setState .waitingS0Full).popFront.deliverAll
  | 3 =>
    if r.sdusBuffer.length = 1 then (r.setState .waitingS0Full).popFront
    else (r.setState .waitingSiSf).popFront.deliverFull
  | _ => { r with impossible := r.impossible + 1 }

/-- The switch over the state and the framing info. -/
def reassemble (r : SduReassembly) (um expectedSnLost : Bool) (framingInfo : Nat) :
    Option SduReassembly :=
  match expectedSnLost, r.reassemblingState with
  | false, .waitingS0Full =>
    if um ∨ framingInfo = 0 ∨ framingInfo = 1 then some (r.restart framingInfo)
    else some { r with impossible := r.impossible + 1 }
  | false, .waitingSiSf =>
    match framingInfo with
    | 2 => do
      let r ← (r.setState .waitingS0Full).appendFront
      some r.deliverS0.deliverAll
    | 3 => do
      if r.sdusBuffer.length = 1 then r.appendFront
      else
        let r ← r.appendFront
        some r.deliverS0.deliverFull
    | _ => some { r with impossible := r.impossible + 1 }
  | true, .waitingS0Full => some (r.restart framingInfo)
  | true, .waitingSiSf => some ({ r with keepS0 := none }.restart framingInfo)

/-- `ReassembleAndDeliver`, with the fields of the header and the packet behind it. -/
def reassembleAndDeliver (r : SduReassembly) (um : Bool) (framingInfo : Nat)
    (currSeqNumber : SequenceNumber10) (es lis : List Nat) (packet : List UInt8) :
    Option SduReassembly := do
  let expectedSnLost := !currSeqNumber.eq r.expectedSeqNumber
  let sdus ← splitSdus es lis packet
  reassemble
    { r with
      expectedSeqNumber := if expectedSnLost then currSeqNumber.add 1 else r.expectedSeqNumber.succ
      sdusBuffer := r.sdusBuffer ++ sdus }
    um expectedSnLost framingInfo

/-- The SDU that waits for its continuation. -/
def kept (r : SduReassembly) : Option (List UInt8) :=
  match r.reassemblingState with
  | .waitingS0Full => none
  | .waitingSiSf => r.keepS0

/-- Between two PDUs no SDU waits in the list, and one is kept if its continuation is awaited. -/
structure Settled (r : SduReassembly) : Prop where
  sdusBuffer_eq : r.sdusBuffer = []
  keepS0 : r.reassemblingState = .waitingSiSf → r.keepS0.isSome

/-- After a PDU: `units` were delivered, and `unit` is kept. -/
structure After (r r' : SduReassembly) (units : List (List UInt8)) (unit : Option (List UInt8)) :
    Prop where
  settled : r'.Settled
  delivered : r'.delivered = r.delivered ++ units
  kept : r'.kept = unit
  impossible : r'.impossible = r.impossible
  expectedSeqNumber : r'.expectedSeqNumber = r.expectedSeqNumber

variable {r : SduReassembly} {s : Segment UInt8}

theorem after_restart (hs : r.sdusBuffer = s.pieces) (hne : s.pieces ≠ []) :
    After r (r.restart (framingBits s.first s.last)) s.salvage.1 s.salvage.2 := by
  obtain ⟨pieces, first, last⟩ := s
  obtain ⟨piece, units, rfl⟩ := List.exists_cons_of_ne_nil hne
  cases first with
  | true =>
    cases last with
    | true =>
      simp only [framingBits_full]
      refine ⟨⟨rfl, fun h => by cases h⟩, ?_, rfl, rfl, rfl⟩
      simp [restart, setState, deliverAll, Segment.salvage, Segment.close, hs]
    | false =>
      simp only [framingBits_first]
      refine ⟨⟨rfl, fun _ => ?_⟩, ?_, ?_, rfl, rfl⟩ <;>
        simp [restart, setState, deliverFull, Segment.salvage, Segment.close, hs,
          SduReassembly.kept]
  | false =>
    cases last with
    | true =>
      simp only [framingBits_last]
      refine ⟨⟨rfl, fun h => by cases h⟩, ?_, rfl, rfl, rfl⟩
      simp [restart, setState, popFront, deliverAll, Segment.salvage, Segment.close, hs]
    | false =>
      simp only [framingBits_middle]
      cases units with
      | nil =>
        refine ⟨⟨?_, ?_⟩, ?_, ?_, ?_, ?_⟩ <;>
          simp [restart, setState, popFront, Segment.salvage, Segment.close, hs,
            SduReassembly.kept]
      | cons unit units =>
        refine ⟨⟨?_, ?_⟩, ?_, ?_, ?_, ?_⟩ <;>
          simp [restart, setState, popFront, deliverFull, Segment.salvage, Segment.close, hs,
            SduReassembly.kept]

/-- After losses, what a segment gives without the SDU that is kept. -/
theorem reassemble_lost (um : Bool) (hs : r.sdusBuffer = s.pieces) (hne : s.pieces ≠ []) :
    ∃ r', r.reassemble um true (framingBits s.first s.last) = some r' ∧
      After r r' s.salvage.1 s.salvage.2 := by
  cases hstate : r.reassemblingState with
  | waitingS0Full => exact ⟨_, by simp only [reassemble, hstate], after_restart hs hne⟩
  | waitingSiSf =>
    obtain ⟨hsettled, hdelivered, hkept, himpossible, hexpected⟩ :=
      after_restart (r := { r with keepS0 := none }) hs hne
    exact ⟨_, by simp only [reassemble, hstate], hsettled, hdelivered, hkept, himpossible,
      hexpected⟩

/-- Without losses, what a segment completes of the SDU that is kept. -/
theorem reassemble_absorb (um : Bool) {units : List (List UInt8)} {unit : Option (List UInt8)}
    (hkeep : r.reassemblingState = .waitingSiSf → r.keepS0.isSome) (hs : r.sdusBuffer = s.pieces)
    (hne : s.pieces ≠ []) (habs : s.absorb r.kept = some (units, unit)) :
    ∃ r', r.reassemble um false (framingBits s.first s.last) = some r' ∧ After r r' units unit := by
  cases hstate : r.reassemblingState with
  | waitingS0Full =>
    have hkept : r.kept = none := by simp only [kept, hstate]
    rw [hkept] at habs
    obtain ⟨hfirst, hsal⟩ := Segment.absorb_none habs
    have hafter := after_restart hs hne
    rw [hsal] at hafter
    refine ⟨_, ?_, hafter⟩
    cases hlast : s.last <;> simp [reassemble, hstate, hfirst]
  | waitingSiSf =>
    obtain ⟨s0, hs0⟩ := Option.isSome_iff_exists.mp (hkeep hstate)
    have hkept : r.kept = some s0 := by simp only [kept, hstate, hs0]
    rw [hkept] at habs
    obtain ⟨piece, rest, hfirst, hpieces, hclose⟩ := Segment.absorb_some habs
    rw [hpieces] at hs
    cases hlast : s.last with
    | true =>
      rw [hlast] at hclose
      cases hclose
      refine ⟨_, by simp [reassemble, hstate, hfirst, appendFront, setState, hs0, hs]; rfl, ?_⟩
      refine ⟨⟨rfl, nofun⟩, ?_, rfl, rfl, rfl⟩
      simp [deliverS0, deliverAll]
    | false =>
      rw [hlast] at hclose
      cases rest with
      | nil =>
        cases hclose
        refine ⟨_, by simp [reassemble, hstate, hfirst, appendFront, hs0, hs]; rfl, ?_⟩
        refine ⟨⟨rfl, fun _ => rfl⟩, ?_, ?_, rfl, rfl⟩ <;> simp [kept]
      | cons next rest =>
        cases hclose
        refine ⟨_, by simp [reassemble, hstate, hfirst, appendFront, hs0, hs]; rfl, ?_⟩
        refine ⟨⟨rfl, fun _ => ?_⟩, ?_, ?_, rfl, rfl⟩ <;>
          simp [deliverS0, deliverFull, kept]

/-- `LteRlcUm` discards what continues an SDU that it does not keep. -/
theorem reassemble_um (hkept : r.kept = none)
    (hkeep : r.reassemblingState = .waitingSiSf → r.keepS0.isSome) (hs : r.sdusBuffer = s.pieces)
    (hne : s.pieces ≠ []) :
    ∃ r', r.reassemble true false (framingBits s.first s.last) = some r' ∧
      After r r' s.salvage.1 s.salvage.2 := by
  cases hstate : r.reassemblingState with
  | waitingS0Full => exact ⟨_, by simp [reassemble, hstate], after_restart hs hne⟩
  | waitingSiSf =>
    have hsome := hkeep hstate
    simp only [kept, hstate] at hkept
    simp [hkept] at hsome

/-- The pieces of a packet, by the length indicators of all but the last. -/
theorem splitSdus_flatten {es lis : List Nat} (h : Announces es lis) {pieces : List (List UInt8)}
    (hne : pieces ≠ []) (hlen : lis = pieces.dropLast.map List.length) :
    splitSdus es lis pieces.flatten = some pieces := by
  induction h generalizing pieces with
  | last =>
    obtain ⟨piece, rest, rfl⟩ := List.exists_cons_of_ne_nil hne
    cases rest with
    | nil => simp [splitSdus]
    | cons next rest => simp at hlen
  | more hli h ih =>
    obtain ⟨piece, rest, rfl⟩ := List.exists_cons_of_ne_nil hne
    cases rest with
    | nil => simp at hlen
    | cons next rest =>
      rw [List.dropLast_cons_of_ne_nil (by simp), List.map_cons, List.cons.injEq] at hlen
      obtain ⟨rfl, hlis⟩ := hlen
      have hrest := @ih (next :: rest) (by simp) hlis
      simp only [List.flatten_cons] at hrest ⊢
      simp [splitSdus, hrest]

section Deliver

variable {um : Bool} {sn : SequenceNumber10} {es lis : List Nat} {packet : List UInt8}
  {units : List (List UInt8)} {unit : Option (List UInt8)}

/-- A PDU that is not the expected one. -/
theorem deliver_lost (um : Bool) (hr : r.Settled) (hsplit : splitSdus es lis packet = some s.pieces)
    (hne : s.pieces ≠ []) (hlost : sn.eq r.expectedSeqNumber = false) :
    ∃ r', r.reassembleAndDeliver um (framingBits s.first s.last) sn es lis packet = some r' ∧
      After { r with expectedSeqNumber := sn.add 1 } r' s.salvage.1 s.salvage.2 := by
  obtain ⟨r', hr', hafter⟩ := reassemble_lost (s := s) (r := { r with
    expectedSeqNumber := sn.add 1, sdusBuffer := r.sdusBuffer ++ s.pieces }) um
    (by simp [hr.sdusBuffer_eq]) hne
  refine ⟨r', ?_, hafter.settled, hafter.delivered, hafter.kept, hafter.impossible,
    hafter.expectedSeqNumber⟩
  simpa [reassembleAndDeliver, hsplit, hlost] using hr'

/-- The expected PDU, which continues what is kept. -/
theorem deliver_absorb (um : Bool) (hr : r.Settled)
    (hsplit : splitSdus es lis packet = some s.pieces)
    (hne : s.pieces ≠ []) (hexpected : sn.eq r.expectedSeqNumber = true)
    (habs : s.absorb r.kept = some (units, unit)) :
    ∃ r', r.reassembleAndDeliver um (framingBits s.first s.last) sn es lis packet = some r' ∧
      After { r with expectedSeqNumber := r.expectedSeqNumber.succ } r' units unit := by
  obtain ⟨r', hr', hafter⟩ := reassemble_absorb (s := s) (r := { r with
    expectedSeqNumber := r.expectedSeqNumber.succ, sdusBuffer := r.sdusBuffer ++ s.pieces }) um
    hr.keepS0 (by simp [hr.sdusBuffer_eq]) hne habs
  refine ⟨r', ?_, hafter.settled, hafter.delivered, hafter.kept, hafter.impossible,
    hafter.expectedSeqNumber⟩
  simpa [reassembleAndDeliver, hsplit, hexpected] using hr'

/-- The expected PDU with no SDU kept. -/
theorem deliver_um (hr : r.Settled) (hsplit : splitSdus es lis packet = some s.pieces)
    (hne : s.pieces ≠ []) (hexpected : sn.eq r.expectedSeqNumber = true) (hkept : r.kept = none) :
    ∃ r', r.reassembleAndDeliver true (framingBits s.first s.last) sn es lis packet = some r' ∧
      After { r with expectedSeqNumber := r.expectedSeqNumber.succ } r' s.salvage.1
        s.salvage.2 := by
  obtain ⟨r', hr', hafter⟩ := reassemble_um (s := s) (r := { r with
    expectedSeqNumber := r.expectedSeqNumber.succ, sdusBuffer := r.sdusBuffer ++ s.pieces })
    hkept hr.keepS0 (by simp [hr.sdusBuffer_eq]) hne
  refine ⟨r', ?_, hafter.settled, hafter.delivered, hafter.kept, hafter.impossible,
    hafter.expectedSeqNumber⟩
  simpa [reassembleAndDeliver, hsplit, hexpected] using hr'

variable {segs : List (Segment UInt8)} {next k : Nat}
  {all : List (List UInt8) × Option (List UInt8)}

/-- `LteRlcUm` at the PDU of the position `k`, when it expects the position `next`: it follows the
segments past `k`. -/
theorem follows_deliver (hsegs : absorbAll segs = some all) (hr : r.Settled)
    (hf : Follows segs next r.delivered r.kept)
    (hexpected : r.expectedSeqNumber.value = next % 1024)
    (hk : k < segs.length) (hnext : next ≤ k) (hnear : k < next + 1024)
    (hsplit : splitSdus es lis packet = some segs[k].pieces) (hne : segs[k].pieces ≠ []) :
    ∃ r', r.reassembleAndDeliver true (framingBits segs[k].first segs[k].last) (.pos k 0) es lis
        packet = some r' ∧ r'.Settled ∧ Follows segs (k + 1) r'.delivered r'.kept ∧
      r'.expectedSeqNumber.value = (k + 1) % 1024 ∧ r'.impossible = r.impossible := by
  have heq : (SequenceNumber10.pos k 0).eq r.expectedSeqNumber = decide (k = next) := by
    simp only [SequenceNumber10.eq, hexpected, SequenceNumber10.pos]
    rw [beq_eq_decide, decide_eq_decide]
    omega
  by_cases hlost : k = next
  · subst hlost
    have heq' : (SequenceNumber10.pos k 0).eq r.expectedSeqNumber = true := by simpa using heq
    have hsucc : r.expectedSeqNumber.succ.value = (k + 1) % 1024 := by
      simp only [SequenceNumber10.succ, hexpected]
      omega
    cases hkept : r.kept with
    | none =>
      obtain ⟨r', hr', hafter⟩ := deliver_um hr hsplit hne heq' hkept
      have hf' := hf.salvage hk hsegs
      rw [← hafter.kept] at hf'
      exact ⟨r', hr', hafter.settled, hafter.delivered ▸ hf', hafter.expectedSeqNumber ▸ hsucc,
        hafter.impossible⟩
    | some unit =>
      rw [hkept] at hf
      obtain ⟨units, unit', habs, hf'⟩ := hf.absorb hk hsegs
      obtain ⟨r', hr', hafter⟩ := deliver_absorb true hr hsplit hne heq' (hkept ▸ habs)
      rw [← hafter.kept] at hf'
      exact ⟨r', hr', hafter.settled, hafter.delivered ▸ hf', hafter.expectedSeqNumber ▸ hsucc,
        hafter.impossible⟩
  · have heq' : (SequenceNumber10.pos k 0).eq r.expectedSeqNumber = false := by
      simpa [hlost] using heq
    obtain ⟨r', hr', hafter⟩ := deliver_lost true hr hsplit hne heq'
    have hf' := (hf.skip hnext (by omega) hsegs).salvage hk hsegs
    rw [← hafter.kept] at hf'
    refine ⟨r', hr', hafter.settled, hafter.delivered ▸ hf', ?_, hafter.impossible⟩
    rw [hafter.expectedSeqNumber]
    simp only [SequenceNumber10.add, SequenceNumber10.pos]
    omega

end Deliver

end SduReassembly

end Ns3.Lte
