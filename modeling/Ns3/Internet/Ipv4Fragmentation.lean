import Ns3.Lib.Pieces

/-!
# IPv4 fragmentation

`DoFragmentation` cuts a packet into parts of the size that the MTU allows, a multiple of 8 bytes. A
part may be cut again by a smaller MTU on its way. Whatever the MTUs are, what arrives is a piece of
the payload, and its flag says whether more of the payload follows (`Travels.isFragment`).
-/

namespace Ns3.Internet.Ipv4

open Lib

/-! ## Embedding -/

/-- The fields of `Ipv4Header` that fragmentation reads or writes. -/
structure Ipv4Header where
  source : Nat
  destination : Nat
  identification : Nat
  protocol : Nat
  fragmentOffset : Nat := 0
  moreFragments : Bool := false
  payloadSize : Nat
deriving DecidableEq, Repr

/-- `Ipv4PayloadHeaderPair`. -/
abbrev Ipv4PayloadHeaderPair := List UInt8 × Ipv4Header

/-- One fragment of the packet. `SetFragmentOffset` aborts if the offset is not a multiple of 8. -/
def fragmentAt (p : List UInt8) (ipv4Header : Ipv4Header) (offset size : Nat)
    (moreFragments : Bool) : Option Ipv4PayloadHeaderPair :=
  let offsetBytes := (offset + ipv4Header.fragmentOffset) % 2 ^ 16
  if offsetBytes % 8 ≠ 0 then none
  else
    some ((p.drop offset).take size,
      { ipv4Header with
        fragmentOffset := offsetBytes
        moreFragments := moreFragments
        payloadSize := size % 2 ^ 16 })

/-- The loop of `DoFragmentation`, with a bound on its rounds. -/
def fragmentLoop (p : List UInt8) (ipv4Header : Ipv4Header) (fragmentSize : Nat) :
    (rounds : Nat) → (offset : Nat) → Option (List Ipv4PayloadHeaderPair)
  | 0, _ => none
  | rounds + 1, offset =>
    if p.length > (offset + fragmentSize) % 2 ^ 32 then do
      let fragment ← fragmentAt p ipv4Header offset fragmentSize true
      let rest ← fragmentLoop p ipv4Header fragmentSize rounds ((offset + fragmentSize) % 2 ^ 16)
      return fragment :: rest
    else do
      -- the flag of the last part is that of the packet
      let fragment ← fragmentAt p ipv4Header offset ((p.length + 2 ^ 32 - offset) % 2 ^ 32)
        ipv4Header.moreFragments
      return [fragment]

/-- `DoFragmentation`. The header has 20 bytes. -/
def doFragmentation (packet : List UInt8) (ipv4Header : Ipv4Header) (outIfaceMtu : Nat) :
    Option (List Ipv4PayloadHeaderPair) :=
  let fragmentSize := (outIfaceMtu + 2 ^ 32 - 20) % 2 ^ 32 / 8 * 8
  fragmentLoop packet ipv4Header fragmentSize (packet.length + 1) 0

/-- What `SendRealOut` sends. -/
def sendRealOut (outIfaceMtu : Nat) (f : Ipv4PayloadHeaderPair) :
    Option (List Ipv4PayloadHeaderPair) :=
  if f.1.length + 20 > outIfaceMtu then doFragmentation f.1 f.2 outIfaceMtu else some [f]

/-! ## Datagrams -/

/-- A datagram, in the ranges of the header fields. -/
structure Datagram where
  source : Nat
  destination : Nat
  identification : Nat
  protocol : Nat
  payload : List UInt8
  source_lt : source < 2 ^ 32
  destination_lt : destination < 2 ^ 32
  identification_lt : identification < 2 ^ 16
  protocol_lt : protocol < 2 ^ 8
  payload_le : payload.length ≤ 65515

def Datagram.header (d : Datagram) : Ipv4Header where
  source := d.source
  destination := d.destination
  identification := d.identification
  protocol := d.protocol
  payloadSize := d.payload.length

/-- A packet that is on its way after the datagram was sent over links with any MTUs. -/
inductive Travels (d : Datagram) : Ipv4PayloadHeaderPair → Prop
  | sent : Travels d (d.payload, d.header)
  | hop {f g : Ipv4PayloadHeaderPair} {fs : List Ipv4PayloadHeaderPair} (mtu : Nat)
      (h : Travels d f) (hmtu : 68 ≤ mtu) (hlt : mtu < 2 ^ 16) (hsend : sendRealOut mtu f = some fs)
      (hg : g ∈ fs) : Travels d g

/-- The piece of the payload that a fragment carries. -/
def pieceOf (f : Ipv4PayloadHeaderPair) : Piece UInt8 := (f.2.fragmentOffset, f.1)

/-- A fragment of the datagram. -/
structure IsFragment (d : Datagram) (f : Ipv4PayloadHeaderPair) : Prop where
  source : f.2.source = d.source
  destination : f.2.destination = d.destination
  identification : f.2.identification = d.identification
  protocol : f.2.protocol = d.protocol
  piece : (pieceOf f).Of d.payload
  aligned : 8 ∣ f.2.fragmentOffset
  more : f.2.moreFragments = true ↔ (pieceOf f).stop < d.payload.length
  payloadSize : f.2.payloadSize = f.1.length

theorem Datagram.isFragment (d : Datagram) : IsFragment d (d.payload, d.header) where
  source := rfl
  destination := rfl
  identification := rfl
  protocol := rfl
  piece := Piece.of_self d.payload
  aligned := Nat.dvd_zero 8
  more := by
    change false = true ↔ 0 + d.payload.length < d.payload.length
    simp
  payloadSize := rfl

section Fragment

variable {d : Datagram} {f : Ipv4PayloadHeaderPair}

/-- A part of a fragment is a fragment if its offset is a multiple of 8. -/
theorem IsFragment.part (h : IsFragment d f) (offset size : Nat) (more : Bool)
    (hle : offset + size ≤ f.1.length) (haligned : 8 ∣ offset)
    (hmore : more = true ↔ f.2.fragmentOffset + offset + size < d.payload.length) :
    ∃ g, fragmentAt f.1 f.2 offset size more = some g ∧ IsFragment d g ∧
      g.1.length = size := by
  have hstop : f.2.fragmentOffset + f.1.length ≤ d.payload.length := h.piece.le
  have hmax := d.payload_le
  have hoffset : (offset + f.2.fragmentOffset) % 2 ^ 16 = f.2.fragmentOffset + offset := by
    rw [Nat.add_comm, Nat.mod_eq_of_lt (by omega)]
  have hsize : size % 2 ^ 16 = size := Nat.mod_eq_of_lt (by omega)
  have hdvd : 8 ∣ f.2.fragmentOffset + offset := Nat.dvd_add h.aligned haligned
  have hlen : ((f.1.drop offset).take size).length = size := by
    rw [List.length_take, List.length_drop]
    omega
  unfold fragmentAt
  simp only [hoffset, hsize, Nat.mod_eq_zero_of_dvd hdvd, ne_eq, not_true, if_false]
  refine ⟨_, rfl, ?_, hlen⟩
  constructor
  · exact h.source
  · exact h.destination
  · exact h.identification
  · exact h.protocol
  · exact h.piece.part hle
  · exact hdvd
  · unfold Piece.stop pieceOf
    dsimp only
    rw [hlen]
    exact hmore
  · exact hlen.symm

/-- The rounds of the loop from the offset on. -/
theorem IsFragment.loop (h : IsFragment d f) {fragmentSize : Nat}
    (hpos : 0 < fragmentSize) (hdvd : 8 ∣ fragmentSize) (hsize : fragmentSize < 2 ^ 16)
    (rounds : Nat) {offset : Nat} (haligned : 8 ∣ offset) (hoffset : offset ≤ f.1.length)
    (hrounds : f.1.length < offset + rounds) :
    ∃ fs, fragmentLoop f.1 f.2 fragmentSize rounds offset = some fs ∧
      ∀ g ∈ fs, IsFragment d g ∧ g.1.length ≤ fragmentSize := by
  have hstop : f.2.fragmentOffset + f.1.length ≤ d.payload.length := h.piece.le
  have hmax := d.payload_le
  induction rounds generalizing offset with
  | zero => omega
  | succ rounds ih =>
    rw [fragmentLoop, Nat.mod_eq_of_lt (by omega)]
    by_cases hmore : f.1.length > offset + fragmentSize
    · rw [if_pos hmore, Nat.mod_eq_of_lt (by omega)]
      obtain ⟨g, hg, hfrag, hlen⟩ :=
        h.part offset fragmentSize true hmore.le haligned (iff_of_true rfl (by omega))
      obtain ⟨fs, hfs, hall⟩ := ih (Nat.dvd_add haligned hdvd) hmore.le (by omega)
      refine ⟨g :: fs, ?_, List.forall_mem_cons.mpr ⟨⟨hfrag, hlen.le⟩, hall⟩⟩
      rw [hg, hfs]
      rfl
    · rw [if_neg hmore]
      have hrest : (f.1.length + 2 ^ 32 - offset) % 2 ^ 32 = f.1.length - offset := by omega
      obtain ⟨g, hg, hfrag, hlen⟩ := h.part offset (f.1.length - offset)
        f.2.moreFragments (by omega) haligned (by
          rw [h.more, Piece.stop, pieceOf, Nat.add_assoc, Nat.add_sub_cancel' hoffset])
      rw [hrest, hg]
      refine ⟨[g], rfl, List.forall_mem_singleton.mpr ⟨hfrag, ?_⟩⟩
      omega

/-- The parts are fragments that fit in the MTU. -/
theorem IsFragment.parts (h : IsFragment d f) {mtu : Nat} (hmtu : 68 ≤ mtu)
    (hlt : mtu < 2 ^ 16) :
    ∃ fs, doFragmentation f.1 f.2 mtu = some fs ∧
      ∀ g ∈ fs, IsFragment d g ∧ g.1.length + 20 ≤ mtu := by
  have hsize : (mtu + 2 ^ 32 - 20) % 2 ^ 32 / 8 * 8 = (mtu - 20) / 8 * 8 := by omega
  unfold doFragmentation
  dsimp only
  rw [hsize]
  obtain ⟨fs, hfs, hall⟩ := h.loop (show 0 < (mtu - 20) / 8 * 8 by omega)
    (Nat.dvd_mul_left 8 _) (by omega) (f.1.length + 1) (Nat.dvd_zero 8) (Nat.zero_le _)
    (by omega)
  refine ⟨fs, hfs, fun g hg => ⟨(hall g hg).1, ?_⟩⟩
  have hle := (hall g hg).2
  omega

theorem Travels.isFragment (h : Travels d f) : IsFragment d f := by
  induction h with
  | sent => exact d.isFragment
  | hop mtu _ hmtu hlt hsend hg ih =>
    unfold sendRealOut at hsend
    split at hsend
    · obtain ⟨fs, hfs, hall⟩ := ih.parts hmtu hlt
      rw [hfs] at hsend
      cases hsend
      exact (hall _ hg).1
    · cases hsend
      rw [List.mem_singleton.mp hg]
      exact ih

end Fragment

end Ns3.Internet.Ipv4
