import Mathlib.Logic.Function.Basic
import Ns3.Internet.Ipv4Fragmentation

/-!
# IPv4 reassembly

The receiver keeps the fragments of each datagram sorted by their offsets, and one flag for all of
them: the flag of the fragment that was inserted last at the end of the list. So a datagram is
complete for the receiver if its fragments have no gap and the last one in the list ends the payload
(`isEntire_iff`), which is less often than it should be: a fragment that another one continues may
come last in the list.

When the time is over, the start of the payload is joined from the fragments in order. A fragment
inside the part that is joined already makes a subtraction wrap around (`getPartialPacket_iff`).
-/

namespace Ns3.Internet.Ipv4

open Lib

/-! ## Embedding -/

/-- `Ipv4L3Protocol::Fragments`. -/
structure Fragments where
  moreFragment : Bool := false
  fragments : List (Piece UInt8) := []
deriving DecidableEq

namespace Fragments

/-- `AddFragment`. -/
def addFragment (fs : Fragments) (fragment : List UInt8) (fragmentOffset : Nat)
    (moreFragment : Bool) : Fragments where
  -- only a fragment at the end of the list sets the flag
  moreFragment :=
    if fs.fragments.all (·.1 ≤ fragmentOffset) then moreFragment else fs.moreFragment
  fragments := Piece.insert (fragmentOffset, fragment) fs.fragments

/-- The loop of `IsEntire`. -/
def noGap : (lastEndOffset : Nat) → List (Piece UInt8) → Bool
  | _, [] => true
  | lastEndOffset, f :: fs =>
    if lastEndOffset < f.1 then false
    else noGap (max lastEndOffset ((f.2.length + f.1) % 2 ^ 16)) fs

def isEntire (fs : Fragments) : Bool :=
  !fs.moreFragment && 0 < fs.fragments.length && noGap 0 fs.fragments

/-- The loop of `GetPacket`. -/
def addRest (p : List UInt8) (f : Piece UInt8) : List UInt8 :=
  let lastEndOffset := p.length % 2 ^ 16
  if lastEndOffset > f.1 then
    let newStart := lastEndOffset - f.1
    if f.2.length > newStart then p ++ (f.2.drop newStart).take (f.2.length - newStart) else p
  else p ++ f.2

/-- `GetPacket`; without a fragment there is none to start with. -/
def getPacket (fs : Fragments) : Option (List UInt8) :=
  match fs.fragments with
  | [] => none
  | f :: rest => some (rest.foldl addRest f.2)

/-- The loop of `GetPartialPacket`. There is no result if the subtraction wraps around. -/
def addPartial (p : List UInt8) (f : Piece UInt8) : Option (List UInt8) :=
  let lastEndOffset := p.length % 2 ^ 16
  if lastEndOffset > f.1 then
    let newStart := lastEndOffset - f.1
    if f.2.length < newStart then none
    else some (p ++ (f.2.drop newStart).take (f.2.length - newStart))
  else if lastEndOffset = f.1 then some (p ++ f.2)
  else some p

/-- `GetPartialPacket`. -/
def getPartialPacket (fs : Fragments) : Option (List UInt8) :=
  match fs.fragments with
  | [] => none
  | f :: _ => if f.1 > 0 then some [] else fs.fragments.foldlM addPartial []

end Fragments

/-- `FragmentKey_t` of a packet. -/
def fragmentKey (ipHeader : Ipv4Header) : Nat × Nat :=
  (ipHeader.source <<< 32 ||| ipHeader.destination,
    ipHeader.identification <<< 16 ||| ipHeader.protocol)

/-- `m_fragments`. -/
abbrev FragmentMap := Nat × Nat → Option Fragments

/-- `ProcessFragment`: whether the datagram is complete, and the packet. -/
def processFragment (fragments : FragmentMap) (f : Ipv4PayloadHeaderPair) :
    Option (Bool × List UInt8 × FragmentMap) :=
  let key := fragmentKey f.2
  let entry := ((fragments key).getD {}).addFragment f.1 f.2.fragmentOffset f.2.moreFragments
  if entry.isEntire then do
    let packet ← entry.getPacket
    return (true, packet, Function.update fragments key none)
  else return (false, f.1, Function.update fragments key (some entry))

/-- `HandleFragmentsTimeout`: the partial packet. -/
def handleFragmentsTimeout (fragments : FragmentMap) (key : Nat × Nat) :
    Option (List UInt8 × FragmentMap) := do
  let entry ← fragments key
  let packet ← entry.getPartialPacket
  return (packet, Function.update fragments key none)

/-! ## The fragments that were received -/

/-- The entry after fragments, in the order of their arrival. -/
def received (rcv : List Ipv4PayloadHeaderPair) : Fragments :=
  rcv.foldl (fun fs f => fs.addFragment f.1 f.2.fragmentOffset f.2.moreFragments) {}

/-- The fragments by offset; of equal offsets the first to arrive is the first. -/
def byOffset (rcv : List Ipv4PayloadHeaderPair) : List (Piece UInt8) := Piece.sort (rcv.map pieceOf)

/-- The fragments cover the payload. -/
def Complete (d : Datagram) (rcv : List Ipv4PayloadHeaderPair) : Prop :=
  rcv ≠ [] ∧ ∀ i < d.payload.length, Piece.Covered (rcv.map pieceOf) i

/-- The last fragment by offset ends the payload. -/
def LastEnds (d : Datagram) (rcv : List Ipv4PayloadHeaderPair) : Prop :=
  ∀ p ∈ (byOffset rcv).getLast?, p.stop = d.payload.length

section Received

variable {d : Datagram} {rcv : List Ipv4PayloadHeaderPair}

theorem received_concat (rcv : List Ipv4PayloadHeaderPair) (f : Ipv4PayloadHeaderPair) :
    received (rcv ++ [f]) =
      (received rcv).addFragment f.1 f.2.fragmentOffset f.2.moreFragments := by
  rw [received, List.foldl_append]
  rfl

theorem byOffset_concat (rcv : List Ipv4PayloadHeaderPair) (f : Ipv4PayloadHeaderPair) :
    byOffset (rcv ++ [f]) = Piece.insert (pieceOf f) (byOffset rcv) := by
  rw [byOffset, List.map_append]
  exact Piece.sort_concat _ _

theorem fragments_received (rcv : List Ipv4PayloadHeaderPair) :
    (received rcv).fragments = byOffset rcv := by
  induction rcv using List.reverseRecOn with
  | nil => rfl
  | append_singleton rcv f ih =>
    rw [received_concat, byOffset_concat, ← ih]
    rfl

theorem of_mem_byOffset (h : ∀ f ∈ rcv, IsFragment d f) :
    ∀ p ∈ byOffset rcv, p.Of d.payload := by
  intro p hp
  obtain ⟨f, hf, rfl⟩ := List.mem_map.mp ((Piece.perm_sort _).mem_iff.mp hp)
  exact (h f hf).piece

theorem byOffset_ne_nil (h : rcv ≠ []) : byOffset rcv ≠ [] := by
  intro hnil
  have hlen := (Piece.perm_sort (rcv.map pieceOf)).length_eq
  rw [← byOffset.eq_1, hnil, List.length_map] at hlen
  exact h (List.eq_nil_of_length_eq_zero hlen.symm)

theorem covered_byOffset_iff {i : Nat} :
    Piece.Covered (byOffset rcv) i ↔ Piece.Covered (rcv.map pieceOf) i := by
  unfold Piece.Covered byOffset
  simp only [(Piece.perm_sort (rcv.map pieceOf)).mem_iff]

/-- The flag is that of the last fragment by offset. -/
theorem moreFragment_received (h : ∀ f ∈ rcv, IsFragment d f) :
    (received rcv).moreFragment = true ↔
      ∃ p ∈ (byOffset rcv).getLast?, p.stop < d.payload.length := by
  induction rcv using List.reverseRecOn with
  | nil => simp [received, byOffset, Piece.sort]
  | append_singleton rcv f ih =>
    have ih := ih fun g hg => h g (List.mem_append_left _ hg)
    rw [received_concat, byOffset_concat, Piece.getLast?_insert]
    unfold Fragments.addFragment
    rw [fragments_received]
    dsimp only
    change (if (byOffset rcv).all (·.1 ≤ (pieceOf f).1) = true then _ else _) = true ↔ _
    split
    · rw [(h f (List.mem_append_right _ List.mem_cons_self)).more]
      simp
    · exact ih

/-! ## Complete datagrams -/

theorem noGap_iff {ps : List (Piece UInt8)} (h : ∀ p ∈ ps, p.Of d.payload) (e : Nat) :
    Fragments.noGap e ps = true ↔ Piece.Gapless e ps := by
  induction ps generalizing e with
  | nil => exact iff_of_true rfl trivial
  | cons p ps ih =>
    have hmax := d.payload_le
    have hle := (h p List.mem_cons_self).le
    have hstop : (p.2.length + p.1) % 2 ^ 16 = p.stop := by
      rw [Nat.add_comm]
      exact Nat.mod_eq_of_lt (by unfold Piece.stop at hle; omega)
    rw [Fragments.noGap, Piece.Gapless, hstop]
    split
    · rename_i hgap
      simp [Nat.not_le.mpr hgap]
    · rename_i hgap
      rw [ih fun q hq => h q (List.mem_cons_of_mem _ hq)]
      exact (and_iff_right (Nat.le_of_not_lt hgap)).symm

theorem gapless_of_complete (h : ∀ f ∈ rcv, IsFragment d f) (hc : Complete d rcv) :
    Piece.Gapless 0 (byOffset rcv) := by
  apply Piece.gapless_of_covered (Piece.pairwise_sort _) (of_mem_byOffset h)
  intro i _ hi
  exact covered_byOffset_iff.mpr (hc.2 i hi)

/-- The end of the payload is reached if the last fragment by offset ends it. -/
theorem reach_of_lastEnds (h : ∀ f ∈ rcv, IsFragment d f) (hne : rcv ≠ []) (hl : LastEnds d rcv) :
    Piece.reach 0 (byOffset rcv) = d.payload.length := by
  apply le_antisymm (Piece.reach_le (Nat.zero_le _) (of_mem_byOffset h))
  have hlast := List.getLast?_eq_some_getLast (byOffset_ne_nil hne)
  rw [← hl _ hlast]
  exact Piece.stop_le_reach (List.getLast_mem _)

/-- The entry is entire if the datagram is complete and the last fragment by offset ends it. -/
theorem isEntire_iff (h : ∀ f ∈ rcv, IsFragment d f) (hne : rcv ≠ []) :
    (received rcv).isEntire = true ↔ Complete d rcv ∧ LastEnds d rcv := by
  have hflag : (received rcv).moreFragment = false ↔ LastEnds d rcv := by
    rw [← Bool.not_eq_true, moreFragment_received h]
    constructor
    · intro hnot p hp
      have hle := (of_mem_byOffset h p (List.mem_of_mem_getLast? hp)).le
      exact le_antisymm hle (Nat.le_of_not_lt fun hlt => hnot ⟨p, hp, hlt⟩)
    · rintro hl ⟨p, hp, hlt⟩
      exact hlt.ne (hl p hp)
  have hpos : 0 < (received rcv).fragments.length := by
    rw [fragments_received]
    exact List.length_pos_of_ne_nil (byOffset_ne_nil hne)
  unfold Fragments.isEntire
  rw [Bool.and_eq_true, Bool.and_eq_true, Bool.not_eq_true', hflag, decide_eq_true_eq,
    fragments_received, noGap_iff (of_mem_byOffset h)]
  rw [fragments_received] at hpos
  constructor
  · rintro ⟨⟨hl, -⟩, hgap⟩
    refine ⟨⟨hne, fun i hi => covered_byOffset_iff.mp ?_⟩, hl⟩
    apply hgap.covered (Nat.zero_le i)
    rwa [reach_of_lastEnds h hne hl]
  · rintro ⟨hc, hl⟩
    exact ⟨⟨hl, hpos⟩, gapless_of_complete h hc⟩

/-- The loop of `GetPacket` takes what is behind the end. -/
theorem addRest_eq {p : List UInt8} (hp : p.length < 2 ^ 16) (f : Piece UInt8) :
    Fragments.addRest p f = Piece.extend p f := by
  unfold Fragments.addRest Piece.extend
  rw [Nat.mod_eq_of_lt hp]
  dsimp only
  split
  · split
    · congr 1
      apply List.take_of_length_le
      rw [List.length_drop]
    · rename_i hin
      rw [List.drop_of_length_le (Nat.le_of_not_lt hin), List.append_nil]
  · rename_i hle
    rw [Nat.sub_eq_zero_of_le (Nat.le_of_not_lt hle), List.drop_zero]

theorem foldl_addRest {ps : List (Piece UInt8)} (h : ∀ p ∈ ps, p.Of d.payload) {n : Nat}
    (hn : n ≤ d.payload.length) (hgap : Piece.Gapless n ps) :
    ps.foldl Fragments.addRest (d.payload.take n) = d.payload.take (Piece.reach n ps) := by
  induction ps generalizing n with
  | nil => rfl
  | cons p ps ih =>
    have hmax := d.payload_le
    have hp := h p List.mem_cons_self
    have hlt : (d.payload.take n).length < 2 ^ 16 := by
      rw [List.length_take]
      omega
    rw [List.foldl_cons, addRest_eq hlt, hp.extend_take hn hgap.1]
    exact ih (fun q hq => h q (List.mem_cons_of_mem _ hq)) (max_le hn hp.le) hgap.2

/-- The packet of an entire entry is the payload. -/
theorem getPacket_eq (h : ∀ f ∈ rcv, IsFragment d f) (hc : Complete d rcv) (hl : LastEnds d rcv) :
    (received rcv).getPacket = some d.payload := by
  have hreach := reach_of_lastEnds h hc.1 hl
  have hgap := gapless_of_complete h hc
  have hof := of_mem_byOffset h
  unfold Fragments.getPacket
  rw [fragments_received]
  cases hps : byOffset rcv with
  | nil => exact absurd hps (byOffset_ne_nil hc.1)
  | cons p ps =>
    rw [hps] at hreach hgap hof
    have hp := hof p List.mem_cons_self
    have hzero : p.1 = 0 := Nat.le_zero.mp hgap.1
    have hfirst : p.2 = d.payload.take p.stop := by
      have hpart := hp.eq
      rw [hzero, List.drop_zero] at hpart
      rw [Piece.stop, hzero, Nat.zero_add]
      exact hpart
    have hrest := hgap.2
    rw [Nat.zero_max] at hrest
    dsimp only
    rw [hfirst, foldl_addRest (fun q hq => hof q (List.mem_cons_of_mem _ hq)) hp.le hrest]
    rw [Piece.reach, List.foldl_cons, Nat.zero_max] at hreach
    rw [Piece.reach, hreach, List.take_length]

/-! ## Partial packets -/

/-- The loop ends with a start of the payload if no fragment ends inside what is there. -/
theorem foldlM_addPartial_iff {ps : List (Piece UInt8)}
    (hsort : ps.Pairwise fun a b => a.1 ≤ b.1) (h : ∀ p ∈ ps, p.Of d.payload) {n : Nat}
    (hn : n ≤ d.payload.length) :
    (∃ p, ps.foldlM Fragments.addPartial (d.payload.take n) = some p ∧ p <+: d.payload) ↔
      Piece.Staggered n ps := by
  induction ps generalizing n with
  | nil => exact iff_of_true ⟨_, rfl, List.take_prefix _ _⟩ trivial
  | cons q ps ih =>
    have hmax := d.payload_le
    obtain ⟨hq, hps⟩ := List.pairwise_cons.mp hsort
    have hof := h q List.mem_cons_self
    have hstop := hof.le
    have hlen : (d.payload.take n).length = n := by rw [List.length_take, min_eq_left hn]
    have hmod : (d.payload.take n).length % 2 ^ 16 = n := by
      rw [hlen]
      exact Nat.mod_eq_of_lt (by omega)
    have hrest := ih hps (fun r hr => h r (List.mem_cons_of_mem _ hr)) hstop
    have hadd : ∀ buf, Fragments.addPartial (d.payload.take n) q = some buf →
        (q :: ps).foldlM Fragments.addPartial (d.payload.take n) =
          ps.foldlM Fragments.addPartial buf := by
      intro buf hbuf
      rw [List.foldlM_cons, hbuf]
      rfl
    rcases Nat.lt_or_ge n q.1 with hgap | hle
    · -- behind a gap nothing is added
      have hskip : ∀ rs : List (Piece UInt8), (∀ r ∈ rs, n < r.1) →
          rs.foldlM Fragments.addPartial (d.payload.take n) = some (d.payload.take n) := by
        intro rs hrs
        induction rs with
        | nil => rfl
        | cons r rs ihr =>
          have hr := hrs r List.mem_cons_self
          rw [List.foldlM_cons, Fragments.addPartial, hmod]
          dsimp only
          rw [if_neg (by omega), if_neg (by omega)]
          exact ihr fun x hx => hrs x (List.mem_cons_of_mem _ hx)
      refine iff_of_true ⟨_, hskip (q :: ps) ?_, List.take_prefix _ _⟩ fun hle => by omega
      exact List.forall_mem_cons.mpr ⟨hgap, fun r hr => hgap.trans_le (hq r hr)⟩
    · rw [Piece.Staggered, imp_iff_right hle]
      by_cases hin : q.stop < n
      · -- the subtraction wraps around
        have hnone : Fragments.addPartial (d.payload.take n) q = none := by
          unfold Piece.stop at hin
          rw [Fragments.addPartial, hmod]
          dsimp only
          rw [if_pos (by omega), if_pos (by omega)]
        rw [List.foldlM_cons, hnone]
        refine iff_of_false ?_ fun hs => by omega
        rintro ⟨p, hp, -⟩
        cases hp
      · have hsome : Fragments.addPartial (d.payload.take n) q =
            some (d.payload.take q.stop) := by
          have hext := hof.extend_take hn hle
          rw [max_eq_right (Nat.le_of_not_lt hin), Piece.extend, hlen] at hext
          unfold Piece.stop at hin
          rw [Fragments.addPartial, hmod]
          dsimp only
          rcases Nat.lt_or_eq_of_le hle with hlt | heq
          · rw [if_pos hlt, if_neg (by omega), ← hext]
            congr 2
            apply List.take_of_length_le
            rw [List.length_drop]
          · rw [if_neg (by omega), if_pos heq.symm, ← hext, heq, Nat.sub_self, List.drop_zero]
        rw [hadd _ hsome, hrest]
        exact (and_iff_right (Nat.le_of_not_lt hin)).symm

/-- The partial packet is a start of the payload if and only if no fragment ends inside what comes
before it. -/
theorem getPartialPacket_iff (h : ∀ f ∈ rcv, IsFragment d f) (hne : rcv ≠ []) :
    (∃ p, (received rcv).getPartialPacket = some p ∧ p <+: d.payload) ↔
      Piece.Staggered 0 (byOffset rcv) := by
  have hiff := foldlM_addPartial_iff (Piece.pairwise_sort (rcv.map pieceOf)) (of_mem_byOffset h)
    (Nat.zero_le _)
  rw [List.take_zero, ← byOffset.eq_1] at hiff
  unfold Fragments.getPartialPacket
  rw [fragments_received]
  cases hps : byOffset rcv with
  | nil => exact absurd hps (byOffset_ne_nil hne)
  | cons q ps =>
    rw [hps] at hiff
    dsimp only
    split
    · rename_i hpos
      refine iff_of_true ⟨[], rfl, List.nil_prefix⟩ fun hle => ?_
      exact absurd hle (Nat.not_le.mpr hpos)
    · exact hiff

end Received

end Ns3.Internet.Ipv4
