import Ns3.Wifi.BlockAckWindow
import Mathlib.Data.Int.ModEq
import Mathlib.Tactic.Cases

/-!
# The recipient of a block ack agreement

`RecipientBlockAckAgreement`. The scoreboard follows the sequence numbers that came; the MPDUs are
buffered until their turn and passed up in order. A failed assertion is `none`. The list of a
function's result holds the MPDUs given to `MacRxMiddle::Receive`.
-/

namespace Ns3.Wifi

/-- The header's sequence number and the rest of a `WifiMacQueueItem`. -/
structure WifiMacQueueItem (π : Type) where
  m_sequenceNumber : ℕ
  m_packet : π
deriving DecidableEq, Repr

structure RecipientBlockAckAgreement (π : Type) where
  m_scoreboard : BlockAckWindow
  m_winStartB : ℕ
  m_winSizeB : ℕ
  m_bufferedMpdus : List (ℕ × WifiMacQueueItem π)
deriving DecidableEq, Repr

namespace RecipientBlockAckAgreement

variable {π : Type}

/-- The constructor. -/
def create (bufferSize startingSeq : ℕ) : RecipientBlockAckAgreement π :=
  ⟨BlockAckWindow.init startingSeq bufferSize, startingSeq, bufferSize, []⟩

/-- `Compare`, with the current `m_winStartB`. -/
def compare (winStartB a b : ℕ) : Bool :=
  ((a : ℤ) - winStartB + 4096).tmod 4096 < ((b : ℤ) - winStartB + 4096).tmod 4096

/-- `std::map::insert`: the entries by `compare`; an equivalent key keeps its entry. -/
def insertMpdu (winStartB key : ℕ) (mpdu : WifiMacQueueItem π) :
    List (ℕ × WifiMacQueueItem π) → List (ℕ × WifiMacQueueItem π)
  | [] => [(key, mpdu)]
  | e :: es =>
    if compare winStartB e.1 key then e :: insertMpdu winStartB key mpdu es
    else if compare winStartB key e.1 then (key, mpdu) :: e :: es
    else e :: es

/-- The assertion that there are no old MPDUs in the buffer. -/
def assertNoOld (winStartB : ℕ) (buffered : List (ℕ × WifiMacQueueItem π)) : Option Unit :=
  match buffered.getLast? with
  | none => some ()
  | some e => do
    let distance ← getDistance e.1 winStartB
    guard (distance < 2048)

/-- The loop of `PassBufferedMpdusUntilFirstLost`: what is passed up, the new `m_winStartB` and what
stays. -/
def untilFirstLost (winStartB : ℕ) :
    List (ℕ × WifiMacQueueItem π) →
      List (WifiMacQueueItem π) × ℕ × List (ℕ × WifiMacQueueItem π)
  | [] => ([], winStartB, [])
  | e :: es =>
    if e.1 = winStartB then
      let r := untilFirstLost ((winStartB + 1) % 4096) es
      (e.2 :: r.1, r.2)
    else ([], winStartB, e :: es)

def passBufferedMpdusUntilFirstLost (agr : RecipientBlockAckAgreement π) :
    Option (List (WifiMacQueueItem π) × RecipientBlockAckAgreement π) := do
  assertNoOld agr.m_winStartB agr.m_bufferedMpdus
  let r := untilFirstLost agr.m_winStartB agr.m_bufferedMpdus
  some (r.1, { agr with m_winStartB := r.2.1, m_bufferedMpdus := r.2.2 })

/-- The loop of `PassBufferedMpdusWithSeqNumberLessThan`. -/
def seqNumberLessThan (winStartB newWinStartB : ℕ) :
    List (ℕ × WifiMacQueueItem π) →
      Option (List (WifiMacQueueItem π) × List (ℕ × WifiMacQueueItem π))
  | [] => some ([], [])
  | e :: es => do
    let distance ← getDistance e.1 winStartB
    let newDistance ← getDistance newWinStartB winStartB
    if distance < newDistance then
      let r ← seqNumberLessThan winStartB newWinStartB es
      some (e.2 :: r.1, r.2)
    else some ([], e :: es)

def passBufferedMpdusWithSeqNumberLessThan (agr : RecipientBlockAckAgreement π)
    (newWinStartB : ℕ) : Option (List (WifiMacQueueItem π) × RecipientBlockAckAgreement π) := do
  assertNoOld agr.m_winStartB agr.m_bufferedMpdus
  let r ← seqNumberLessThan agr.m_winStartB newWinStartB agr.m_bufferedMpdus
  some (r.1, { agr with m_winStartB := newWinStartB, m_bufferedMpdus := r.2 })

/-! ## Reception -/

/-- `NotifyReceivedMpdu` on the scoreboard. -/
def scoreMpdu (board : BlockAckWindow) (seq : ℕ) : Option BlockAckWindow := do
  let distance ← getDistance seq board.m_winStart
  if distance < board.getWinSize then
    board.setAt distance true
  else if distance < 2048 then
    let advanced := board.advance (distance - board.getWinSize + 1)
    advanced.setAt (advanced.getWinSize - 1) true
  else some board

/-- `NotifyReceivedMpdu` on the reordering buffer. The new start is `SN - m_winSizeB + 1` as a
`uint16_t`, not reduced to 12 bits. -/
def reorderMpdu (agr : RecipientBlockAckAgreement π) (mpdu : WifiMacQueueItem π) :
    Option (List (WifiMacQueueItem π) × RecipientBlockAckAgreement π) := do
  let seq := mpdu.m_sequenceNumber
  let distance ← getDistance seq agr.m_winStartB
  let stored := { agr with
    m_bufferedMpdus := insertMpdu agr.m_winStartB seq mpdu agr.m_bufferedMpdus }
  if distance < agr.m_winSizeB then
    stored.passBufferedMpdusUntilFirstLost
  else if distance < 2048 then
    let r ← stored.passBufferedMpdusWithSeqNumberLessThan
      ((seq + 1 + 65536 - agr.m_winSizeB) % 65536)
    let r' ← r.2.passBufferedMpdusUntilFirstLost
    some (r.1 ++ r'.1, r'.2)
  else some ([], agr)

def notifyReceivedMpdu (agr : RecipientBlockAckAgreement π) (mpdu : WifiMacQueueItem π) :
    Option (List (WifiMacQueueItem π) × RecipientBlockAckAgreement π) := do
  let board ← scoreMpdu agr.m_scoreboard mpdu.m_sequenceNumber
  reorderMpdu { agr with m_scoreboard := board } mpdu

/-- `NotifyReceivedBar` on the scoreboard. -/
def scoreBar (board : BlockAckWindow) (startingSequenceNumber : ℕ) : Option BlockAckWindow := do
  let distance ← getDistance startingSequenceNumber board.m_winStart
  if distance > 0 ∧ distance < board.getWinSize then
    let advanced := board.advance distance
    guard (advanced.m_winStart = startingSequenceNumber)
    some advanced
  else if distance > 0 ∧ distance < 2048 then
    some (board.reset startingSequenceNumber)
  else some board

/-- `NotifyReceivedBar` on the reordering buffer. -/
def reorderBar (agr : RecipientBlockAckAgreement π) (startingSequenceNumber : ℕ) :
    Option (List (WifiMacQueueItem π) × RecipientBlockAckAgreement π) := do
  let distance ← getDistance startingSequenceNumber agr.m_winStartB
  if distance > 0 ∧ distance < 2048 then
    let r ← agr.passBufferedMpdusWithSeqNumberLessThan startingSequenceNumber
    let r' ← r.2.passBufferedMpdusUntilFirstLost
    some (r.1 ++ r'.1, r'.2)
  else some ([], agr)

def notifyReceivedBar (agr : RecipientBlockAckAgreement π) (startingSequenceNumber : ℕ) :
    Option (List (WifiMacQueueItem π) × RecipientBlockAckAgreement π) := do
  let board ← scoreBar agr.m_scoreboard startingSequenceNumber
  reorderBar { agr with m_scoreboard := board } startingSequenceNumber

end RecipientBlockAckAgreement

/-! ## Numbers along an unbounded sequence -/

/-- `x` is the 12-bit number of the position `u`. -/
def IsSeq (x : ℕ) (u : ℤ) : Prop := (x : ℤ) = u % 4096

instance (x : ℕ) (u : ℤ) : Decidable (IsSeq x u) := inferInstanceAs (Decidable (_ = _))

variable {x y z : ℕ} {u v p : ℤ}

theorem IsSeq.lt (h : IsSeq x u) : x < 4096 := by
  unfold IsSeq at h
  omega

theorem IsSeq.getDistance (hx : IsSeq x u) (hy : IsSeq y v) :
    getDistance x y = some ((u - v) % 4096).toNat := by
  rw [getDistance_eq hx.lt hy.lt]
  unfold IsSeq at hx hy
  congr 1
  omega

/-- Up to 4096 positions on, the distance is that of the positions. -/
theorem IsSeq.getDistance_of_le (hx : IsSeq x u) (hy : IsSeq y v) (hle : v ≤ u)
    (hlt : u < v + 4096) : Wifi.getDistance x y = some (u - v).toNat := by
  rw [hx.getDistance hy, Int.emod_eq_of_lt (by omega) (by omega)]

/-- An old position is at a distance of more than half of the numbers. -/
theorem IsSeq.getDistance_of_lt (hx : IsSeq x u) (hy : IsSeq y v) (hlt : u < v)
    (hle : v ≤ u + 2048) :
    ∃ d, Wifi.getDistance x y = some d ∧ 2048 ≤ d := by
  refine ⟨_, hx.getDistance hy, ?_⟩
  have : (u - v) % 4096 = u - v + 4096 := by
    rw [← Int.add_emod_right, Int.emod_eq_of_lt (by omega) (by omega)]
  omega

theorem IsSeq.eq_iff (hx : IsSeq x u) (hy : IsSeq y v) (hle : v ≤ u) (hlt : u < v + 4096) :
    x = y ↔ u = v := by
  unfold IsSeq at hx hy
  omega

theorem IsSeq.compare_iff (hz : IsSeq z p) (hx : IsSeq x u) (hy : IsSeq y v) (hpu : p ≤ u)
    (hu : u < p + 4096) (hpv : p ≤ v) (hv : v < p + 4096) :
    RecipientBlockAckAgreement.compare z x y = true ↔ u < v := by
  have hx4 := hx.lt
  have hy4 := hy.lt
  have hz4 := hz.lt
  unfold RecipientBlockAckAgreement.compare
  rw [decide_eq_true_eq, Int.tmod_eq_emod_of_nonneg (by omega),
    Int.tmod_eq_emod_of_nonneg (by omega)]
  unfold IsSeq at hx hy hz
  omega

end Ns3.Wifi
