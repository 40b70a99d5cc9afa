import Ns3.Wifi.OriginatorSteps

/-!
# An originator and a recipient

The two parties of a block ack agreement and the frames between them. Both channels keep the order,
and any frame can be lost. Of the recipient only the scoreboard takes part: the reordering buffer
has no influence on it (`notifyReceivedMpdu_scoreboard`, `notifyReceivedBar_scoreboard`).
-/

namespace Ns3.Wifi

open RecipientBlockAckAgreement

/-! ## The scoreboard of the recipient -/

section Scoreboard

variable {π : Type} {agr agr' : RecipientBlockAckAgreement π} {out : List (WifiMacQueueItem π)}
  {x : ℕ}

theorem passBufferedMpdusUntilFirstLost_scoreboard
    (h : agr.passBufferedMpdusUntilFirstLost = some (out, agr')) :
    agr'.m_scoreboard = agr.m_scoreboard := by
  obtain ⟨_, -, hr⟩ := Option.bind_eq_some_iff.mp h
  obtain ⟨-, rfl⟩ := Prod.mk.inj (Option.some.inj hr)
  rfl

theorem passBufferedMpdusWithSeqNumberLessThan_scoreboard
    (h : agr.passBufferedMpdusWithSeqNumberLessThan x = some (out, agr')) :
    agr'.m_scoreboard = agr.m_scoreboard := by
  obtain ⟨_, -, hr⟩ := Option.bind_eq_some_iff.mp h
  obtain ⟨_, -, hr⟩ := Option.bind_eq_some_iff.mp hr
  obtain ⟨-, rfl⟩ := Prod.mk.inj (Option.some.inj hr)
  rfl

theorem pass_scoreboard
    (h : (do
      let r ← agr.passBufferedMpdusWithSeqNumberLessThan x
      let r' ← r.2.passBufferedMpdusUntilFirstLost
      some (r.1 ++ r'.1, r'.2)) = some (out, agr')) :
    agr'.m_scoreboard = agr.m_scoreboard := by
  obtain ⟨r, hr, h⟩ := Option.bind_eq_some_iff.mp h
  obtain ⟨r', hr', h⟩ := Option.bind_eq_some_iff.mp h
  obtain ⟨-, rfl⟩ := Prod.mk.inj (Option.some.inj h)
  exact (passBufferedMpdusUntilFirstLost_scoreboard hr').trans
    (passBufferedMpdusWithSeqNumberLessThan_scoreboard hr)

theorem notifyReceivedMpdu_scoreboard {mpdu : WifiMacQueueItem π}
    (h : agr.notifyReceivedMpdu mpdu = some (out, agr')) :
    scoreMpdu agr.m_scoreboard mpdu.m_sequenceNumber = some agr'.m_scoreboard := by
  obtain ⟨board, hboard, h⟩ := Option.bind_eq_some_iff.mp h
  rw [hboard, Option.some_inj]
  obtain ⟨distance, -, h⟩ := Option.bind_eq_some_iff.mp h
  split_ifs at h
  · exact (passBufferedMpdusUntilFirstLost_scoreboard h).symm
  · exact (pass_scoreboard h).symm
  · obtain ⟨-, rfl⟩ := Prod.mk.inj (Option.some.inj h)
    rfl

theorem notifyReceivedBar_scoreboard (h : agr.notifyReceivedBar x = some (out, agr')) :
    scoreBar agr.m_scoreboard x = some agr'.m_scoreboard := by
  obtain ⟨board, hboard, h⟩ := Option.bind_eq_some_iff.mp h
  rw [hboard, Option.some_inj]
  obtain ⟨distance, -, h⟩ := Option.bind_eq_some_iff.mp h
  split_ifs at h
  · exact (pass_scoreboard h).symm
  · obtain ⟨-, rfl⟩ := Prod.mk.inj (Option.some.inj h)
    rfl

end Scoreboard

/-! ## The exchange -/

inductive FrameContent
  | mpdu (mpdu : Mpdu)
  | blockAckReq (startingSequenceNumber : ℕ)
deriving DecidableEq, Repr

/-- A frame for the recipient. The positions below `used` were used before it was sent. -/
structure Frame where
  content : FrameContent
  used : ℤ
deriving DecidableEq, Repr

/-- The positions below `f.after` are used with `f` itself. -/
def Frame.after (f : Frame) : ℤ :=
  match f.content with
  | .mpdu m => max f.used (m.place + 1)
  | .blockAckReq _ => f.used

/-- A block ack, with what the recipient had received when it sent it and what was used with the
last frame it had received. -/
structure Reply where
  blockAck : CtrlBAckResponseHeader
  received : List ℤ
  last : ℤ
deriving DecidableEq, Repr

/-- `next` is the position of the next new MPDU, and was `begun` when the agreement was established.
`last` is what was used with the last frame that the recipient received. -/
structure Exchange where
  originator : Originator
  next : ℤ
  toRecipient : List Frame
  toOriginator : List Reply
  scoreboard : BlockAckWindow
  received : List ℤ
  last : Option ℤ
  begun : ℤ
deriving DecidableEq, Repr

inductive Action
  | transmit
  | retransmit (mpdu : Mpdu)
  | discard (mpdu : Mpdu)
  | sendBar (lifetime : ℤ → Ordering)
  | gotBlockAck (lifetime : ℤ → Ordering)
  | missedBlockAck (lifetime : ℤ → Ordering)
  | receive
  | sendBlockAck
  | loseFrame (i : ℕ)
  | loseBlockAck (i : ℕ)

namespace Exchange

/-- What was used with the last frame received, or when the agreement was established. -/
def lastUsed (x : Exchange) : ℤ := x.last.getD x.begun

def send (x : Exchange) (content : FrameContent) : Exchange :=
  { x with toRecipient := x.toRecipient ++ [⟨content, x.next⟩] }

/-- The scoreboard follows a frame. -/
def score (x : Exchange) (f : Frame) : Option Exchange :=
  match f.content with
  | .mpdu m => do
    let board ← scoreMpdu x.scoreboard m.m_sequenceNumber
    some { x with scoreboard := board, received := m.place :: x.received, last := some f.after }
  | .blockAckReq startingSequenceNumber => do
    let board ← scoreBar x.scoreboard startingSequenceNumber
    some { x with scoreboard := board, last := some f.after }

/-- The originator gets the first block ack. -/
def gotBlockAck (x : Exchange) (lifetime : ℤ → Ordering) : Option Exchange :=
  match x.toOriginator with
  | [] => none
  | b :: replies => do
    let r ← x.originator.notifyGotBlockAck b.blockAck lifetime
    some { x with originator := r.2, toOriginator := replies }

/-- The recipient receives the first frame. -/
def receive (x : Exchange) : Option Exchange :=
  match x.toRecipient with
  | [] => none
  | f :: frames => { x with toRecipient := frames }.score f

def step (bufferSize : ℕ) (x : Exchange) : Action → Option Exchange
  | .transmit => do
    let r ← x.originator.transmit x.next
    let sent := x.send (.mpdu r.1)
    some { sent with originator := r.2, next := x.next + 1 }
  | .retransmit mpdu => do
    let o ← x.originator.retransmit mpdu
    some { x.send (.mpdu mpdu) with originator := o }
  | .discard mpdu => do
    guard (mpdu ∈ x.originator.m_queue)
    let o ← x.originator.discard mpdu
    some { x with originator := o }
  | .sendBar lifetime => do
    let r ← x.originator.getBar lifetime
    some { x.send (.blockAckReq r.1) with originator := r.2 }
  | .gotBlockAck lifetime => x.gotBlockAck lifetime
  | .missedBlockAck lifetime => do
    let o ← x.originator.notifyMissedBlockAck lifetime
    some { x with originator := o }
  | .receive => x.receive
  | .sendBlockAck => do
    let b ← fillBlockAckBitmap x.scoreboard (bitmapLen bufferSize)
    some { x with toOriginator := x.toOriginator ++ [⟨b, x.received, x.lastUsed⟩] }
  | .loseFrame i => some { x with toRecipient := x.toRecipient.eraseIdx i }
  | .loseBlockAck i => some { x with toOriginator := x.toOriginator.eraseIdx i }

/-- Fewer than 1024 new sequence numbers are used between two frames that the recipient receives. -/
def Spaced (x : Exchange) : Action → Prop
  | .receive => ∀ f ∈ x.toRecipient.head?, ∀ last ∈ x.last, f.used < last + 1024
  | _ => True

/-- And fewer than 1024 before the first one. -/
def SpacedFromStart (x : Exchange) : Action → Prop
  | .receive => ∀ f ∈ x.toRecipient.head?, f.used < x.lastUsed + 1024
  | _ => True

/-- The agreement is established with the starting sequence number of the position `s`; the EDCA
queue may hold MPDUs from there on that were transmitted before. -/
def start (bufferSize startingSeq : ℕ) (next : ℤ) (queue : List Mpdu) : Exchange where
  originator := ⟨.init startingSeq bufferSize, [], queue⟩
  next := next
  toRecipient := []
  toOriginator := []
  scoreboard := .init startingSeq bufferSize
  received := []
  last := none
  begun := next

/-- The runs all of whose steps meet `C`. -/
inductive Run (C : Exchange → Action → Prop) (bufferSize : ℕ) : Exchange → Prop
  | start {startingSeq : ℕ} {s next : ℤ} {queue : List Mpdu} : IsSeq startingSeq s → s ≤ next →
      next ≤ s + bufferSize → (∀ m ∈ queue, m.Numbered ∧ s ≤ m.place ∧ m.place < next) →
        Run C bufferSize (start bufferSize startingSeq next queue)
  | step {x x' : Exchange} {a : Action} : Run C bufferSize x → C x a →
      x.step bufferSize a = some x' → Run C bufferSize x'

instance (x : Exchange) : DecidablePred (Spaced x)
  | .receive => inferInstanceAs
      (Decidable (∀ f ∈ x.toRecipient.head?, ∀ last ∈ x.last, f.used < last + 1024))
  | .transmit | .retransmit _ | .discard _ | .sendBar _ | .gotBlockAck _ | .missedBlockAck _
  | .sendBlockAck | .loseFrame _ | .loseBlockAck _ => isTrue trivial

instance (x : Exchange) : DecidablePred (SpacedFromStart x)
  | .receive => inferInstanceAs
      (Decidable (∀ f ∈ x.toRecipient.head?, f.used < x.lastUsed + 1024))
  | .transmit | .retransmit _ | .discard _ | .sendBar _ | .gotBlockAck _ | .missedBlockAck _
  | .sendBlockAck | .loseFrame _ | .loseBlockAck _ => isTrue trivial

section Steps

variable (C : Exchange → Action → Prop) [∀ x, DecidablePred (C x)]

/-- The actions one after another, each of which meets `C`. -/
def steps (bufferSize : ℕ) : List Action → Exchange → Option Exchange
  | [], x => some x
  | a :: as, x => do
    guard (C x a)
    let x ← x.step bufferSize a
    steps bufferSize as x

variable {C} {W : ℕ} {x x' : Exchange}

theorem Run.steps (h : Run C W x) {actions : List Action}
    (hsteps : steps C W actions x = some x') : Run C W x' := by
  induction actions generalizing x with
  | nil =>
    obtain rfl := Option.some.inj hsteps
    exact h
  | cons a as ih =>
    obtain ⟨_, hguard, hrest⟩ := Option.bind_eq_some_iff.mp hsteps
    obtain ⟨y, hy, hrest⟩ := Option.bind_eq_some_iff.mp hrest
    exact ih (h.step (Originator.of_guard hguard) hy) hrest

end Steps

end Exchange

end Ns3.Wifi
