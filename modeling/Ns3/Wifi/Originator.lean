import Ns3.Wifi.BlockAckFrame

/-!
# The originator of a block ack agreement

`OriginatorBlockAckAgreement` and the part of `BlockAckManager` that concerns one established
agreement. An MPDU that got a sequence number is in flight or, with the Retry flag, waits to be
transmitted again; the flags are not kept besides. A failed assertion is `none`. Callbacks are left
out, and so is the list of scheduled block ack requests: a request can be sent at any time.
-/

namespace Ns3.Wifi

/-- An MPDU with its sequence number; `place` is the number before it was reduced to 12 bits. -/
@[ext] structure Mpdu where
  place : ℤ
  m_sequenceNumber : ℕ
deriving DecidableEq, Repr

/-- `QosUtilsIsOldPacket`. -/
def qosUtilsIsOldPacket (startingSeq seqNumber : ℕ) : Bool :=
  (seqNumber + 4096 - startingSeq) % 4096 ≥ 2048

def isInWindow (seq winstart winsize : ℕ) : Bool := (seq + 4096 - winstart) % 4096 < winsize

/-! ## OriginatorBlockAckAgreement -/

/-- The loop of `AdvanceTxWindow`. -/
def advanceTxLoop : ℕ → BlockAckWindow → BlockAckWindow
  | 0, w => w
  | n + 1, w => if w.atDistance 0 = some true then advanceTxLoop n (w.advance 1) else w

/-- `AdvanceTxWindow`. Each turn clears a bit, so that there are no more turns than bits. -/
def advanceTxWindow (w : BlockAckWindow) : BlockAckWindow := advanceTxLoop w.getWinSize w

def notifyTransmittedMpdu (w : BlockAckWindow) (mpdu : Mpdu) : Option BlockAckWindow := do
  let distance ← getDistance mpdu.m_sequenceNumber w.m_winStart
  if distance ≥ 2048 then some w
  else if distance ≥ w.getWinSize then
    some (advanceTxWindow (w.advance (distance - w.getWinSize + 1)))
  else some w

def notifyAckedMpdu (w : BlockAckWindow) (mpdu : Mpdu) : Option BlockAckWindow := do
  let distance ← getDistance mpdu.m_sequenceNumber w.m_winStart
  if distance ≥ 2048 then some w
  else do
    let w ← w.setAt distance true
    some (advanceTxWindow w)

/-- `OriginatorBlockAckAgreement::NotifyDiscardedMpdu`. -/
def agreementDiscardedMpdu (w : BlockAckWindow) (mpdu : Mpdu) : Option BlockAckWindow := do
  let distance ← getDistance mpdu.m_sequenceNumber w.m_winStart
  if distance ≥ 2048 then some w
  else some (advanceTxWindow (w.advance (distance + 1)))

/-! ## BlockAckManager -/

/-- The transmit window, the MPDUs in flight and those with a sequence number that are stored in the
EDCA queue. -/
structure Originator where
  m_txWindow : BlockAckWindow
  m_inFlight : List Mpdu
  m_queue : List Mpdu
deriving DecidableEq, Repr

namespace Originator

/-- The search for the place of an MPDU from the end of the list on, here reversed; `none` inside
where the MPDU is in the list already. -/
def storeFrom (w : BlockAckWindow) (mpdu : Mpdu) (mpduDist : ℕ) :
    List Mpdu → Option (Option (List Mpdu))
  | [] => some (some [mpdu])
  | m :: ms =>
    if mpdu.m_sequenceNumber = m.m_sequenceNumber then some none
    else do
      let dist ← getDistance m.m_sequenceNumber w.m_winStart
      if mpduDist > dist then some (some (mpdu :: m :: ms))
      else do
        let stored ← storeFrom w mpdu mpduDist ms
        some (stored.map fun ms => m :: ms)

def storePacket (o : Originator) (mpdu : Mpdu) : Option Originator := do
  let mpduDist ← getDistance mpdu.m_sequenceNumber o.m_txWindow.m_winStart
  if mpduDist ≥ 2048 then some o
  else do
    let stored ← storeFrom o.m_txWindow mpdu mpduDist o.m_inFlight.reverse
    match stored with
    | none => some o
    | some ms => do
      let w ← notifyTransmittedMpdu o.m_txWindow mpdu
      some { o with m_txWindow := w, m_inFlight := ms.reverse }

/-- `DequeueIfQueued`, `Remove`. -/
def dequeue (o : Originator) (mpdu : Mpdu) : Originator :=
  { o with m_queue := o.m_queue.filter fun m => m ≠ mpdu }

/-- The loop of `NotifyDiscardedMpdu` over the MPDUs in flight: it ends before the first that is not
old. -/
def dropOld (w : BlockAckWindow) : List Mpdu → List Mpdu → Option (List Mpdu × List Mpdu)
  | [], queue => some ([], queue)
  | m :: ms, queue => do
    let distance ← getDistance m.m_sequenceNumber w.m_winStart
    if distance ≥ 2048 then dropOld w ms (queue.filter fun m' => m' ≠ m)
    else some (m :: ms, queue)

/-- `NotifyDiscardedMpdu`. -/
def notifyDiscardedMpdu (o : Originator) (mpdu : Mpdu) : Option Originator :=
  if qosUtilsIsOldPacket o.m_txWindow.m_winStart mpdu.m_sequenceNumber then some o
  else do
    let w ← agreementDiscardedMpdu o.m_txWindow mpdu
    let r ← dropOld w o.m_inFlight o.m_queue
    some ⟨w, r.1, r.2⟩

/-- An MPDU is removed from the EDCA queue as its lifetime has ended, or as it cannot be
transmitted again. -/
def discard (o : Originator) (mpdu : Mpdu) : Option Originator :=
  (o.dequeue mpdu).notifyDiscardedMpdu mpdu

inductive MpduStatus
  | toRetransmit | acknowledged
deriving DecidableEq, Repr

/-- `HandleInFlightMpdu` for the first MPDU in flight. `lifetime` compares the end of the lifetime
of an MPDU with the current time. After the call the first MPDU is another one. -/
def handleInFlightMpdu (lifetime : ℤ → Ordering) (status : MpduStatus) (o : Originator) :
    Option Originator :=
  match o.m_inFlight with
  | [] => some o
  | m :: ms =>
    let erased := { o with m_inFlight := ms }
    if m ∉ o.m_queue then some erased
    else if status = .acknowledged then some (erased.dequeue m)
    else do
      let distance ← getDistance m.m_sequenceNumber o.m_txWindow.m_winStart
      if distance ≥ 2048 then some (erased.dequeue m)
      else if lifetime m.place = .lt then o.discard m
      else some erased

/-- The loop of `NotifyGotBlockAck`: the MPDUs counted as successful and what becomes of the
originator, `none` if it has not ended within `n` turns. -/
def gotBlockAckLoop (blockAck : CtrlBAckResponseHeader) (lifetime : ℤ → Ordering) :
    ℕ → Originator → Option (List Mpdu × Originator)
  | 0, _ => none
  | n + 1, o =>
    match o.m_inFlight with
    | [] => some ([], o)
    | m :: _ =>
      if blockAck.isPacketReceived m.m_sequenceNumber then do
        let w ← notifyAckedMpdu o.m_txWindow m
        let o ← handleInFlightMpdu lifetime .acknowledged { o with m_txWindow := w }
        let r ← gotBlockAckLoop blockAck lifetime n o
        some (m :: r.1, r.2)
      else do
        let o ← handleInFlightMpdu lifetime .toRetransmit o
        gotBlockAckLoop blockAck lifetime n o

def notifyGotBlockAck (o : Originator) (blockAck : CtrlBAckResponseHeader)
    (lifetime : ℤ → Ordering) : Option (List Mpdu × Originator) :=
  gotBlockAckLoop blockAck lifetime (o.m_inFlight.length + 1) o

/-- The loop of `NotifyMissedBlockAck`. -/
def missedBlockAckLoop (lifetime : ℤ → Ordering) : ℕ → Originator → Option Originator
  | 0, _ => none
  | n + 1, o =>
    match o.m_inFlight with
    | [] => some o
    | _ :: _ => do
      let o ← handleInFlightMpdu lifetime .toRetransmit o
      missedBlockAckLoop lifetime n o

def notifyMissedBlockAck (o : Originator) (lifetime : ℤ → Ordering) : Option Originator :=
  missedBlockAckLoop lifetime (o.m_inFlight.length + 1) o

/-- The loop of `GetBar` that removes the expired MPDUs. At the very end of its lifetime an MPDU is
passed by the window and stays in the EDCA queue. -/
def removeExpired (lifetime : ℤ → Ordering) : List Mpdu → Originator → Option Originator
  | [], o => some o
  | m :: ms, o =>
    if m ∉ o.m_queue then removeExpired lifetime ms { o with m_inFlight := ms }
    else
      match lifetime m.place with
      | .gt => some o
      | .eq => do
        let w ← agreementDiscardedMpdu o.m_txWindow m
        removeExpired lifetime ms { o with m_txWindow := w, m_inFlight := ms }
      | .lt => do
        let w ← agreementDiscardedMpdu o.m_txWindow m
        let o ← { o with m_txWindow := w }.discard m
        removeExpired lifetime ms { o with m_inFlight := ms }

/-- `GetBar` for the agreement: the starting sequence number of the request. -/
def getBar (o : Originator) (lifetime : ℤ → Ordering) : Option (ℕ × Originator) := do
  let o ← removeExpired lifetime o.m_inFlight o
  some (o.m_txWindow.m_winStart, o)

/-- `PeekNextMpdu` removes the old MPDUs from the EDCA queue. -/
def removeOld (o : Originator) : Originator :=
  { o with
    m_queue := o.m_queue.filter fun m =>
      !qosUtilsIsOldPacket o.m_txWindow.m_winStart m.m_sequenceNumber }

/-- A new MPDU gets the number of `place` and is transmitted. -/
def transmit (o : Originator) (place : ℤ) : Option (Mpdu × Originator) := do
  let o := o.removeOld
  let mpdu : Mpdu := ⟨place, (place % 4096).toNat⟩
  guard (isInWindow mpdu.m_sequenceNumber o.m_txWindow.m_winStart o.m_txWindow.getWinSize)
  let o ← { o with m_queue := o.m_queue ++ [mpdu] }.storePacket mpdu
  some (mpdu, o)

/-- An MPDU of the EDCA queue that is not in flight is transmitted again. -/
def retransmit (o : Originator) (mpdu : Mpdu) : Option Originator := do
  let o := o.removeOld
  guard (mpdu ∈ o.m_queue ∧ mpdu ∉ o.m_inFlight)
  guard (isInWindow mpdu.m_sequenceNumber o.m_txWindow.m_winStart o.m_txWindow.getWinSize)
  o.storePacket mpdu

end Originator

end Ns3.Wifi
