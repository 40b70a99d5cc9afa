import Ns3.Wifi.Originator

/-!
# The MPDUs in flight

The calls of `BlockAckManager` on one established agreement, while no lifetime expires. Every MPDU
has a sequence number and a fragment number. Whether an MPDU is in the EDCA queue is told to each
call, as other methods remove MPDUs from there. A failed assertion is `none`.
-/

namespace Ns3.Wifi.InFlight

/-- `GetSequenceNumber` and `GetFragmentNumber`. -/
structure Mpdu where
  m_sequenceNumber : Fin 4096
  m_fragmentNumber : Fin 16
deriving DecidableEq, Repr

namespace Mpdu

def getSequenceControl (m : Mpdu) : ℕ := m.m_sequenceNumber.val <<< 4 ||| m.m_fragmentNumber.val

/-- The MPDU as the transmit window has it. Its place is not read. -/
def item (m : Mpdu) : Wifi.Mpdu := ⟨0, m.m_sequenceNumber⟩

end Mpdu

/-- The transmit window and the MPDUs in flight of an agreement. -/
structure Agreement where
  m_txWindow : BlockAckWindow
  m_inFlight : List Mpdu
deriving DecidableEq, Repr

/-- `InitTxWindow`. -/
def Agreement.create (startingSeq bufferSize : ℕ) : Agreement := ⟨.init startingSeq bufferSize, []⟩

/-! ## StorePacket -/

/-- The search for the place of an MPDU from the end of the list on, here reversed; `none` inside
where the MPDU is in the list already. -/
def storeFrom (w : BlockAckWindow) (mpdu : Mpdu) (mpduDist : ℕ) :
    List Mpdu → Option (Option (List Mpdu))
  | [] => some (some [mpdu])
  | m :: ms =>
    if mpdu.getSequenceControl = m.getSequenceControl then some none
    else do
      let dist ← getDistance m.m_sequenceNumber w.m_winStart
      if mpduDist > dist ∨ mpduDist = dist ∧ mpdu.m_fragmentNumber > m.m_fragmentNumber then
        some (some (mpdu :: m :: ms))
      else do
        let stored ← storeFrom w mpdu mpduDist ms
        some (stored.map fun ms => m :: ms)

def storePacket (a : Agreement) (mpdu : Mpdu) : Option Agreement := do
  let mpduDist ← getDistance mpdu.m_sequenceNumber a.m_txWindow.m_winStart
  if mpduDist ≥ 2048 then some a
  else do
    let stored ← storeFrom a.m_txWindow mpdu mpduDist a.m_inFlight.reverse
    match stored with
    | none => some a
    | some ms => do
      let w ← notifyTransmittedMpdu a.m_txWindow mpdu.item
      some ⟨w, ms.reverse⟩

/-! ## Acknowledgements -/

inductive MpduStatus
  | stayInFlight
  | toRetransmit
  | acknowledged
deriving DecidableEq, Repr

/-- `HandleInFlightMpdu`: whether the MPDU is erased. -/
def handleInFlightMpdu (w : BlockAckWindow) (isQueued : Mpdu → Bool) (status : MpduStatus)
    (mpdu : Mpdu) : Option Bool :=
  if !isQueued mpdu then some true
  else if status = .acknowledged then some true
  else do
    let distance ← getDistance mpdu.m_sequenceNumber w.m_winStart
    if distance ≥ 2048 then some true
    else some (status ≠ .stayInFlight)

/-- The loop over the MPDUs in flight that handles the first one with a sequence number. -/
def handleFirst (w : BlockAckWindow) (isQueued : Mpdu → Bool) (status : MpduStatus)
    (seq : Fin 4096) : List Mpdu → Option (List Mpdu)
  | [] => some []
  | m :: ms =>
    if m.m_sequenceNumber = seq then do
      let erased ← handleInFlightMpdu w isQueued status m
      some (if erased then ms else m :: ms)
    else do
      let ms ← handleFirst w isQueued status seq ms
      some (m :: ms)

def notifyGotAck (a : Agreement) (isQueued : Mpdu → Bool) (mpdu : Mpdu) : Option Agreement := do
  let w ← notifyAckedMpdu a.m_txWindow mpdu.item
  let ms ← handleFirst w isQueued .acknowledged mpdu.m_sequenceNumber a.m_inFlight
  some ⟨w, ms⟩

def notifyMissedAck (a : Agreement) (isQueued : Mpdu → Bool) (mpdu : Mpdu) : Option Agreement := do
  let ms ← handleFirst a.m_txWindow isQueued .toRetransmit mpdu.m_sequenceNumber a.m_inFlight
  some { a with m_inFlight := ms }

/-- The loop of `NotifyGotBlockAck`: `nSuccessfulMpdus`, `nFailedMpdus`, the window and the MPDUs
that stay. `received` is `IsPacketReceived` of the block ack. -/
def gotBlockAckLoop (received : Fin 4096 → Bool) (isQueued : Mpdu → Bool) :
    BlockAckWindow → List Mpdu → Option ((ℕ × ℕ) × Agreement)
  | w, [] => some ((0, 0), ⟨w, []⟩)
  | w, m :: ms =>
    if received m.m_sequenceNumber then do
      let w ← notifyAckedMpdu w m.item
      let erased ← handleInFlightMpdu w isQueued .acknowledged m
      let (n, a) ← gotBlockAckLoop received isQueued w ms
      some (((n.1 + 1) % 65536, n.2), if erased then a
      else { a with m_inFlight := m :: a.m_inFlight })
    else do
      let erased ← handleInFlightMpdu w isQueued .toRetransmit m
      let (n, a) ← gotBlockAckLoop received isQueued w ms
      some ((n.1, (n.2 + 1) % 65536), if erased then a
        else { a with m_inFlight := m :: a.m_inFlight })

def notifyGotBlockAck (a : Agreement) (received : Fin 4096 → Bool) (isQueued : Mpdu → Bool) :
    Option ((ℕ × ℕ) × Agreement) :=
  gotBlockAckLoop received isQueued a.m_txWindow a.m_inFlight

/-- The loop of `NotifyMissedBlockAck`. -/
def missedBlockAckLoop (w : BlockAckWindow) (isQueued : Mpdu → Bool) :
    List Mpdu → Option (List Mpdu)
  | [] => some []
  | m :: ms => do
    let erased ← handleInFlightMpdu w isQueued .toRetransmit m
    let ms ← missedBlockAckLoop w isQueued ms
    some (if erased then ms else m :: ms)

def notifyMissedBlockAck (a : Agreement) (isQueued : Mpdu → Bool) : Option Agreement := do
  let ms ← missedBlockAckLoop a.m_txWindow isQueued a.m_inFlight
  some { a with m_inFlight := ms }

/-! ## Discarding -/

/-- The loop of `NotifyDiscardedMpdu`: it ends before the first MPDU that is not old. -/
def dropOld (w : BlockAckWindow) : List Mpdu → Option (List Mpdu)
  | [] => some []
  | m :: ms => do
    let distance ← getDistance m.m_sequenceNumber w.m_winStart
    if distance ≥ 2048 then dropOld w ms else some (m :: ms)

/-- `NotifyDiscardedMpdu`. `transmitted` is the Retry flag or the in-flight flag of the MPDU. -/
def notifyDiscardedMpdu (a : Agreement) (mpdu : Mpdu) (transmitted : Bool) : Option Agreement :=
  if !transmitted then some a
  else if qosUtilsIsOldPacket a.m_txWindow.m_winStart mpdu.m_sequenceNumber then some a
  else do
    let w ← agreementDiscardedMpdu a.m_txWindow mpdu.item
    let ms ← dropOld w a.m_inFlight
    some ⟨w, ms⟩

/-! ## Calls -/

inductive Call where
  | storePacket (mpdu : Mpdu)
  | notifyGotAck (mpdu : Mpdu) (isQueued : Mpdu → Bool)
  | notifyMissedAck (mpdu : Mpdu) (isQueued : Mpdu → Bool)
  | notifyGotBlockAck (received : Fin 4096 → Bool) (isQueued : Mpdu → Bool)
  | notifyMissedBlockAck (isQueued : Mpdu → Bool)
  | notifyDiscardedMpdu (mpdu : Mpdu) (transmitted : Bool)

/-- What a call does, and the counts that it returns. -/
def Agreement.call (a : Agreement) : Call → Option (Option (ℕ × ℕ) × Agreement)
  | .storePacket mpdu => (storePacket a mpdu).map (none, ·)
  | .notifyGotAck mpdu isQueued => (notifyGotAck a isQueued mpdu).map (none, ·)
  | .notifyMissedAck mpdu isQueued => (notifyMissedAck a isQueued mpdu).map (none, ·)
  | .notifyGotBlockAck received isQueued =>
    (notifyGotBlockAck a received isQueued).map fun r => (some r.1, r.2)
  | .notifyMissedBlockAck isQueued => (notifyMissedBlockAck a isQueued).map (none, ·)
  | .notifyDiscardedMpdu mpdu transmitted => (notifyDiscardedMpdu a mpdu transmitted).map (none, ·)

/-- The distance of an MPDU from the start of the window. -/
def Agreement.distance (a : Agreement) (m : Mpdu) : ℕ :=
  (m.m_sequenceNumber + 4096 - a.m_txWindow.m_winStart) % 4096

/-! ## Moving the window -/

variable {W k l n : ℕ} {w w' w'' : BlockAckWindow}

/-- A window of `W` bits, one of which is the head. -/
structure Sized (W : ℕ) (w : BlockAckWindow) : Prop where
  size : w.getWinSize = W
  head : w.m_head < W
  start : w.m_winStart < 4096

/-- `w'` is `w` moved by `k`. The bits that come in are clear. -/
structure Moved (W k : ℕ) (w w' : BlockAckWindow) : Prop where
  sized : Sized W w'
  start : w'.m_winStart = (w.m_winStart + k) % 4096
  bits : ∀ i < W, w'.bit i = (decide (i + k < W) && w.bit (i + k))

theorem Sized.pos (h : Sized W w) : 0 < W := Nat.zero_lt_of_lt h.head

theorem Sized.refl (h : Sized W w) : Moved W 0 w w where
  sized := h
  start := (Nat.mod_eq_of_lt h.start).symm
  bits := fun i hi => by rw [Nat.add_zero, decide_eq_true hi, Bool.true_and]

theorem Sized.advance (h : Sized W w) (k : ℕ) : Moved W k w (w.advance k) where
  sized := by
    refine ⟨BlockAckWindow.advance_getWinSize.trans h.size, ?_, ?_⟩
    · have := BlockAckWindow.advance_head (n := k) (h.size.symm ▸ h.head)
      rwa [h.size] at this
    · rw [BlockAckWindow.advance_winStart]
      exact Nat.mod_lt _ (by decide)
  start := BlockAckWindow.advance_winStart
  bits := by
    intro i hi
    rw [BlockAckWindow.advance_bit (h.size.symm ▸ h.head) (h.size.symm ▸ hi), h.size]
    split
    · next hin => rw [decide_eq_true hin, Bool.true_and]
    · next hout => rw [decide_eq_false hout, Bool.false_and]

theorem Moved.trans (h : Moved W k w w') (h' : Moved W l w' w'') : Moved W (k + l) w w'' where
  sized := h'.sized
  start := by rw [h'.start, h.start, Nat.mod_add_mod, Nat.add_assoc]
  bits := by
    intro i hi
    rw [h'.bits i hi]
    by_cases hin : i + l < W
    · rw [decide_eq_true hin, Bool.true_and, h.bits _ hin, Nat.add_assoc, Nat.add_comm l k]
    · rw [decide_eq_false hin, decide_eq_false (by omega), Bool.false_and, Bool.false_and]

theorem Sized.atDistance (h : Sized W w) {i : ℕ} (hi : i < W) : w.atDistance i = some (w.bit i) :=
  BlockAckWindow.atDistance_eq (h.size.symm ▸ hi)

/-- The turns of `AdvanceTxWindow` pass set bits only. -/
theorem Sized.advanceTxLoop (h : Sized W w) (n : ℕ) :
    ∃ k ≤ n, Moved W k w (advanceTxLoop n w) ∧ (∀ i < k, i < W → w.bit i = true) ∧
      (k < n → (advanceTxLoop n w).bit 0 = false) := by
  induction n generalizing w with
  | zero => exact ⟨0, le_rfl, h.refl, fun i hi => absurd hi (Nat.not_lt_zero i),
    fun hk => absurd hk (Nat.lt_irrefl 0)⟩
  | succ n ih =>
    unfold Wifi.advanceTxLoop
    by_cases hset : w.bit 0 = true
    · have hmoved := h.advance 1
      obtain ⟨k, hk, hrest, hbits, hclear⟩ := ih hmoved.sized
      rw [if_pos (by rw [h.atDistance h.pos, hset])]
      refine ⟨1 + k, by omega, hmoved.trans hrest, fun i hi hiW => ?_, fun hlt => hclear (by omega)⟩
      cases i with
      | zero => exact hset
      | succ i =>
        have hbit := hbits i (by omega) (by omega)
        rw [hmoved.bits i (by omega), decide_eq_true hiW, Bool.true_and] at hbit
        exact hbit
    · rw [if_neg (by rw [h.atDistance h.pos]; exact fun heq => hset (Option.some.inj heq))]
      exact ⟨0, Nat.zero_le _, h.refl, fun i hi => absurd hi (Nat.not_lt_zero i),
        fun _ => Bool.eq_false_iff.mpr hset⟩

/-- `AdvanceTxWindow` ends: it passes set bits and leaves the first bit clear. -/
theorem Sized.advanceTxWindow (h : Sized W w) :
    ∃ k ≤ W, Moved W k w (advanceTxWindow w) ∧ (∀ i < k, w.bit i = true) ∧
      (advanceTxWindow w).bit 0 = false := by
  obtain ⟨k, hk, hmoved, hbits, hclear⟩ := h.advanceTxLoop w.getWinSize
  rw [h.size] at hk
  refine ⟨k, hk, hmoved, fun i hi => hbits i hi (by omega), ?_⟩
  by_cases hlt : k < W
  · exact hclear (h.size.symm ▸ hlt)
  · have hbit := hmoved.bits 0 h.pos
    rw [decide_eq_false (by omega), Bool.false_and] at hbit
    exact hbit

end Ns3.Wifi.InFlight
