import Ns3.Wifi.BlockAckExchange

/-!
# Acknowledged means received

Along a run of an originator and a recipient every frame under way was sent from within the window,
and every block ack under way tells what was received (`Exchange.Run.inv`). What a block ack counts
as successful was then received (`Exchange.acknowledged_received`), unless it comes so late that
another MPDU has the number; what was received before it was sent is counted.
-/

namespace Ns3.Wifi

open RecipientBlockAckAgreement

/-! ## What holds along a run -/

/-- A frame that was sent from within the window. -/
def Frame.Sent (W : ℕ) (f : Frame) : Prop :=
  match f.content with
  | .mpdu m => m.Numbered ∧ f.used ≤ m.place + W ∧ m.place ≤ f.used
  | .blockAckReq x => ∃ S, IsSeq x S ∧ S ≤ f.used ∧ f.used ≤ S + W

/-- A block ack that acknowledges the numbers of the positions received in its window. -/
def Reply.Reports (W : ℕ) (b : Reply) : Prop :=
  ∃ r, IsSeq b.blockAck.m_startingSeq r ∧ r ≤ b.last ∧ b.last < r + 2 * W ∧
    (∀ p ∈ b.received, p < b.last ∧ p < r + W) ∧
    ∀ y < 4096, b.blockAck.isPacketReceived y = true ↔ ∃ p ∈ b.received, r ≤ p ∧ IsSeq y p

structure Exchange.Inv (W : ℕ) (x : Exchange) : Prop where
  sound : x.originator.Sound W x.next
  ordered : x.toRecipient.Pairwise fun f g => f.after ≤ g.used
  sent : ∀ f ∈ x.toRecipient, f.Sent W ∧ x.lastUsed ≤ f.used ∧ f.after ≤ x.next
  board : ∃ r, Records W r {p | p ∈ x.received} x.scoreboard ∧ r ≤ x.lastUsed ∧
    x.lastUsed < r + 2 * W
  past : ∀ p ∈ x.received, p < x.lastUsed
  last : x.lastUsed ≤ x.next
  replies : ∀ b ∈ x.toOriginator, b.Reports W ∧ b.last ≤ x.next ∧ b.received ⊆ x.received

namespace Exchange

section Run

variable {W : ℕ} {x x' : Exchange} {a : Action} {o : Originator}

theorem Inv.start {startingSeq : ℕ} {s next : ℤ} {queue : List Mpdu} (hW : 0 < W)
    (hs : IsSeq startingSeq s) (hle : s ≤ next) (hwin : next ≤ s + W)
    (hqueue : ∀ m ∈ queue, m.Numbered ∧ s ≤ m.place ∧ m.place < next) :
    (Exchange.start W startingSeq next queue).Inv W where
  sound := by
    refine ⟨s, ∅, records_init hW hs, hle, hwin, fun v hv => absurd hv (Set.notMem_empty v), ?_, ?_,
      ?_, List.Pairwise.nil, fun m hm => (hqueue m hm).1, ?_, fun m _ => Set.notMem_empty _⟩
    · exact fun m hm => absurd hm List.not_mem_nil
    · exact fun m hm => absurd hm List.not_mem_nil
    · exact fun m hm => absurd hm List.not_mem_nil
    · intro m hm
      have hm := hqueue m hm
      have hlo : next ≤ m.place + (W : ℤ) := by omega
      exact ⟨hlo, hm.2.2⟩
  ordered := List.Pairwise.nil
  sent := fun f hf => absurd hf List.not_mem_nil
  board := by
    refine ⟨s, ?_, hle, ?_⟩
    · have hempty : {p | p ∈ ([] : List ℤ)} = ∅ := by
        ext p
        simp
      change Records W s {p | p ∈ ([] : List ℤ)} _
      rw [hempty]
      exact records_init hW hs
    · change next < _
      omega
  past := fun p hp => absurd hp List.not_mem_nil
  last := le_rfl
  replies := fun b hb => absurd hb List.not_mem_nil

/-- The originator works without sending. -/
theorem Inv.originator (h : x.Inv W) (ho : o.Sound W x.next) : Inv W { x with originator := o } :=
  { h with sound := ho }

/-- The originator sends a frame. -/
theorem Inv.send (h : x.Inv W) {next : ℤ} {content : FrameContent} (ho : o.Sound W next)
    (hsent : Frame.Sent W ⟨content, x.next⟩) (hle : x.next ≤ next)
    (hafter : Frame.after ⟨content, x.next⟩ ≤ next) :
    Inv W { x.send content with originator := o, next := next } where
  sound := ho
  ordered := by
    change (x.toRecipient ++ [_]).Pairwise _
    rw [List.pairwise_append]
    refine ⟨h.ordered, List.pairwise_singleton _ _, ?_⟩
    intro f hf g hg
    obtain rfl := List.mem_singleton.mp hg
    exact (h.sent f hf).2.2
  sent := by
    intro f hf
    rcases List.mem_append.mp hf with hf | hf
    · obtain ⟨hs, hlast, hnext⟩ := h.sent f hf
      exact ⟨hs, hlast, hnext.trans hle⟩
    · obtain rfl := List.mem_singleton.mp hf
      exact ⟨hsent, h.last, hafter⟩
  board := h.board
  past := h.past
  last := h.last.trans hle
  replies := by
    intro b hb
    obtain ⟨hrep, hlast, hsub⟩ := h.replies b hb
    exact ⟨hrep, hlast.trans hle, hsub⟩

/-- The recipient receives the first frame. -/
theorem Inv.receive (h : x.Inv W) (hW : W ≤ 256) {f : Frame} {frames : List Frame}
    (hx : x.toRecipient = f :: frames) (hgap : f.used < x.lastUsed + 1024)
    (hscore : { x with toRecipient := frames }.score f = some x') : x'.Inv W := by
  obtain ⟨hsent, hlast, hnext⟩ := h.sent f (hx ▸ List.mem_cons_self ..)
  obtain ⟨r, hrec, hr, hr'⟩ := h.board
  have hordered := h.ordered
  rw [hx] at hordered
  obtain ⟨hfirst, hordered'⟩ := List.pairwise_cons.mp hordered
  have hafter : f.used ≤ f.after := by
    unfold Frame.after
    split
    · exact le_max_left _ _
    · exact le_rfl
  have hframes : ∀ g ∈ frames, g.Sent W ∧ f.after ≤ g.used ∧ g.after ≤ x.next := by
    intro g hg
    obtain ⟨hs, -, hn⟩ := h.sent g (hx ▸ List.mem_cons_of_mem _ hg)
    exact ⟨hs, hfirst g hg, hn⟩
  unfold score at hscore
  unfold Frame.Sent at hsent
  unfold Frame.after at hafter hnext
  split at hscore
  · next m hm =>
    rw [hm] at hsent hafter hnext
    simp only at hsent hafter hnext
    obtain ⟨hnum, hlo, hhi⟩ := hsent
    have hlast' : f.after = max f.used (m.place + 1) := by
      unfold Frame.after
      rw [hm]
    obtain ⟨board, hboard, hrec'⟩ := hrec.scoreMpdu (by omega) hnum (by omega) (by omega)
    obtain ⟨board', hboard', heq⟩ := Option.bind_eq_some_iff.mp hscore
    obtain rfl : board = board' := Option.some.inj (hboard.symm.trans hboard')
    obtain rfl := Option.some.inj heq
    refine ⟨h.sound, hordered', hframes, ⟨max r (m.place - W + 1), ?_, ?_, ?_⟩, ?_, ?_, ?_⟩
    · have hins : {p | p ∈ m.place :: x.received} = insert m.place {p | p ∈ x.received} := by
        ext p
        exact List.mem_cons
      change Records W _ {p | p ∈ m.place :: x.received} board
      rw [hins]
      exact hrec'
    · change _ ≤ f.after
      omega
    · change f.after < _
      omega
    · intro p hp
      change p < f.after
      rcases List.mem_cons.mp hp with rfl | hp
      · omega
      · have hlt := h.past p hp
        omega
    · change f.after ≤ x.next
      rwa [hlast']
    · intro b hb
      obtain ⟨hrep, hbl, hsub⟩ := h.replies b hb
      exact ⟨hrep, hbl, fun p hp => List.mem_cons_of_mem _ (hsub hp)⟩
  · next y hy =>
    rw [hy] at hsent hafter hnext
    simp only at hsent hafter hnext
    obtain ⟨S, hseq, hS, hS'⟩ := hsent
    have hlast' : f.after = f.used := by
      unfold Frame.after
      rw [hy]
    obtain ⟨board, hboard, hrec'⟩ := hrec.scoreBar (by omega) hseq (by omega) (by omega)
    obtain ⟨board', hboard', heq⟩ := Option.bind_eq_some_iff.mp hscore
    obtain rfl : board = board' := Option.some.inj (hboard.symm.trans hboard')
    obtain rfl := Option.some.inj heq
    refine ⟨h.sound, hordered', hframes, ⟨max r S, hrec', ?_, ?_⟩, ?_, ?_, h.replies⟩
    · change _ ≤ f.after
      omega
    · change f.after < _
      omega
    · intro p hp
      have hlt := h.past p hp
      change p < f.after
      omega
    · change f.after ≤ x.next
      rwa [hlast']

/-- The recipient sends a block ack. -/
theorem Inv.sendBlockAck (h : x.Inv W) (hW : W ≤ 256)
    (hstep : x.step W .sendBlockAck = some x') : x'.Inv W := by
  obtain ⟨r, hrec, hr, hr'⟩ := h.board
  have hlen : W ≤ bitmapLen W * 8 ∧ bitmapLen W * 8 ≤ 4096 := by
    unfold bitmapLen
    split <;> omega
  obtain ⟨b, hb, hstart, hmarks⟩ := hrec.fillBlockAckBitmap hlen.1 hlen.2
  obtain ⟨b', hb', heq⟩ := Option.bind_eq_some_iff.mp hstep
  obtain rfl : b = b' := Option.some.inj (hb.symm.trans hb')
  obtain rfl := Option.some.inj heq
  refine ⟨h.sound, h.ordered, h.sent, h.board, h.past, h.last, ?_⟩
  intro b' hb'
  rcases List.mem_append.mp hb' with hb' | hb'
  · exact h.replies b' hb'
  · obtain rfl := List.mem_singleton.mp hb'
    refine ⟨⟨r, ?_, hr, hr', fun p hp => ⟨h.past p hp, hrec.top p hp⟩, hmarks⟩, h.last,
      fun p hp => hp⟩
    change IsSeq b.m_startingSeq r
    rw [hstart]
    exact hrec.winStart

theorem Inv.step (h : x.Inv W) (hW : W ≤ 256) (hspaced : x.SpacedFromStart a)
    (hstep : x.step W a = some x') : x'.Inv W := by
  cases a with
  | transmit =>
    obtain ⟨⟨m, o⟩, ho, heq⟩ := Option.bind_eq_some_iff.mp hstep
    obtain rfl := Option.some.inj heq
    obtain ⟨hsound, hplace, hnum⟩ := h.sound.transmit (by omega) ho
    refine h.send hsound ⟨hnum, ?_, ?_⟩ (by omega) ?_
    · change x.next ≤ m.place + (W : ℤ)
      omega
    · exact hplace.le
    · change max x.next (m.place + 1) ≤ x.next + 1
      omega
  | retransmit mpdu =>
    obtain ⟨o, ho, heq⟩ := Option.bind_eq_some_iff.mp hstep
    obtain rfl := Option.some.inj heq
    obtain ⟨hsound, hnum, hlo, hhi⟩ := h.sound.retransmit (by omega) ho
    refine h.send hsound ⟨hnum, hlo, hhi.le⟩ le_rfl ?_
    change max x.next (mpdu.place + 1) ≤ x.next
    omega
  | discard mpdu =>
    obtain ⟨_, hguard, hrest⟩ := Option.bind_eq_some_iff.mp hstep
    obtain ⟨o, ho, heq⟩ := Option.bind_eq_some_iff.mp hrest
    obtain rfl := Option.some.inj heq
    obtain ⟨o', ho', hsound⟩ := h.sound.discard (by omega) (Originator.of_guard hguard)
    obtain rfl : o' = o := Option.some.inj (ho'.symm.trans ho)
    exact h.originator hsound
  | sendBar lifetime =>
    obtain ⟨⟨y, o⟩, ho, heq⟩ := Option.bind_eq_some_iff.mp hstep
    obtain rfl := Option.some.inj heq
    obtain ⟨y', o', S, ho', hsound, hseq, hS, hS'⟩ := h.sound.getBar (by omega) lifetime
    obtain ⟨rfl, rfl⟩ := Prod.mk.inj (Option.some.inj (ho'.symm.trans ho))
    exact h.send hsound ⟨S, hseq, hS, hS'⟩ le_rfl le_rfl
  | gotBlockAck lifetime =>
    change x.gotBlockAck lifetime = some x' at hstep
    unfold Exchange.gotBlockAck at hstep
    split at hstep
    · cases hstep
    · next b replies hb =>
      obtain ⟨⟨acked, o⟩, ho, heq⟩ := Option.bind_eq_some_iff.mp hstep
      obtain rfl := Option.some.inj heq
      obtain ⟨o', ho', hsound⟩ := h.sound.notifyGotBlockAck (by omega) b.blockAck lifetime
      obtain ⟨-, rfl⟩ := Prod.mk.inj (Option.some.inj (ho'.symm.trans ho))
      exact { h.originator hsound with
        replies := fun b' hb' => h.replies b' (hb ▸ List.mem_cons_of_mem _ hb') }
  | missedBlockAck lifetime =>
    obtain ⟨o, ho, heq⟩ := Option.bind_eq_some_iff.mp hstep
    obtain rfl := Option.some.inj heq
    obtain ⟨o', ho', hsound⟩ := h.sound.notifyMissedBlockAck (by omega) lifetime
    obtain rfl : o' = o := Option.some.inj (ho'.symm.trans ho)
    exact h.originator hsound
  | receive =>
    change x.receive = some x' at hstep
    unfold Exchange.receive at hstep
    split at hstep
    · cases hstep
    · next f frames hf =>
      refine h.receive hW hf ?_ hstep
      apply hspaced f
      rw [hf]
      rfl
  | sendBlockAck => exact h.sendBlockAck hW hstep
  | loseFrame i =>
    obtain rfl := Option.some.inj hstep
    have hsub := List.eraseIdx_sublist x.toRecipient i
    exact { h with
      ordered := h.ordered.sublist hsub
      sent := fun f hf => h.sent f (hsub.subset hf) }
  | loseBlockAck i =>
    obtain rfl := Option.some.inj hstep
    exact { h with
      replies := fun b hb => h.replies b ((List.eraseIdx_sublist x.toOriginator i).subset hb) }

theorem Run.inv (hW0 : 0 < W) (hW : W ≤ 256) (h : Run SpacedFromStart W x) : x.Inv W := by
  induction h with
  | start hs hle hwin hqueue => exact Inv.start hW0 hs hle hwin hqueue
  | step _ hspaced hstep ih => exact ih.step hW hspaced hstep

/-- An MPDU that a block ack counts as successful was received, unless the block ack comes too late:
with `4098 - 2 * W` new numbers or more since the last frame it is about. An MPDU that was received
before the block ack was sent and that its window covers is counted as successful. -/
theorem acknowledged_received (hW0 : 0 < W) (hW : W ≤ 256) (h : Run SpacedFromStart W x)
    {b : Reply} {replies : List Reply} (hb : x.toOriginator = b :: replies)
    (lifetime : ℤ → Ordering) :
    ∃ acked o, x.originator.notifyGotBlockAck b.blockAck lifetime = some (acked, o) ∧
      (x.next + 2 * W < b.last + 4098 → ∀ m ∈ acked, m.place ∈ x.received) ∧
      ∀ m ∈ x.originator.m_inFlight, m.place ∈ b.received →
        isInWindow m.m_sequenceNumber b.blockAck.m_startingSeq W = true → m ∈ acked := by
  have hinv := h.inv hW0 hW
  obtain ⟨⟨r, hstart, hr, hr', htop, hmarks⟩, hlast, hsub⟩ :=
    hinv.replies b (hb ▸ List.mem_cons_self ..)
  obtain ⟨o, hgot, -⟩ := hinv.sound.notifyGotBlockAck (by omega) b.blockAck lifetime
  obtain ⟨S, A, hholds⟩ := hinv.sound
  have hahead := hholds.ahead
  refine ⟨_, o, hgot, ?_, ?_⟩
  · intro hlate m hm
    obtain ⟨hfly, hrec⟩ := List.mem_filter.mp hm
    have hnum := hholds.numbered m hfly
    have hwin := hholds.flying m hfly
    obtain ⟨p, hp, hrp, hseq⟩ := (hmarks _ (IsSeq.lt hnum)).mp hrec
    have hpl := (htop p hp).1
    -- two positions with one number less than 4096 apart
    have heq : m.place = p := by
      unfold Mpdu.Numbered IsSeq at hnum
      unfold IsSeq at hseq
      omega
    rw [heq]
    exact hsub hp
  · intro m hfly hp hcover
    have hnum := hholds.numbered m hfly
    have hwin := hholds.flying m hfly
    have hpl := htop m.place hp
    refine List.mem_filter.mpr ⟨hfly, (hmarks _ (IsSeq.lt hnum)).mpr ⟨m.place, hp, ?_, hnum⟩⟩
    exact ((IsSeq.isInWindow hnum hstart (by omega) (by omega) (by omega)).mp hcover).1

end Run

/-- Five MPDUs around the wrap of the sequence numbers. The second one is lost, and so is the block
ack before the last one. -/
def secondLost : List Action :=
  [.transmit, .transmit, .transmit, .transmit, .receive, .loseFrame 0, .receive, .receive,
    .sendBlockAck, .loseBlockAck 0, .transmit, .receive, .sendBlockAck]

/-- The block ack after them. -/
def secondMissing : CtrlBAckResponseHeader := ⟨4094, [29, 0, 0, 0, 0, 0, 0, 0]⟩

theorem acknowledged_received_wrap :
    ∃ x acked o, steps SpacedFromStart 64 secondLost (start 64 4094 4094 []) = some x ∧
      x.originator.notifyGotBlockAck secondMissing (fun _ => .gt) = some (acked, o) ∧
      (∀ m ∈ acked, m.place ∈ [4098, 4097, 4096, 4094]) ∧
      ∀ m ∈ x.originator.m_inFlight, m.place ∈ [4098, 4097, 4096, 4094] → m ∈ acked := by
  have hsteps : (steps SpacedFromStart 64 secondLost (start 64 4094 4094 [])).map (fun x => decide
      (x.toOriginator = [⟨secondMissing, [4098, 4097, 4096, 4094], 4099⟩] ∧ x.next = 4099 ∧
        x.received = [4098, 4097, 4096, 4094] ∧ ∀ m ∈ x.originator.m_inFlight,
          isInWindow m.m_sequenceNumber secondMissing.m_startingSeq 64 = true)) = some true := by
    decide
  obtain ⟨x, hx, hdec⟩ := Option.map_eq_some_iff.mp hsteps
  obtain ⟨hreply, hnext, hreceived, hcover⟩ := of_decide_eq_true hdec
  have hrun : Run SpacedFromStart 64 x :=
    (Run.start (s := 4094) (by decide) le_rfl (by decide) (by simp)).steps hx
  obtain ⟨acked, o, hgot, hsound, hcounted⟩ :=
    acknowledged_received (by decide) (by decide) hrun hreply fun _ => .gt
  rw [hnext, hreceived] at hsound
  exact ⟨x, acked, o, hx, hgot, hsound (by decide), fun m hm hp => hcounted m hm hp (hcover m hm)⟩

/-! ## Late frames -/

/-- An agreement from sequence number 0 on with windows of 64. -/
def fresh : Exchange := start 64 0 0 []

theorem run_fresh (C : Exchange → Action → Prop) : Run C 64 fresh :=
  .start (s := 0) (by decide) le_rfl (by decide) (by simp)

/-- MPDU 0 was received, and the block ack about it was sent. -/
def oneReceived : Exchange :=
  { fresh with
    originator := ⟨.init 0 64, [⟨0, 0⟩], [⟨0, 0⟩]⟩
    next := 1
    toOriginator := [⟨⟨0, [1, 0, 0, 0, 0, 0, 0, 0]⟩, [0], 1⟩]
    scoreboard := ⟨0, true :: List.replicate 63 false, 0⟩
    received := [0]
    last := some 1 }

/-- The transmit window of 64 positions from `k` on, with no bit set. -/
def clearWindow (k : ℕ) : BlockAckWindow := ⟨k % 4096, List.replicate 64 false, k % 64⟩

/-- All MPDUs up to `k` were transmitted and discarded. -/
def skipped (x : Exchange) (k : ℕ) : Exchange :=
  { x with originator := ⟨clearWindow k, [], []⟩, next := k, toRecipient := [] }

theorem advance_clearWindow (k : ℕ) : (clearWindow k).advance 1 = clearWindow (k + 1) := by
  have hstart : (k % 4096 + 1) % 4096 = (k + 1) % 4096 := by omega
  have hhead : (k % 64 + 1) % 64 = (k + 1) % 64 := by omega
  change BlockAckWindow.mk ((k % 4096 + 1) % 4096) ((List.replicate 64 false).set (k % 64) false)
    ((k % 64 + 1) % 64) = _
  rw [List.set_replicate_self, hstart, hhead]
  rfl

theorem advanceTxWindow_clearWindow (k : ℕ) : advanceTxWindow (clearWindow k) = clearWindow k := by
  have hbit : (clearWindow k).atDistance 0 = some false := by
    change (List.replicate 64 false)[(k % 64 + 0) % 64]? = _
    rw [List.getElem?_replicate, if_pos (by omega)]
  change (if (clearWindow k).atDistance 0 = some true then _ else _) = _
  rw [hbit, if_neg (by simp)]

/-- One more MPDU is transmitted, lost and discarded. -/
theorem Run.skip {x : Exchange} {k : ℕ} (h : Run Spaced 64 (x.skipped k)) :
    Run Spaced 64 (x.skipped (k + 1)) := by
  let m : Mpdu := ⟨k, ((k : ℤ) % 4096).toNat⟩
  have hk : m.m_sequenceNumber = k % 4096 := by
    change ((k : ℤ) % 4096).toNat = _
    omega
  have hnear : getDistance m.m_sequenceNumber (k % 4096) = some 0 := by
    rw [hk, getDistance_eq (by omega) (by omega), Option.some_inj]
    omega
  have hfar : getDistance m.m_sequenceNumber ((k + 1) % 4096) = some 4095 := by
    rw [hk, getDistance_eq (by omega) (by omega), Option.some_inj]
    omega
  have htransmit : (x.skipped k).originator.transmit (x.skipped k).next =
      some (m, ⟨clearWindow k, [m], [m]⟩) := by
    have hin : isInWindow m.m_sequenceNumber (k % 4096) 64 = true := by
      unfold isInWindow
      rw [hk]
      simp
    have hstore : Originator.storePacket ⟨clearWindow k, [], [m]⟩ m =
        some ⟨clearWindow k, [m], [m]⟩ := by
      unfold Originator.storePacket notifyTransmittedMpdu
      change (getDistance m.m_sequenceNumber (k % 4096)).bind _ = _
      rw [hnear]
      change Option.bind (Option.bind (getDistance m.m_sequenceNumber (k % 4096)) _) _ = _
      rw [hnear]
      rfl
    change (guard (isInWindow m.m_sequenceNumber (k % 4096) 64 = true) : Option Unit).bind _ = _
    rw [guard, if_pos hin]
    change (Originator.storePacket ⟨clearWindow k, [], [m]⟩ m).bind _ = _
    rw [hstore]
    rfl
  have hdiscard : Originator.discard ⟨clearWindow k, [m], [m]⟩ m =
      some ⟨clearWindow (k + 1), [], []⟩ := by
    have hdequeue : Originator.dequeue ⟨clearWindow k, [m], [m]⟩ m = ⟨clearWindow k, [m], []⟩ := by
      simp [Originator.dequeue]
    have hnew : qosUtilsIsOldPacket (k % 4096) m.m_sequenceNumber = false := by
      unfold qosUtilsIsOldPacket
      rw [hk]
      simp
    have hwindow : agreementDiscardedMpdu (clearWindow k) m = some (clearWindow (k + 1)) := by
      unfold agreementDiscardedMpdu
      change (getDistance m.m_sequenceNumber (k % 4096)).bind _ = _
      rw [hnear]
      change some (advanceTxWindow ((clearWindow k).advance 1)) = _
      rw [advance_clearWindow, advanceTxWindow_clearWindow]
    have hdrop : Originator.dropOld (clearWindow (k + 1)) [m] [] = some ([], []) := by
      change (getDistance m.m_sequenceNumber ((k + 1) % 4096)).bind _ = _
      rw [hfar]
      rfl
    unfold Originator.discard Originator.notifyDiscardedMpdu
    rw [hdequeue]
    change (if qosUtilsIsOldPacket (k % 4096) m.m_sequenceNumber = true then _ else
      (agreementDiscardedMpdu (clearWindow k) m).bind _) = _
    rw [hnew, if_neg Bool.false_ne_true, hwindow]
    change (Originator.dropOld (clearWindow (k + 1)) [m] []).bind _ = _
    rw [hdrop]
    rfl
  have h₁ := h.step (a := .transmit) trivial (by
    change ((x.skipped k).originator.transmit (x.skipped k).next).bind _ = _
    rw [htransmit]
    rfl)
  have h₂ := h₁.step (a := .loseFrame 0) trivial rfl
  exact h₂.step (a := .discard m) trivial (by
    change (guard (m ∈ [m]) : Option Unit).bind
      (fun _ => (Originator.discard ⟨clearWindow k, [m], [m]⟩ m).bind _) = _
    rw [guard, if_pos (List.mem_singleton_self m), hdiscard]
    rfl)

theorem Run.skips {x : Exchange} {k : ℕ} (h : Run Spaced 64 (x.skipped k)) (n : ℕ) :
    Run Spaced 64 (x.skipped (k + n)) := by
  induction n with
  | zero => exact h
  | succ n ih => exact ih.skip

/-- The block ack about MPDU 0 is still under way when a later MPDU with the same number is in
flight. -/
def aliased : Exchange :=
  { oneReceived.skipped 4096 with
    originator := ⟨clearWindow 4096, [⟨4096, 0⟩], [⟨4096, 0⟩]⟩
    toRecipient := [⟨.mpdu ⟨4096, 0⟩, 4096⟩]
    next := 4097 }

theorem run_aliased : Run Spaced 64 aliased := by
  have hone : steps Spaced 64 [.transmit, .receive, .sendBlockAck, .discard ⟨0, 0⟩] fresh =
      some (oneReceived.skipped 1) := by
    decide +kernel
  have hskipped : Run Spaced 64 (oneReceived.skipped 4096) :=
    ((run_fresh Spaced).steps hone).skips 4095
  exact hskipped.step (a := .transmit) trivial (by decide)

/-- MPDU 2047 was lost, and everything before. -/
def allLost : Exchange :=
  { fresh with
    originator := ⟨clearWindow 2047, [], [⟨2047, 2047⟩]⟩
    next := 2048 }

theorem run_allLost : Run Spaced 64 allLost := by
  have hfresh : Run Spaced 64 (fresh.skipped 0) := run_fresh Spaced
  have hskipped : Run Spaced 64 (fresh.skipped 2047) := hfresh.skips 2047
  have hsteps : steps Spaced 64 [.transmit, .loseFrame 0, .missedBlockAck fun _ => .gt]
      (fresh.skipped 2047) = some allLost := by
    decide
  exact hskipped.steps hsteps

/-- MPDU 2048 is the first that is received, and taken for an old one. MPDU 2047 is then received in
another transmission and moves the window over MPDU 2048. -/
def threeReceived : Exchange :=
  { fresh with
    originator := ⟨clearWindow 2047, [⟨2047, 2047⟩, ⟨2048, 2048⟩, ⟨2049, 2049⟩],
      [⟨2047, 2047⟩, ⟨2048, 2048⟩, ⟨2049, 2049⟩]⟩
    next := 2050
    toOriginator := [⟨⟨1986, [0, 0, 0, 0, 0, 0, 0, 160]⟩, [2049, 2047, 2048], 2050⟩]
    scoreboard := ⟨1986, false :: true :: (List.replicate 61 false ++ [true]), 2⟩
    received := [2049, 2047, 2048]
    last := some 2050 }

/-- If only the frames received are spaced, a block ack can acknowledge an MPDU that was not
received, and it can miss MPDU 2048, transmitted once and received, that its window covers. -/
theorem acknowledged_received_fails :
    (∃ x b acked o, Run Spaced 64 x ∧ x.toOriginator = [b] ∧
      x.originator.notifyGotBlockAck b.blockAck (fun _ => .gt) = some (acked, o) ∧
      ∃ m ∈ acked, m.place ∉ x.received) ∧
    ∃ x x' b acked o, Run Spaced 64 x ∧ x.next = 2048 ∧
      steps Spaced 64 [.transmit, .receive, .retransmit ⟨2047, 2047⟩, .receive, .transmit, .receive,
        .sendBlockAck] x = some x' ∧ x'.toOriginator = [b] ∧
      x'.originator.notifyGotBlockAck b.blockAck (fun _ => .gt) = some (acked, o) ∧
      ⟨2048, 2048⟩ ∈ x'.originator.m_inFlight ∧ 2048 ∈ b.received ∧
      isInWindow 2048 b.blockAck.m_startingSeq 64 = true ∧ ⟨2048, 2048⟩ ∉ acked := by
  constructor
  · refine ⟨aliased, _, [⟨4096, 0⟩], _, run_aliased, rfl, rfl, ⟨4096, 0⟩, ?_, ?_⟩
    · simp
    · simp [aliased, skipped, oneReceived]
  · refine ⟨allLost, threeReceived, _, [⟨2047, 2047⟩, ⟨2049, 2049⟩], _, run_allLost, rfl, ?_, rfl,
      rfl, ?_, ?_, ?_, ?_⟩
    · decide +kernel
    · simp [threeReceived]
    · simp
    · decide
    · simp

end Exchange

end Ns3.Wifi
