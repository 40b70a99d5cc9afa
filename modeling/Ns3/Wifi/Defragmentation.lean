import Ns3.Wifi.MacRxMiddle

/-!
# Fragmented packets of one sender

A sender gives each MSDU the next sequence number and sends its fragments in order, each of them
until it was received. It may give up an MSDU at any time. The receiver forwards exactly the MSDUs
of which all fragments were received, as long as none is given up between its first and its last
fragment: then the status still waits for the old MSDU, and the fragments of later ones are
dropped.
-/

namespace Ns3.Wifi.MacRx

/-! ## The sender -/

/-- An MSDU in 1 to 16 fragments. -/
structure Msdu where
  fragments : List Packet
  nonempty : 0 < fragments.length
  length_le : fragments.length ≤ 16
deriving DecidableEq, Repr

/-- The bytes of an MSDU. -/
def Msdu.bytes (m : Msdu) : Packet := m.fragments.flatten

/-- What does not change in a run: a unicast receiver and the address of the sender. -/
structure Link where
  receiver : Mac48Address
  sender : Mac48Address
  unicast : isGroup receiver = false

/-- The MSDU that is sent, the fragment of it that is sent, whether that was sent before, and
whether it was received. -/
structure Sender where
  seq : Fin 4096
  msdu : Msdu
  index : Fin msdu.fragments.length
  sent : Bool
  received : Bool

namespace Sender

/-- A new MSDU. -/
def ofMsdu (seq : Fin 4096) (msdu : Msdu) : Sender := ⟨seq, msdu, ⟨0, msdu.nonempty⟩, false, false⟩

/-- The number of fragments that were received. -/
def progress (s : Sender) : Nat := s.index + if s.received then 1 else 0

/-- The header of the next frame. A frame that was sent before has the retry bit. -/
def header (l : Link) (s : Sender) : WifiMacHeader where
  type := .data
  addr1 := l.receiver
  addr2 := l.sender
  retry := s.sent
  moreFragments := decide (s.index + 1 < s.msdu.fragments.length)
  seqSeq := s.seq
  seqFrag := ⟨s.index, s.index.isLt.trans_le s.msdu.length_le⟩

def packet (s : Sender) : Packet := s.msdu.fragments.get s.index

end Sender

/-! ## Runs -/

/-- The receiver with the packets that it forwarded, each with its originator. -/
structure Receiver where
  middle : MacRxMiddle
  forwarded : List (Originator × Packet)

/-- A frame arrives. -/
def Receiver.receive (r : Receiver) (hdr : WifiMacHeader) (packet : Packet) :
    Except Fault Receiver := do
  let (middle, aggregate) ← MacRx.receive r.middle hdr packet
  .ok ⟨middle, r.forwarded ++ aggregate.toList.map (hdr.originator, ·)⟩

/-- The sender, the receiver, and the MSDUs of which every fragment was received. -/
structure World where
  sender : Sender
  receiver : Except Fault Receiver
  complete : List Packet

/-- A frame of the sender is lost or received, the next fragment or the next MSDU is taken, or a
frame of another originator is received. -/
inductive Action where
  | lost
  | received
  | nextFragment
  | nextMsdu (msdu : Msdu)
  | other (hdr : WifiMacHeader) (packet : Packet)

/-- The originator under which the receiver has the sender. -/
def Link.originator (l : Link) : Originator := .source l.sender

/-- What a sender may do. The next fragment follows only when the one before it was received. -/
def World.Enabled (l : Link) (w : World) : Action → Prop
  | .nextFragment => w.sender.received ∧ w.sender.index + 1 < w.sender.msdu.fragments.length
  | .other hdr _ => hdr.type ≠ .ctl ∧ hdr.originator ≠ l.originator
  | _ => True

def World.step (l : Link) (w : World) : Action → World
  | .lost => { w with sender := { w.sender with sent := true } }
  | .received =>
    { sender := { w.sender with sent := true, received := true }
      receiver := w.receiver >>= fun r => r.receive (w.sender.header l) w.sender.packet
      complete := if ¬w.sender.received ∧ w.sender.index + 1 = w.sender.msdu.fragments.length then
        w.complete ++ [w.sender.msdu.bytes] else w.complete }
  | .nextFragment =>
    if h : w.sender.index + 1 < w.sender.msdu.fragments.length then
      { w with sender :=
          { w.sender with index := ⟨w.sender.index + 1, h⟩, sent := false, received := false } }
    else w
  | .nextMsdu msdu => { w with sender := Sender.ofMsdu (w.sender.seq + 1) msdu }
  | .other hdr packet => { w with receiver := w.receiver >>= fun r => r.receive hdr packet }

/-- The start: nothing was received. -/
def World.start (seq : Fin 4096) (msdu : Msdu) : World :=
  ⟨Sender.ofMsdu seq msdu, .ok ⟨fun _ => {}, []⟩, []⟩

/-- The worlds that a run reaches when all of its steps meet a condition. -/
inductive Run (l : Link) (cond : World → Action → Prop) : World → Prop
  | start (seq : Fin 4096) (msdu : Msdu) : Run l cond (World.start seq msdu)
  | step {w : World} (h : Run l cond w) (a : Action) (henabled : w.Enabled l a) (hcond : cond w a) :
      Run l cond (w.step l a)

/-- No assertion has failed, and the packets forwarded for the sender are the MSDUs that are
complete. -/
def World.Correct (l : Link) (w : World) : Prop :=
  ∃ r, w.receiver = .ok r ∧
    (r.forwarded.filter fun f => f.1 = l.originator).map Prod.snd = w.complete

/-- An MSDU is given up before a fragment of it was received, or after all of them were. A frame
that is repeated before it was received has another sequence control than the one the receiver has
last; it takes 4096 MSDUs in a row without a received fragment to come back to that. -/
def World.Orderly (l : Link) (w : World) : Action → Prop
  | .nextMsdu _ => w.sender.progress = 0 ∨ w.sender.progress = w.sender.msdu.fragments.length
  | .received => w.sender.sent = true → w.sender.received = false → ∀ r, w.receiver = .ok r →
      (r.middle l.originator).lastSequenceControl ≠ (w.sender.header l).getSequenceControl
  | _ => True

/-! ## The status of the sender -/

/-- What the receiver has of the MSDU that is sent: nothing that it waits with, or the first
fragments. -/
inductive Held (s : Sender) (o : OriginatorRxStatus) : Prop
  | idle (h : s.progress = 0 ∨ s.progress = s.msdu.fragments.length)
      (defragmenting : o.defragmenting = false) (fragments : o.fragments = [])
      (last : 0 < s.progress → o.lastSequenceControl = s.seq * 16 + (s.progress - 1))
  | waiting (hpos : 0 < s.progress) (hlt : s.progress < s.msdu.fragments.length)
      (defragmenting : o.defragmenting = true)
      (fragments : o.fragments = s.msdu.fragments.take s.progress)
      (last : o.lastSequenceControl = s.seq * 16 + (s.progress - 1))

theorem getSequenceControl_eq (hdr : WifiMacHeader) :
    hdr.getSequenceControl = hdr.seqSeq * 16 + hdr.seqFrag := by
  rw [WifiMacHeader.getSequenceControl, ← Nat.shiftLeft_add_eq_or_of_lt hdr.seqFrag.isLt,
    Nat.shiftLeft_eq]

theorem Sender.getSequenceControl_header (l : Link) (s : Sender) :
    (s.header l).getSequenceControl = s.seq * 16 + s.index :=
  getSequenceControl_eq _

theorem isNextFragment_iff (o : OriginatorRxStatus) (sc : Nat) : o.isNextFragment sc = true ↔
    sc / 16 = o.lastSequenceControl / 16 ∧ sc % 16 = o.lastSequenceControl % 16 + 1 := by
  have hmask (n : Nat) : n &&& 0x0f = n % 16 := Nat.and_two_pow_sub_one_eq_mod n 4
  simp only [OriginatorRxStatus.isNextFragment, Nat.shiftRight_eq_div_pow, hmask, Bool.and_eq_true,
    beq_iff_eq]

/-- The sender after its frame was received. -/
def Sender.delivered (s : Sender) : Sender := { s with sent := true, received := true }

theorem Sender.delivered_eq {s : Sender} (hold : s.received = true) (hsent : s.sent = true) :
    s.delivered = s := by
  obtain ⟨seq, msdu, index, sent, received⟩ := s
  subst hold hsent
  rfl

theorem Sender.take_progress (s : Sender) :
    s.msdu.fragments.take s.index ++ [s.packet] = s.msdu.fragments.take (s.index + 1) :=
  List.take_append_getElem s.index.isLt

theorem Sender.progress_new {s : Sender} (hnew : s.received = false) : s.progress = s.index := by
  rw [Sender.progress, hnew]
  rfl

/-- The first fragment, when the receiver waits for nothing. -/
theorem handleFragments_first (l : Link) {s : Sender} {o : OriginatorRxStatus}
    (hfirst : s.index.val = 0) (hdefrag : o.defragmenting = false) (hempty : o.fragments = []) :
    ∃ o', MacRx.handleFragments s.packet (s.header l) o =
        .ok (o', if s.index + 1 = s.msdu.fragments.length then some s.msdu.bytes else none) ∧
      (s.index + 1 ≠ s.msdu.fragments.length →
        o'.lastSequenceControl = (s.header l).getSequenceControl) ∧
      Held s.delivered (o'.setSequenceControl (s.header l).getSequenceControl) := by
  have hsc := s.getSequenceControl_header l
  have hlt := s.index.isLt
  have htake := s.take_progress
  rw [hfirst, List.take_zero, List.nil_append] at htake
  rw [MacRx.handleFragments, if_neg (by rw [hdefrag]; exact Bool.false_ne_true)]
  by_cases hmore : s.index + 1 < s.msdu.fragments.length
  · have hheader : (s.header l).moreFragments = true := decide_eq_true hmore
    rw [if_pos hheader, if_neg (Nat.ne_of_lt hmore),
      OriginatorRxStatus.accumulateFirstFragment,
      if_neg (by rw [hdefrag]; exact Bool.false_ne_true)]
    refine ⟨_, rfl, fun _ => rfl, Held.waiting (Nat.succ_pos _) hmore rfl ?_ hsc⟩
    show o.fragments ++ [s.packet] = s.msdu.fragments.take (s.index + 1)
    rw [hempty, List.nil_append, htake, hfirst]
  · have hlast : s.index + 1 = s.msdu.fragments.length := by omega
    have hheader : ¬(s.header l).moreFragments = true := by
      rw [Sender.header, decide_eq_false hmore]
      exact Bool.false_ne_true
    rw [if_neg hheader, if_pos hlast]
    refine ⟨o, ?_, fun h => absurd hlast h, Held.idle (Or.inr hlast) hdefrag hempty fun _ => hsc⟩
    have hbytes : s.msdu.bytes = s.packet := by
      have hall : s.msdu.fragments = [s.packet] :=
        (List.take_of_length_le (by omega)).symm.trans htake.symm
      rw [Msdu.bytes, hall, List.flatten_singleton]
    rw [hbytes]

/-- A later fragment, when the receiver waits for it. -/
theorem handleFragments_next (l : Link) {s : Sender} {o : OriginatorRxStatus}
    (hpos : 0 < s.index.val) (hdefrag : o.defragmenting = true)
    (hfragments : o.fragments = s.msdu.fragments.take s.index)
    (hlast : o.lastSequenceControl = s.seq * 16 + (s.index - 1)) :
    ∃ o', MacRx.handleFragments s.packet (s.header l) o =
        .ok (o', if s.index + 1 = s.msdu.fragments.length then some s.msdu.bytes else none) ∧
      (s.index + 1 ≠ s.msdu.fragments.length →
        o'.lastSequenceControl = (s.header l).getSequenceControl) ∧
      Held s.delivered (o'.setSequenceControl (s.header l).getSequenceControl) := by
  have hsc := s.getSequenceControl_header l
  have hlt := s.index.isLt
  have hnext : o.isNextFragment (s.header l).getSequenceControl = true := by
    rw [isNextFragment_iff, hsc, hlast]
    have := s.msdu.length_le
    omega
  rw [MacRx.handleFragments, if_pos hdefrag, if_pos hnext, if_pos hnext]
  by_cases hmore : s.index + 1 < s.msdu.fragments.length
  · have hheader : (s.header l).moreFragments = true := decide_eq_true hmore
    rw [if_pos hheader, if_neg (Nat.ne_of_lt hmore),
      OriginatorRxStatus.accumulateFragment, if_pos hdefrag]
    refine ⟨_, rfl, fun _ => rfl, Held.waiting (Nat.succ_pos _) hmore hdefrag ?_ hsc⟩
    show o.fragments ++ [s.packet] = s.msdu.fragments.take (s.index + 1)
    rw [hfragments, s.take_progress]
  · have hend : s.index + 1 = s.msdu.fragments.length := by omega
    have hheader : ¬(s.header l).moreFragments = true := by
      rw [Sender.header, decide_eq_false hmore]
      exact Bool.false_ne_true
    rw [if_neg hheader,
      if_pos hend, OriginatorRxStatus.accumulateLastFragment, if_pos hdefrag, hfragments,
      s.take_progress, List.take_of_length_le (Nat.le_of_eq hend.symm)]
    exact ⟨_, rfl, fun h => absurd hend h, Held.idle (Or.inr hend) rfl rfl fun _ => hsc⟩

theorem Sender.originator_header (l : Link) (s : Sender) :
    (s.header l).originator = l.originator := rfl

/-- A fragment that is new to the receiver. -/
theorem Held.receive_new (l : Link) {m : MacRxMiddle} {s : Sender} (h : Held s (m l.originator))
    (hnew : s.received = false) (hrepeat : s.sent = true →
      (m l.originator).lastSequenceControl ≠ (s.header l).getSequenceControl) :
    ∃ m', MacRx.receive m (s.header l) s.packet = .ok (m',
        if s.index + 1 = s.msdu.fragments.length then some s.msdu.bytes else none) ∧
      Held s.delivered (m' l.originator) := by
  have hdup : ¬isDuplicate (s.header l) (m l.originator) = true := by
    rw [isDuplicate, Bool.and_eq_true, beq_iff_eq]
    rintro ⟨hsent, hlast⟩
    exact hrepeat hsent hlast
  have hhandle : ∃ o', MacRx.handleFragments s.packet (s.header l) (m l.originator) =
        .ok (o', if s.index + 1 = s.msdu.fragments.length then some s.msdu.bytes else none) ∧
      (s.index + 1 ≠ s.msdu.fragments.length →
        o'.lastSequenceControl = (s.header l).getSequenceControl) ∧
      Held s.delivered (o'.setSequenceControl (s.header l).getSequenceControl) := by
    have hprogress := Sender.progress_new hnew
    have hlt := s.index.isLt
    cases h with
    | idle h hdefrag hempty hlast =>
      rw [hprogress] at h
      exact handleFragments_first l (h.resolve_right (Nat.ne_of_lt hlt)) hdefrag hempty
    | waiting hpos _ hdefrag hfragments hlast =>
      rw [hprogress] at hpos hfragments hlast
      exact handleFragments_next l hpos hdefrag hfragments hlast
  obtain ⟨o', hrun, hkept, hheld⟩ := hhandle
  have hctl : ¬(s.header l).type = .ctl := fun h => by cases h
  rw [MacRx.receive, if_neg hctl, s.originator_header l]
  simp only [if_neg hdup, hrun]
  by_cases hend : s.index + 1 = s.msdu.fragments.length
  · simp only [if_pos hend]
    refine ⟨_, rfl, ?_⟩
    rw [Function.update_self, show isGroup (s.header l).addr1 = false from l.unicast]
    exact hheld
  · simp only [if_neg hend]
    refine ⟨_, rfl, ?_⟩
    rw [Function.update_self]
    have hself : o'.setSequenceControl (s.header l).getSequenceControl = o' := by
      rw [OriginatorRxStatus.setSequenceControl, ← hkept hend]
    rwa [hself] at hheld

/-- A fragment that the receiver has already is a duplicate. -/
theorem Held.receive_repeated (l : Link) {m : MacRxMiddle} {s : Sender}
    (h : Held s (m l.originator)) (hold : s.received = true) (hsent : s.sent = true) :
    MacRx.receive m (s.header l) s.packet = .ok (m, none) := by
  have hprogress : s.progress = s.index + 1 := by
    rw [Sender.progress, hold]
    rfl
  have hlast : (m l.originator).lastSequenceControl = s.seq * 16 + s.index := by
    cases h with
    | idle _ _ _ hlast =>
      rw [hprogress] at hlast
      exact hlast (Nat.succ_pos _)
    | waiting _ _ _ _ hlast =>
      rw [hprogress] at hlast
      exact hlast
  have hdup : isDuplicate (s.header l) (m l.originator) = true := by
    rw [isDuplicate, Bool.and_eq_true, beq_iff_eq, s.getSequenceControl_header]
    exact ⟨hsent, hlast⟩
  have hctl : ¬(s.header l).type = .ctl := fun h => by cases h
  rw [MacRx.receive, if_neg hctl, s.originator_header l]
  exact if_pos hdup

/-! ## Runs -/

/-- What holds in every world of an orderly run. -/
structure Inv (l : Link) (w : World) : Prop where
  sent : w.sender.received = true → w.sender.sent = true
  received : ∃ r, w.receiver = .ok r ∧ Held w.sender (r.middle l.originator) ∧
    (r.forwarded.filter fun f => f.1 = l.originator).map Prod.snd = w.complete

theorem Inv.start (l : Link) (seq : Fin 4096) (msdu : Msdu) : Inv l (World.start seq msdu) where
  sent h := by cases h
  received := ⟨_, rfl, Held.idle (Or.inl rfl) rfl rfl fun h => absurd h (Nat.lt_irrefl 0), rfl⟩

/-- The packets of the sender after a frame of it. -/
theorem forwarded_own (l : Link) (forwarded : List (Originator × Packet))
    (aggregate : Option Packet) :
    ((forwarded ++ aggregate.toList.map (l.originator, ·)).filter
        fun f => f.1 = l.originator).map Prod.snd =
      (forwarded.filter fun f => f.1 = l.originator).map Prod.snd ++ aggregate.toList := by
  cases aggregate <;> simp

/-- The packets of the sender after a frame of another originator. -/
theorem forwarded_other (l : Link) {o : Originator} (ho : o ≠ l.originator)
    (forwarded : List (Originator × Packet)) (aggregate : Option Packet) :
    ((forwarded ++ aggregate.toList.map (o, ·)).filter fun f => f.1 = l.originator).map Prod.snd =
      (forwarded.filter fun f => f.1 = l.originator).map Prod.snd := by
  cases aggregate <;> simp [ho]

theorem World.complete_received (l : Link) (w : World) : (w.step l .received).complete =
    if ¬w.sender.received ∧ w.sender.index + 1 = w.sender.msdu.fragments.length then
      w.complete ++ [w.sender.msdu.bytes] else w.complete := rfl

theorem Receiver.receive_eq {r : Receiver} {hdr : WifiMacHeader} {packet : Packet}
    {m' : MacRxMiddle} {p : Option Packet} (h : MacRx.receive r.middle hdr packet = .ok (m', p)) :
    r.receive hdr packet = .ok ⟨m', r.forwarded ++ p.toList.map (hdr.originator, ·)⟩ := by
  rw [Receiver.receive, h]
  rfl

theorem World.receiver_received {l : Link} {w : World} {r : Receiver} (hr : w.receiver = .ok r)
    {m' : MacRxMiddle} {p : Option Packet}
    (h : MacRx.receive r.middle (w.sender.header l) w.sender.packet = .ok (m', p)) :
    (w.step l .received).receiver =
      .ok ⟨m', r.forwarded ++ p.toList.map ((w.sender.header l).originator, ·)⟩ := by
  show (w.receiver >>= fun r => r.receive (w.sender.header l) w.sender.packet) = _
  rw [hr]
  exact Receiver.receive_eq h

theorem Inv.step {l : Link} {w : World} (h : Inv l w) {a : Action} (henabled : w.Enabled l a)
    (horderly : w.Orderly l a) : Inv l (w.step l a) := by
  obtain ⟨hsent, r, hr, hheld, hforwarded⟩ := h
  cases a with
  | lost =>
    refine ⟨fun _ => rfl, r, hr, ?_, hforwarded⟩
    cases hheld with
    | idle h hdefrag hempty hlast => exact Held.idle h hdefrag hempty hlast
    | waiting hpos hlt hdefrag hfragments hlast =>
      exact Held.waiting hpos hlt hdefrag hfragments hlast
  | received =>
    refine ⟨fun _ => rfl, ?_⟩
    cases hold : w.sender.received with
    | false =>
      obtain ⟨m', hreceive, hheld'⟩ :=
        hheld.receive_new l hold fun hs => horderly hs hold r hr
      refine ⟨_, World.receiver_received hr hreceive, hheld', ?_⟩
      rw [w.sender.originator_header, forwarded_own, hforwarded]
      by_cases hend : w.sender.index + 1 = w.sender.msdu.fragments.length
      · rw [if_pos hend, World.complete_received,
          if_pos ⟨by rw [hold]; exact Bool.false_ne_true, hend⟩]
        rfl
      · rw [if_neg hend, World.complete_received, if_neg fun h => hend h.2]
        exact List.append_nil _
    | true =>
      refine ⟨_, World.receiver_received hr (hheld.receive_repeated l hold (hsent hold)), ?_, ?_⟩
      · show Held w.sender.delivered _
        rwa [Sender.delivered_eq hold (hsent hold)]
      · rw [w.sender.originator_header, forwarded_own, hforwarded, World.complete_received,
          if_neg fun h => h.1 hold]
        exact List.append_nil _
  | nextFragment =>
    obtain ⟨hreceived, hindex⟩ := henabled
    have hprogress : w.sender.progress = w.sender.index + 1 := by
      rw [Sender.progress, hreceived]
      rfl
    rw [World.step, dif_pos hindex]
    refine ⟨fun h => (Bool.false_ne_true h).elim, r, hr, ?_, hforwarded⟩
    cases hheld with
    | idle h _ _ _ =>
      rw [hprogress] at h
      omega
    | waiting hpos hlt hdefrag hfragments hlast =>
      rw [hprogress] at hpos hlt hfragments hlast
      exact Held.waiting hpos hlt hdefrag hfragments hlast
  | nextMsdu msdu =>
    refine ⟨fun h => (Bool.false_ne_true h).elim, r, hr, ?_, hforwarded⟩
    cases hheld with
    | idle _ hdefrag hempty _ =>
      exact Held.idle (Or.inl rfl) hdefrag hempty fun h => absurd h (Nat.lt_irrefl 0)
    | waiting hpos hlt _ _ _ =>
      have horderly : w.sender.progress = 0 ∨
        w.sender.progress = w.sender.msdu.fragments.length := horderly
      omega
  | other hdr packet =>
    obtain ⟨hctl, hother⟩ := henabled
    obtain ⟨m', p, hreceive, hkept⟩ := receive_ok r.middle packet hctl
    refine ⟨hsent, ⟨m', r.forwarded ++ p.toList.map (hdr.originator, ·)⟩, ?_, ?_, ?_⟩
    · show (w.receiver >>= fun r => r.receive hdr packet) = _
      rw [hr]
      exact Receiver.receive_eq hreceive
    · show Held w.sender (m' l.originator)
      rw [hkept _ hother.symm]
      exact hheld
    · rw [forwarded_other l hother]
      exact hforwarded

theorem Run.inv {l : Link} {w : World} (h : Run l (World.Orderly l) w) : Inv l w := by
  induction h with
  | start seq msdu => exact Inv.start l seq msdu
  | step _ a henabled horderly ih => exact ih.step henabled horderly

/-- In an orderly run exactly the complete MSDUs are forwarded. -/
theorem Run.correct {l : Link} {w : World} (h : Run l (World.Orderly l) w) : w.Correct l := by
  obtain ⟨-, r, hr, -, hforwarded⟩ := h.inv
  exact ⟨r, hr, hforwarded⟩

/-- A unicast receiver. -/
def exampleLink : Link := ⟨1, 2, by decide⟩

/-- An MSDU of two fragments. -/
def exampleMsdu : Msdu := ⟨[[1], [2]], by decide, by decide⟩

/-- Its first fragment is lost once and then received, and the second one is received twice. -/
theorem Run.correct_exampleMsdu :
    ((((((World.start 0 exampleMsdu).step exampleLink .lost).step exampleLink .received).step
      exampleLink .nextFragment).step exampleLink .received).step exampleLink .received).Correct
        exampleLink := by
  have hlost : Run exampleLink (World.Orderly exampleLink) _ :=
    (Run.start 0 exampleMsdu).step .lost trivial trivial
  have hfirst := hlost.step .received trivial fun _ _ r hr => by
    cases hr
    decide
  have hnext := hfirst.step .nextFragment ⟨rfl, by decide⟩ trivial
  have hsecond := hnext.step .received trivial fun h => (Bool.false_ne_true h).elim
  exact Run.correct (hsecond.step .received trivial fun _ h => (Bool.false_ne_true h.symm).elim)

/-- The first of two fragments is received, the MSDU is given up, and the next MSDU, in one
fragment, is received but not forwarded. -/
theorem abandoned_drops : ∃ w, Run exampleLink (fun _ _ => True) w ∧ ¬w.Correct exampleLink := by
  refine ⟨_, (((Run.start 0 exampleMsdu).step .received trivial trivial).step
    (.nextMsdu ⟨[[3]], by decide, by decide⟩) trivial trivial).step .received trivial trivial, ?_⟩
  rintro ⟨r, hr, hforwarded⟩
  cases hr
  revert hforwarded
  decide

end Ns3.Wifi.MacRx
