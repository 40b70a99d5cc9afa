import Ns3.Wifi.AcknowledgedReceived
import Ns3.Wifi.InFlightRun

/-!
# What the originator does are calls

`Originator` and `InFlight.Agreement` are two models of `BlockAckManager`: the first has the EDCA
queue, the lifetimes and MPDUs of one fragment, the second the fragment numbers and every call.
While no lifetime expires, what the originator does in an exchange to the window and to the MPDUs in
flight is a call of the second that meets its condition (`Exchange.calls_of_step`), and the exchange
is a run of it (`Exchange.Run.calls`).
-/

namespace Ns3.Wifi

open InFlight (Agreement Sized dist)

/-- An MPDU with its sequence number and without other fragments. -/
def Mpdu.inFlight (m : Mpdu) : InFlight.Mpdu :=
  ⟨⟨m.m_sequenceNumber % 4096, Nat.mod_lt _ (by decide)⟩, ⟨0, by decide⟩⟩

/-- The window and the MPDUs in flight. -/
def Originator.agreement (o : Originator) : Agreement :=
  ⟨o.m_txWindow, o.m_inFlight.map Mpdu.inFlight⟩

/-- `a'` is `a`, or what a call makes of it that may be made and meets the condition. -/
def InFlight.Agreement.Leads (a a' : Agreement) : Prop :=
  a' = a ∨ ∃ c n, a.Enabled c ∧ a.Meets c ∧ a.call c = some (n, a')

section Mpdus

variable {W : ℕ} {S : ℤ} {A : Set ℤ} {w : BlockAckWindow} {m m' : Mpdu} {ms : List Mpdu}

theorem Mpdu.Numbered.val (h : m.Numbered) :
    m.inFlight.m_sequenceNumber.val = m.m_sequenceNumber :=
  Nat.mod_eq_of_lt (IsSeq.lt h)

theorem Mpdu.Numbered.item (h : m.Numbered) :
    m.inFlight.item.m_sequenceNumber = m.m_sequenceNumber :=
  h.val

theorem Mpdu.Numbered.seq_iff (h : m.Numbered) (h' : m'.Numbered) :
    m.inFlight.m_sequenceNumber = m'.inFlight.m_sequenceNumber ↔
      m.m_sequenceNumber = m'.m_sequenceNumber := by
  rw [← h.val, ← h'.val]
  exact Fin.ext_iff

theorem Mpdu.Numbered.control_iff (h : m.Numbered) (h' : m'.Numbered) :
    m.inFlight.getSequenceControl = m'.inFlight.getSequenceControl ↔
      m.m_sequenceNumber = m'.m_sequenceNumber := by
  rw [← h.seq_iff h']
  constructor
  · exact InFlight.getSequenceControl_seq
  · intro hseq
    have heq : m.inFlight = m'.inFlight := congrArg (InFlight.Mpdu.mk · ⟨0, by decide⟩) hseq
    rw [heq]

/-! ## The window -/

theorem Records.sized (h : Records W S A w) : Sized W w := ⟨h.size, h.head, h.winStart.lt⟩

theorem notifyTransmittedMpdu_item (h : m.Numbered) :
    notifyTransmittedMpdu w m.inFlight.item = notifyTransmittedMpdu w m := by
  unfold notifyTransmittedMpdu
  rw [h.item]

theorem notifyAckedMpdu_item (h : m.Numbered) :
    notifyAckedMpdu w m.inFlight.item = notifyAckedMpdu w m := by
  unfold notifyAckedMpdu
  rw [h.item]

theorem agreementDiscardedMpdu_item (h : m.Numbered) :
    agreementDiscardedMpdu w m.inFlight.item = agreementDiscardedMpdu w m := by
  unfold agreementDiscardedMpdu
  rw [h.item]

/-- The distance of an MPDU from the start of the window. -/
theorem Records.dist_inFlight (h : Records W S A w) (hm : m.Numbered) (hlo : S ≤ m.place)
    (hhi : m.place < S + 4096) : dist w m.inFlight = (m.place - S).toNat := by
  have hdist := IsSeq.getDistance_of_le hm h.winStart hlo hhi
  rw [← hm.val, InFlight.getDistance_dist h.sized] at hdist
  exact Option.some.inj hdist

/-! ## The lists -/

theorem storeFrom_inFlight (d : ℕ) (hm : m.Numbered) (hms : ∀ x ∈ ms, x.Numbered) :
    InFlight.storeFrom w m.inFlight d (ms.map Mpdu.inFlight) =
      (Originator.storeFrom w m d ms).map (Option.map (List.map Mpdu.inFlight)) := by
  induction ms with
  | nil => rfl
  | cons x xs ih =>
    have hx := hms x List.mem_cons_self
    have ih := ih fun y hy => hms y (List.mem_cons_of_mem x hy)
    rw [List.map_cons]
    unfold InFlight.storeFrom Originator.storeFrom
    by_cases hseq : m.m_sequenceNumber = x.m_sequenceNumber
    · rw [if_pos ((hm.control_iff hx).mpr hseq), if_pos hseq]
      rfl
    · rw [if_neg fun heq => hseq ((hm.control_iff hx).mp heq), if_neg hseq, hx.val]
      cases hdist : getDistance x.m_sequenceNumber w.m_winStart with
      | none => rfl
      | some d' =>
        simp only [Option.bind_eq_bind, Option.bind_some]
        have hfrag : ¬(0 : Fin 16) > 0 := lt_irrefl 0
        by_cases hgt : d > d'
        · rw [if_pos (Or.inl hgt), if_pos hgt]
          rfl
        · rw [if_neg fun h => h.elim hgt fun h => hfrag h.2, if_neg hgt, ih]
          cases Originator.storeFrom w m d xs with
          | none => rfl
          | some stored => cases stored <;> rfl

theorem dropOld_inFlight (queue : List Mpdu) (hms : ∀ x ∈ ms, x.Numbered) :
    InFlight.dropOld w (ms.map Mpdu.inFlight) =
      (Originator.dropOld w ms queue).map fun r => r.1.map Mpdu.inFlight := by
  induction ms generalizing queue with
  | nil => rfl
  | cons x xs ih =>
    have hx := hms x List.mem_cons_self
    rw [List.map_cons]
    unfold InFlight.dropOld Originator.dropOld
    rw [hx.val]
    cases hdist : getDistance x.m_sequenceNumber w.m_winStart with
    | none => rfl
    | some d =>
      simp only [Option.bind_eq_bind, Option.bind_some]
      split
      · exact ih _ fun y hy => hms y (List.mem_cons_of_mem x hy)
      · rfl

end Mpdus

namespace Originator

section Calls

variable {W : ℕ} {N S : ℤ} {A : Set ℤ} {o o' : Originator} {m : Mpdu} {ms : List Mpdu}
  {lifetime : ℤ → Ordering} {status : MpduStatus}

/-! ## Transmissions and discarded MPDUs -/

theorem storePacket_agreement (hms : ∀ x ∈ o.m_inFlight, x.Numbered) (hm : m.Numbered) :
    InFlight.storePacket o.agreement m.inFlight = (o.storePacket m).map agreement := by
  have hstore (d : ℕ) := storeFrom_inFlight (w := o.m_txWindow) d hm
    fun x hx => hms x (List.mem_reverse.mp hx)
  unfold InFlight.storePacket Originator.storePacket agreement
  rw [hm.val, ← List.map_reverse]
  cases getDistance m.m_sequenceNumber o.m_txWindow.m_winStart with
  | none => rfl
  | some d =>
    simp only [Option.bind_eq_bind, Option.bind_some, hstore, notifyTransmittedMpdu_item hm]
    split
    · rfl
    · cases storeFrom o.m_txWindow m d o.m_inFlight.reverse with
      | none => rfl
      | some stored =>
        cases stored with
        | none => rfl
        | some stored =>
          cases notifyTransmittedMpdu o.m_txWindow m with
          | none => rfl
          | some w =>
            simp only [Option.map_some, Option.bind_some, ← List.map_reverse]

theorem discard_agreement (hms : ∀ x ∈ o.m_inFlight, x.Numbered) (hm : m.Numbered) :
    InFlight.notifyDiscardedMpdu o.agreement m.inFlight true = (o.discard m).map agreement := by
  unfold InFlight.notifyDiscardedMpdu Originator.discard Originator.notifyDiscardedMpdu
  have hseq : m.inFlight.m_sequenceNumber.val = m.m_sequenceNumber := hm.val
  change (if qosUtilsIsOldPacket o.m_txWindow.m_winStart m.inFlight.m_sequenceNumber.val then _
    else _) = _
  rw [hseq, agreementDiscardedMpdu_item hm]
  change _ = ((if qosUtilsIsOldPacket o.m_txWindow.m_winStart m.m_sequenceNumber then _
    else _ : Option Originator)).map _
  split
  · rfl
  · change (agreementDiscardedMpdu o.m_txWindow m).bind _ =
      ((agreementDiscardedMpdu o.m_txWindow m).bind _).map _
    cases agreementDiscardedMpdu o.m_txWindow m with
    | none => rfl
    | some w =>
      change (InFlight.dropOld w (o.m_inFlight.map Mpdu.inFlight)).bind _ =
        ((dropOld w o.m_inFlight (o.dequeue m).m_queue).bind _).map _
      rw [dropOld_inFlight (o.dequeue m).m_queue hms]
      cases dropOld w o.m_inFlight (o.dequeue m).m_queue <;> rfl

/-! ## Block acks -/

/-- The first MPDU in flight leaves, and the window stays unless its lifetime has ended. -/
theorem handleInFlightMpdu_agreement (hfirst : o.m_inFlight = m :: ms)
    (hlife : status = .acknowledged ∨ lifetime m.place ≠ .lt)
    (h : handleInFlightMpdu lifetime status o = some o') :
    o'.agreement = ⟨o.m_txWindow, ms.map Mpdu.inFlight⟩ := by
  unfold handleInFlightMpdu at h
  rw [hfirst] at h
  simp only at h
  by_cases hqueue : m ∉ o.m_queue
  · rw [if_pos hqueue] at h
    obtain rfl := Option.some.inj h
    rfl
  rw [if_neg hqueue] at h
  by_cases hacked : status = .acknowledged
  · rw [if_pos hacked] at h
    obtain rfl := Option.some.inj h
    rfl
  rw [if_neg hacked, if_neg (hlife.resolve_left hacked)] at h
  obtain ⟨d, -, h⟩ := Option.bind_eq_some_iff.mp h
  split at h
  all_goals
    obtain rfl := Option.some.inj h
    rfl

/-- A block ack that finds no lifetime ended. -/
theorem Sound.gotBlockAck_agreement (h : o.Sound W N) (hW : W ≤ 2048) {b : CtrlBAckResponseHeader}
    {acked : List Mpdu} (isQueued : InFlight.Mpdu → Bool)
    (hlife : ∀ m ∈ o.m_inFlight, lifetime m.place ≠ .lt)
    (hrun : o.notifyGotBlockAck b lifetime = some (acked, o')) :
    ∃ n, InFlight.notifyGotBlockAck o.agreement (fun seq => b.isPacketReceived seq) isQueued =
      some (n, o'.agreement) ∧ n.1 = acked.length % 65536 := by
  have hloop : ∀ (ms : List Mpdu) (o : Originator) (acked : List Mpdu), o.Sound W N →
      o.m_inFlight = ms → (∀ m ∈ ms, lifetime m.place ≠ .lt) →
      gotBlockAckLoop b lifetime (ms.length + 1) o = some (acked, o') →
      ∃ n, InFlight.gotBlockAckLoop (fun seq => b.isPacketReceived seq) isQueued o.m_txWindow
        (ms.map Mpdu.inFlight) = some (n, o'.agreement) ∧ n.1 = acked.length % 65536 := by
    intro ms
    induction ms with
    | nil =>
      intro o acked _ hms _ hrun
      unfold gotBlockAckLoop at hrun
      rw [hms] at hrun
      obtain ⟨rfl, rfl⟩ := Prod.mk.inj (Option.some.inj hrun)
      refine ⟨(0, 0), ?_, rfl⟩
      unfold agreement
      rw [hms]
      rfl
    | cons m ms ih =>
      rintro o acked ⟨S, A, hh⟩ hms hlife hrun
      have hm := hh.numbered m (hms ▸ List.mem_cons_self ..)
      have hlife' := fun x hx => hlife x (List.mem_cons_of_mem m hx)
      rw [List.length_cons] at hrun
      unfold gotBlockAckLoop at hrun
      rw [hms] at hrun
      simp only at hrun
      rw [List.map_cons]
      unfold InFlight.gotBlockAckLoop
      simp only [hm.val, notifyAckedMpdu_item hm]
      split at hrun
      · next hrec =>
        obtain ⟨w, o₁, hw, ho₁, hms₁, hsound⟩ := hh.acknowledge lifetime hW hms
        have hagr := handleInFlightMpdu_agreement (o := { o with m_txWindow := w }) hms
          (Or.inl rfl) ho₁
        have hwin : o₁.m_txWindow = w := congrArg Agreement.m_txWindow hagr
        rw [hms] at ho₁
        rw [hw, Option.bind_eq_bind, Option.bind_some, ho₁, Option.bind_eq_bind,
          Option.bind_some] at hrun
        obtain ⟨⟨acked', o₂⟩, hrest, heq⟩ := Option.bind_eq_some_iff.mp hrun
        obtain ⟨rfl, rfl⟩ := Prod.mk.inj (Option.some.inj heq)
        obtain ⟨n, hn, hcount⟩ := ih o₁ acked' hsound hms₁ hlife' hrest
        obtain ⟨S', A', hh₁⟩ := hsound
        refine ⟨((n.1 + 1) % 65536, n.2), ?_, ?_⟩
        · rw [if_pos hrec, hw, Option.bind_eq_bind, Option.bind_some,
            InFlight.handleInFlightMpdu_erases (hwin ▸ hh₁.window.sized) isQueued
              InFlight.MpduStatus.noConfusion, Option.bind_eq_bind, Option.bind_some, ← hwin, hn]
          rfl
        · change (n.1 + 1) % 65536 = (acked'.length + 1) % 65536
          rw [hcount, Nat.mod_add_mod]
      · next hrec =>
        obtain ⟨o₁, ho₁, hms₁, hsound⟩ := hh.toRetransmit lifetime hW hms
        have hagr := handleInFlightMpdu_agreement hms (Or.inr (hlife m List.mem_cons_self)) ho₁
        have hwin : o₁.m_txWindow = o.m_txWindow := congrArg Agreement.m_txWindow hagr
        rw [ho₁, Option.bind_eq_bind, Option.bind_some] at hrun
        obtain ⟨n, hn, hcount⟩ := ih o₁ acked hsound hms₁ hlife' hrun
        refine ⟨(n.1, (n.2 + 1) % 65536), ?_, hcount⟩
        rw [if_neg hrec, InFlight.handleInFlightMpdu_erases hh.window.sized isQueued
          InFlight.MpduStatus.noConfusion, Option.bind_eq_bind, Option.bind_some, ← hwin, hn]
        rfl
  exact hloop o.m_inFlight o acked h rfl hlife hrun

/-- A missed block ack that finds no lifetime ended. -/
theorem Sound.missedBlockAck_agreement (h : o.Sound W N) (hW : W ≤ 2048)
    (isQueued : InFlight.Mpdu → Bool) (hlife : ∀ m ∈ o.m_inFlight, lifetime m.place ≠ .lt)
    (hrun : o.notifyMissedBlockAck lifetime = some o') :
    InFlight.notifyMissedBlockAck o.agreement isQueued = some o'.agreement := by
  have hloop : ∀ (ms : List Mpdu) (o : Originator), o.Sound W N → o.m_inFlight = ms →
      (∀ m ∈ ms, lifetime m.place ≠ .lt) →
      missedBlockAckLoop lifetime (ms.length + 1) o = some o' →
      o'.agreement = ⟨o.m_txWindow, []⟩ := by
    intro ms
    induction ms with
    | nil =>
      intro o _ hms _ hrun
      unfold missedBlockAckLoop at hrun
      rw [hms] at hrun
      obtain rfl := Option.some.inj hrun
      unfold agreement
      rw [hms]
      rfl
    | cons m ms ih =>
      rintro o ⟨S, A, hh⟩ hms hlife hrun
      unfold missedBlockAckLoop at hrun
      rw [hms] at hrun
      simp only at hrun
      obtain ⟨o₁, ho₁, hms₁, hsound⟩ := hh.toRetransmit lifetime hW hms
      have hagr := handleInFlightMpdu_agreement hms (Or.inr (hlife m List.mem_cons_self)) ho₁
      have hwin : o₁.m_txWindow = o.m_txWindow := congrArg Agreement.m_txWindow hagr
      rw [ho₁] at hrun
      rw [← hwin]
      exact ih o₁ hsound hms₁ (fun x hx => hlife x (List.mem_cons_of_mem m hx)) hrun
  have hagr := hloop o.m_inFlight o h rfl hlife hrun
  obtain ⟨S, A, hh⟩ := h
  have hempty := InFlight.missedBlockAckLoop_eq hh.window.sized isQueued o.agreement.m_inFlight
  unfold InFlight.notifyMissedBlockAck
  rw [show o.agreement.m_txWindow = o.m_txWindow from rfl, hempty, hagr]
  rfl

/-- `GetBar` leaves the agreement while the first MPDU in flight may still be transmitted. -/
theorem getBar_agreement {x : ℕ}
    (hfirst : ∀ m ∈ o.m_inFlight.head?, m ∈ o.m_queue ∧ lifetime m.place = .gt)
    (hrun : o.getBar lifetime = some (x, o')) : o' = o := by
  obtain ⟨o₁, ho₁, heq⟩ := Option.bind_eq_some_iff.mp hrun
  obtain ⟨-, rfl⟩ := Prod.mk.inj (Option.some.inj heq)
  cases hms : o.m_inFlight with
  | nil =>
    rw [hms] at ho₁
    exact (Option.some.inj ho₁).symm
  | cons m ms =>
    obtain ⟨hqueue, hlife⟩ := hfirst m (hms ▸ rfl)
    rw [hms] at ho₁
    unfold removeExpired at ho₁
    rw [if_neg (not_not.mpr hqueue), hlife] at ho₁
    exact (Option.some.inj ho₁).symm

/-! ## The condition of the calls -/

/-- An MPDU that is not in flight, with a position inside the window that was not acknowledged. -/
theorem Holds.fits (h : o.Holds W N S A) (hW : W ≤ 1024) (hm : m.Numbered) (hlo : S ≤ m.place)
    (hhi : m.place < S + W) (hnew : m ∉ o.m_inFlight) (hwait : m.place ∉ A) :
    o.agreement.distance m.inFlight < 1024 ∧ o.agreement.Fits m.inFlight := by
  have hahead := h.ahead
  have hdist : o.agreement.distance m.inFlight = (m.place - S).toNat :=
    h.window.dist_inFlight hm hlo (by omega)
  have hsize : o.agreement.m_txWindow.getWinSize = W := h.window.size
  refine ⟨by omega, fun n hn hseq => ?_, fun hset => ?_, fun n _ => ?_⟩
  · obtain ⟨x, hx, rfl⟩ := List.mem_map.mp hn
    have hnum := h.numbered x hx
    have hfly := h.flying x hx
    have hplace : x.place = m.place := by
      have heq := (hnum.seq_iff hm).mp hseq
      unfold Mpdu.Numbered IsSeq at hnum hm
      omega
    exact hnew (hnum.eq hm hplace ▸ hx)
  · change o.m_txWindow.atDistance _ = _ at hset
    rw [hdist, h.window.sized.atDistance (by omega), Option.some_inj,
      h.window.bits _ (by omega)] at hset
    refine hwait ?_
    rwa [Int.toNat_of_nonneg (by omega), add_sub_cancel] at hset
  · omega

/-- It is stored, whatever the EDCA queue holds. -/
theorem Holds.store_leads (h : o.Holds W N S A) (hW : W ≤ 1024) {queue : List Mpdu}
    (hm : m.Numbered) (hlo : S ≤ m.place) (hhi : m.place < S + W) (hnew : m ∉ o.m_inFlight)
    (hwait : m.place ∉ A)
    (hstore : Originator.storePacket { o with m_queue := queue } m = some o') :
    o.agreement.Leads o'.agreement := by
  obtain ⟨hnear, hfits⟩ := h.fits hW hm hlo hhi hnew hwait
  have hcall : InFlight.storePacket o.agreement m.inFlight = some o'.agreement :=
    (storePacket_agreement (o := { o with m_queue := queue }) h.numbered hm).trans
      (congrArg (Option.map agreement) hstore)
  refine Or.inr ⟨.storePacket m.inFlight, none, Or.inl hnear, Or.inr (Or.inr hfits), ?_⟩
  exact congrArg (Option.map (none, ·)) hcall

theorem Sound.transmit_leads (h : o.Sound W N) (hW : W ≤ 1024)
    (hsome : o.transmit N = some (m, o')) : o.agreement.Leads o'.agreement := by
  obtain ⟨S, A, hh⟩ := h
  unfold Originator.transmit at hsome
  obtain ⟨_, hguard, hrest⟩ := Option.bind_eq_some_iff.mp hsome
  obtain ⟨o₁, hstore, heq⟩ := Option.bind_eq_some_iff.mp hrest
  obtain ⟨rfl, rfl⟩ := Prod.mk.inj (Option.some.inj heq)
  exact hh.store_leads hW (mpdu_numbered N) hh.behind (hh.new_mem_window hW hguard)
    (fun hx => lt_irrefl _ (hh.flying _ hx).2) (fun hA => lt_irrefl _ (hh.used N hA)) hstore

theorem Sound.retransmit_leads (h : o.Sound W N) (hW : W ≤ 1024)
    (hsome : o.retransmit m = some o') : o.agreement.Leads o'.agreement := by
  obtain ⟨S, A, hh⟩ := h
  have hahead := hh.ahead
  unfold Originator.retransmit at hsome
  obtain ⟨_, hguard, hrest⟩ := Option.bind_eq_some_iff.mp hsome
  obtain ⟨-, -, hstore⟩ := Option.bind_eq_some_iff.mp hrest
  have hq : m ∈ o.removeOld.m_queue ∧ m ∉ o.m_inFlight := of_guard hguard
  obtain ⟨hm, hle⟩ := (hh.mem_removeOld hW).mp hq.1
  have hplace := hh.queued m hm
  exact hh.store_leads hW (hh.queueNumbered m hm) hle (by omega) hq.2 (hh.queueWaiting m hm) hstore

end Calls

end Originator

namespace Exchange

variable {W : ℕ} {x x' : Exchange} {a : Action}

/-- No lifetime ends: not of an MPDU in flight that is to be transmitted again, nor of the first one
in flight, which is stored, when a block ack request is sent. -/
def Unexpired (x : Exchange) : Action → Prop
  | .gotBlockAck lifetime | .missedBlockAck lifetime =>
    ∀ m ∈ x.originator.m_inFlight, lifetime m.place ≠ .lt
  | .sendBar lifetime =>
    ∀ m ∈ x.originator.m_inFlight.head?, m ∈ x.originator.m_queue ∧ lifetime m.place = .gt
  | _ => True

/-- What an action does to the agreement of the originator. -/
theorem calls_of_step (h : x.originator.Sound W x.next) (hW : W ≤ 1024) (hlife : x.Unexpired a)
    (hstep : x.step W a = some x') :
    x'.originator.Sound W x'.next ∧ x.originator.agreement.Leads x'.originator.agreement := by
  cases a with
  | transmit =>
    obtain ⟨⟨m, o⟩, ho, heq⟩ := Option.bind_eq_some_iff.mp hstep
    obtain rfl := Option.some.inj heq
    exact ⟨(h.transmit hW ho).1, h.transmit_leads hW ho⟩
  | retransmit mpdu =>
    obtain ⟨o, ho, heq⟩ := Option.bind_eq_some_iff.mp hstep
    obtain rfl := Option.some.inj heq
    exact ⟨(h.retransmit hW ho).1, h.retransmit_leads hW ho⟩
  | discard mpdu =>
    obtain ⟨_, hguard, hrest⟩ := Option.bind_eq_some_iff.mp hstep
    obtain ⟨o, ho, heq⟩ := Option.bind_eq_some_iff.mp hrest
    obtain rfl := Option.some.inj heq
    have hm := Originator.of_guard hguard
    obtain ⟨o', ho', hsound⟩ := h.discard (by omega) hm
    obtain rfl : o' = o := Option.some.inj (ho'.symm.trans ho)
    obtain ⟨S, A, hh⟩ := h
    have hcall := (Originator.discard_agreement hh.numbered (hh.queueNumbered mpdu hm)).trans
      (congrArg _ ho)
    exact ⟨hsound, Or.inr ⟨.notifyDiscardedMpdu _ true, none, trivial, trivial,
      congrArg (Option.map (none, ·)) hcall⟩⟩
  | sendBar lifetime =>
    obtain ⟨⟨y, o⟩, ho, heq⟩ := Option.bind_eq_some_iff.mp hstep
    obtain rfl := Option.some.inj heq
    obtain rfl := Originator.getBar_agreement hlife ho
    exact ⟨h, Or.inl rfl⟩
  | gotBlockAck lifetime =>
    change x.gotBlockAck lifetime = some x' at hstep
    unfold Exchange.gotBlockAck at hstep
    split at hstep
    · cases hstep
    · next b replies hb =>
      obtain ⟨⟨acked, o⟩, ho, heq⟩ := Option.bind_eq_some_iff.mp hstep
      obtain rfl := Option.some.inj heq
      obtain ⟨o', ho', hsound⟩ := h.notifyGotBlockAck (by omega) b.blockAck lifetime
      obtain ⟨-, rfl⟩ := Prod.mk.inj (Option.some.inj (ho'.symm.trans ho))
      obtain ⟨n, hcall, -⟩ := h.gotBlockAck_agreement (by omega) (fun _ => true) hlife ho
      exact ⟨hsound, Or.inr ⟨.notifyGotBlockAck _ _, some n, trivial, trivial,
        congrArg (Option.map fun r : (ℕ × ℕ) × Agreement => (some r.1, r.2)) hcall⟩⟩
  | missedBlockAck lifetime =>
    obtain ⟨o, ho, heq⟩ := Option.bind_eq_some_iff.mp hstep
    obtain rfl := Option.some.inj heq
    obtain ⟨o', ho', hsound⟩ := h.notifyMissedBlockAck (by omega) lifetime
    obtain rfl : o' = o := Option.some.inj (ho'.symm.trans ho)
    have hcall := h.missedBlockAck_agreement (by omega) (fun _ => true) hlife ho
    exact ⟨hsound, Or.inr ⟨.notifyMissedBlockAck _, none, trivial, trivial,
      congrArg (Option.map (none, ·)) hcall⟩⟩
  | receive =>
    change x.receive = some x' at hstep
    unfold Exchange.receive at hstep
    split at hstep
    · cases hstep
    · unfold score at hstep
      split at hstep
      all_goals
        obtain ⟨board, -, heq⟩ := Option.bind_eq_some_iff.mp hstep
        obtain rfl := Option.some.inj heq
        exact ⟨h, Or.inl rfl⟩
  | sendBlockAck =>
    obtain ⟨b, -, heq⟩ := Option.bind_eq_some_iff.mp hstep
    obtain rfl := Option.some.inj heq
    exact ⟨h, Or.inl rfl⟩
  | loseFrame i =>
    obtain rfl := Option.some.inj hstep
    exact ⟨h, Or.inl rfl⟩
  | loseBlockAck i =>
    obtain rfl := Option.some.inj hstep
    exact ⟨h, Or.inl rfl⟩

/-- While no lifetime ends, an exchange is a run of calls for its originator. -/
theorem Run.calls (hpos : 0 < W) (hW : W ≤ 1024) (h : Run Unexpired W x) :
    x.originator.Sound W x.next ∧
      ∃ s < 4096, InFlight.Run s W Agreement.Meets x.originator.agreement := by
  induction h with
  | start hs hle hwin hqueue =>
    exact ⟨(Inv.start hpos hs hle hwin hqueue).sound, _, hs.lt, .create⟩
  | step _ hlife hstep ih =>
    obtain ⟨hsound, s, hs, hrun⟩ := ih
    obtain ⟨hsound', hleads⟩ := calls_of_step hsound hW hlife hstep
    refine ⟨hsound', s, hs, ?_⟩
    obtain heq | ⟨c, n, henabled, hmeets, hcall⟩ := hleads
    · exact heq ▸ hrun
    · exact hrun.call c henabled hmeets hcall

/-- The MPDUs in flight of the originator are consistent with its window. -/
theorem Run.agreement_consistent (hpos : 0 < W) (hW : W ≤ 1024) (h : Run Unexpired W x) :
    x.originator.agreement.Consistent := by
  obtain ⟨-, s, hs, hrun⟩ := h.calls hpos hW
  exact (hrun.inv hpos hW hs).consistent

end Exchange

end Ns3.Wifi
