import Ns3.Wifi.OriginatorWindow

/-!
# The steps of the originator

`Holds` is kept by every operation of the originator. A block ack counts as successful exactly the
MPDUs in flight whose numbers it acknowledges.
-/

namespace Ns3.Wifi

/-- The originator has used the positions below `N`. Its window starts at `S`, and the positions of
`A` were acknowledged. -/
structure Originator.Holds (W : ℕ) (N : ℤ) (S : ℤ) (A : Set ℤ) (o : Originator) : Prop where
  window : Records W S A o.m_txWindow
  behind : S ≤ N
  ahead : N ≤ S + W
  used : ∀ v ∈ A, v < N
  numbered : ∀ m ∈ o.m_inFlight, m.Numbered
  flying : ∀ m ∈ o.m_inFlight, S ≤ m.place ∧ m.place < N
  waiting : ∀ m ∈ o.m_inFlight, m.place ∉ A
  sorted : o.m_inFlight.Pairwise fun a b => a.place < b.place
  queueNumbered : ∀ m ∈ o.m_queue, m.Numbered
  queued : ∀ m ∈ o.m_queue, N ≤ m.place + W ∧ m.place < N
  queueWaiting : ∀ m ∈ o.m_queue, m.place ∉ A

/-- `Holds` for some window and some acknowledged positions. -/
def Originator.Sound (W : ℕ) (N : ℤ) (o : Originator) : Prop := ∃ S A, o.Holds W N S A

namespace Originator

section Steps

variable {W : ℕ} {N S : ℤ} {A : Set ℤ} {o : Originator} {m : Mpdu} {ms : List Mpdu}

/-- MPDUs leave the lists. -/
theorem Holds.restrict (h : o.Holds W N S A) {ms queue : List Mpdu} (hms : ms.Sublist o.m_inFlight)
    (hqueue : queue.Sublist o.m_queue) : Holds W N S A { o with m_inFlight := ms, m_queue := queue }
    where
  window := h.window
  behind := h.behind
  ahead := h.ahead
  used := h.used
  numbered := fun m hm => h.numbered m (hms.subset hm)
  flying := fun m hm => h.flying m (hms.subset hm)
  waiting := fun m hm => h.waiting m (hms.subset hm)
  sorted := h.sorted.sublist hms
  queueNumbered := fun m hm => h.queueNumbered m (hqueue.subset hm)
  queued := fun m hm => h.queued m (hqueue.subset hm)
  queueWaiting := fun m hm => h.queueWaiting m (hqueue.subset hm)

theorem Holds.dequeue (h : o.Holds W N S A) (m : Mpdu) : (o.dequeue m).Holds W N S A :=
  h.restrict (List.Sublist.refl _) List.filter_sublist

theorem Holds.removeOld (h : o.Holds W N S A) : o.removeOld.Holds W N S A :=
  h.restrict (List.Sublist.refl _) List.filter_sublist

/-- The window moves past acknowledged positions and MPDUs that have left. -/
theorem Holds.pass (h : o.Holds W N S A) {w : BlockAckWindow} {S' : ℤ} {A' : Set ℤ}
    (hw : Records W S' A' w) (hle : S ≤ S') (hN : S' ≤ N) (hA : ∀ v ∈ A', v < N)
    (hms : ∀ m ∈ o.m_inFlight, S' ≤ m.place) (hwait : ∀ m ∈ o.m_inFlight, m.place ∉ A')
    (hqueue : ∀ m ∈ o.m_queue, m.place ∉ A') : Holds W N S' A' { o with m_txWindow := w } where
  window := hw
  behind := hN
  ahead := by
    have hahead := h.ahead
    omega
  used := hA
  numbered := h.numbered
  flying := fun m hm => ⟨hms m hm, (h.flying m hm).2⟩
  waiting := hwait
  sorted := h.sorted
  queueNumbered := h.queueNumbered
  queued := h.queued
  queueWaiting := hqueue

/-- A window that only passed acknowledged positions after `u` has not passed unused ones. -/
theorem Holds.passed_le (h : o.Holds W N S A) {u S' : ℤ} (hu : u < N)
    (hpass : ∀ v, u < v → v < S' → v ∈ A) : S' ≤ N := by
  by_contra hlt
  have hN := h.used N (hpass N hu (by omega))
  omega

/-- A discarded MPDU: the window passes it, and the MPDUs up to it are not in flight any more. -/
theorem Holds.discard (h : o.Holds W N S A) (hW : W ≤ 2048) (hm : m ∈ o.m_queue) :
    ∃ o' S', o.discard m = some o' ∧ o'.Holds W N S' A ∧
      o'.m_inFlight =
        if m.place < S then o.m_inFlight else o.m_inFlight.filter fun x => m.place < x.place := by
  have hnum := h.queueNumbered m hm
  have hplace := h.queued m hm
  have hbehind := h.behind
  have hahead := h.ahead
  have hdeq := h.dequeue m
  unfold Originator.discard Originator.notifyDiscardedMpdu
  have hold := IsSeq.isOldPacket hnum h.window.winStart (by omega) (by omega)
  by_cases hlt : m.place < S
  · rw [if_pos hlt]
    exact ⟨o.dequeue m, S, if_pos (hold.mpr hlt), hdeq, rfl⟩
  · rw [if_neg hlt]
    obtain ⟨w, S', hw, hrec, hpast, hpass⟩ :=
      h.window.agreementDiscardedMpdu hnum (by omega) (by omega) hW
    have hN : S' ≤ N := h.passed_le hplace.2 hpass
    obtain ⟨queue', hdrop, hq⟩ :=
      dropOld_eq (o.dequeue m).m_queue hrec.winStart h.numbered (fun x hx => by
        have hfly := h.flying x hx
        omega) h.sorted
    have hstay : (o.m_inFlight.filter fun x => S' ≤ x.place) =
        o.m_inFlight.filter fun x => m.place < x.place := by
      apply List.filter_congr
      intro x hx
      apply decide_eq_decide.mpr
      constructor
      · intro hle
        omega
      · intro hgt
        by_contra hlt'
        exact h.waiting x hx (hpass x.place hgt (by omega))
    have hyoung : ¬qosUtilsIsOldPacket (o.dequeue m).m_txWindow.m_winStart
        m.m_sequenceNumber = true := fun hc => hlt (hold.mp hc)
    refine ⟨⟨w, o.m_inFlight.filter fun x => S' ≤ x.place, queue'⟩, S', ?_, ?_, hstay⟩
    · rw [if_neg hyoung]
      change (agreementDiscardedMpdu o.m_txWindow m).bind _ = _
      rw [hw, Option.bind_some]
      change (dropOld w o.m_inFlight (o.dequeue m).m_queue).bind _ = _
      rw [hdrop]
      rfl
    · have hfilter : (o.m_inFlight.filter fun x => S' ≤ x.place).Sublist o.m_inFlight :=
        List.filter_sublist
      have hless := hdeq.restrict hfilter hq
      refine hless.pass hrec (by omega) hN h.used (fun x hx => ?_) hless.waiting
        hless.queueWaiting
      simpa using (List.mem_filter.mp hx).2

/-! ## Block acks -/

/-- An acknowledged MPDU leaves. -/
theorem Holds.acknowledge (h : o.Holds W N S A) (lifetime : ℤ → Ordering) (hW : W ≤ 2048)
    (hfirst : o.m_inFlight = m :: ms) :
    ∃ w o', notifyAckedMpdu o.m_txWindow m = some w ∧
      handleInFlightMpdu lifetime .acknowledged { o with m_txWindow := w } = some o' ∧
      o'.m_inFlight = ms ∧ o'.Sound W N := by
  have hm : m ∈ o.m_inFlight := hfirst ▸ List.mem_cons_self ..
  have hfly := h.flying m hm
  have hahead := h.ahead
  obtain ⟨w, S', hw, hrec, hle, hpass⟩ :=
    h.window.notifyAckedMpdu (h.numbered m hm) hfly.1 (by omega) hW
  have hused : ∀ v ∈ insert m.place A, v < N := by
    rintro v (rfl | hv)
    · exact hfly.2
    · exact h.used v hv
  have hN : S' ≤ N := by
    by_contra hlt
    have hcon := hused N (hpass N h.behind (by omega))
    omega
  have hsorted := h.sorted
  rw [hfirst] at hsorted
  have hafter := (List.pairwise_cons.mp hsorted).1
  have hsub : ms.Sublist o.m_inFlight := hfirst ▸ List.sublist_cons_self m ms
  have hother : ∀ x ∈ ms, x.place ∉ insert m.place A := by
    rintro x hx (heq | hxA)
    · have hlt := hafter x hx
      omega
    · exact h.waiting x (hsub.subset hx) hxA
  have hfar : ∀ x ∈ ms, S' ≤ x.place := by
    intro x hx
    by_contra hlt
    have hxS := (h.flying x (hsub.subset hx)).1
    exact hother x hx (hpass x.place hxS (by omega))
  have hout : ∀ queue : List Mpdu, queue.Sublist o.m_queue → m ∉ queue →
      Holds W N S' (insert m.place A) ⟨w, ms, queue⟩ := by
    intro queue hq hmq
    refine (h.restrict hsub hq).pass hrec hle hN hused hfar hother ?_
    rintro x hx (heq | hxA)
    · exact hmq ((h.queueNumbered x (hq.subset hx)).eq (h.numbered m hm) heq ▸ hx)
    · exact h.queueWaiting x (hq.subset hx) hxA
  refine ⟨w, ?_⟩
  unfold handleInFlightMpdu
  simp only [hfirst]
  by_cases hq : m ∈ o.m_queue
  · refine ⟨⟨w, ms, (o.dequeue m).m_queue⟩, hw, ?_, rfl, S', insert m.place A,
      hout _ List.filter_sublist ?_⟩
    · rw [if_neg (not_not.mpr hq), if_pos trivial]
      rfl
    · intro hmem
      simpa using (List.mem_filter.mp hmem).2
  · exact ⟨_, hw, if_pos hq, rfl, S', insert m.place A, hout _ (List.Sublist.refl _) hq⟩

/-- An MPDU that is to be transmitted again is not in flight any more. -/
theorem Holds.toRetransmit (h : o.Holds W N S A) (lifetime : ℤ → Ordering) (hW : W ≤ 2048)
    (hfirst : o.m_inFlight = m :: ms) :
    ∃ o', handleInFlightMpdu lifetime .toRetransmit o = some o' ∧ o'.m_inFlight = ms ∧
      o'.Sound W N := by
  have hm : m ∈ o.m_inFlight := hfirst ▸ List.mem_cons_self ..
  have hfly := h.flying m hm
  have hbehind := h.behind
  have hahead := h.ahead
  have hsub : ms.Sublist o.m_inFlight := hfirst ▸ List.sublist_cons_self m ms
  have hless := h.restrict hsub (List.Sublist.refl o.m_queue)
  unfold handleInFlightMpdu
  rw [hfirst]
  simp only
  by_cases hq : m ∈ o.m_queue
  · rw [if_neg (not_not.mpr hq), if_neg MpduStatus.noConfusion,
      IsSeq.getDistance_of_le (h.numbered m hm) h.window.winStart hfly.1 (by omega),
      Option.bind_eq_bind, Option.bind_some, if_neg (by omega)]
    split
    · obtain ⟨o', S', hdis, hholds, hrest⟩ := h.discard hW hq
      refine ⟨o', hdis, ?_, S', A, hholds⟩
      have hsorted := h.sorted
      rw [hfirst] at hsorted hrest
      have hafter := (List.pairwise_cons.mp hsorted).1
      rw [hrest, if_neg (by omega), List.filter_cons_of_neg (by simp)]
      exact List.filter_eq_self.mpr fun x hx => decide_eq_true (hafter x hx)
    · exact ⟨_, rfl, rfl, S, A, hless⟩
  · exact ⟨_, if_pos hq, rfl, S, A, hless⟩

/-- `NotifyGotBlockAck` counts the MPDUs in flight that the block ack acknowledges. -/
theorem Sound.notifyGotBlockAck (h : o.Sound W N) (hW : W ≤ 2048) (b : CtrlBAckResponseHeader)
    (lifetime : ℤ → Ordering) :
    ∃ o', o.notifyGotBlockAck b lifetime =
        some (o.m_inFlight.filter fun m => b.isPacketReceived m.m_sequenceNumber, o') ∧
      o'.Sound W N := by
  have hloop : ∀ (ms : List Mpdu) (o : Originator), o.Sound W N → o.m_inFlight = ms →
      ∃ o', gotBlockAckLoop b lifetime (ms.length + 1) o =
          some (ms.filter fun m => b.isPacketReceived m.m_sequenceNumber, o') ∧
        o'.Sound W N := by
    intro ms
    induction ms with
    | nil =>
      intro o ho hms
      refine ⟨o, ?_, ho⟩
      unfold gotBlockAckLoop
      rw [hms]
      rfl
    | cons m ms ih =>
      rintro o ⟨S, A, hh⟩ hms
      rw [List.length_cons]
      unfold gotBlockAckLoop
      rw [hms]
      simp only
      split
      · next hrec =>
        obtain ⟨w, o₁, hw, ho₁, hms₁, hsound⟩ := hh.acknowledge lifetime hW hms
        obtain ⟨o', hrest, ho'⟩ := ih o₁ hsound hms₁
        refine ⟨o', ?_, ho'⟩
        rw [hms] at ho₁
        rw [hw, Option.bind_eq_bind, Option.bind_some, ho₁, Option.bind_eq_bind, Option.bind_some,
          hrest, List.filter_cons, if_pos hrec]
        rfl
      · next hrec =>
        obtain ⟨o₁, ho₁, hms₁, hsound⟩ := hh.toRetransmit lifetime hW hms
        obtain ⟨o', hrest, ho'⟩ := ih o₁ hsound hms₁
        refine ⟨o', ?_, ho'⟩
        rw [ho₁, Option.bind_eq_bind, Option.bind_some, hrest, List.filter_cons, if_neg hrec]
  exact hloop o.m_inFlight o h rfl

theorem Sound.notifyMissedBlockAck (h : o.Sound W N) (hW : W ≤ 2048)
    (lifetime : ℤ → Ordering) :
    ∃ o', o.notifyMissedBlockAck lifetime = some o' ∧ o'.Sound W N := by
  have hloop : ∀ (ms : List Mpdu) (o : Originator), o.Sound W N → o.m_inFlight = ms →
      ∃ o', missedBlockAckLoop lifetime (ms.length + 1) o = some o' ∧ o'.Sound W N := by
    intro ms
    induction ms with
    | nil =>
      intro o ho hms
      refine ⟨o, ?_, ho⟩
      unfold missedBlockAckLoop
      rw [hms]
    | cons m ms ih =>
      rintro o ⟨S, A, hh⟩ hms
      rw [List.length_cons]
      unfold missedBlockAckLoop
      rw [hms]
      obtain ⟨o₁, ho₁, hms₁, hsound⟩ := hh.toRetransmit lifetime hW hms
      obtain ⟨o', hrest, ho'⟩ := ih o₁ hsound hms₁
      refine ⟨o', ?_, ho'⟩
      simp only
      rw [ho₁]
      exact hrest
  exact hloop o.m_inFlight o h rfl

/-! ## Transmissions -/

/-- An MPDU of the EDCA queue is transmitted within the window. -/
theorem Holds.storePacket (h : o.Holds W N S A) (hW : W ≤ 2048) (hm : m ∈ o.m_queue)
    (hnew : m ∉ o.m_inFlight) (hlo : S ≤ m.place) :
    ∃ o', o.storePacket m = some o' ∧ o'.Holds W N S A ∧
    o'.m_inFlight.Perm (m :: o.m_inFlight) := by
  have hnum := h.queueNumbered m hm
  have hplace := h.queued m hm
  have hahead := h.ahead
  have hbehind := h.behind
  obtain ⟨stored, hstored, hperm, hsorted⟩ := storeFrom_eq o.m_inFlight.reverse hW
    h.window.winStart hnum hlo (by omega) (fun x hx => h.numbered x (List.mem_reverse.mp hx))
    (fun x hx => by
      have hfly := h.flying x (List.mem_reverse.mp hx)
      omega)
    (List.pairwise_reverse.mpr h.sorted) (fun hx => hnew (List.mem_reverse.mp hx))
  have hmem : stored.reverse.Perm (m :: o.m_inFlight) :=
    (List.reverse_perm _).trans (hperm.trans ((List.reverse_perm _).cons m))
  refine ⟨{ o with m_inFlight := stored.reverse }, ?_, ?_, hmem⟩
  · unfold Originator.storePacket
    rw [IsSeq.getDistance_of_le hnum h.window.winStart hlo (by omega), Option.bind_eq_bind,
      Option.bind_some, if_neg (by omega), hstored, Option.bind_eq_bind, Option.bind_some]
    simp only
    rw [h.window.notifyTransmittedMpdu hnum hlo (by omega) hW]
    rfl
  · have hall : ∀ x ∈ stored.reverse, x = m ∨ x ∈ o.m_inFlight :=
      fun x hx => List.mem_cons.mp (hmem.mem_iff.mp hx)
    refine ⟨h.window, h.behind, h.ahead, h.used, ?_, ?_, ?_, List.pairwise_reverse.mpr hsorted,
      h.queueNumbered, h.queued, h.queueWaiting⟩
    · intro x hx
      rcases hall x hx with rfl | hx
      · exact hnum
      · exact h.numbered x hx
    · intro x hx
      rcases hall x hx with rfl | hx
      · exact ⟨hlo, hplace.2⟩
      · exact h.flying x hx
    · intro x hx
      rcases hall x hx with rfl | hx
      · exact h.queueWaiting x hm
      · exact h.waiting x hx

/-- The MPDUs that stay in the EDCA queue lie in the window. -/
theorem Holds.mem_removeOld (h : o.Holds W N S A) (hW : W ≤ 1024) :
    m ∈ o.removeOld.m_queue ↔ m ∈ o.m_queue ∧ S ≤ m.place := by
  have hbehind := h.behind
  have hahead := h.ahead
  unfold Originator.removeOld
  rw [List.mem_filter]
  apply and_congr_right
  intro hm
  have hplace := h.queued m hm
  have hold := IsSeq.isOldPacket (h.queueNumbered m hm) h.window.winStart (by omega) (by omega)
  rw [Bool.not_eq_true', ← Bool.not_eq_true, hold]
  exact not_lt

theorem of_guard {p : Prop} [Decidable p] {u : Unit} (h : (guard p : Option Unit) = some u) :
    p := by
  by_contra hp
  rw [guard, if_neg hp] at h
  cases h

theorem mpdu_numbered (place : ℤ) : Mpdu.Numbered ⟨place, (place % 4096).toNat⟩ := by
  unfold Mpdu.Numbered IsSeq
  change ((place % 4096).toNat : ℤ) = place % 4096
  omega

/-- The next position is in the window when its number is. -/
theorem Holds.new_mem_window (h : o.Holds W N S A) (hW : W ≤ 1024) {u : Unit}
    (hguard : (guard (isInWindow (N % 4096).toNat o.m_txWindow.m_winStart
      o.m_txWindow.getWinSize) : Option Unit) = some u) : N < S + W := by
  have hbehind := h.behind
  have hahead := h.ahead
  have hwin : isInWindow (N % 4096).toNat o.m_txWindow.m_winStart o.m_txWindow.getWinSize = true :=
    of_guard hguard
  have hnum : IsSeq (N % 4096).toNat N := mpdu_numbered N
  rw [h.window.size] at hwin
  exact ((IsSeq.isInWindow hnum h.window.winStart (by omega) (by omega) (by omega)).mp hwin).2

/-- A new MPDU uses one more position. -/
theorem Sound.transmit (h : o.Sound W N) (hW : W ≤ 1024) {o' : Originator}
    (hsome : o.transmit N = some (m, o')) :
    o'.Sound W (N + 1) ∧ m.place = N ∧ m.Numbered := by
  obtain ⟨S, A, hh⟩ := h
  have hbehind := hh.behind
  have hahead := hh.ahead
  have hnum : IsSeq (N % 4096).toNat N := mpdu_numbered N
  unfold Originator.transmit at hsome
  obtain ⟨_, hguard, hrest⟩ := Option.bind_eq_some_iff.mp hsome
  obtain ⟨o₁, hstore, heq⟩ := Option.bind_eq_some_iff.mp hrest
  obtain ⟨rfl, rfl⟩ := Prod.mk.inj (Option.some.inj heq)
  have hin := hh.new_mem_window hW hguard
  refine ⟨?_, rfl, hnum⟩
  have hqueue : ∀ x ∈ o.removeOld.m_queue ++ [⟨N, (N % 4096).toNat⟩],
      x ∈ o.m_queue ∧ S ≤ x.place ∨ x = ⟨N, (N % 4096).toNat⟩ := by
    intro x hx
    rcases List.mem_append.mp hx with hx | hx
    · exact Or.inl ((hh.mem_removeOld hW).mp hx)
    · exact Or.inr (List.mem_singleton.mp hx)
  have hnext : Holds W (N + 1) S A
      { o.removeOld with m_queue := o.removeOld.m_queue ++ [⟨N, (N % 4096).toNat⟩] } := by
    refine ⟨hh.window, by omega, by omega, ?_, hh.numbered, ?_, hh.waiting, hh.sorted, ?_, ?_, ?_⟩
    · intro v hv
      have hlt := hh.used v hv
      omega
    · intro x hx
      have hfly := hh.flying x hx
      omega
    · intro x hx
      rcases hqueue x hx with ⟨hx, -⟩ | rfl
      · exact hh.queueNumbered x hx
      · exact hnum
    · intro x hx
      rcases hqueue x hx with ⟨hx, hle⟩ | rfl
      · have hlt := hh.queued x hx
        omega
      · change N + 1 ≤ N + (W : ℤ) ∧ N < N + 1
        omega
    · intro x hx
      rcases hqueue x hx with ⟨hx, -⟩ | rfl
      · exact hh.queueWaiting x hx
      · intro hA
        have hlt := hh.used N hA
        omega
  obtain ⟨o₂, hstore₂, hholds, -⟩ := hnext.storePacket (m := ⟨N, (N % 4096).toNat⟩) (by omega)
    (List.mem_append_right _ (List.mem_singleton_self _)) (fun hx => by
      have hfly := (hh.flying _ hx).2
      exact lt_irrefl _ hfly) hbehind
  obtain rfl : o₁ = o₂ := Option.some.inj (hstore.symm.trans hstore₂)
  exact ⟨S, A, hholds⟩

/-- Another transmission of an MPDU. -/
theorem Sound.retransmit (h : o.Sound W N) (hW : W ≤ 1024) {o' : Originator}
    (hsome : o.retransmit m = some o') :
    o'.Sound W N ∧ m.Numbered ∧ N ≤ m.place + W ∧ m.place < N := by
  obtain ⟨S, A, hh⟩ := h
  unfold Originator.retransmit at hsome
  obtain ⟨_, hguard, hrest⟩ := Option.bind_eq_some_iff.mp hsome
  obtain ⟨-, -, hstore⟩ := Option.bind_eq_some_iff.mp hrest
  have hq : m ∈ o.removeOld.m_queue ∧ m ∉ o.m_inFlight := of_guard hguard
  obtain ⟨hm, hle⟩ := (hh.mem_removeOld hW).mp hq.1
  obtain ⟨o₂, hstore₂, hholds, -⟩ := hh.removeOld.storePacket (by omega) hq.1 hq.2 hle
  obtain rfl : o' = o₂ := Option.some.inj (hstore.symm.trans hstore₂)
  exact ⟨⟨S, A, hholds⟩, hh.queueNumbered m hm, hh.queued m hm⟩

theorem Sound.discard (h : o.Sound W N) (hW : W ≤ 2048) (hm : m ∈ o.m_queue) :
    ∃ o', o.discard m = some o' ∧ o'.Sound W N := by
  obtain ⟨S, A, hh⟩ := h
  obtain ⟨o', S', hdis, hholds, -⟩ := hh.discard hW hm
  exact ⟨o', hdis, S', A, hholds⟩

/-- `GetBar` asks for the start of the window. -/
theorem Sound.getBar (h : o.Sound W N) (hW : W ≤ 2048) (lifetime : ℤ → Ordering) :
    ∃ x o' S, o.getBar lifetime = some (x, o') ∧ o'.Sound W N ∧ IsSeq x S ∧ S ≤ N ∧
      N ≤ S + W := by
  have hloop : ∀ (ms : List Mpdu) (o : Originator), o.Sound W N → o.m_inFlight = ms →
      ∃ o', removeExpired lifetime ms o = some o' ∧ o'.Sound W N := by
    intro ms
    induction ms with
    | nil => exact fun o ho _ => ⟨o, rfl, ho⟩
    | cons m ms ih =>
      rintro o ⟨S, A, hh⟩ hms
      have hm : m ∈ o.m_inFlight := hms ▸ List.mem_cons_self ..
      have hfly := hh.flying m hm
      have hahead := hh.ahead
      have hsub : ms.Sublist o.m_inFlight := hms ▸ List.sublist_cons_self m ms
      have hsorted := hh.sorted
      rw [hms] at hsorted
      have hafter := (List.pairwise_cons.mp hsorted).1
      -- the window passes the first one, and no other in flight
      obtain ⟨w, S', hw, hrec, hpast, hpass⟩ :=
        hh.window.agreementDiscardedMpdu (hh.numbered m hm) hfly.1 (by omega) hW
      have hN : S' ≤ N := hh.passed_le hfly.2 hpass
      have hfar : ∀ x ∈ ms, S' ≤ x.place := by
        intro x hx
        by_contra hlt
        exact hh.waiting x (hsub.subset hx) (hpass x.place (hafter x hx) (by omega))
      have hless := (hh.restrict hsub (List.Sublist.refl o.m_queue)).pass hrec (by omega) hN
        hh.used hfar (fun x hx => hh.waiting x (hsub.subset hx)) hh.queueWaiting
      unfold removeExpired
      split
      · exact ih _ ⟨S, A, hh.restrict hsub (List.Sublist.refl _)⟩ rfl
      · split
        · exact ⟨o, rfl, S, A, hh⟩
        · rw [hw]
          exact ih _ ⟨S', A, hless⟩ rfl
        · have hold : qosUtilsIsOldPacket w.m_winStart m.m_sequenceNumber = true := by
            have hbehind := hh.behind
            exact (IsSeq.isOldPacket (hh.numbered m hm) hrec.winStart (by omega) (by omega)).mpr
              hpast
          have hdis : Originator.discard { o with m_txWindow := w } m =
              some (Originator.dequeue { o with m_txWindow := w } m) := if_pos hold
          rw [hw, Option.bind_eq_bind, Option.bind_some, hdis, Option.bind_eq_bind,
            Option.bind_some]
          exact ih _ ⟨S', A, hless.dequeue m⟩ rfl
  obtain ⟨o', ho', S, A, hh⟩ := hloop o.m_inFlight o h rfl
  refine ⟨o'.m_txWindow.m_winStart, o', S, ?_, ⟨S, A, hh⟩, hh.window.winStart, hh.behind, hh.ahead⟩
  unfold Originator.getBar
  rw [ho']
  rfl

end Steps

end Originator

end Ns3.Wifi
