import Ns3.Wifi.InFlightQueue
import Mathlib.Data.List.Perm.Subperm

/-!
# The MPDUs in flight in any order of calls

The MPDUs in flight stay sorted by their distance from the window start, inside the window and not
acknowledged, as long as no MPDU is stored whose transmission moves the window past one of them, or
whose number was acknowledged or is in flight under another fragment number. Otherwise an MPDU gets
old in the list, the next one is put before it, and it is not found by the loop of
`NotifyDiscardedMpdu`.
-/

namespace Ns3.Wifi.InFlight

variable {W k : ℕ} {w w' : BlockAckWindow} {a a' : Agreement} {m mpdu : Mpdu} {ms : List Mpdu}

/-! ## What is kept -/

/-- The distance from the start of a window. -/
def dist (w : BlockAckWindow) (m : Mpdu) : ℕ := (m.m_sequenceNumber + 4096 - w.m_winStart) % 4096

theorem getDistance_dist (hw : Sized W w) (m : Mpdu) :
    getDistance m.m_sequenceNumber w.m_winStart = some (dist w m) :=
  getDistance_eq m.m_sequenceNumber.isLt hw.start

theorem dist_inj (hw : Sized W w) (h : dist w m = dist w mpdu) :
    m.m_sequenceNumber = mpdu.m_sequenceNumber := by
  have hstart := hw.start
  have hm := m.m_sequenceNumber.isLt
  have hmpdu := mpdu.m_sequenceNumber.isLt
  unfold dist at h
  apply Fin.ext
  omega

/-- An MPDU that the window has not passed comes nearer. -/
theorem Moved.dist_of_le (hw : Sized W w) (h : Moved W k w w') (hle : k ≤ dist w m) :
    dist w' m = dist w m - k := by
  have hstart := hw.start
  have hm := m.m_sequenceNumber.isLt
  unfold dist at *
  rw [h.start]
  omega

/-- An MPDU that the window has passed is old. -/
theorem Moved.dist_of_lt (hw : Sized W w) (h : Moved W k w w') (hlt : dist w m < k)
    (hk : k ≤ 2048 + dist w m) : 2048 ≤ dist w' m := by
  have hstart := hw.start
  have hm := m.m_sequenceNumber.isLt
  unfold dist at *
  rw [h.start]
  omega

/-- MPDUs inside a window, not acknowledged, in the order of their distances. -/
structure Flying (W : ℕ) (w : BlockAckWindow) (ms : List Mpdu) : Prop where
  inside : ∀ m ∈ ms, dist w m < W
  waiting : ∀ m ∈ ms, w.bit (dist w m) = false
  sorted : ms.Pairwise fun m n => dist w m < dist w n

/-- What holds in every state of a run. -/
structure Inv (W : ℕ) (a : Agreement) : Prop where
  sized : Sized W a.m_txWindow
  first : a.m_txWindow.bit 0 = false
  flying : Flying W a.m_txWindow a.m_inFlight

theorem Flying.sublist {ms' : List Mpdu} (h : Flying W w ms) (hsub : ms'.Sublist ms) :
    Flying W w ms' where
  inside := fun m hm => h.inside m (hsub.subset hm)
  waiting := fun m hm => h.waiting m (hsub.subset hm)
  sorted := h.sorted.sublist hsub

/-- The window moves up to an MPDU in flight at most. -/
theorem Flying.move (hw : Sized W w) (hmoved : Moved W k w w') (h : Flying W w ms)
    (hle : ∀ m ∈ ms, k ≤ dist w m) : Flying W w' ms where
  inside := by
    intro m hm
    rw [hmoved.dist_of_le hw (hle m hm)]
    have := h.inside m hm
    omega
  waiting := by
    intro m hm
    have hin := h.inside m hm
    rw [hmoved.dist_of_le hw (hle m hm), hmoved.bits _ (by omega),
      Nat.sub_add_cancel (hle m hm), h.waiting m hm, Bool.and_false]
  sorted := by
    apply h.sorted.imp_of_mem
    intro m n hm hn hlt
    rw [hmoved.dist_of_le hw (hle m hm), hmoved.dist_of_le hw (hle n hn)]
    have := hle m hm
    omega

/-- `AdvanceTxWindow` does not pass an MPDU in flight. -/
theorem Flying.advance (hw : Sized W w) (h : Flying W w ms) :
    ∃ k ≤ W, Moved W k w (advanceTxWindow w) ∧ (∀ i < k, w.bit i = true) ∧
      Inv W ⟨advanceTxWindow w, ms⟩ := by
  obtain ⟨k, hk, hmoved, hbits, hclear⟩ := hw.advanceTxWindow
  refine ⟨k, hk, hmoved, hbits, hmoved.sized, hclear, h.move hw hmoved fun m hm => ?_⟩
  by_contra hlt
  have hset := hbits (dist w m) (by omega)
  rw [h.waiting m hm] at hset
  cases hset

/-! ## Acknowledgements -/

theorem Sized.setAt (hw : Sized W w) {d : ℕ} (hd : d < W) : ∃ w', w.setAt d true = some w' ∧
    Sized W w' ∧ w'.m_winStart = w.m_winStart ∧
      ∀ i < W, w'.bit i = if i = d then true else w.bit i := by
  obtain ⟨w', hset⟩ := BlockAckWindow.exists_setAt (b := true) (hw.size.symm ▸ hd)
  have hstart := BlockAckWindow.setAt_winStart hset
  refine ⟨w', hset, ⟨?_, ?_, ?_⟩, hstart, fun i hi => ?_⟩
  · rw [BlockAckWindow.setAt_getWinSize hset, hw.size]
  · rw [BlockAckWindow.setAt_head hset]
    exact hw.head
  · rw [hstart]
    exact hw.start
  · exact BlockAckWindow.setAt_bit hset (hw.size.symm ▸ hi)

/-- An acknowledgement sets a bit; the MPDUs with other numbers stay in flight. -/
theorem Flying.acked (hW : W ≤ 2048) (hw : Sized W w) (h : Flying W w ms)
    (hclear : w.bit 0 = false) (hm : dist w m < W ∨ 2048 ≤ dist w m)
    (hother : ∀ n ∈ ms, n.m_sequenceNumber ≠ m.m_sequenceNumber) :
    ∃ w', notifyAckedMpdu w m.item = some w' ∧ Inv W ⟨w', ms⟩ := by
  unfold notifyAckedMpdu
  rw [show getDistance m.item.m_sequenceNumber w.m_winStart = some (dist w m) from
    getDistance_dist hw m, Option.bind_eq_bind, Option.bind_some]
  rcases hm with hin | hold
  · obtain ⟨w₁, hset, hw₁, hstart, hbits⟩ := hw.setAt hin
    have hdist (n : Mpdu) : dist w₁ n = dist w n := by rw [dist, dist, hstart]
    have hflying : Flying W w₁ ms := by
      refine ⟨fun n hn => ?_, fun n hn => ?_, ?_⟩
      · rw [hdist]
        exact h.inside n hn
      · have hne : dist w n ≠ dist w m := fun heq => hother n hn (dist_inj hw heq)
        rw [hdist, hbits _ (h.inside n hn), if_neg hne, h.waiting n hn]
      · simpa only [hdist] using h.sorted
    obtain ⟨k, -, -, -, hinv⟩ := hflying.advance hw₁
    refine ⟨_, ?_, hinv⟩
    rw [if_neg (by omega), hset]
    rfl
  · exact ⟨w, if_pos hold, hw, hclear, h⟩

/-- No call keeps an MPDU that it handles. -/
theorem handleInFlightMpdu_erases (hw : Sized W w) (isQueued : Mpdu → Bool) {status : MpduStatus}
    (hstatus : status ≠ .stayInFlight) (m : Mpdu) :
    handleInFlightMpdu w isQueued status m = some true := by
  unfold handleInFlightMpdu
  rw [getDistance_dist hw]
  split
  · rfl
  · split
    · rfl
    · rw [Option.bind_eq_bind, Option.bind_some]
      split
      · rfl
      · rw [decide_eq_true hstatus]

/-- The MPDUs without the first one that has a number. -/
def without (seq : Fin 4096) (ms : List Mpdu) : List Mpdu :=
  ms.eraseP fun n => n.m_sequenceNumber = seq

theorem without_cons (seq : Fin 4096) (n : Mpdu) (ns : List Mpdu) :
    without seq (n :: ns) = if n.m_sequenceNumber = seq then ns else n :: without seq ns := by
  unfold without
  rw [List.eraseP_cons]
  by_cases hseq : n.m_sequenceNumber = seq
  · rw [decide_eq_true hseq, if_pos hseq]
    rfl
  · rw [decide_eq_false hseq, if_neg hseq]
    rfl

theorem handleFirst_eq (hw : Sized W w) (isQueued : Mpdu → Bool) {status : MpduStatus}
    (hstatus : status ≠ .stayInFlight) (seq : Fin 4096) (ms : List Mpdu) :
    handleFirst w isQueued status seq ms = some (without seq ms) := by
  induction ms with
  | nil => rfl
  | cons n ns ih =>
    rw [handleFirst, without_cons]
    by_cases hseq : n.m_sequenceNumber = seq
    · rw [if_pos hseq, if_pos hseq, handleInFlightMpdu_erases hw isQueued hstatus]
      rfl
    · rw [if_neg hseq, if_neg hseq, ih]
      rfl

/-- No other MPDU in flight has the number. -/
theorem Flying.without (h : Flying W w ms) (seq : Fin 4096) :
    Flying W w (without seq ms) ∧ ∀ n ∈ InFlight.without seq ms, n.m_sequenceNumber ≠ seq := by
  refine ⟨h.sublist List.eraseP_sublist, ?_⟩
  have hsorted := h.sorted
  clear h
  induction ms with
  | nil => exact fun n hn => absurd hn List.not_mem_nil
  | cons x xs ih =>
    obtain ⟨hfirst, hsorted⟩ := List.pairwise_cons.mp hsorted
    intro n hn heq
    rw [without_cons] at hn
    by_cases hseq : x.m_sequenceNumber = seq
    · rw [if_pos hseq] at hn
      have hlt := hfirst n hn
      unfold dist at hlt
      rw [hseq, heq] at hlt
      exact absurd hlt (Nat.lt_irrefl _)
    · rw [if_neg hseq] at hn
      rcases List.mem_cons.mp hn with rfl | hn
      · exact hseq heq
      · exact ih hsorted n hn heq

/-- Every MPDU in flight is handled and counted once. -/
theorem gotBlockAckLoop_inv (hW : W ≤ 2048) (received : Fin 4096 → Bool)
    (isQueued : Mpdu → Bool) (hw : Sized W w) (hclear : w.bit 0 = false) (h : Flying W w ms)
    (hlen : ms.length < 65536) :
    ∃ n w', gotBlockAckLoop received isQueued w ms = some (n, ⟨w', []⟩) ∧ Inv W ⟨w', []⟩ ∧
      n.1 + n.2 = ms.length := by
  induction ms generalizing w with
  | nil => exact ⟨(0, 0), w, rfl, ⟨hw, hclear, h⟩, rfl⟩
  | cons m ms ih =>
    have hms := h.sublist (List.sublist_cons_self m ms)
    have hlen' : ms.length < 65535 := Nat.lt_of_succ_lt_succ hlen
    unfold gotBlockAckLoop
    by_cases hrec : received m.m_sequenceNumber = true
    · have hin := h.inside m List.mem_cons_self
      have hother : ∀ n ∈ ms, n.m_sequenceNumber ≠ m.m_sequenceNumber := by
        intro n hn heq
        have hlt := (List.pairwise_cons.mp h.sorted).1 n hn
        unfold dist at hlt
        rw [heq] at hlt
        exact absurd hlt (Nat.lt_irrefl _)
      obtain ⟨w₁, hack, hinv⟩ := hms.acked hW hw hclear (Or.inl hin) hother
      obtain ⟨n, w₂, hrun, hinv', hsum⟩ := ih hinv.sized hinv.first hinv.flying (by omega)
      refine ⟨((n.1 + 1) % 65536, n.2), w₂, ?_, hinv', ?_⟩
      · rw [if_pos hrec, hack, Option.bind_eq_bind, Option.bind_some,
          handleInFlightMpdu_erases hinv.sized isQueued (by decide), Option.bind_eq_bind,
          Option.bind_some, hrun]
        rfl
      · rw [List.length_cons, ← hsum, Nat.mod_eq_of_lt (by omega)]
        omega
    · obtain ⟨n, w₂, hrun, hinv', hsum⟩ := ih hw hclear hms (by omega)
      refine ⟨(n.1, (n.2 + 1) % 65536), w₂, ?_, hinv', ?_⟩
      · rw [if_neg hrec, handleInFlightMpdu_erases hw isQueued (by decide), Option.bind_eq_bind,
          Option.bind_some, hrun]
        rfl
      · rw [List.length_cons, ← hsum, Nat.mod_eq_of_lt (by omega)]
        omega

theorem missedBlockAckLoop_eq (hw : Sized W w) (isQueued : Mpdu → Bool) (ms : List Mpdu) :
    missedBlockAckLoop w isQueued ms = some [] := by
  induction ms with
  | nil => rfl
  | cons m ms ih =>
    rw [missedBlockAckLoop, handleInFlightMpdu_erases hw isQueued (by decide), ih]
    rfl

/-! ## Discarding -/

/-- The loop drops the MPDUs that the window has passed. -/
theorem dropOld_eq (hw : Sized W w) (hmoved : Moved W k w w')
    (hk : k ≤ 2048) (hsorted : ms.Pairwise fun m n => dist w m < dist w n)
    (hyoung : ∀ m ∈ ms, k ≤ dist w m → dist w m < 2048) :
    dropOld w' ms = some (ms.filter fun m => k ≤ dist w m) := by
  induction ms with
  | nil => rfl
  | cons m ms ih =>
    obtain ⟨hfirst, hsorted⟩ := List.pairwise_cons.mp hsorted
    have hyoung' : ∀ n ∈ ms, k ≤ dist w n → dist w n < 2048 :=
      fun n hn => hyoung n (List.mem_cons_of_mem m hn)
    rw [dropOld, getDistance_dist hmoved.sized, Option.bind_eq_bind, Option.bind_some]
    by_cases hle : k ≤ dist w m
    · have hall : (m :: ms).filter (fun n => decide (k ≤ dist w n)) = m :: ms := by
        apply List.filter_eq_self.mpr
        intro n hn
        apply decide_eq_true
        rcases List.mem_cons.mp hn with rfl | hn
        · exact hle
        · exact hle.trans (hfirst n hn).le
      have hlt := hyoung m List.mem_cons_self hle
      rw [hmoved.dist_of_le hw hle, if_neg (by omega), hall]
    · rw [if_pos (hmoved.dist_of_lt hw (by omega) (by omega)), ih hsorted hyoung',
        List.filter_cons_of_neg (by simpa using hle)]

theorem Inv.discarded (hW : W ≤ 1024) (h : Inv W a) (mpdu : Mpdu) (transmitted : Bool) :
    ∃ a', notifyDiscardedMpdu a mpdu transmitted = some a' ∧ Inv W a' := by
  unfold notifyDiscardedMpdu
  split
  · exact ⟨a, rfl, h⟩
  · split
    · exact ⟨a, rfl, h⟩
    · next hyoung =>
      have hd : dist a.m_txWindow mpdu < 2048 := by
        unfold qosUtilsIsOldPacket at hyoung
        unfold dist
        simpa using hyoung
      have hmoved₁ := h.sized.advance (dist a.m_txWindow mpdu + 1)
      obtain ⟨l, hl, hmoved₂, hbits, hclear⟩ := hmoved₁.sized.advanceTxWindow
      have hmoved := hmoved₁.trans hmoved₂
      -- past the whole window all bits are clear, so that it moves no further
      have hk : dist a.m_txWindow mpdu + 1 + l ≤ 2048 := by
        by_cases hin : dist a.m_txWindow mpdu + 1 < W
        · omega
        · have hl0 : l = 0 := by
            by_contra hpos
            have hbit := hbits 0 (by omega)
            rw [hmoved₁.bits 0 h.sized.pos, decide_eq_false (by omega), Bool.false_and] at hbit
            cases hbit
          omega
      have hdrop := dropOld_eq h.sized hmoved hk h.flying.sorted fun m hm _ => by
        have := h.flying.inside m hm
        omega
      refine ⟨⟨advanceTxWindow (a.m_txWindow.advance (dist a.m_txWindow mpdu + 1)),
          a.m_inFlight.filter fun m => dist a.m_txWindow mpdu + 1 + l ≤ dist a.m_txWindow m⟩, ?_,
        hmoved.sized, hclear, (h.flying.sublist List.filter_sublist).move h.sized hmoved
          fun m hm => ?_⟩
      · rw [agreementDiscardedMpdu,
          show getDistance mpdu.item.m_sequenceNumber a.m_txWindow.m_winStart =
            some (dist a.m_txWindow mpdu) from getDistance_dist h.sized mpdu]
        simp only [Option.bind_eq_bind, Option.bind_some]
        rw [if_neg (by omega), Option.bind_some, hdrop]
        rfl
      · exact of_decide_eq_true (List.mem_filter.mp hm).2

/-! ## Storing -/

theorem getSequenceControl_eq (m : Mpdu) :
    m.getSequenceControl = m.m_sequenceNumber * 16 + m.m_fragmentNumber := by
  rw [Mpdu.getSequenceControl, ← Nat.shiftLeft_add_eq_or_of_lt m.m_fragmentNumber.isLt,
    Nat.shiftLeft_eq]

theorem getSequenceControl_seq (h : mpdu.getSequenceControl = m.getSequenceControl) :
    mpdu.m_sequenceNumber = m.m_sequenceNumber := by
  rw [getSequenceControl_eq, getSequenceControl_eq] at h
  have hfrag := m.m_fragmentNumber.isLt
  have hfrag' := mpdu.m_fragmentNumber.isLt
  apply Fin.ext
  omega

/-- An MPDU that is in flight is found. -/
theorem storeFrom_present (ms : List Mpdu) (hw : Sized W w)
    (hsorted : ms.Pairwise fun m n => dist w n < dist w m)
    (hin : ∃ n ∈ ms, mpdu.getSequenceControl = n.getSequenceControl) :
    storeFrom w mpdu (dist w mpdu) ms = some none := by
  induction ms with
  | nil =>
    obtain ⟨n, hn, -⟩ := hin
    cases hn
  | cons m ms ih =>
    obtain ⟨hfirst, hsorted⟩ := List.pairwise_cons.mp hsorted
    unfold storeFrom
    by_cases hsame : mpdu.getSequenceControl = m.getSequenceControl
    · exact if_pos hsame
    · obtain ⟨n, hn, heq⟩ := hin
      have hn' : n ∈ ms := (List.mem_cons.mp hn).resolve_left fun h => hsame (h ▸ heq)
      have hdist : dist w mpdu = dist w n := by
        unfold dist
        rw [getSequenceControl_seq heq]
      have hlt := hfirst n hn'
      rw [if_neg hsame, getDistance_dist hw, Option.bind_eq_bind, Option.bind_some,
        if_neg (by omega), ih hsorted ⟨n, hn', heq⟩]
      rfl

/-- A new MPDU takes its place from the end on. -/
theorem storeFrom_new (ms : List Mpdu) (hw : Sized W w)
    (hsorted : ms.Pairwise fun m n => dist w n < dist w m)
    (hnew : ∀ n ∈ ms, n.m_sequenceNumber ≠ mpdu.m_sequenceNumber) :
    ∃ stored, storeFrom w mpdu (dist w mpdu) ms = some (some stored) ∧
      stored.Perm (mpdu :: ms) ∧ stored.Pairwise fun m n => dist w n < dist w m := by
  induction ms with
  | nil => exact ⟨[mpdu], rfl, List.Perm.refl _, List.pairwise_singleton _ _⟩
  | cons m ms ih =>
    obtain ⟨hfirst, hsorted'⟩ := List.pairwise_cons.mp hsorted
    have hseq := hnew m List.mem_cons_self
    have hne : dist w mpdu ≠ dist w m := fun heq => hseq (dist_inj hw heq.symm)
    unfold storeFrom
    rw [if_neg fun heq => hseq (getSequenceControl_seq heq).symm, getDistance_dist hw,
      Option.bind_eq_bind, Option.bind_some]
    by_cases hgt : dist w m < dist w mpdu
    · refine ⟨mpdu :: m :: ms, if_pos (Or.inl hgt), List.Perm.refl _,
        List.pairwise_cons.mpr ⟨fun n hn => ?_, hsorted⟩⟩
      rcases List.mem_cons.mp hn with rfl | hn
      · exact hgt
      · exact (hfirst n hn).trans hgt
    · obtain ⟨stored, hrun, hperm, hstored⟩ :=
        ih hsorted' fun n hn => hnew n (List.mem_cons_of_mem m hn)
      refine ⟨m :: stored, ?_, (hperm.cons m).trans (List.Perm.swap mpdu m ms),
        List.pairwise_cons.mpr ⟨fun n hn => ?_, hstored⟩⟩
      · rw [if_neg (by omega), hrun]
        rfl
      · rcases List.mem_cons.mp (hperm.mem_iff.mp hn) with rfl | hn
        · omega
        · exact hfirst n hn

/-- A new MPDU that does not move the window past an MPDU in flight and whose number was not
acknowledged. -/
structure Agreement.Fits (a : Agreement) (mpdu : Mpdu) : Prop where
  new : ∀ n ∈ a.m_inFlight, n.m_sequenceNumber ≠ mpdu.m_sequenceNumber
  waiting : a.m_txWindow.atDistance (a.distance mpdu) ≠ some true
  behind : ∀ n ∈ a.m_inFlight, a.distance mpdu < a.distance n + a.m_txWindow.getWinSize

theorem Inv.stored_new (hW : W ≤ 1024) (h : Inv W a) (hd : a.distance mpdu < 2048)
    (hfits : a.Fits mpdu) : ∃ a', storePacket a mpdu = some a' ∧ Inv W a' := by
  have hw := h.sized
  change dist a.m_txWindow mpdu < 2048 at hd
  obtain ⟨stored, hrun, hperm, hsorted⟩ := storeFrom_new a.m_inFlight.reverse hw
    (List.pairwise_reverse.mpr h.flying.sorted) (fun n hn => hfits.new n (List.mem_reverse.mp hn))
  have hmem : ∀ n ∈ stored.reverse, n = mpdu ∨ n ∈ a.m_inFlight := by
    intro n hn
    rcases List.mem_cons.mp (hperm.mem_iff.mp (List.mem_reverse.mp hn)) with h | h
    · exact Or.inl h
    · exact Or.inr (List.mem_reverse.mp h)
  have hsorted' : stored.reverse.Pairwise fun m n => dist a.m_txWindow m < dist a.m_txWindow n :=
    List.pairwise_reverse.mpr hsorted
  unfold storePacket
  rw [getDistance_dist hw, Option.bind_eq_bind, Option.bind_some, if_neg (by omega), hrun]
  simp only [Option.bind_eq_bind, Option.bind_some]
  unfold notifyTransmittedMpdu
  rw [show getDistance mpdu.item.m_sequenceNumber a.m_txWindow.m_winStart =
    some (dist a.m_txWindow mpdu) from getDistance_dist hw mpdu]
  simp only [Option.bind_eq_bind, Option.bind_some, if_neg (not_le.mpr hd), hw.size]
  by_cases hin : dist a.m_txWindow mpdu < W
  · refine ⟨⟨a.m_txWindow, stored.reverse⟩, ?_, hw, h.first, fun n hn => ?_, fun n hn => ?_,
      hsorted'⟩
    · rw [if_neg (by omega)]
      rfl
    · rcases hmem n hn with rfl | hn
      · exact hin
      · exact h.flying.inside n hn
    · rcases hmem n hn with rfl | hn
      · have hwait := hfits.waiting
        rw [show a.distance n = dist a.m_txWindow n from rfl, hw.atDistance hin] at hwait
        exact Bool.eq_false_iff.mpr fun hset => hwait (congrArg some hset)
      · exact h.flying.waiting n hn
  · have hmoved := hw.advance (dist a.m_txWindow mpdu - W + 1)
    have hle : ∀ n ∈ stored.reverse, dist a.m_txWindow mpdu - W + 1 ≤ dist a.m_txWindow n := by
      intro n hn
      rcases hmem n hn with rfl | hn
      · have := hw.pos
        omega
      · have hbehind : dist a.m_txWindow mpdu < dist a.m_txWindow n + a.m_txWindow.getWinSize :=
          hfits.behind n hn
        rw [hw.size] at hbehind
        omega
    have hflying : Flying W (a.m_txWindow.advance (dist a.m_txWindow mpdu - W + 1))
        stored.reverse := by
      refine ⟨fun n hn => ?_, fun n hn => ?_, ?_⟩
      · rw [hmoved.dist_of_le hw (hle n hn)]
        rcases hmem n hn with rfl | hn'
        · have := hw.pos
          omega
        · have := h.flying.inside n hn'
          omega
      · have hpos := hw.pos
        have hnear := hle n hn
        rw [hmoved.dist_of_le hw hnear]
        rcases hmem n hn with rfl | hn'
        · rw [hmoved.bits _ (by omega), decide_eq_false (by omega), Bool.false_and]
        · have hinside := h.flying.inside n hn'
          rw [hmoved.bits _ (by omega), Nat.sub_add_cancel hnear, h.flying.waiting n hn',
            Bool.and_false]
      · apply hsorted'.imp_of_mem
        intro x y hx hy hlt
        rw [hmoved.dist_of_le hw (hle x hx), hmoved.dist_of_le hw (hle y hy)]
        have := hle x hx
        omega
    obtain ⟨k, -, -, -, hinv⟩ := hflying.advance hmoved.sized
    refine ⟨_, ?_, hinv⟩
    rw [if_pos (by omega)]
    rfl

/-- Storing an old MPDU, one that is in flight, or a new one that fits. -/
theorem Inv.stored (hW : W ≤ 1024) (h : Inv W a)
    (hmpdu : 2048 ≤ a.distance mpdu ∨
      (∃ n ∈ a.m_inFlight, mpdu.getSequenceControl = n.getSequenceControl) ∨ a.Fits mpdu) :
    ∃ a', storePacket a mpdu = some a' ∧ Inv W a' := by
  by_cases hold : 2048 ≤ a.distance mpdu
  · refine ⟨a, ?_, h⟩
    rw [storePacket, getDistance_dist h.sized]
    exact if_pos hold
  · rcases hmpdu.resolve_left hold with hin | hfits
    · refine ⟨a, ?_, h⟩
      have hpresent := storeFrom_present a.m_inFlight.reverse h.sized
        (List.pairwise_reverse.mpr h.flying.sorted)
        (hin.imp fun n hn => ⟨List.mem_reverse.mpr hn.1, hn.2⟩)
      rw [storePacket, getDistance_dist h.sized, Option.bind_eq_bind, Option.bind_some,
        if_neg (show ¬dist a.m_txWindow mpdu ≥ 2048 from hold), hpresent]
      rfl
    · exact h.stored_new hW (not_le.mp hold) hfits

/-! ## Runs -/

/-- What a call may be given: an MPDU less than 1024 ahead of the window start, or an old one, to
store. -/
def Agreement.Enabled (a : Agreement) : Call → Prop
  | .storePacket mpdu => a.distance mpdu < 1024 ∨ 2048 ≤ a.distance mpdu
  | _ => True

/-- A stored MPDU is old, in flight, or new and fits; an acknowledged one is not beyond the
window. -/
def Agreement.Meets (a : Agreement) : Call → Prop
  | .storePacket mpdu => 2048 ≤ a.distance mpdu ∨
      (∃ n ∈ a.m_inFlight, mpdu.getSequenceControl = n.getSequenceControl) ∨ a.Fits mpdu
  | .notifyGotAck mpdu _ =>
    a.distance mpdu < a.m_txWindow.getWinSize ∨ 2048 ≤ a.distance mpdu
  | _ => True

/-- The states of an agreement that a run reaches when all its calls meet a condition. -/
inductive Run (startingSeq bufferSize : ℕ) (cond : Agreement → Call → Prop) : Agreement → Prop
  | create : Run startingSeq bufferSize cond (.create startingSeq bufferSize)
  | call {a a' : Agreement} {n : Option (ℕ × ℕ)} (h : Run startingSeq bufferSize cond a) (c : Call)
      (henabled : a.Enabled c) (hcond : cond a c) (hrun : a.call c = some (n, a')) :
      Run startingSeq bufferSize cond a'

/-- The MPDUs in flight have different sequence controls and are in the order of their distances. -/
structure Agreement.Consistent (a : Agreement) : Prop where
  distinct : a.m_inFlight.Pairwise fun m n => m.getSequenceControl ≠ n.getSequenceControl
  increasing : a.m_inFlight.Pairwise fun m n => a.distance m < a.distance n

/-- A call does not fail, and its window starts with a clear bit. A discarded MPDU leaves no old one
in flight, and a block ack counts every MPDU in flight. -/
structure Agreement.Answers (a : Agreement) (c : Call) (n : Option (ℕ × ℕ)) (a' : Agreement) :
    Prop where
  run : a.call c = some (n, a')
  first : a'.m_txWindow.atDistance 0 = some false
  young : (∃ mpdu transmitted, c = .notifyDiscardedMpdu mpdu transmitted) →
    ∀ m ∈ a'.m_inFlight, a'.distance m < 2048
  counts : (∃ received isQueued, c = .notifyGotBlockAck received isQueued) →
    ∃ s f, n = some (s, f) ∧ s + f = a.m_inFlight.length

theorem Inv.consistent (h : Inv W a) : a.Consistent where
  distinct := by
    apply h.flying.sorted.imp
    intro m n hlt heq
    unfold dist at hlt
    rw [getSequenceControl_seq heq] at hlt
    exact absurd hlt (Nat.lt_irrefl _)
  increasing := h.flying.sorted

theorem Inv.first_clear (h : Inv W a) : a.m_txWindow.atDistance 0 = some false := by
  rw [h.sized.atDistance h.sized.pos, h.first]

theorem Inv.young (hW : W ≤ 1024) (h : Inv W a) : ∀ m ∈ a.m_inFlight, a.distance m < 2048 := by
  intro m hm
  have hin : a.distance m < W := h.flying.inside m hm
  omega

theorem Flying.length_le (h : Flying W w ms) : ms.length ≤ W := by
  have hnodup : (ms.map (dist w)).Nodup :=
    List.pairwise_map.mpr (h.sorted.imp fun hlt => Nat.ne_of_lt hlt)
  have hsub : ms.map (dist w) ⊆ List.range W := by
    intro d hd
    obtain ⟨m, hm, rfl⟩ := List.mem_map.mp hd
    exact List.mem_range.mpr (h.inside m hm)
  have hle := (List.Nodup.subperm hnodup hsub).length_le
  rwa [List.length_map, List.length_range] at hle

theorem Inv.create (W : ℕ) (hpos : 0 < W) {startingSeq : ℕ} (hs : startingSeq < 4096) :
    Inv W (.create startingSeq W) where
  sized := ⟨BlockAckWindow.getWinSize_init startingSeq, hpos, hs⟩
  first := BlockAckWindow.bit_init startingSeq
  flying := by
    refine ⟨fun m hm => ?_, fun m hm => ?_, List.Pairwise.nil⟩ <;> cases hm

/-- What one call does. -/
theorem Inv.call (hW : W ≤ 1024) (h : Inv W a) (c : Call) (hmeets : a.Meets c) :
    ∃ n a', a.Answers c n a' ∧ Inv W a' := by
  cases c with
  | storePacket mpdu =>
    obtain ⟨a', hrun, hinv⟩ := h.stored hW hmeets
    refine ⟨none, a', ⟨?_, hinv.first_clear, fun _ => hinv.young hW, ?_⟩, hinv⟩
    · rw [Agreement.call, hrun]
      rfl
    · rintro ⟨received, isQueued, hc⟩
      cases hc
  | notifyGotAck mpdu isQueued =>
    obtain ⟨hflying, hother⟩ := h.flying.without mpdu.m_sequenceNumber
    obtain ⟨w, hack, hinv⟩ :=
      hflying.acked (by omega) h.sized h.first (h.sized.size ▸ hmeets) hother
    refine ⟨none, _, ⟨?_, hinv.first_clear, fun _ => hinv.young hW, ?_⟩, hinv⟩
    · rw [Agreement.call, InFlight.notifyGotAck, hack, Option.bind_eq_bind, Option.bind_some,
        handleFirst_eq hinv.sized isQueued (by decide)]
      rfl
    · rintro ⟨received, isQueued, hc⟩
      cases hc
  | notifyMissedAck mpdu isQueued =>
    have hinv : Inv W { a with m_inFlight := without mpdu.m_sequenceNumber a.m_inFlight } :=
      ⟨h.sized, h.first, (h.flying.without mpdu.m_sequenceNumber).1⟩
    refine ⟨none, _, ⟨?_, hinv.first_clear, fun _ => hinv.young hW, ?_⟩, hinv⟩
    · rw [Agreement.call, InFlight.notifyMissedAck, handleFirst_eq h.sized isQueued (by decide)]
      rfl
    · rintro ⟨received, isQueued, hc⟩
      cases hc
  | notifyGotBlockAck received isQueued =>
    have hlen := h.flying.length_le
    obtain ⟨n, w, hrun, hinv, hsum⟩ := gotBlockAckLoop_inv (by omega) received isQueued h.sized
      h.first h.flying (by omega)
    refine ⟨some n, _, ⟨?_, hinv.first_clear, fun _ => hinv.young hW,
      fun _ => ⟨n.1, n.2, rfl, hsum⟩⟩, hinv⟩
    rw [Agreement.call, InFlight.notifyGotBlockAck, hrun]
    rfl
  | notifyMissedBlockAck isQueued =>
    have hinv : Inv W { a with m_inFlight := [] } :=
      ⟨h.sized, h.first, h.flying.sublist (List.nil_sublist _)⟩
    refine ⟨none, _, ⟨?_, hinv.first_clear, fun _ => hinv.young hW, ?_⟩, hinv⟩
    · rw [Agreement.call, InFlight.notifyMissedBlockAck, missedBlockAckLoop_eq h.sized]
      rfl
    · rintro ⟨received, isQueued, hc⟩
      cases hc
  | notifyDiscardedMpdu mpdu transmitted =>
    obtain ⟨a', hrun, hinv⟩ := h.discarded hW mpdu transmitted
    refine ⟨none, a', ⟨?_, hinv.first_clear, fun _ => hinv.young hW, ?_⟩, hinv⟩
    · rw [Agreement.call, hrun]
      rfl
    · rintro ⟨received, isQueued, hc⟩
      cases hc

theorem Run.inv {startingSeq : ℕ} (hpos : 0 < W) (hW : W ≤ 1024) (hs : startingSeq < 4096)
    (h : Run startingSeq W Agreement.Meets a) : Inv W a := by
  induction h with
  | create => exact Inv.create W hpos hs
  | call _ c _ hmeets hrun ih =>
    obtain ⟨n, a', hanswers, hinv⟩ := ih.call hW c hmeets
    rw [hanswers.run] at hrun
    cases hrun
    exact hinv

/-- In every run whose calls meet the condition the MPDUs in flight are consistent with the window,
and the next call answers. -/
theorem Run.keeps_consistent {startingSeq : ℕ} (hpos : 0 < W) (hW : W ≤ 1024)
    (hs : startingSeq < 4096)
    (h : Run startingSeq W Agreement.Meets a) :
    a.Consistent ∧ ∀ c, a.Meets c → ∃ n a', a.Answers c n a' := by
  have hinv := h.inv hpos hW hs
  refine ⟨hinv.consistent, fun c hmeets => ?_⟩
  obtain ⟨n, a', hanswers, -⟩ := hinv.call hW c hmeets
  exact ⟨n, a', hanswers⟩

/-- The MPDUs 3 and then 1 are stored. -/
theorem Run.consistent_reordered :
    (⟨⟨0, List.replicate 16 false, 0⟩, [⟨1, 0⟩, ⟨3, 0⟩]⟩ : Agreement).Consistent := by
  have hfirst : Run 0 16 Agreement.Meets ⟨⟨0, List.replicate 16 false, 0⟩, [⟨3, 0⟩]⟩ :=
    Run.create.call (.storePacket ⟨3, 0⟩) (Or.inl (by decide))
      (Or.inr (Or.inr ⟨by decide, by decide, by decide⟩)) rfl
  have hsecond : Run 0 16 Agreement.Meets
      ⟨⟨0, List.replicate 16 false, 0⟩, [⟨1, 0⟩, ⟨3, 0⟩]⟩ :=
    hfirst.call (.storePacket ⟨1, 0⟩) (Or.inl (by decide))
      (Or.inr (Or.inr ⟨by decide, by decide, by decide⟩)) rfl
  exact (Run.keeps_consistent (by decide) (by decide) (by decide) hsecond).1

/-- A window of 16 from 0 on: the MPDUs 0, 20, 6 and 5 are stored, and 5 is discarded. The MPDU 0,
which the window passed at 20, is behind 6 in the list and stays in flight. -/
theorem old_stays_inFlight : ∃ a a' : Agreement, Run 0 16 (fun _ _ => True) a ∧
    a.call (.notifyDiscardedMpdu ⟨5, 0⟩ true) = some (none, a') ∧
    ∃ m ∈ a'.m_inFlight, 2048 ≤ a'.distance m := by
  have hzero : Run 0 16 (fun _ _ => True) ⟨⟨0, List.replicate 16 false, 0⟩, [⟨0, 0⟩]⟩ :=
    Run.create.call (.storePacket ⟨0, 0⟩) (Or.inl (by decide)) trivial rfl
  have hmoves : (⟨⟨0, List.replicate 16 false, 0⟩, [⟨0, 0⟩]⟩ : Agreement).call
      (.storePacket ⟨20, 0⟩) =
        some (none, ⟨⟨5, List.replicate 16 false, 5⟩, [⟨0, 0⟩, ⟨20, 0⟩]⟩) := by decide
  have hbeyond := hzero.call (.storePacket ⟨20, 0⟩) (Or.inl (by decide)) trivial hmoves
  have hinside : Run 0 16 (fun _ _ => True)
      ⟨⟨5, List.replicate 16 false, 5⟩, [⟨6, 0⟩, ⟨0, 0⟩, ⟨20, 0⟩]⟩ :=
    hbeyond.call (.storePacket ⟨6, 0⟩) (Or.inl (by decide)) trivial rfl
  have hfirst : Run 0 16 (fun _ _ => True)
      ⟨⟨5, List.replicate 16 false, 5⟩, [⟨5, 0⟩, ⟨6, 0⟩, ⟨0, 0⟩, ⟨20, 0⟩]⟩ :=
    hinside.call (.storePacket ⟨5, 0⟩) (Or.inl (by decide)) trivial rfl
  exact ⟨_, ⟨⟨6, List.replicate 16 false, 6⟩, [⟨6, 0⟩, ⟨0, 0⟩, ⟨20, 0⟩]⟩, hfirst,
    by decide, ⟨0, 0⟩, by decide, by decide⟩

end Ns3.Wifi.InFlight
