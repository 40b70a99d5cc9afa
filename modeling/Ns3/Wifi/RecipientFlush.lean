import Ns3.Wifi.RecipientReorder

/-!
# Destroying a block ack agreement

`Flush` moves `m_winStartB` to the start of the scoreboard window and then passes up to the first
gap. It passes up all that is buffered exactly when the numbers from the scoreboard start on follow
one another. With both windows at a gap nothing is passed up and the buffer is lost.
-/

namespace Ns3.Wifi

open RecipientBlockAckAgreement

variable {π : Type}

namespace RecipientBlockAckAgreement

def flush (agr : RecipientBlockAckAgreement π) :
    Option (List (WifiMacQueueItem π) × RecipientBlockAckAgreement π) := do
  let r ← agr.passBufferedMpdusWithSeqNumberLessThan agr.m_scoreboard.m_winStart
  let r' ← r.2.passBufferedMpdusUntilFirstLost
  some (r.1 ++ r'.1, r'.2)

/-- The states after any calls that do not fail. The numbers in the frames have 12 bits. -/
inductive Reached (bufferSize startingSeq : ℕ) : RecipientBlockAckAgreement π → Prop
  | create : Reached bufferSize startingSeq (create bufferSize startingSeq)
  | mpdu {agr agr' : RecipientBlockAckAgreement π} {up : List (WifiMacQueueItem π)}
      {m : WifiMacQueueItem π} (h : Reached bufferSize startingSeq agr)
      (hm : m.m_sequenceNumber < 4096) (hrun : agr.notifyReceivedMpdu m = some (up, agr')) :
      Reached bufferSize startingSeq agr'
  | bar {agr agr' : RecipientBlockAckAgreement π} {up : List (WifiMacQueueItem π)} {ssn : ℕ}
      (h : Reached bufferSize startingSeq agr) (hs : ssn < 4096)
      (hrun : agr.notifyReceivedBar ssn = some (up, agr')) : Reached bufferSize startingSeq agr'

/-- `Flush` passes up every buffered MPDU once, in increasing order, and the buffer is empty. -/
def FlushesAll (agr : RecipientBlockAckAgreement π) : Prop :=
  ∃ up agr', agr.flush = some (up, agr') ∧ agr'.m_bufferedMpdus = [] ∧
    up = agr.m_bufferedMpdus.map Prod.snd ∧
    up.Pairwise fun m n => compare agr.m_winStartB m.m_sequenceNumber n.m_sequenceNumber

/-- The buffered numbers that are not before the start of the scoreboard window. -/
def pastScoreboard (agr : RecipientBlockAckAgreement π) : List ℕ :=
  (agr.m_bufferedMpdus.map Prod.fst).filter fun x =>
    (agr.m_scoreboard.m_winStart + 4096 - agr.m_winStartB) % 4096 ≤
      (x + 4096 - agr.m_winStartB) % 4096

end RecipientBlockAckAgreement

/-- The numbers follow one another from `w` on. -/
def ConsecutiveFrom (w : ℕ) (xs : List ℕ) : Prop :=
  ∀ (i : ℕ) (h : i < xs.length), xs[i] = (w + i) % 4096

instance (w : ℕ) (xs : List ℕ) : Decidable (ConsecutiveFrom w xs) :=
  inferInstanceAs (Decidable (∀ (i : ℕ) (h : i < xs.length), xs[i] = (w + i) % 4096))

theorem consecutiveFrom_cons {w x : ℕ} {xs : List ℕ} (hw : w < 4096) :
    ConsecutiveFrom w (x :: xs) ↔ x = w ∧ ConsecutiveFrom ((w + 1) % 4096) xs := by
  constructor
  · intro h
    refine ⟨?_, fun i hi => ?_⟩
    · have h0 := h 0 (Nat.succ_pos _)
      rwa [Nat.add_zero, Nat.mod_eq_of_lt hw] at h0
    · rw [Nat.mod_add_mod, Nat.add_assoc, Nat.add_comm 1 i]
      exact h (i + 1) (Nat.succ_lt_succ hi)
  · rintro ⟨rfl, h⟩ i hi
    cases i with
    | zero => exact (Nat.mod_eq_of_lt hw).symm
    | succ i =>
      have hstep := h i (Nat.lt_of_succ_lt_succ hi)
      rwa [Nat.mod_add_mod, Nat.add_assoc, Nat.add_comm 1 i] at hstep

/-- The loop empties the buffer when its numbers follow one another. -/
theorem untilFirstLost_nil_iff {w : ℕ} (hw : w < 4096) (es : List (ℕ × WifiMacQueueItem π)) :
    (untilFirstLost w es).2.2 = [] ↔ ConsecutiveFrom w (es.map Prod.fst) := by
  induction es generalizing w with
  | nil => exact iff_of_true rfl fun i hi => absurd hi (Nat.not_lt_zero i)
  | cons e es ih =>
    rw [List.map_cons, consecutiveFrom_cons hw, untilFirstLost]
    by_cases hnext : e.1 = w
    · rw [if_pos hnext, ← ih (Nat.mod_lt _ (by decide))]
      exact (and_iff_right hnext).symm
    · rw [if_neg hnext]
      exact iff_of_false (List.cons_ne_nil _ _) fun h => hnext h.1

/-! ## Positions from the start -/

/-- The position of an MPDU, at or above `b`. -/
def posFrom (b : ℤ) (m : WifiMacQueueItem π) : ℤ := b + (m.m_sequenceNumber - b) % 4096

variable {W : ℕ} {b c top : ℤ} {w x : ℕ} {agr agr' : RecipientBlockAckAgreement π}
  {m : WifiMacQueueItem π} {es rest : List (ℕ × WifiMacQueueItem π)}
  {up : List (WifiMacQueueItem π)}

theorem le_posFrom (b : ℤ) (m : WifiMacQueueItem π) : b ≤ posFrom b m := by
  unfold posFrom
  omega

theorem posFrom_lt (b : ℤ) (m : WifiMacQueueItem π) : posFrom b m < b + 4096 := by
  unfold posFrom
  omega

theorem isSeq_posFrom (hm : m.m_sequenceNumber < 4096) :
    IsSeq m.m_sequenceNumber (posFrom b m) := by
  unfold IsSeq posFrom
  omega

theorem posFrom_rebase (hle : b ≤ c) (hlo : c ≤ posFrom b m) : posFrom c m = posFrom b m := by
  unfold posFrom at *
  omega

/-- Entries in their order from `b`, each under its own number. -/
structure Numbered (b top : ℤ) (es : List (ℕ × WifiMacQueueItem π)) : Prop where
  number : ∀ e ∈ es, e.1 = e.2.m_sequenceNumber
  ordered : Ordered (posFrom b) b top es

/-- The entries that stay are ordered from the new start. -/
theorem Numbered.suffix (h : Numbered b top es) (hle : b ≤ c)
    (hp : Passes (posFrom b) c es up rest) : Numbered c top rest := by
  have hs := h.ordered.suffix hp
  have hpos : ∀ e ∈ rest, posFrom c e.2 = posFrom b e.2 :=
    fun e he => posFrom_rebase hle (hp.after e he)
  refine ⟨fun e he => h.number e ?_, fun e he => ?_, fun e he => ?_, ?_⟩
  · obtain ⟨pre, rfl, -⟩ := hp.split
    exact List.mem_append_right pre he
  · rw [hpos e he]
    exact hs.key e he
  · rw [hpos e he]
    exact hs.within e he
  · apply hs.sorted.imp_of_mem
    intro d e hd he hlt
    rwa [hpos d hd, hpos e he]

/-- What holds of every reachable state, with `m_winStartB` at the position `b`. -/
structure Waiting (W : ℕ) (b : ℤ) (agr : RecipientBlockAckAgreement π) : Prop where
  size : agr.m_winSizeB = W
  start : IsSeq agr.m_winStartB b
  board : agr.m_scoreboard.m_winStart < 4096
  buffered : Numbered b (b + W) agr.m_bufferedMpdus

theorem Numbered.mono {top' : ℤ} (h : Numbered b top es) (hle : top ≤ top') :
    Numbered b top' es :=
  ⟨h.number, h.ordered.key, fun e he => ⟨(h.ordered.within e he).1,
    (h.ordered.within e he).2.trans_le hle⟩, h.ordered.sorted⟩

theorem Numbered.insert (hw : IsSeq w b) (h : Numbered b top es) (htop : top ≤ b + 4096)
    (hm : m.m_sequenceNumber < 4096) (hhi : posFrom b m < top) :
    Numbered b top (insertMpdu w m.m_sequenceNumber m es) := by
  refine ⟨fun e he => ?_, ?_⟩
  · rcases mem_insertMpdu he with rfl | he
    · rfl
    · exact h.number e he
  · exact h.ordered.insert hw htop (isSeq_posFrom hm) (le_posFrom b m) hhi

/-! ## One call -/

/-- Passing up what is before a new start. -/
theorem passLessThan_numbered (hb : IsSeq agr.m_winStartB b)
    (h : Numbered b top agr.m_bufferedMpdus) (htop : top ≤ b + 2048) (hx : IsSeq x c)
    (hle : b ≤ c) (hlt : c < b + 4096) :
    ∃ up rest, agr.passBufferedMpdusWithSeqNumberLessThan x =
        some (up, { agr with m_winStartB := x, m_bufferedMpdus := rest }) ∧
      Passes (posFrom b) c agr.m_bufferedMpdus up rest := by
  obtain ⟨up, rest, hrun, hp⟩ := seqNumberLessThan_passes hb hx hle hlt h.ordered (by omega)
  refine ⟨up, rest, ?_, hp⟩
  rw [passBufferedMpdusWithSeqNumberLessThan, assertNoOld_eq hb h.ordered htop,
    Option.bind_eq_bind, Option.bind_some, hrun]
  rfl

/-- Passing up until the first gap. -/
theorem passUntilFirstLost_numbered (agr : RecipientBlockAckAgreement π)
    (hb : IsSeq agr.m_winStartB b)
    (h : Numbered b top agr.m_bufferedMpdus) (htop : top ≤ b + 2048) :
    agr.passBufferedMpdusUntilFirstLost =
      some ((untilFirstLost agr.m_winStartB agr.m_bufferedMpdus).1,
        { agr with
          m_winStartB := (untilFirstLost agr.m_winStartB agr.m_bufferedMpdus).2.1
          m_bufferedMpdus := (untilFirstLost agr.m_winStartB agr.m_bufferedMpdus).2.2 }) := by
  rw [passBufferedMpdusUntilFirstLost, assertNoOld_eq hb h.ordered htop]
  rfl

theorem passUntilFirstLost_waiting (hW : W ≤ 2048) (h : Waiting W b agr)
    (hrun : agr.passBufferedMpdusUntilFirstLost = some (up, agr')) :
    ∃ b', Waiting W b' agr' := by
  rw [passUntilFirstLost_numbered agr h.start h.buffered (by omega)] at hrun
  cases hrun
  obtain ⟨up', w', rest, b', hloop, hw', hle, -, hp, -⟩ :=
    untilFirstLost_passes h.start h.buffered.ordered (by omega)
  rw [hloop]
  exact ⟨b', h.size, hw', h.board, (h.buffered.suffix hle hp).mono (by omega)⟩

/-- Moving the start up by less than 4096 and passing up until the first gap. -/
theorem passLessThan_waiting (agr : RecipientBlockAckAgreement π) (hW : W ≤ 2048)
    (hsize : agr.m_winSizeB = W)
    (hb : IsSeq agr.m_winStartB b) (hboard : agr.m_scoreboard.m_winStart < 4096)
    (h : Numbered b top agr.m_bufferedMpdus) (htop : top ≤ b + 2048) (htop' : top ≤ c + W)
    (hx : IsSeq x c) (hle : b ≤ c) (hlt : c < b + 4096)
    {r r' : List (WifiMacQueueItem π) × RecipientBlockAckAgreement π}
    (hrun : agr.passBufferedMpdusWithSeqNumberLessThan x = some r)
    (hrun' : r.2.passBufferedMpdusUntilFirstLost = some r') : ∃ b', Waiting W b' r'.2 := by
  obtain ⟨up, rest, hless, hp⟩ := passLessThan_numbered hb h htop hx hle hlt
  rw [hless] at hrun
  cases hrun
  have hmoved : Waiting W c { agr with m_winStartB := x, m_bufferedMpdus := rest } :=
    ⟨hsize, hx, hboard, (h.suffix hle hp).mono htop'⟩
  exact passUntilFirstLost_waiting hW hmoved hrun'

theorem scoreMpdu_winStart_lt {board board' : BlockAckWindow} {seq : ℕ}
    (hrun : scoreMpdu board seq = some board') (h : board.m_winStart < 4096) :
    board'.m_winStart < 4096 := by
  unfold scoreMpdu at hrun
  obtain ⟨distance, -, hrun⟩ := Option.bind_eq_some_iff.mp hrun
  split at hrun
  · rwa [BlockAckWindow.setAt_winStart hrun]
  · split at hrun
    · rw [BlockAckWindow.setAt_winStart hrun, BlockAckWindow.advance_winStart]
      exact Nat.mod_lt _ (by decide)
    · cases hrun
      exact h

theorem scoreBar_winStart_lt {board board' : BlockAckWindow} {ssn : ℕ} (hs : ssn < 4096)
    (hrun : scoreBar board ssn = some board') (h : board.m_winStart < 4096) :
    board'.m_winStart < 4096 := by
  unfold scoreBar at hrun
  obtain ⟨distance, -, hrun⟩ := Option.bind_eq_some_iff.mp hrun
  split at hrun
  · obtain ⟨-, -, hrun⟩ := Option.bind_eq_some_iff.mp hrun
    cases hrun
    rw [BlockAckWindow.advance_winStart]
    exact Nat.mod_lt _ (by decide)
  · split at hrun
    · cases hrun
      exact hs
    · cases hrun
      exact h

/-- The distance from the start is that of the position. -/
theorem getDistance_posFrom (hb : IsSeq w b) (hm : m.m_sequenceNumber < 4096) :
    getDistance m.m_sequenceNumber w = some (posFrom b m - b).toNat :=
  (isSeq_posFrom hm).getDistance_of_le hb (le_posFrom b m) (posFrom_lt b m)

/-- A new start of more than 12 bits fails, as the buffer is not empty. -/
theorem passLessThan_out (agr : RecipientBlockAckAgreement π) (hne : agr.m_bufferedMpdus ≠ [])
    (hx : 4096 ≤ x) : agr.passBufferedMpdusWithSeqNumberLessThan x = none := by
  unfold passBufferedMpdusWithSeqNumberLessThan
  cases assertNoOld agr.m_winStartB agr.m_bufferedMpdus with
  | none => rfl
  | some _ =>
    cases hes : agr.m_bufferedMpdus with
    | nil => exact absurd hes hne
    | cons e es =>
      rw [seqNumberLessThan, getDistance_out hx]
      cases getDistance e.1 agr.m_winStartB <;> rfl

theorem insertMpdu_ne_nil (w x : ℕ) (m : WifiMacQueueItem π)
    (es : List (ℕ × WifiMacQueueItem π)) : insertMpdu w x m es ≠ [] := by
  cases es with
  | nil => exact List.cons_ne_nil _ _
  | cons e es =>
    unfold insertMpdu
    split
    · exact List.cons_ne_nil _ _
    · split <;> exact List.cons_ne_nil _ _

theorem Waiting.reorderMpdu (hW0 : 0 < W) (hW : W ≤ 2048) (h : Waiting W b agr)
    (hm : m.m_sequenceNumber < 4096) (hrun : reorderMpdu agr m = some (up, agr')) :
    ∃ b', Waiting W b' agr' := by
  have hlo := le_posFrom b m
  have hsize := h.size
  unfold RecipientBlockAckAgreement.reorderMpdu at hrun
  simp only [getDistance_posFrom h.start hm, Option.bind_eq_bind, Option.bind_some] at hrun
  split at hrun
  · next hin =>
    have hstored : Waiting W b { agr with
        m_bufferedMpdus := insertMpdu agr.m_winStartB m.m_sequenceNumber m agr.m_bufferedMpdus } :=
      ⟨h.size, h.start, h.board, h.buffered.insert h.start (by omega) hm (by omega)⟩
    exact passUntilFirstLost_waiting hW hstored hrun
  · split at hrun
    · next hout hnear =>
      obtain ⟨r, hless, hrun⟩ := Option.bind_eq_some_iff.mp hrun
      obtain ⟨r', hlost, hrun⟩ := Option.bind_eq_some_iff.mp hrun
      cases hrun
      have hstored := (h.buffered.mono (show b + W ≤ posFrom b m + 1 by omega)).insert h.start
        (by omega) hm (by omega)
      -- a wrapped start would have failed
      have hstart : W ≤ m.m_sequenceNumber + 1 := by
        by_contra hsmall
        rw [passLessThan_out _ (insertMpdu_ne_nil _ _ _ _) (by omega)] at hless
        cases hless
      have hx : IsSeq ((m.m_sequenceNumber + 1 + 65536 - agr.m_winSizeB) % 65536)
          (posFrom b m - W + 1) := by
        have := isSeq_posFrom (b := b) hm
        unfold IsSeq at *
        omega
      refine passLessThan_waiting { agr with
        m_bufferedMpdus := insertMpdu agr.m_winStartB m.m_sequenceNumber m agr.m_bufferedMpdus }
        hW h.size h.start h.board hstored ?_ ?_ hx ?_ ?_ hless hlost <;> omega
    · cases hrun
      exact ⟨b, h⟩

theorem Waiting.reorderBar (hW : W ≤ 2048) (h : Waiting W b agr) {ssn : ℕ} (hs : ssn < 4096)
    (hrun : reorderBar agr ssn = some (up, agr')) : ∃ b', Waiting W b' agr' := by
  have hx : IsSeq ssn (b + (ssn - b) % 4096) := by
    unfold IsSeq
    omega
  unfold RecipientBlockAckAgreement.reorderBar at hrun
  rw [hx.getDistance_of_le h.start (by omega) (by omega)] at hrun
  simp only [Option.bind_eq_bind, Option.bind_some] at hrun
  split at hrun
  · obtain ⟨r, hless, hrun⟩ := Option.bind_eq_some_iff.mp hrun
    obtain ⟨r', hlost, hrun⟩ := Option.bind_eq_some_iff.mp hrun
    cases hrun
    exact passLessThan_waiting agr hW h.size h.start h.board h.buffered (by omega) (by omega) hx
      (by omega) (by omega) hless hlost
  · cases hrun
    exact ⟨b, h⟩

theorem Waiting.setBoard (h : Waiting W b agr) {board : BlockAckWindow}
    (hboard : board.m_winStart < 4096) : Waiting W b { agr with m_scoreboard := board } :=
  ⟨h.size, h.start, hboard, h.buffered⟩

theorem Waiting.create (W : ℕ) {startingSeq : ℕ} (hs : startingSeq < 4096) :
    Waiting W startingSeq (create W startingSeq : RecipientBlockAckAgreement π) where
  size := rfl
  start := by
    show (startingSeq : ℤ) = startingSeq % 4096
    omega
  board := hs
  buffered := by
    refine ⟨fun e he => ?_, fun e he => ?_, fun e he => ?_, List.Pairwise.nil⟩ <;> cases he

theorem RecipientBlockAckAgreement.Reached.waiting {startingSeq : ℕ} (hW0 : 0 < W) (hW : W ≤ 2048)
    (hstart : startingSeq < 4096) (h : Reached W startingSeq agr) : ∃ b, Waiting W b agr := by
  induction h with
  | create => exact ⟨_, Waiting.create W hstart⟩
  | mpdu _ hm hrun ih =>
    obtain ⟨b, hb⟩ := ih
    obtain ⟨board, hboard, hrun⟩ := Option.bind_eq_some_iff.mp hrun
    exact (hb.setBoard (scoreMpdu_winStart_lt hboard hb.board)).reorderMpdu hW0 hW hm hrun
  | bar _ hs hrun ih =>
    obtain ⟨b, hb⟩ := ih
    obtain ⟨board, hboard, hrun⟩ := Option.bind_eq_some_iff.mp hrun
    exact (hb.setBoard (scoreBar_winStart_lt hs hboard hb.board)).reorderBar hW hs hrun

/-! ## Flushing -/

/-- The entries that stay after the first loop are those past the scoreboard start. -/
theorem Waiting.pastScoreboard_eq (h : Waiting W b agr) (hW : W ≤ 2048)
    (hp : Passes (posFrom b) (b + (agr.m_scoreboard.m_winStart - b) % 4096)
      agr.m_bufferedMpdus up rest) : agr.pastScoreboard = rest.map Prod.fst := by
  have hboard := h.board
  have hstart := h.start
  have hpast : ∀ e ∈ agr.m_bufferedMpdus,
      ((agr.m_scoreboard.m_winStart + 4096 - agr.m_winStartB) % 4096 ≤
        (e.1 + 4096 - agr.m_winStartB) % 4096 ↔
      b + (agr.m_scoreboard.m_winStart - b) % 4096 ≤ posFrom b e.2) := by
    intro e he
    have hkey := h.buffered.ordered.key e he
    have hin := h.buffered.ordered.within e he
    unfold IsSeq at hkey hstart
    omega
  obtain ⟨pre, hes, hup⟩ := hp.split
  rw [pastScoreboard, List.filter_map, hes, List.filter_append, List.filter_eq_nil_iff.mpr,
    List.filter_eq_self.mpr, List.nil_append]
  · intro e he
    apply decide_eq_true
    exact (hpast e (hes ▸ List.mem_append_right pre he)).mpr (hp.after e he)
  · intro e he hdec
    have hle := (hpast e (hes ▸ List.mem_append_left rest he)).mp (of_decide_eq_true hdec)
    have hlt := hp.before e.2 (hup ▸ List.mem_map_of_mem he)
    exact absurd hle (not_le.mpr hlt)

theorem Waiting.compare_sorted (h : Waiting W b agr) (hW : W ≤ 2048) :
    (agr.m_bufferedMpdus.map Prod.snd).Pairwise fun m n =>
      compare agr.m_winStartB m.m_sequenceNumber n.m_sequenceNumber := by
  rw [List.pairwise_map]
  apply h.buffered.ordered.sorted.imp_of_mem
  intro d e hd he hlt
  have hid := h.buffered.ordered.within d hd
  have hie := h.buffered.ordered.within e he
  rw [← h.buffered.number d hd, ← h.buffered.number e he]
  exact (h.start.compare_iff (h.buffered.ordered.key d hd) (h.buffered.ordered.key e he) hid.1
    (by omega) hie.1 (by omega)).mpr hlt

/-- What `Flush` does: the entries before the scoreboard start are passed up, and those at the
beginning of the rest that the second loop takes. -/
theorem Waiting.flush_eq (h : Waiting W b agr) (hW : W ≤ 2048) :
    ∃ pre rest pre', agr.m_bufferedMpdus = pre ++ rest ∧
      agr.pastScoreboard = rest.map Prod.fst ∧
      rest = pre' ++ (untilFirstLost agr.m_scoreboard.m_winStart rest).2.2 ∧
      agr.flush = some (pre.map Prod.snd ++ pre'.map Prod.snd, { agr with
        m_winStartB := (untilFirstLost agr.m_scoreboard.m_winStart rest).2.1
        m_bufferedMpdus := (untilFirstLost agr.m_scoreboard.m_winStart rest).2.2 }) := by
  have hx : IsSeq agr.m_scoreboard.m_winStart (b + (agr.m_scoreboard.m_winStart - b) % 4096) := by
    have := h.board
    unfold IsSeq
    omega
  obtain ⟨up, rest, hless, hp⟩ :=
    passLessThan_numbered h.start h.buffered (by omega) hx (by omega) (by omega)
  have hrest := h.buffered.suffix (by omega) hp
  obtain ⟨up', w', rest', b', hloop, -, -, -, hp', -⟩ :=
    untilFirstLost_passes hx hrest.ordered (by omega)
  obtain ⟨pre, hes, rfl⟩ := hp.split
  obtain ⟨pre', hes', rfl⟩ := hp'.split
  refine ⟨pre, rest, pre', hes, h.pastScoreboard_eq hW hp, ?_, ?_⟩
  · rw [hloop]
    exact hes'
  · rw [flush, hless, Option.bind_eq_bind, Option.bind_some,
      passUntilFirstLost_numbered _ hx hrest (by omega)]
    simp only [hloop, Option.bind_some]

theorem Waiting.flushesAll_iff_consecutive (h : Waiting W b agr) (hW : W ≤ 2048) :
    agr.FlushesAll ↔ ConsecutiveFrom agr.m_scoreboard.m_winStart agr.pastScoreboard := by
  obtain ⟨pre, rest, pre', hes, hpast, hrest, hflush⟩ := h.flush_eq hW
  rw [hpast, ← untilFirstLost_nil_iff h.board]
  constructor
  · rintro ⟨up, agr', hrun, hempty, -⟩
    rw [hflush] at hrun
    cases hrun
    exact hempty
  · intro hempty
    refine ⟨_, _, hflush, hempty, ?_, ?_⟩
    · rw [hempty, List.append_nil] at hrest
      rw [hes, ← hrest, List.map_append]
    · have hall : pre.map Prod.snd ++ pre'.map Prod.snd = agr.m_bufferedMpdus.map Prod.snd := by
        rw [hempty, List.append_nil] at hrest
        rw [hes, ← hrest, List.map_append]
      rw [hall]
      exact h.compare_sorted hW

/-- In every reachable state the buffer is flushed if and only if the buffered numbers from the
scoreboard start on follow one another. -/
theorem RecipientBlockAckAgreement.Reached.flushesAll_iff {startingSeq : ℕ} (hW0 : 0 < W)
    (hW : W ≤ 2048) (hstart : startingSeq < 4096) (h : Reached W startingSeq agr) :
    agr.FlushesAll ↔ ConsecutiveFrom agr.m_scoreboard.m_winStart agr.pastScoreboard := by
  obtain ⟨b, hb⟩ := h.waiting hW0 hW hstart
  exact hb.flushesAll_iff_consecutive hW

/-- The MPDUs 0 and 2 were received: the scoreboard start 0 is behind `m_winStartB`. -/
theorem flushesAll_behind : FlushesAll (⟨⟨0, true :: false :: true :: List.replicate 13 false, 0⟩,
    1, 16, [(2, ⟨2, 9⟩)]⟩ : RecipientBlockAckAgreement ℕ) := by
  have hfirst : (create 16 0 : RecipientBlockAckAgreement ℕ).notifyReceivedMpdu ⟨0, 7⟩ =
      some ([⟨0, 7⟩], ⟨⟨0, true :: List.replicate 15 false, 0⟩, 1, 16, []⟩) := by decide
  have hgap : (⟨⟨0, true :: List.replicate 15 false, 0⟩, 1, 16, []⟩ :
      RecipientBlockAckAgreement ℕ).notifyReceivedMpdu ⟨2, 9⟩ = some ([],
        ⟨⟨0, true :: false :: true :: List.replicate 13 false, 0⟩, 1, 16, [(2, ⟨2, 9⟩)]⟩) := by
    decide
  have hreached : Reached 16 0 _ := (Reached.create.mpdu (by decide) hfirst).mpdu (by decide) hgap
  exact (hreached.flushesAll_iff (by decide) (by decide) (by decide)).mpr (by decide)

/-- Only the MPDU 1 was received: both windows start at 0 and it is not passed up. -/
theorem gap_not_flushed : ∃ agr : RecipientBlockAckAgreement ℕ, Reached 16 0 agr ∧
    ¬agr.FlushesAll := by
  refine ⟨_, (Reached.create (π := ℕ)).mpdu (m := ⟨1, 7⟩) (by decide) rfl, ?_⟩
  rintro ⟨up, agr', hrun, hempty, -⟩
  cases hrun
  cases hempty

end Ns3.Wifi
