import Ns3.Wifi.RecipientReorder
import Mathlib.Algebra.Order.Group.Abs
import Mathlib.Algebra.Order.Group.Int

/-!
# The recipient in any order of arrival

A run keeps the position `b` of `m_winStartB`. Whatever comes within 1024 positions of it, the MPDUs
are passed up in order and nothing at or above the start is lost, as long as no MPDU beyond the
buffer has a number so small that `SN - m_winSizeB + 1` wraps (`StartInRange`): then the new start
has more than 12 bits and the assertion of `GetDistance` fails.
-/

namespace Ns3.Wifi

open RecipientBlockAckAgreement

variable {π : Type} {pos : WifiMacQueueItem π → ℤ}

/-! ## One call -/

/-- The recipient between two calls, with the positions `S` received so far. -/
structure Settled (pos : WifiMacQueueItem π → ℤ) (W : ℕ) (S : Set ℤ) (b : ℤ)
    (agr : RecipientBlockAckAgreement π) : Prop where
  size : agr.m_winSizeB = W
  start : IsSeq agr.m_winStartB b
  board : ∃ r, Records W r S agr.m_scoreboard ∧ r ≤ b ∧ b ≤ r + W
  ordered : Ordered pos (b + 1) (b + W) agr.m_bufferedMpdus
  seen : ∀ e ∈ agr.m_bufferedMpdus, pos e.2 ∈ S

/-- What a call passes up of the entries `es`, those that stay and the new start. -/
structure Delivers (pos : WifiMacQueueItem π → ℤ) (b b' : ℤ) (es : List (ℕ × WifiMacQueueItem π))
    (up : List (WifiMacQueueItem π)) (rest : List (ℕ × WifiMacQueueItem π)) : Prop where
  passes : Passes pos b' es up rest
  le : b ≤ b'
  lt : b' < b + 4096
  ordered : Ordered pos b (b + 2048) es

/-- No MPDU beyond the buffer has a number below `m_winSizeB - 1`. -/
def StartInRange (agr : RecipientBlockAckAgreement π) (seq : ℕ) : Prop :=
  ∀ d ∈ getDistance seq agr.m_winStartB, agr.m_winSizeB ≤ d → d < 2048 → agr.m_winSizeB ≤ seq + 1

instance (agr : RecipientBlockAckAgreement π) (seq : ℕ) : Decidable (StartInRange agr seq) :=
  inferInstanceAs (Decidable (∀ d ∈ getDistance seq agr.m_winStartB, _ → _ → _))

variable {W : ℕ} {S : Set ℤ} {r b c u : ℤ} {x ssn : ℕ}
  {agr agr' : RecipientBlockAckAgreement π} {m : WifiMacQueueItem π}
  {es rest : List (ℕ × WifiMacQueueItem π)} {up : List (WifiMacQueueItem π)}

/-- Passing up until the first gap, with the scoreboard ahead of every entry. -/
theorem passUntilFirstLost_settled (agr : RecipientBlockAckAgreement π)
    (hb : IsSeq agr.m_winStartB b) (hsize : agr.m_winSizeB = W)
    (hW : W < 1024) (hrec : Records W r S agr.m_scoreboard) (hr : r ≤ b) (hr' : b ≤ r + W)
    (h : Ordered pos b (r + W) agr.m_bufferedMpdus)
    (hseen : ∀ e ∈ agr.m_bufferedMpdus, pos e.2 ∈ S) :
    ∃ up agr' b', agr.passBufferedMpdusUntilFirstLost = some (up, agr') ∧ Settled pos W S b' agr' ∧
      Passes pos b' agr.m_bufferedMpdus up agr'.m_bufferedMpdus ∧ b ≤ b' ∧ b' ≤ r + W := by
  obtain ⟨up, w', rest, b', hrun, hw', hle, htop, hp, hgap⟩ :=
    untilFirstLost_passes hb h (by omega)
  have hb' : b' ≤ r + W := by omega
  refine ⟨up, { agr with m_winStartB := w', m_bufferedMpdus := rest }, b', ?_, ?_, hp, hle, hb'⟩
  · unfold passBufferedMpdusUntilFirstLost
    rw [assertNoOld_eq hb h (by omega), Option.bind_eq_bind, Option.bind_some]
    dsimp only
    rw [hrun]
  · refine ⟨hsize, hw', ⟨r, hrec, by omega, hb'⟩, ?_, ?_⟩
    · have hs := h.suffix hp
      refine ⟨hs.key, ?_, hs.sorted⟩
      intro e he
      have hin := hs.within e he
      have hne := hgap e he
      exact ⟨by omega, by omega⟩
    · obtain ⟨pre, heq, -⟩ := hp.split
      intro e he
      apply hseen
      rw [heq]
      exact List.mem_append_right pre he

/-- Passing up what is before a new start, then until the first gap. -/
theorem passLessThan_settled (agr : RecipientBlockAckAgreement π) (hb : IsSeq agr.m_winStartB b)
    (hsize : agr.m_winSizeB = W)
    (hW : W < 1024) (hc : IsSeq x c) (hbc : b ≤ c) (hcb : c < b + 2048)
    (hrec : Records W r S agr.m_scoreboard) (hr : r ≤ c) (hr' : c ≤ r + W)
    (h : Ordered pos b (r + W) agr.m_bufferedMpdus) (htop : r + W ≤ b + 2048)
    (hseen : ∀ e ∈ agr.m_bufferedMpdus, pos e.2 ∈ S) :
    ∃ up₁ agr₁ up₂ agr' b', agr.passBufferedMpdusWithSeqNumberLessThan x = some (up₁, agr₁) ∧
      agr₁.passBufferedMpdusUntilFirstLost = some (up₂, agr') ∧ Settled pos W S b' agr' ∧
      Passes pos b' agr.m_bufferedMpdus (up₁ ++ up₂) agr'.m_bufferedMpdus ∧ c ≤ b' ∧
      b' ≤ r + W := by
  obtain ⟨up, rest, hrun, hp⟩ := seqNumberLessThan_passes hb hc hbc (by omega) h (by omega)
  have hseen' : ∀ e ∈ rest, pos e.2 ∈ S := by
    obtain ⟨pre, heq, -⟩ := hp.split
    intro e he
    apply hseen
    rw [heq]
    exact List.mem_append_right pre he
  obtain ⟨up', agr', b', hrun', hset, hp', hle, htop'⟩ :=
    passUntilFirstLost_settled { agr with m_winStartB := x, m_bufferedMpdus := rest }
      hc hsize hW hrec hr hr' (h.suffix hp) hseen'
  refine ⟨up, _, up', agr', b', ?_, hrun', hset, hp.trans hp' hle, hle, htop'⟩
  unfold passBufferedMpdusWithSeqNumberLessThan
  rw [assertNoOld_eq hb h htop, Option.bind_eq_bind, Option.bind_some, hrun]
  rfl

theorem Settled.ordered_wide (hs : Settled pos W S b agr) (hW : W < 1024) :
    Ordered pos b (b + 2048) agr.m_bufferedMpdus where
  key := hs.ordered.key
  within := by
    intro e he
    have := hs.ordered.within e he
    exact ⟨by omega, by omega⟩
  sorted := hs.ordered.sorted

/-- An MPDU within 1024 positions of the start. -/
theorem Settled.mpdu (hs : Settled pos W S b agr) (hW : W < 1024)
    (hx : IsSeq m.m_sequenceNumber (pos m)) (hlo : b ≤ pos m + 1024) (hhi : pos m ≤ b + 1024)
    (hmeets : StartInRange agr m.m_sequenceNumber) :
    ∃ up agr' b', agr.notifyReceivedMpdu m = some (up, agr') ∧
      Settled pos W (insert (pos m) S) b' agr' ∧
      ∃ es, Delivers pos b b' es up agr'.m_bufferedMpdus ∧ (∀ e ∈ agr.m_bufferedMpdus, e ∈ es) ∧
        (b ≤ pos m → ∃ e ∈ es, pos e.2 = pos m) := by
  have hsize := hs.size
  subst hsize
  obtain ⟨r, hrec, hr, hr'⟩ := hs.board
  obtain ⟨board, hboard, hrec'⟩ := hrec.scoreMpdu (by omega) hx (by omega) (by omega)
  have hW0 : 0 < agr.m_winSizeB := Nat.zero_lt_of_lt hrec.head
  have hold := hs.ordered_wide hW
  unfold notifyReceivedMpdu reorderMpdu
  rw [hboard]
  simp only [Option.bind_eq_bind, Option.bind_some]
  by_cases hbu : pos m < b
  · obtain ⟨d, hd, hd'⟩ := hx.getDistance_of_lt hs.start hbu (by omega)
    refine ⟨[], { agr with m_scoreboard := board }, b, ?_, ?_, agr.m_bufferedMpdus, ?_, ?_, ?_⟩
    · rw [hd, Option.bind_some, if_neg (by omega), if_neg (by omega)]
    · refine ⟨rfl, hs.start, ⟨_, hrec', by omega, by omega⟩, hs.ordered, ?_⟩
      exact fun e he => Set.mem_insert_of_mem _ (hs.seen e he)
    · refine ⟨⟨⟨[], rfl, rfl⟩, by simp, ?_⟩, le_rfl, by omega, hold⟩
      exact fun e he => (hold.within e he).1
    · exact fun e he => he
    · intro hle
      omega
  · have hbu' := not_lt.mp hbu
    have hd := hx.getDistance_of_le hs.start hbu' (by omega)
    have hins := hold.insert hs.start (by omega) hx hbu' (by omega)
    obtain ⟨hcov, hkeep⟩ := insertMpdu_covers hs.start hold (by omega) hx hbu' (by omega)
    have hnew : ∀ e ∈ insertMpdu agr.m_winStartB m.m_sequenceNumber m agr.m_bufferedMpdus,
        pos e.2 ∈ insert (pos m) S := by
      intro e he
      rcases mem_insertMpdu he with rfl | he
      · exact Set.mem_insert _ _
      · exact Set.mem_insert_of_mem _ (hs.seen e he)
    have hins' : Ordered pos b (max r (pos m - agr.m_winSizeB + 1) + agr.m_winSizeB)
        (insertMpdu agr.m_winStartB m.m_sequenceNumber m agr.m_bufferedMpdus) :=
      ⟨hins.key, fun e he => ⟨(hins.within e he).1, hrec'.top _ (hnew e he)⟩, hins.sorted⟩
    rw [hd, Option.bind_some]
    by_cases hin : pos m < b + agr.m_winSizeB
    · obtain ⟨up, agr', b', hrun, hset, hp, hle, hlast⟩ :=
        passUntilFirstLost_settled (W := agr.m_winSizeB)
          { agr with
            m_scoreboard := board
            m_bufferedMpdus :=
              insertMpdu agr.m_winStartB m.m_sequenceNumber m agr.m_bufferedMpdus }
          hs.start rfl hW hrec' (by omega) (by omega) hins' hnew
      refine ⟨up, agr', b', ?_, hset, _, ⟨hp, hle, by omega, hins⟩, hkeep, fun _ => hcov⟩
      rw [if_pos (by omega)]
      exact hrun
    · have hfit : agr.m_winSizeB ≤ m.m_sequenceNumber + 1 :=
        hmeets _ hd (by omega) (by omega)
      have hc :
          IsSeq ((m.m_sequenceNumber + 1 + 65536 - agr.m_winSizeB) % 65536)
            (pos m - agr.m_winSizeB + 1) := by
        have := hx.lt
        unfold IsSeq at *
        omega
      obtain ⟨up₁, agr₁, up₂, agr', b', hrun₁, hrun₂, hset, hp, hle, hlast⟩ :=
        passLessThan_settled (W := agr.m_winSizeB)
          { agr with
            m_scoreboard := board
            m_bufferedMpdus :=
              insertMpdu agr.m_winStartB m.m_sequenceNumber m agr.m_bufferedMpdus }
          hs.start rfl hW hc (by omega) (by omega) hrec' (by omega) (by omega) hins'
          (by omega) hnew
      refine ⟨up₁ ++ up₂, agr', b', ?_, hset, _, ⟨hp, by omega, by omega, hins⟩, hkeep,
        fun _ => hcov⟩
      rw [if_neg (by omega), if_pos (by omega), hrun₁, Option.bind_some]
      dsimp only
      rw [hrun₂, Option.bind_some]

/-- Where the new start wraps the assertion of `GetDistance` fails. -/
theorem Settled.mpdu_fails (hs : Settled pos W S b agr) (hW : W < 1024)
    (hx : IsSeq m.m_sequenceNumber (pos m)) (hlo : b ≤ pos m + 1024) (hhi : pos m ≤ b + 1024)
    (hout : ¬StartInRange agr m.m_sequenceNumber) : agr.notifyReceivedMpdu m = none := by
  have hsize := hs.size
  subst hsize
  unfold StartInRange at hout
  push Not at hout
  obtain ⟨d, hd, hWd, hd2, hsmall⟩ := hout
  obtain ⟨r, hrec, hr, hr'⟩ := hs.board
  obtain ⟨board, hboard, hrec'⟩ := hrec.scoreMpdu (by omega) hx (by omega) (by omega)
  have hbu : b ≤ pos m := by
    by_contra hlt
    obtain ⟨d', hd', hge⟩ := hx.getDistance_of_lt hs.start (not_le.mp hlt) (by omega)
    rw [Option.mem_def, hd'] at hd
    cases hd
    omega
  have hold := hs.ordered_wide hW
  have hins := hold.insert hs.start (by omega) hx hbu (by omega)
  obtain ⟨⟨e, he, -⟩, -⟩ := insertMpdu_covers hs.start hold (by omega) hx hbu (by omega)
  unfold notifyReceivedMpdu reorderMpdu
  rw [hboard]
  simp only [Option.bind_eq_bind, Option.bind_some]
  rw [Option.mem_def.mp hd, Option.bind_some, if_neg (by omega), if_pos hd2]
  unfold passBufferedMpdusWithSeqNumberLessThan
  dsimp only
  rw [assertNoOld_eq hs.start hins le_rfl, Option.bind_eq_bind, Option.bind_some]
  -- the MPDU itself is buffered, so the loop looks at the new start
  generalize insertMpdu agr.m_winStartB m.m_sequenceNumber m agr.m_bufferedMpdus = es at *
  cases es with
  | nil => cases he
  | cons e' es =>
    have hkey := hins.key e' List.mem_cons_self
    unfold seqNumberLessThan
    rw [getDistance_eq hkey.lt hs.start.lt, getDistance_out (by omega)]
    rfl

/-- A block ack request within 1024 positions of the start. -/
theorem Settled.bar (hs : Settled pos W S b agr) (hW : W < 1024) (hx : IsSeq ssn u)
    (hlo : b ≤ u + 1024) (hhi : u ≤ b + 1024) :
    ∃ up agr' b', agr.notifyReceivedBar ssn = some (up, agr') ∧ Settled pos W S b' agr' ∧
      Delivers pos b b' agr.m_bufferedMpdus up agr'.m_bufferedMpdus := by
  obtain ⟨r, hrec, hr, hr'⟩ := hs.board
  obtain ⟨board, hboard, hrec'⟩ := hrec.scoreBar (by omega) hx (by omega) (by omega)
  have hold := hs.ordered_wide hW
  unfold notifyReceivedBar reorderBar
  rw [hboard]
  simp only [Option.bind_eq_bind, Option.bind_some]
  by_cases hbu : u ≤ b
  · refine ⟨[], { agr with m_scoreboard := board }, b, ?_, ?_, ?_⟩
    · rcases lt_or_eq_of_le hbu with hlt | heq
      · obtain ⟨d, hd, hd'⟩ := hx.getDistance_of_lt hs.start hlt (by omega)
        rw [hd, Option.bind_some, if_neg (by omega)]
      · rw [hx.getDistance_of_le hs.start (by omega) (by omega), Option.bind_some,
          if_neg (by omega)]
    · exact ⟨hs.size, hs.start, ⟨_, hrec', by omega, by omega⟩, hs.ordered, hs.seen⟩
    · refine ⟨⟨⟨[], rfl, rfl⟩, by simp, ?_⟩, le_rfl, by omega, hold⟩
      exact fun e he => (hold.within e he).1
  · have hub := not_le.mp hbu
    have hd := hx.getDistance_of_le hs.start (by omega) (by omega)
    have hins' : Ordered pos b (max r u + W) agr.m_bufferedMpdus :=
      ⟨hold.key, fun e he => ⟨(hold.within e he).1, hrec'.top _ (hs.seen e he)⟩, hold.sorted⟩
    obtain ⟨up₁, agr₁, up₂, agr', b', hrun₁, hrun₂, hset, hp, hle, hlast⟩ :=
      passLessThan_settled { agr with m_scoreboard := board } hs.start hs.size hW hx
        (by omega) (by omega) hrec' (by omega) (by omega) hins' (by omega) hs.seen
    refine ⟨up₁ ++ up₂, agr', b', ?_, hset, ⟨hp, by omega, by omega, hold⟩⟩
    rw [hd, Option.bind_some, if_pos (by omega), hrun₁, Option.bind_some]
    dsimp only
    rw [hrun₂, Option.bind_some]

/-! ## Runs -/

/-- The position of the next `m_winStartB`, at most 4095 further. -/
def unwrap (b : ℤ) (winStartB : ℕ) : ℤ := b + (winStartB - b) % 4096

theorem unwrap_eq {b' : ℤ} (hx : IsSeq x b') (hle : b ≤ b') (hlt : b' < b + 4096) :
    unwrap b x = b' := by
  unfold unwrap IsSeq at *
  omega

/-- A run of the recipient with the position of `m_winStartB`, the MPDUs received at or above it and
those passed up. Every call is within 1024 positions of `m_winStartB`. -/
inductive Run (pos : WifiMacQueueItem π → ℤ) (bufferSize startingSeq : ℕ) :
    RecipientBlockAckAgreement π → ℤ → List (WifiMacQueueItem π) → List (WifiMacQueueItem π) → Prop
  | create {b : ℤ} (hb : IsSeq startingSeq b) :
      Run pos bufferSize startingSeq (create bufferSize startingSeq) b [] []
  | mpdu {agr agr' : RecipientBlockAckAgreement π} {b : ℤ}
      {received passed up : List (WifiMacQueueItem π)} {m : WifiMacQueueItem π}
      (h : Run pos bufferSize startingSeq agr b received passed)
      (hx : IsSeq m.m_sequenceNumber (pos m)) (hnear : |pos m - b| ≤ 1024)
      (hmeets : StartInRange agr m.m_sequenceNumber)
      (hrun : agr.notifyReceivedMpdu m = some (up, agr')) :
      Run pos bufferSize startingSeq agr' (unwrap b agr'.m_winStartB)
        (received ++ if b ≤ pos m then [m] else []) (passed ++ up)
  | bar {agr agr' : RecipientBlockAckAgreement π} {b u : ℤ}
      {received passed up : List (WifiMacQueueItem π)} {ssn : ℕ}
      (h : Run pos bufferSize startingSeq agr b received passed)
      (hx : IsSeq ssn u) (hnear : |u - b| ≤ 1024)
      (hrun : agr.notifyReceivedBar ssn = some (up, agr')) :
      Run pos bufferSize startingSeq agr' (unwrap b agr'.m_winStartB) received (passed ++ up)

/-- What has been passed up is in order and before the start; the rest is buffered. -/
structure Delivered (pos : WifiMacQueueItem π → ℤ) (b : ℤ) (agr : RecipientBlockAckAgreement π)
    (received passed : List (WifiMacQueueItem π)) : Prop where
  inOrder : passed.Pairwise fun m n => pos m < pos n
  before : ∀ m ∈ passed, pos m < b
  kept : ∀ m ∈ received, ∃ m', pos m' = pos m ∧
    (m' ∈ passed ∨ ∃ e ∈ agr.m_bufferedMpdus, e.2 = m')

variable {received passed : List (WifiMacQueueItem π)} {b' : ℤ}

theorem Delivered.call (h : Delivered pos b agr received passed)
    (hd : Delivers pos b b' es up agr'.m_bufferedMpdus)
    (hold : ∀ e ∈ agr.m_bufferedMpdus, e ∈ es) {new : List (WifiMacQueueItem π)}
    (hnew : ∀ m ∈ new, ∃ e ∈ es, pos e.2 = pos m) :
    Delivered pos b' agr' (received ++ new) (passed ++ up) := by
  obtain ⟨pre, heq, hup⟩ := hd.passes.split
  have hmem : ∀ e ∈ es, e.2 ∈ up ∨ e ∈ agr'.m_bufferedMpdus := by
    intro e he
    rw [heq] at he
    rcases List.mem_append.mp he with he | he
    · left
      rw [hup]
      exact List.mem_map_of_mem he
    · exact Or.inr he
  have hcovered : ∀ e ∈ es, e.2 ∈ passed ++ up ∨ ∃ e' ∈ agr'.m_bufferedMpdus, e'.2 = e.2 := by
    intro e he
    rcases hmem e he with hu | hb
    · exact Or.inl (List.mem_append_right passed hu)
    · exact Or.inr ⟨e, hb, rfl⟩
  refine ⟨?_, ?_, ?_⟩
  · apply List.pairwise_append.mpr
    refine ⟨h.inOrder, ?_, ?_⟩
    · rw [hup, List.pairwise_map]
      have hsorted := hd.ordered.sorted
      rw [heq] at hsorted
      exact (List.pairwise_append.mp hsorted).1
    · intro m hm n hn
      rw [hup] at hn
      obtain ⟨e, he, rfl⟩ := List.mem_map.mp hn
      have hbe := (hd.ordered.within e (heq ▸ List.mem_append_left _ he)).1
      exact lt_of_lt_of_le (h.before m hm) hbe
  · intro m hm
    rcases List.mem_append.mp hm with hm | hm
    · exact lt_of_lt_of_le (h.before m hm) hd.le
    · exact hd.passes.before m hm
  · intro m hm
    rcases List.mem_append.mp hm with hm | hm
    · obtain ⟨m', hpos, hm' | ⟨e, he, rfl⟩⟩ := h.kept m hm
      · exact ⟨m', hpos, Or.inl (List.mem_append_left up hm')⟩
      · exact ⟨e.2, hpos, hcovered e (hold e he)⟩
    · obtain ⟨e, he, hpos⟩ := hnew m hm
      exact ⟨e.2, hpos, hcovered e he⟩

/-- Every run is settled and has delivered in order. -/
theorem Run.settled {startingSeq : ℕ} (hW0 : 0 < W) (hW : W < 1024)
    (h : Run pos W startingSeq agr b received passed) :
    (∃ S, Settled pos W S b agr) ∧ Delivered pos b agr received passed := by
  induction h with
  | create hb =>
    refine ⟨⟨∅, rfl, hb, ⟨_, records_init hW0 hb, le_rfl, by omega⟩, ?_, ?_⟩, ?_⟩
    · exact ⟨List.forall_mem_nil _, List.forall_mem_nil _, List.Pairwise.nil⟩
    · simp [RecipientBlockAckAgreement.create]
    · exact ⟨List.Pairwise.nil, by simp, by simp⟩
  | @mpdu agr agr' b received passed up m h hx hnear hmeets hrun ih =>
    obtain ⟨⟨S, hs⟩, hd⟩ := ih
    have habs := abs_le.mp hnear
    obtain ⟨up', agr'', b', hrun', hs', es, hdel, hold, hnew⟩ :=
      hs.mpdu hW hx (by omega) (by omega) hmeets
    rw [hrun] at hrun'
    cases hrun'
    rw [unwrap_eq hs'.start hdel.le hdel.lt]
    refine ⟨⟨_, hs'⟩, hd.call hdel hold ?_⟩
    intro n hn
    split at hn
    · next hle =>
      obtain rfl := List.mem_singleton.mp hn
      exact hnew hle
    · cases hn
  | @bar agr agr' b u received passed up ssn h hx hnear hrun ih =>
    obtain ⟨⟨S, hs⟩, hd⟩ := ih
    have habs := abs_le.mp hnear
    obtain ⟨up', agr'', b', hrun', hs', hdel⟩ := hs.bar hW hx (by omega) (by omega)
    rw [hrun] at hrun'
    cases hrun'
    rw [unwrap_eq hs'.start hdel.le hdel.lt]
    refine ⟨⟨_, hs'⟩, ?_⟩
    have hnone : ∀ m ∈ ([] : List (WifiMacQueueItem π)),
        ∃ e ∈ agr.m_bufferedMpdus, pos e.2 = pos m := by simp
    have hcall := hd.call hdel (fun e he => he) hnone
    rwa [List.append_nil] at hcall

/-- In a run whose calls all have `StartInRange` the MPDUs are passed up in strictly increasing
order, those received at or above `m_winStartB` are passed up or buffered, and the buffer is in the
window and in the order of `compare`. The next call asserts only outside `StartInRange`. -/
theorem run_reorders {startingSeq : ℕ} (hW0 : 0 < W) (hW : W < 1024)
    (h : Run pos W startingSeq agr b received passed) :
    (passed.Pairwise fun m n => pos m < pos n) ∧
    (∀ m ∈ received, ∃ m', pos m' = pos m ∧
      (m' ∈ passed ∨ ∃ e ∈ agr.m_bufferedMpdus, e.2 = m')) ∧
    agr.m_winStartB < 4096 ∧ agr.m_scoreboard.m_winStart < 4096 ∧
    (∀ e ∈ agr.m_bufferedMpdus, e.1 ≠ agr.m_winStartB ∧
      ∃ d, getDistance e.1 agr.m_winStartB = some d ∧ d < agr.m_winSizeB) ∧
    (agr.m_bufferedMpdus.Pairwise fun d e => compare agr.m_winStartB d.1 e.1) ∧
    (∀ m, IsSeq m.m_sequenceNumber (pos m) → |pos m - b| ≤ 1024 →
      ((agr.notifyReceivedMpdu m).isSome ↔ StartInRange agr m.m_sequenceNumber)) ∧
    ∀ ssn u, IsSeq ssn u → |u - b| ≤ 1024 → (agr.notifyReceivedBar ssn).isSome := by
  obtain ⟨⟨S, hs⟩, hd⟩ := h.settled hW0 hW
  refine ⟨hd.inOrder, hd.kept, hs.start.lt, ?_, ?_, ?_, ?_, ?_⟩
  · obtain ⟨r, hrec, -⟩ := hs.board
    exact hrec.winStart.lt
  · intro e he
    have hin := hs.ordered.within e he
    have hkey := hs.ordered.key e he
    refine ⟨?_, _, hkey.getDistance_of_le hs.start (by omega) (by omega), ?_⟩
    · intro heq
      have := (hkey.eq_iff hs.start (by omega) (by omega)).mp heq
      omega
    · rw [hs.size]
      omega
  · apply hs.ordered.sorted.imp_of_mem
    intro d e hd he hlt
    have hid := hs.ordered.within d hd
    have hie := hs.ordered.within e he
    apply (hs.start.compare_iff (hs.ordered.key d hd) (hs.ordered.key e he) (by omega) (by omega)
      (by omega) (by omega)).mpr
    exact hlt
  · intro m hx hnear
    have habs := abs_le.mp hnear
    constructor
    · intro hsome
      by_contra hout
      rw [hs.mpdu_fails hW hx (by omega) (by omega) hout] at hsome
      cases hsome
    · intro hmeets
      obtain ⟨up, agr', b', hrun, -⟩ := hs.mpdu hW hx (by omega) (by omega) hmeets
      rw [hrun]
      rfl
  · intro ssn u hx hnear
    have habs := abs_le.mp hnear
    obtain ⟨up, agr', b', hrun, -⟩ := hs.bar hW hx (by omega) (by omega)
    rw [hrun]
    rfl

/-- Buffer of 16, start 4090: after the MPDU 4092 the MPDU 4090 is in range. -/
theorem run_reorders_gap :
    ((⟨⟨4090, [false, false] ++ true :: List.replicate 13 false, 0⟩, 4090, 16,
        [(4092, ⟨4092, 4092⟩)]⟩ : RecipientBlockAckAgreement ℤ).notifyReceivedMpdu
          ⟨4090, 4090⟩).isSome := by
  have hstart :
    Run (fun m : WifiMacQueueItem ℤ => m.m_packet) 16 4090 (create 16 4090) 4090 [] [] :=
    .create (by decide)
  have hstep : (create 16 4090 : RecipientBlockAckAgreement ℤ).notifyReceivedMpdu ⟨4092, 4092⟩ =
      some ([], ⟨⟨4090, [false, false] ++ true :: List.replicate 13 false, 0⟩, 4090, 16,
        [(4092, ⟨4092, 4092⟩)]⟩) := by decide
  have hrun := hstart.mpdu (by decide) (by decide) (by decide) hstep
  exact ((run_reorders (by decide) (by decide) hrun).2.2.2.2.2.2.1 ⟨4090, 4090⟩ (by decide)
    (by decide)).mpr (by decide)

/-- Buffer of 64, start 4000: the MPDU 4096, with the number 0, is beyond the buffer. -/
theorem wrap_asserts :
    let pos := fun m : WifiMacQueueItem ℤ => m.m_packet
    Run pos 64 4000 (create 64 4000) 4000 [] [] ∧ IsSeq 0 (pos ⟨0, 4096⟩) ∧
      |pos ⟨0, 4096⟩ - 4000| ≤ 1024 ∧
      (create 64 4000 : RecipientBlockAckAgreement ℤ).notifyReceivedMpdu ⟨0, 4096⟩ = none :=
  ⟨.create (by decide), by decide, by decide, rfl⟩

end Ns3.Wifi
