import Mathlib.Data.Nat.Notation
import Mathlib.Data.List.Basic
import Mathlib.Data.Nat.ModEq

/-!
# The block ack window

`BlockAckWindow`, a window of bits that slides over the sequence numbers of 12 bits, kept as a
circular queue. `bit w i` is the bit of the `i`-th number of the window; advancing shifts the bits
and clears those that come in at the end.
-/

namespace Ns3.Wifi

/-- `BlockAckAgreement::GetDistance`; `none` is the failed assertion. -/
def getDistance (seqNumber startingSeqNumber : ℕ) : Option ℕ :=
  if seqNumber < 4096 ∧ startingSeqNumber < 4096 then
    some ((seqNumber + 4096 - startingSeqNumber) % 4096)
  else none

theorem getDistance_eq {x y : ℕ} (hx : x < 4096) (hy : y < 4096) :
    getDistance x y = some ((x + 4096 - y) % 4096) :=
  if_pos ⟨hx, hy⟩

theorem getDistance_out {x y : ℕ} (hx : 4096 ≤ x) : getDistance x y = none :=
  if_neg fun h => absurd h.1 (by omega)

structure BlockAckWindow where
  m_winStart : ℕ
  m_window : List Bool
  m_head : ℕ
deriving DecidableEq, Repr

namespace BlockAckWindow

/-- `Init`. -/
def init (winStart winSize : ℕ) : BlockAckWindow :=
  ⟨winStart, List.replicate winSize false, 0⟩

def reset (w : BlockAckWindow) (winStart : ℕ) : BlockAckWindow :=
  init winStart w.m_window.length

def getWinSize (w : BlockAckWindow) : ℕ := w.m_window.length

/-- `At`, read. -/
def atDistance (w : BlockAckWindow) (distance : ℕ) : Option Bool :=
  if distance < w.m_window.length then
    w.m_window[(w.m_head + distance) % w.m_window.length]?
  else none

/-- `At`, assigned to. -/
def setAt (w : BlockAckWindow) (distance : ℕ) (b : Bool) : Option BlockAckWindow :=
  if distance < w.m_window.length then
    some { w with m_window := w.m_window.set ((w.m_head + distance) % w.m_window.length) b }
  else none

/-- One turn of the loop of `Advance`. -/
def drop (w : BlockAckWindow) : BlockAckWindow :=
  { w with m_window := w.m_window.set w.m_head false, m_head := (w.m_head + 1) % w.m_window.length }

def advanceLoop : ℕ → BlockAckWindow → BlockAckWindow
  | 0, w => w
  | n + 1, w => advanceLoop n w.drop

def advance (w : BlockAckWindow) (count : ℕ) : BlockAckWindow :=
  if count ≥ w.m_window.length then w.reset ((w.m_winStart + count) % 4096)
  else { advanceLoop count w with m_winStart := (w.m_winStart + count) % 4096 }

/-! ## The bits of a window -/

/-- The bit of the number `i` places after the start. -/
def bit (w : BlockAckWindow) (i : ℕ) : Bool :=
  (w.m_window[(w.m_head + i) % w.m_window.length]?).getD false

variable {w w' : BlockAckWindow} {i d n : ℕ} {b : Bool}

@[simp] theorem getWinSize_init (s : ℕ) : (init s n).getWinSize = n := by
  simp [init, getWinSize]

@[simp] theorem winStart_init (s : ℕ) : (init s n).m_winStart = s := rfl

@[simp] theorem bit_init (s : ℕ) : (init s n).bit i = false := by
  unfold bit init
  rw [List.getElem?_replicate]
  split <;> rfl

theorem atDistance_eq (h : d < w.getWinSize) : w.atDistance d = some (w.bit d) := by
  have hlt : (w.m_head + d) % w.m_window.length < w.m_window.length :=
    Nat.mod_lt _ (Nat.zero_lt_of_lt h)
  unfold atDistance bit
  rw [if_pos (show d < w.m_window.length from h), List.getElem?_eq_getElem hlt]
  rfl

theorem exists_setAt (h : d < w.getWinSize) : ∃ w', w.setAt d b = some w' :=
  ⟨_, if_pos h⟩

theorem setAt_winStart (h : w.setAt d b = some w') : w'.m_winStart = w.m_winStart := by
  unfold setAt at h
  split at h
  · cases h
    rfl
  · cases h

theorem setAt_getWinSize (h : w.setAt d b = some w') : w'.getWinSize = w.getWinSize := by
  unfold setAt at h
  split at h
  · cases h
    simp [getWinSize]
  · cases h

theorem setAt_head (h : w.setAt d b = some w') : w'.m_head = w.m_head := by
  unfold setAt at h
  split at h
  · cases h
    rfl
  · cases h

/-- Places less than the size apart are different cells of the queue. -/
theorem place_inj {L h i d : ℕ} (hi : i < L) (hd : d < L) (heq : (h + i) % L = (h + d) % L) :
    i = d := by
  have hmod : i ≡ d [MOD L] := Nat.ModEq.add_left_cancel' h heq
  rwa [Nat.ModEq, Nat.mod_eq_of_lt hi, Nat.mod_eq_of_lt hd] at hmod

theorem setAt_bit (h : w.setAt d b = some w') (hi : i < w.getWinSize) :
    w'.bit i = if i = d then b else w.bit i := by
  unfold setAt at h
  split at h
  · next hd =>
    cases h
    have hlt : (w.m_head + d) % w.m_window.length < w.m_window.length :=
      Nat.mod_lt _ (Nat.zero_lt_of_lt hd)
    unfold bit
    dsimp only
    rw [List.length_set, List.getElem?_set]
    by_cases hid : i = d
    · subst hid
      rw [if_pos rfl, if_pos hlt, if_pos rfl]
      rfl
    · rw [if_neg (fun heq => hid (place_inj hi hd heq.symm)), if_neg hid]
  · cases h

/-! ## Advancing -/

@[simp] theorem getWinSize_drop : w.drop.getWinSize = w.getWinSize := by
  simp [drop, getWinSize]

theorem drop_head (hw : 0 < w.getWinSize) : w.drop.m_head < w.drop.getWinSize := by
  rw [getWinSize_drop]
  exact Nat.mod_lt _ hw

theorem drop_bit (hh : w.m_head < w.getWinSize) (hi : i < w.getWinSize) :
    w.drop.bit i = if i + 1 < w.getWinSize then w.bit (i + 1) else false := by
  have hmod : ((w.m_head + 1) % w.m_window.length + i) % w.m_window.length =
      (w.m_head + (i + 1)) % w.m_window.length := by
    rw [Nat.mod_add_mod, Nat.add_assoc, Nat.add_comm 1 i]
  unfold drop bit getWinSize at *
  dsimp only
  rw [List.length_set, hmod, List.getElem?_set]
  by_cases hlast : i + 1 < w.m_window.length
  · have hne : w.m_head ≠ (w.m_head + (i + 1)) % w.m_window.length := by
      intro heq
      have h0 : (w.m_head + 0) % w.m_window.length = (w.m_head + (i + 1)) % w.m_window.length := by
        rw [Nat.add_zero, Nat.mod_eq_of_lt hh]
        exact heq
      have := place_inj (by omega) hlast h0
      omega
    rw [if_neg hne, if_pos hlast]
  · have hlen : i + 1 = w.m_window.length := by omega
    have heq : (w.m_head + (i + 1)) % w.m_window.length = w.m_head := by
      rw [hlen, Nat.add_mod_right, Nat.mod_eq_of_lt hh]
    rw [if_pos heq.symm, if_neg hlast, if_pos hh]
    rfl

theorem advanceLoop_getWinSize : (advanceLoop n w).getWinSize = w.getWinSize := by
  induction n generalizing w with
  | zero => rfl
  | succ n ih =>
    rw [advanceLoop, ih, getWinSize_drop]

theorem advanceLoop_head (hh : w.m_head < w.getWinSize) :
    (advanceLoop n w).m_head < w.getWinSize := by
  induction n generalizing w with
  | zero => exact hh
  | succ n ih =>
    have h := ih (drop_head (Nat.zero_lt_of_lt hh))
    rwa [getWinSize_drop] at h

theorem advanceLoop_bit (hh : w.m_head < w.getWinSize) (hi : i < w.getWinSize) :
    (advanceLoop n w).bit i = if i + n < w.getWinSize then w.bit (i + n) else false := by
  induction n generalizing w i with
  | zero => rw [Nat.add_zero, if_pos hi, advanceLoop]
  | succ n ih =>
    have hpos := Nat.zero_lt_of_lt hh
    rw [advanceLoop, ih (drop_head hpos) (by simpa using hi), getWinSize_drop]
    by_cases hn : i + n < w.getWinSize
    · rw [if_pos hn, drop_bit hh hn, Nat.add_assoc]
    · rw [if_neg hn, if_neg (by omega)]

@[simp] theorem advance_getWinSize : (w.advance n).getWinSize = w.getWinSize := by
  unfold advance
  split
  · exact getWinSize_init _
  · exact advanceLoop_getWinSize

@[simp] theorem advance_winStart : (w.advance n).m_winStart = (w.m_winStart + n) % 4096 := by
  unfold advance
  split <;> rfl

theorem advance_head (hh : w.m_head < w.getWinSize) : (w.advance n).m_head < w.getWinSize := by
  unfold advance
  split
  · exact Nat.zero_lt_of_lt hh
  · exact advanceLoop_head hh

/-- Advancing by `n` shifts the bits by `n` and clears the last ones. -/
theorem advance_bit (hh : w.m_head < w.getWinSize) (hi : i < w.getWinSize) :
    (w.advance n).bit i = if i + n < w.getWinSize then w.bit (i + n) else false := by
  unfold advance
  split
  · next h =>
    rw [if_neg (by unfold getWinSize at *; omega)]
    exact bit_init _
  · exact advanceLoop_bit hh hi

end BlockAckWindow

end Ns3.Wifi
