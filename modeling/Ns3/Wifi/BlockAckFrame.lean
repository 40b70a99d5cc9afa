import Ns3.Wifi.Scoreboard
import Mathlib.Data.Nat.Bitwise

/-!
# The compressed block ack

`CtrlBAckResponseHeader` of the compressed variant, filled from the scoreboard of the recipient. It
acknowledges a number exactly if a position with that number was received within the window.
-/

namespace Ns3.Wifi

/-- The starting sequence number and the bytes of the bitmap. -/
structure CtrlBAckResponseHeader where
  m_startingSeq : ℕ
  m_bitmap : List ℕ
deriving DecidableEq, Repr

namespace CtrlBAckResponseHeader

def isInBitmap (b : CtrlBAckResponseHeader) (seq : ℕ) : Bool :=
  (seq + 4096 - b.m_startingSeq) % 4096 < b.m_bitmap.length * 8

def indexInBitmap (b : CtrlBAckResponseHeader) (seq : ℕ) : ℕ :=
  if seq ≥ b.m_startingSeq then seq - b.m_startingSeq else 4096 - b.m_startingSeq + seq

def setReceivedPacket (b : CtrlBAckResponseHeader) (seq : ℕ) : CtrlBAckResponseHeader :=
  if !b.isInBitmap seq then b
  else
    let i := b.indexInBitmap seq
    { b with m_bitmap := b.m_bitmap.modify (i / 8) fun byte => byte ||| 1 <<< (i % 8) }

def isPacketReceived (b : CtrlBAckResponseHeader) (seq : ℕ) : Bool :=
  if !b.isInBitmap seq then false
  else
    let i := b.indexInBitmap seq
    (b.m_bitmap[i / 8]?.getD 0) &&& 1 <<< (i % 8) != 0

/-- `SetStartingSequence` and `ResetBitmap`. -/
def reset (startingSeq bitmapLen : ℕ) : CtrlBAckResponseHeader :=
  ⟨startingSeq, List.replicate bitmapLen 0⟩

end CtrlBAckResponseHeader

/-- `GetBlockAckType`: the length of the bitmap. -/
def bitmapLen (bufferSize : ℕ) : ℕ := if bufferSize > 64 then 32 else 8

/-- The first `n` turns of the loop of `FillBlockAckBitmap`. -/
def fillLoop (board : BlockAckWindow) (b : CtrlBAckResponseHeader) :
    ℕ → Option CtrlBAckResponseHeader
  | 0 => some b
  | i + 1 => do
    let b ← fillLoop board b i
    let received ← board.atDistance i
    some (if received then b.setReceivedPacket ((board.m_winStart + i) % 4096) else b)

def fillBlockAckBitmap (board : BlockAckWindow) (bitmapLen : ℕ) : Option CtrlBAckResponseHeader :=
  fillLoop board (.reset board.m_winStart bitmapLen) board.getWinSize

/-! ## What the bitmap says -/

namespace CtrlBAckResponseHeader

variable {b : CtrlBAckResponseHeader} {x y : ℕ}

/-- The place of a number in the bitmap is its distance from the starting one. -/
theorem indexInBitmap_eq (hb : b.m_startingSeq < 4096) (hx : x < 4096) :
    b.indexInBitmap x = (x + 4096 - b.m_startingSeq) % 4096 := by
  unfold indexInBitmap
  split <;> omega

/-- The bit of the bitmap at `i`. -/
def mark (b : CtrlBAckResponseHeader) (i : ℕ) : Bool := (b.m_bitmap[i / 8]?.getD 0).testBit (i % 8)

theorem isPacketReceived_eq (hb : b.m_startingSeq < 4096) (hx : x < 4096) :
    b.isPacketReceived x =
      (b.isInBitmap x && b.mark ((x + 4096 - b.m_startingSeq) % 4096)) := by
  unfold isPacketReceived mark
  cases hin : b.isInBitmap x with
  | false => rfl
  | true =>
    rw [indexInBitmap_eq hb hx]
    simp only [Bool.not_true, Bool.false_eq_true, if_false, Bool.true_and]
    generalize (x + 4096 - b.m_startingSeq) % 4096 = i
    generalize (b.m_bitmap[i / 8]?).getD 0 = byte
    rw [Nat.one_shiftLeft, Nat.and_two_pow]
    cases byte.testBit (i % 8) <;> simp

theorem setReceivedPacket_startingSeq :
    (b.setReceivedPacket x).m_startingSeq = b.m_startingSeq := by
  unfold setReceivedPacket
  split <;> rfl

theorem setReceivedPacket_length :
    (b.setReceivedPacket x).m_bitmap.length = b.m_bitmap.length := by
  unfold setReceivedPacket
  split
  · rfl
  · exact List.length_modify ..

theorem mark_setReceivedPacket (hb : b.m_startingSeq < 4096) (hx : x < 4096) {j : ℕ}
    (hj : j < b.m_bitmap.length * 8) :
    (b.setReceivedPacket x).mark j =
      (b.mark j || decide (j = (x + 4096 - b.m_startingSeq) % 4096)) := by
  unfold setReceivedPacket
  split
  · next hout =>
    have hne : j ≠ (x + 4096 - b.m_startingSeq) % 4096 := by
      rintro rfl
      simp [isInBitmap, hj] at hout
    rw [decide_eq_false hne, Bool.or_false]
  · next hin =>
    rw [indexInBitmap_eq hb hx]
    generalize (x + 4096 - b.m_startingSeq) % 4096 = i
    have hlt : j / 8 < b.m_bitmap.length := by omega
    unfold mark
    simp only [List.getElem?_modify, List.getElem?_eq_getElem hlt, Option.map_eq_map,
      Option.map_some, Option.getD_some]
    by_cases hbyte : i / 8 = j / 8
    · rw [if_pos hbyte, Nat.testBit_or, Nat.one_shiftLeft, Nat.testBit_two_pow]
      congr 1
      apply decide_eq_decide.mpr
      omega
    · have hne : j ≠ i := by
        rintro rfl
        exact hbyte rfl
      rw [if_neg hbyte, decide_eq_false hne, Bool.or_false]

end CtrlBAckResponseHeader

open CtrlBAckResponseHeader

/-- The loop sets the bits of the window. -/
theorem fillLoop_mark {board : BlockAckWindow} (len : ℕ) (hstart : board.m_winStart < 4096)
    (hsize : board.getWinSize ≤ 4096) {n : ℕ} (hn : n ≤ board.getWinSize) :
    ∃ b, fillLoop board (.reset board.m_winStart len) n = some b ∧
      b.m_startingSeq = board.m_winStart ∧ b.m_bitmap.length = len ∧
      ∀ j < len * 8, b.mark j = (decide (j < n) && board.bit j) := by
  induction n with
  | zero =>
    refine ⟨_, rfl, rfl, List.length_replicate, ?_⟩
    intro j hj
    unfold CtrlBAckResponseHeader.reset mark
    rw [List.getElem?_replicate, if_pos (by omega)]
    simp
  | succ n ih =>
    obtain ⟨b, hb, hseq, hlen, hmark⟩ := ih (by omega)
    rw [fillLoop, hb, Option.bind_eq_bind, Option.bind_some,
      BlockAckWindow.atDistance_eq (by omega), Option.bind_eq_bind, Option.bind_some]
    refine ⟨_, rfl, ?_, ?_, ?_⟩
    · split
      · rw [setReceivedPacket_startingSeq, hseq]
      · exact hseq
    · split
      · rw [setReceivedPacket_length, hlen]
      · exact hlen
    · intro j hj
      have hplace : ((board.m_winStart + n) % 4096 + 4096 - board.m_winStart) % 4096 = n := by
        omega
      have hstep : decide (j < n + 1) = (decide (j < n) || decide (j = n)) := by
        rw [← Bool.decide_or]
        apply decide_eq_decide.mpr
        omega
      split
      · next hbit =>
        rw [mark_setReceivedPacket (hseq.symm ▸ hstart) (Nat.mod_lt _ (by omega)) (hlen.symm ▸ hj),
          hmark j hj, hseq, hplace, hstep]
        by_cases hjn : j = n
        · rw [hjn, hbit]
          simp
        · rw [decide_eq_false hjn, Bool.or_false, Bool.or_false]
      · next hbit =>
        rw [hmark j hj, hstep]
        by_cases hjn : j = n
        · rw [hjn, Bool.not_eq_true _ |>.mp hbit]
          simp
        · rw [decide_eq_false hjn, Bool.or_false]

/-- The block ack acknowledges the numbers of the positions received within the window. -/
theorem Records.fillBlockAckBitmap {W len : ℕ} {r : ℤ} {S : Set ℤ} {board : BlockAckWindow}
    (h : Records W r S board) (hW : W ≤ len * 8) (hlen : len * 8 ≤ 4096) :
    ∃ b, Wifi.fillBlockAckBitmap board len = some b ∧ b.m_startingSeq = board.m_winStart ∧
      ∀ x < 4096, b.isPacketReceived x = true ↔ ∃ p ∈ S, r ≤ p ∧ IsSeq x p := by
  have hstart := h.winStart.lt
  have hsize := h.size
  obtain ⟨b, hb, hseq, hblen, hmark⟩ := fillLoop_mark len hstart (by omega)
    (le_refl board.getWinSize)
  refine ⟨b, hb, hseq, ?_⟩
  intro x hx
  rw [isPacketReceived_eq (hseq.symm ▸ hstart) hx]
  unfold isInBitmap
  rw [Bool.and_eq_true, decide_eq_true_eq, hseq, hblen]
  have hwin := h.winStart
  unfold IsSeq at hwin
  constructor
  · rintro ⟨hin, hset⟩
    rw [hmark _ hin, Bool.and_eq_true, decide_eq_true_eq] at hset
    refine ⟨r + ((x + 4096 - board.m_winStart) % 4096 : ℕ), ?_, by omega, ?_⟩
    · exact (h.bits _ (by omega)).mp hset.2
    · unfold IsSeq
      omega
  · rintro ⟨p, hp, hrp, hxp⟩
    have htop := h.top p hp
    unfold IsSeq at hxp
    have hplace : (x + 4096 - board.m_winStart) % 4096 = (p - r).toNat := by omega
    rw [hplace]
    have hlt : (p - r).toNat < W := by omega
    refine ⟨by omega, ?_⟩
    rw [hmark _ (by omega), hsize, decide_eq_true hlt, Bool.true_and]
    apply (h.bits _ hlt).mpr
    have hpos : r + (p - r).toNat = p := by omega
    rwa [hpos]

end Ns3.Wifi
