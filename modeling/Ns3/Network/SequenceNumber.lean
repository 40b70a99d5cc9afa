import Mathlib.Data.Nat.Notation
import Mathlib.Data.Int.ModEq

/-!
# Sequence numbers of 32 bits

`SequenceNumber<uint32_t, int32_t>`. `pos p` is the number of the position `p` of an unbounded
sequence; the comparisons of numbers are those of positions less than `2 ^ 31` apart.
-/

namespace Ns3.Network

/-- `SequenceNumber32`. -/
@[ext]
structure SequenceNumber32 where
  m_value : ℕ
deriving DecidableEq, Repr

namespace SequenceNumber32

/-- `std::numeric_limits<uint32_t>::max () / 2`. -/
def halfMaxValue : ℕ := 0x7fffffff

/-- The difference of two `uint32_t`. -/
def diff (a b : ℕ) : ℕ := (a + 2 ^ 32 - b) % 2 ^ 32

/-- `operator +` of two numbers. -/
def add (a b : SequenceNumber32) : SequenceNumber32 := ⟨(a.m_value + b.m_value) % 2 ^ 32⟩

/-- `operator + (SIGNED_TYPE)` and `operator +=`. -/
def addDelta (a : SequenceNumber32) (delta : ℤ) : SequenceNumber32 :=
  ⟨((a.m_value + delta) % 2 ^ 32).toNat⟩

def succ (a : SequenceNumber32) : SequenceNumber32 := ⟨(a.m_value + 1) % 2 ^ 32⟩

/-- `operator -` of two numbers, an `int32_t`. -/
def sub (a b : SequenceNumber32) : ℤ :=
  if a.m_value > b.m_value then
    let d := diff a.m_value b.m_value
    if d < halfMaxValue then d
    else -((0xffffffff - a.m_value + 1 + b.m_value : ℕ) : ℤ).bmod (2 ^ 32)
  else
    let d := diff b.m_value a.m_value
    if d < halfMaxValue then -d
    else ((0xffffffff - b.m_value + 1 + a.m_value : ℕ) : ℤ).bmod (2 ^ 32)

/-- The conversion of an `int32_t` to `uint32_t`. -/
def toUint32 (i : ℤ) : ℕ := (i % 2 ^ 32).toNat

/-- `operator >`. -/
def gt (a b : SequenceNumber32) : Bool :=
  (a.m_value > b.m_value && diff a.m_value b.m_value ≤ halfMaxValue) ||
    (b.m_value > a.m_value && diff b.m_value a.m_value > halfMaxValue)

/-- `operator <=`. -/
def le (a b : SequenceNumber32) : Bool := !a.gt b

/-- `operator >=`. -/
def ge (a b : SequenceNumber32) : Bool := a.gt b || a == b

/-- `operator <`. -/
def lt (a b : SequenceNumber32) : Bool := !a.gt b && a != b

/-- The number of the position `p`. -/
def pos (p : ℕ) : SequenceNumber32 := ⟨p % 2 ^ 32⟩

theorem pos_add (p n : ℕ) : (pos p).add ⟨n⟩ = pos (p + n) := by
  simp [pos, add]

theorem pos_succ (p : ℕ) : (pos p).succ = pos (p + 1) := by
  simp [pos, succ]

theorem gt_self (k : SequenceNumber32) : k.gt k = false := by
  simp [gt]

theorem toUint32_sub_self (k : SequenceNumber32) : toUint32 (k.sub k) = 0 := by
  simp [sub, diff, toUint32, halfMaxValue]

/-- Two positions less than `2 ^ 32` apart with one number are equal. -/
theorem pos_eq_iff {p q : ℕ} (h : p < q + 2 ^ 32) (h' : q < p + 2 ^ 32) :
    pos p = pos q ↔ p = q := by
  rw [pos, pos, mk.injEq]
  omega

theorem pos_gt_iff {p q : ℕ} (h : p < q + 2 ^ 31) (h' : q < p + 2 ^ 31) :
    (pos p).gt (pos q) = true ↔ q < p := by
  unfold gt pos diff halfMaxValue
  simp only [Bool.or_eq_true, Bool.and_eq_true, decide_eq_true_eq]
  omega

theorem pos_le_iff {p q : ℕ} (h : p < q + 2 ^ 31) (h' : q < p + 2 ^ 31) :
    (pos p).le (pos q) = true ↔ p ≤ q := by
  rw [le, Bool.not_eq_true', ← Bool.not_eq_true, pos_gt_iff h h', not_lt]

theorem pos_lt_iff {p q : ℕ} (h : p < q + 2 ^ 31) (h' : q < p + 2 ^ 31) :
    (pos p).lt (pos q) = true ↔ p < q := by
  rw [lt, Bool.and_eq_true, ← le, pos_le_iff h h', bne_iff_ne, ne_eq,
    pos_eq_iff (by omega) (by omega)]
  omega

theorem pos_ge_iff {p q : ℕ} (h : p < q + 2 ^ 31) (h' : q < p + 2 ^ 31) :
    (pos p).ge (pos q) = true ↔ q ≤ p := by
  rw [ge, Bool.or_eq_true, pos_gt_iff h h', beq_iff_eq, pos_eq_iff (by omega) (by omega)]
  omega

/-- The later one of two positions. -/
theorem ite_lt_pos_max {p q : ℕ} (h : p < q + 2 ^ 31) (h' : q < p + 2 ^ 31) :
    (if (pos p).lt (pos q) then pos q else pos p) = pos (max p q) := by
  by_cases hlt : p < q
  · rw [if_pos ((pos_lt_iff h h').mpr hlt), max_eq_right hlt.le]
  · rw [if_neg (mt (pos_lt_iff h h').mp hlt), max_eq_left (not_lt.mp hlt)]

/-- The earlier one of two positions. -/
theorem ite_lt_pos_min {p q : ℕ} (h : p < q + 2 ^ 31) (h' : q < p + 2 ^ 31) :
    (if (pos p).lt (pos q) then pos p else pos q) = pos (min p q) := by
  by_cases hlt : p < q
  · rw [if_pos ((pos_lt_iff h h').mpr hlt), min_eq_left hlt.le]
  · rw [if_neg (mt (pos_lt_iff h h').mp hlt), min_eq_right (not_lt.mp hlt)]

/-- The low 32 bits of an `int32_t` that was converted from `x`. -/
theorem emod_bmod (x : ℤ) : x.bmod (2 ^ 32) % 2 ^ 32 = x % 2 ^ 32 :=
  Int.bmod_emod

/-- The difference of two numbers, cut to 32 bits. -/
theorem toUint32_sub {a b : ℕ} (ha : a < 2 ^ 32) (hb : b < 2 ^ 32) :
    toUint32 (sub ⟨a⟩ ⟨b⟩) = diff a b := by
  unfold toUint32 sub diff halfMaxValue
  dsimp only
  split
  · split
    · omega
    · have hcast : ((0xffffffff - a + 1 + b : ℕ) : ℤ) = 2 ^ 32 - a + b := by omega
      rw [hcast]
      have hmod := emod_bmod (2 ^ 32 - a + b)
      clear hcast
      omega
  · split
    · omega
    · have hcast : ((0xffffffff - b + 1 + a : ℕ) : ℤ) = 2 ^ 32 - b + a := by omega
      rw [hcast]
      have hmod := emod_bmod (2 ^ 32 - b + a)
      clear hcast
      omega

/-- The difference of two positions, cut to 32 bits. -/
theorem toUint32_sub_pos {p q : ℕ} (hle : q ≤ p) (h : p < q + 2 ^ 32) :
    toUint32 ((pos p).sub (pos q)) = p - q := by
  rw [pos, pos, toUint32_sub (Nat.mod_lt _ (by decide)) (Nat.mod_lt _ (by decide)), diff]
  omega

end SequenceNumber32

end Ns3.Network
