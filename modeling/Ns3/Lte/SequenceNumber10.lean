import Mathlib.Data.Int.ModEq
import Mathlib.Tactic.Ring

/-!
# Sequence numbers of ten bits

`SequenceNumber10` compares two numbers by their distance from a modulus base. `at p B` is the
number of the position `p` in the sequence of all PDUs with the base of the position `B`. For
positions from the base on and less than 1024 behind it, the comparisons of numbers are those of
positions.
-/

namespace Ns3.Lte

/-- `SequenceNumber10`. -/
structure SequenceNumber10 where
  value : Nat := 0
  modulusBase : Nat := 0
deriving DecidableEq, Repr

namespace SequenceNumber10

/-- The conversion of an `int` to `uint16_t`. -/
def toUint16 (i : Int) : Nat := (i % 65536).toNat

/-- `SequenceNumber10 (uint16_t)`. -/
def ofValue (value : Nat) : SequenceNumber10 := ⟨value % 1024, 0⟩

/-- `operator= (uint16_t)`. -/
def assign (a : SequenceNumber10) (value : Nat) : SequenceNumber10 :=
  { a with value := value % 1024 }

def setModulusBase (a base : SequenceNumber10) : SequenceNumber10 :=
  { a with modulusBase := base.value }

/-- `operator++`: the number afterwards. -/
def succ (a : SequenceNumber10) : SequenceNumber10 :=
  { a with value := (a.value + 1) % 1024 }

/-- `operator+`. -/
def add (a : SequenceNumber10) (delta : Nat) : SequenceNumber10 :=
  ⟨(a.value + delta) % 1024 % 1024, a.modulusBase⟩

/-- `operator-`. The remainder of a negative difference is negative. -/
def sub (a : SequenceNumber10) (delta : Nat) : SequenceNumber10 :=
  ⟨toUint16 (((a.value : Int) - delta).tmod 1024) % 1024, a.modulusBase⟩

/-- The distance from the modulus base, as `operator>` computes it. -/
def distance (a : SequenceNumber10) : Nat :=
  toUint16 (((a.value : Int) - a.modulusBase).tmod 1024)

/-- `operator>`. -/
def gt (a b : SequenceNumber10) : Bool := decide (a.distance > b.distance)

/-- `operator==`. -/
def eq (a b : SequenceNumber10) : Bool := a.value == b.value

/-- `operator<=`. -/
def le (a b : SequenceNumber10) : Bool := !a.gt b

/-- `operator>=`. -/
def ge (a b : SequenceNumber10) : Bool := a.gt b || a.eq b

/-- `operator<`. -/
def lt (a b : SequenceNumber10) : Bool := !a.gt b && a.value != b.value

/-- The number of the position `p`, with the base of the position `B`. -/
def pos (p B : Int) : SequenceNumber10 := ⟨(p % 1024).toNat, (B % 1024).toNat⟩

theorem toUint16_tmod {v b : Nat} (hv : v < 1024) (hb : b < 1024) :
    toUint16 (((v : Int) - b).tmod 1024) = if b ≤ v then v - b else 65536 - (b - v) := by
  unfold toUint16
  split
  · rw [Int.tmod_eq_emod_of_nonneg (by omega)]
    omega
  · have hneg : ((v : Int) - b).tmod 1024 = -(((b : Int) - v).tmod 1024) := by
      rw [← Int.neg_tmod]
      congr 1
      ring
    rw [hneg, Int.tmod_eq_emod_of_nonneg (by omega)]
    omega

theorem value_pos_lt (p B : Int) : (pos p B).value < 1024 := by
  simp only [pos]
  omega

@[simp] theorem value_pos_natCast (p : Nat) (B : Int) : (pos p B).value = p % 1024 := by
  simp only [pos]
  omega

/-- A number that has wrapped around is below the base, and the remainder of the difference is a
large `uint16_t`. -/
theorem distance_pos {p B : Int} (hp : B ≤ p) (hp' : p < B + 1024) :
    (pos p B).distance =
      if p - B < 1024 - B % 1024 then (p - B).toNat else (p - B).toNat + 64512 := by
  unfold distance
  rw [toUint16_tmod (value_pos_lt p B) (by simp only [pos]; omega)]
  by_cases hle : (pos p B).modulusBase ≤ (pos p B).value
  · rw [if_pos hle]
    simp only [pos] at hle ⊢
    rw [if_pos (by omega)]
    omega
  · rw [if_neg hle]
    simp only [pos] at hle ⊢
    rw [if_neg (by omega)]
    omega

/-- The numbers of positions are ordered as their offsets from the base. -/
theorem distance_lt_iff {p q B : Int} (hp : B ≤ p) (hp' : p < B + 1024) (hq : B ≤ q)
    (hq' : q < B + 1024) : (pos p B).distance < (pos q B).distance ↔ p < q := by
  rw [distance_pos hp hp', distance_pos hq hq']
  split <;> split <;> omega

theorem value_inj {p q B : Int} (h : p - q < 1024) (h' : q - p < 1024) :
    (pos p B).value = (pos q B).value ↔ p = q := by
  simp only [pos]
  omega

theorem eq_pos {p q B : Int} (h : p - q < 1024) (h' : q - p < 1024) :
    (pos p B).eq (pos q B) = decide (p = q) := by
  rw [eq, ← decide_eq_decide.mpr (value_inj (B := B) h h')]
  exact beq_eq_decide _ _

/-- A number with the base of a position. -/
theorem setModulusBase_pos {a : SequenceNumber10} {p : Nat} (h : a.value = p % 1024) (q C : Int) :
    a.setModulusBase (pos q C) = pos p q := by
  simp only [setModulusBase, pos, mk.injEq, and_true, h]
  omega

section Comparisons

variable {p q B : Int} (hp : B ≤ p) (hp' : p < B + 1024) (hq : B ≤ q) (hq' : q < B + 1024)

include hp hp' hq hq'

theorem pos_gt : (pos p B).gt (pos q B) = decide (q < p) := by
  simp only [gt, gt_iff_lt, decide_eq_decide]
  exact distance_lt_iff hq hq' hp hp'

theorem pos_le : (pos p B).le (pos q B) = decide (p ≤ q) := by
  rw [le, pos_gt hp hp' hq hq', ← decide_not, decide_eq_decide]
  omega

theorem pos_eq : (pos p B).eq (pos q B) = decide (p = q) := eq_pos (by omega) (by omega)

theorem pos_lt : (pos p B).lt (pos q B) = decide (p < q) := by
  have hne : ((pos p B).value != (pos q B).value) = !decide (p = q) := by
    rw [← pos_eq hp hp' hq hq']
    rfl
  rw [lt, pos_gt hp hp' hq hq', hne, ← decide_not, ← decide_not, ← Bool.decide_and,
    decide_eq_decide]
  omega

end Comparisons

@[simp] theorem pos_setModulusBase (p B q C : Int) :
    (pos p B).setModulusBase (pos q C) = pos p q := rfl

@[simp] theorem pos_succ (p B : Int) : (pos p B).succ = pos (p + 1) B := by
  simp only [succ, pos, SequenceNumber10.mk.injEq, and_true]
  omega

@[simp] theorem pos_add (p B : Int) (delta : Nat) : (pos p B).add delta = pos (p + delta) B := by
  simp only [add, pos, SequenceNumber10.mk.injEq, and_true]
  omega

theorem pos_sub (p B : Int) {delta : Nat} (hdelta : delta < 1024) :
    (pos p B).sub delta = pos (p - delta) B := by
  simp only [sub, pos, SequenceNumber10.mk.injEq, and_true]
  rw [toUint16_tmod (by omega) hdelta]
  split <;> omega

theorem ofValue_pos {p B : Int} : ofValue (pos p B).value = pos p 0 := by
  simp only [ofValue, pos, SequenceNumber10.mk.injEq]
  omega

theorem ofValue_mod (p : Nat) : ofValue (p % 1024) = pos p 0 := by
  simp only [ofValue, pos, SequenceNumber10.mk.injEq]
  omega

/-- A number is that of any position with the same remainder. -/
theorem pos_eq_of_emod {p q B : Int} (h : p % 1024 = q % 1024) : pos p B = pos q B := by
  simp [pos, h]

end SequenceNumber10

end Ns3.Lte
