import Mathlib.Data.Int.Log
import Mathlib.Data.Rat.Floor
import Mathlib.Tactic.Linarith
import Mathlib.Tactic.Positivity
import Mathlib.Tactic.Ring

/-!
# Rounding to double precision

`roundDouble` is rounding to the nearest number with 53 significant bits, ties to even, in
the range in which neither overflow nor underflow occurs. The relative error is at most
`2⁻⁵³` (`abs_roundDouble_sub_le`).
-/

namespace Ns3.Lib

/-- The nearest integer; a tie goes to the even one. -/
def roundHalfEven (x : ℚ) : ℤ :=
  let r := x - ⌊x⌋
  if r < 1 / 2 then ⌊x⌋
  else if 1 / 2 < r then ⌊x⌋ + 1
  else if ⌊x⌋ % 2 = 0 then ⌊x⌋ else ⌊x⌋ + 1

theorem abs_roundHalfEven_sub_le (x : ℚ) : |(roundHalfEven x : ℚ) - x| ≤ 1 / 2 := by
  have hlo := Int.floor_le x
  have hhi := Int.lt_floor_add_one x
  unfold roundHalfEven
  dsimp only
  split_ifs with h1 h2 h3
  · rw [abs_le]
    constructor <;> linarith
  · rw [abs_le]
    push_cast
    constructor <;> linarith
  · rw [abs_le]
    constructor <;> linarith
  · rw [abs_le]
    push_cast
    constructor <;> linarith

/-- The exponent of the last of the 53 significant bits. -/
def ulpExponent (x : ℚ) : ℤ := Int.log 2 |x| - 52

def roundDouble (x : ℚ) : ℚ := roundHalfEven (x / 2 ^ ulpExponent x) * 2 ^ ulpExponent x

theorem abs_roundDouble_sub_le (x : ℚ) : |roundDouble x - x| ≤ |x| / 2 ^ 53 := by
  rcases eq_or_ne x 0 with rfl | hx
  · have hzero : roundHalfEven 0 = 0 := by simp [roundHalfEven]
    simp [roundDouble, hzero]
  · have hpow : (0 : ℚ) < 2 ^ ulpExponent x := zpow_pos (by norm_num) _
    have hlog : ((2 : ℕ) : ℚ) ^ Int.log 2 |x| ≤ |x| :=
      Int.zpow_log_le_self (by norm_num) (abs_pos.mpr hx)
    have hulp : (2 : ℚ) ^ ulpExponent x * 2 ^ 52 ≤ |x| := by
      have hsplit : (2 : ℚ) ^ ulpExponent x * 2 ^ (52 : ℤ) = 2 ^ Int.log 2 |x| := by
        rw [← zpow_add₀ (by norm_num : (2 : ℚ) ≠ 0), ulpExponent]
        congr 1
        ring
      have hcast : ((2 : ℚ) ^ (52 : ℤ)) = 2 ^ 52 := by norm_num
      rw [← hcast, hsplit]
      exact_mod_cast hlog
    have hdiff : roundDouble x - x =
        (roundHalfEven (x / 2 ^ ulpExponent x) - x / 2 ^ ulpExponent x) * 2 ^ ulpExponent x := by
      rw [sub_mul, div_mul_cancel₀ _ hpow.ne']
      rfl
    rw [hdiff, abs_mul, abs_of_pos hpow]
    calc |(roundHalfEven (x / 2 ^ ulpExponent x) : ℚ) - x / 2 ^ ulpExponent x| * 2 ^ ulpExponent x
        ≤ 1 / 2 * 2 ^ ulpExponent x :=
          mul_le_mul_of_nonneg_right (abs_roundHalfEven_sub_le _) hpow.le
      _ = 2 ^ ulpExponent x * 2 ^ 52 / 2 ^ 53 := by ring
      _ ≤ |x| / 2 ^ 53 := by
          apply div_le_div_of_nonneg_right hulp
          positivity

/-- A rounded number is at most a little larger. -/
theorem roundDouble_le {x : ℚ} (hx : 0 ≤ x) : roundDouble x ≤ x * (1 + 1 / 2 ^ 53) := by
  have h := abs_roundDouble_sub_le x
  rw [abs_of_nonneg hx] at h
  have := (abs_le.mp h).2
  linarith

theorem roundDouble_nonneg {x : ℚ} (hx : 0 ≤ x) : 0 ≤ roundDouble x := by
  have h := abs_roundDouble_sub_le x
  rw [abs_of_nonneg hx] at h
  have := (abs_le.mp h).1
  have : x / 2 ^ 53 ≤ x := div_le_self hx (by norm_num)
  linarith

end Ns3.Lib
