import Mathlib.Data.Nat.Bitwise
import Mathlib.Tactic.Ring

/-!
# Bit fields

A mask of consecutive bits and a union of fields, as arithmetic.
-/

namespace Ns3.Lib

/-- The field of `w` bits from the bit `k` on. -/
theorem and_field (x k w : Nat) : x &&& ((2 ^ w - 1) <<< k) = x / 2 ^ k % 2 ^ w * 2 ^ k := by
  rw [← Nat.and_two_pow_sub_one_eq_mod, ← Nat.shiftRight_eq_div_pow, ← Nat.shiftLeft_eq]
  apply Nat.eq_of_testBit_eq
  intro i
  simp only [Nat.testBit_and, Nat.testBit_shiftLeft, Nat.testBit_shiftRight]
  by_cases h : k ≤ i
  · have : k + (i - k) = i := by omega
    simp [h, this]
  · simp [h]

/-- Fields that do not overlap. -/
theorem or_field {x y : Nat} (i : Nat) (hx : x % 2 ^ i = 0) (hy : y < 2 ^ i) : x ||| y = x + y := by
  obtain ⟨q, rfl⟩ := Nat.dvd_of_mod_eq_zero hx
  exact (Nat.two_pow_add_eq_or_of_lt hy q).symm

end Ns3.Lib
