import Mathlib.Data.Nat.Bitwise
import Mathlib.Data.List.Basic

/-!
# Numbers in groups of seven bits

A number is written in octets of seven bits each, the lowest ones first. Every octet but the last
one has its high bit set.
-/

namespace Ns3.Lib

/-- The octets of `v`, at most `n + 1` of them. -/
def leb128 : Nat → Nat → List UInt8
  | 0, v => [UInt8.ofNat v]
  | n + 1, v =>
    if v < 2 ^ 7 then [UInt8.ofNat v]
    else UInt8.ofNat (2 ^ 7 + v % 2 ^ 7) :: leb128 n (v / 2 ^ 7)

theorem leb128_last (n v : Nat) (hv : v < 2 ^ 7) : leb128 n v = [UInt8.ofNat v] := by
  cases n with
  | zero => rfl
  | succ n => exact if_pos hv

theorem leb128_more (n v : Nat) (hv : 2 ^ 7 ≤ v) :
    leb128 (n + 1) v = UInt8.ofNat (2 ^ 7 + v % 2 ^ 7) :: leb128 n (v / 2 ^ 7) :=
  if_neg (Nat.not_lt.mpr hv)

/-- A group below a number. -/
theorem or_group (low v k : Nat) (hlow : low < 2 ^ k) : low ||| v <<< k = low + v * 2 ^ k := by
  rw [Nat.or_comm, ← Nat.shiftLeft_add_eq_or_of_lt hlow, Nat.shiftLeft_eq, Nat.add_comm]

theorem or_one (v : Nat) : v ||| 1 = v / 2 * 2 + 1 := by
  have hparts : v % 2 ||| (v / 2) <<< 1 = v := by
    rw [or_group (v % 2) (v / 2) 1 (Nat.mod_lt _ (by decide))]
    omega
  have hlow : v % 2 ||| 1 = 1 := by
    rcases Nat.mod_two_eq_zero_or_one v with h | h <;> rw [h] <;> rfl
  calc v ||| 1 = (v % 2 ||| 1) ||| (v / 2) <<< 1 := by
        rw [Nat.or_assoc, Nat.or_comm 1, ← Nat.or_assoc, hparts]
    _ = v / 2 * 2 + 1 := by
        rw [hlow, or_group 1 (v / 2) 1 (by decide), Nat.add_comm, Nat.pow_one]

/-- The low groups of `v` and the next one. -/
theorem mod_add_group (v k : Nat) :
    v % 2 ^ k + v / 2 ^ k % 2 ^ 7 * 2 ^ k = v % 2 ^ (k + 7) := by
  rw [Nat.pow_add, Nat.mod_mul, Nat.mul_comm (2 ^ k)]

theorem and_lowBits (b : Nat) : b &&& 0x7f = b % 2 ^ 7 :=
  Nat.and_two_pow_sub_one_eq_mod b 7

theorem and_highBit (b : Nat) (hb : b < 2 ^ 8) : (b &&& 0x80 = 0) ↔ b < 2 ^ 7 := by
  have h : b &&& 2 ^ 7 = (b.testBit 7).toNat * 2 ^ 7 := Nat.and_two_pow b 7
  have hbit : b.testBit 7 = decide (2 ^ 7 ≤ b) := by
    rw [Nat.testBit_eq_decide_div_mod_eq]
    congr 1
    rw [eq_iff_iff]
    omega
  rw [show (0x80 : Nat) = 2 ^ 7 from rfl, h, hbit]
  by_cases hlow : 2 ^ 7 ≤ b <;> simp

end Ns3.Lib
