import Mathlib.Data.Nat.Bitwise
import Mathlib.Data.List.Basic

/-!
# Numbers in network order

The octets of a number, the highest ones first.
-/

namespace Ns3.Lib

/-- The `n` lowest octets of `v`. -/
def octets : Nat → Nat → List UInt8
  | 0, _ => []
  | n + 1, v => octets n (v / 256) ++ [UInt8.ofNat v]

/-- The number that the octets make. -/
def networkOrder (bs : List UInt8) : Nat := bs.foldl (fun v b => v * 256 + b.toNat) 0

@[simp] theorem length_octets (n v : Nat) : (octets n v).length = n := by
  induction n generalizing v with
  | zero => rfl
  | succ n ih => rw [octets, List.length_append, ih, List.length_singleton]

@[simp] theorem networkOrder_nil : networkOrder [] = 0 := rfl

theorem networkOrder_concat (bs : List UInt8) (b : UInt8) :
    networkOrder (bs ++ [b]) = networkOrder bs * 256 + b.toNat := by
  simp [networkOrder]

theorem networkOrder_octets (n v : Nat) : networkOrder (octets n v) = v % 256 ^ n := by
  induction n generalizing v with
  | zero =>
    rw [octets, networkOrder_nil, pow_zero, Nat.mod_one]
  | succ n ih =>
    have hbyte : (UInt8.ofNat v).toNat = v % 256 := by simp
    rw [octets, networkOrder_concat, ih, hbyte, pow_succ', Nat.mod_mul, Nat.mul_comm, Nat.add_comm]

/-- An octet is put below a number. -/
theorem shiftLeft_or_octet (v : Nat) (b : UInt8) : v <<< 8 ||| b.toNat = v * 256 + b.toNat := by
  rw [← Nat.shiftLeft_add_eq_or_of_lt b.toNat_lt, Nat.shiftLeft_eq]

end Ns3.Lib
