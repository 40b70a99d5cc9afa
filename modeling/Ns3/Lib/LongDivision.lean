import Mathlib.Data.Nat.Basic
import Mathlib.Tactic.Ring

/-!
# Binary digits of a quotient

A quotient is found in rounds. Each round gives some binary digits behind the point, and leaves a
remainder over a divisor. The divisor may lose factors of two on the way.
-/

namespace Ns3.Lib

/-- `a / b` with `digits` binary digits behind the point is `quo`, and `rem / den` of the last digit
is left. -/
structure PartialQuotient (a b digits quo rem den : Nat) : Prop where
  rem_lt : rem < den
  exact : a * 2 ^ digits * den = (quo * den + rem) * b

namespace PartialQuotient

variable {a b digits quo rem den : Nat}

theorem start (a : Nat) {b : Nat} (hb : 0 < b) : PartialQuotient a b 0 (a / b) (a % b) b where
  rem_lt := Nat.mod_lt a hb
  exact := by rw [Nat.pow_zero, Nat.mul_one, Nat.mul_comm (a / b), Nat.div_add_mod]

/-- A round that shifts the remainder up by `up` digits and the divisor down by `down` digits. -/
theorem round {den' : Nat} (h : PartialQuotient a b digits quo rem den) (up down : Nat)
    (hden : den = den' * 2 ^ down) :
    PartialQuotient a b (digits + (up + down)) (quo * 2 ^ (up + down) + rem * 2 ^ up / den')
      (rem * 2 ^ up % den') den' where
  rem_lt := by
    refine Nat.mod_lt _ (Nat.pos_of_ne_zero fun hzero => ?_)
    have := h.rem_lt
    rw [hden, hzero, Nat.zero_mul] at this
    exact Nat.not_lt_zero _ this
  exact := by
    have hdigits : rem * 2 ^ up / den' * den' + rem * 2 ^ up % den' = rem * 2 ^ up :=
      Nat.div_add_mod' _ _
    have hexact := h.exact
    rw [hden] at hexact
    calc a * 2 ^ (digits + (up + down)) * den'
        = a * 2 ^ digits * (den' * 2 ^ down) * 2 ^ up := by ring
      _ = (quo * (den' * 2 ^ down) + rem) * b * 2 ^ up := by rw [hexact]
      _ = (quo * 2 ^ (up + down) * den' + rem * 2 ^ up) * b := by ring
      _ = ((quo * 2 ^ (up + down) + rem * 2 ^ up / den') * den' + rem * 2 ^ up % den') * b := by
        rw [Nat.add_mul _ _ den', Nat.add_assoc, hdigits]

/-- The digits so far are those of the whole quotient. -/
theorem quo_eq (h : PartialQuotient a b digits quo rem den) (hb : 0 < b) :
    quo = a * 2 ^ digits / b := by
  have hden : 0 < den := Nat.zero_lt_of_lt h.rem_lt
  symm
  calc a * 2 ^ digits / b = a * 2 ^ digits * den / (b * den) :=
        (Nat.mul_div_mul_right _ _ hden).symm
    _ = (quo * den + rem) * b / (den * b) := by rw [h.exact, Nat.mul_comm b]
    _ = (quo * den + rem) / den := Nat.mul_div_mul_right _ _ hb
    _ = quo := by
      rw [Nat.add_comm, Nat.add_mul_div_right _ _ hden, Nat.div_eq_of_lt h.rem_lt, Nat.zero_add]

/-- Without a remainder all later digits are zero. -/
theorem finish (h : PartialQuotient a b digits quo 0 den) (hb : 0 < b) (more : Nat) :
    quo * 2 ^ more = a * 2 ^ (digits + more) / b := by
  have hround := h.round more 0 (Nat.mul_one den).symm
  rw [Nat.zero_mul, Nat.zero_div, Nat.zero_mod] at hround
  exact hround.quo_eq hb

end PartialQuotient

end Ns3.Lib
