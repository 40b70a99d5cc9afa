import Ns3.Core.Int64x64Mul
import Ns3.Lib.LongDivision

/-!
# Quotients of fixed-point numbers

`Udiv` finds the digits behind the point in rounds. At the start of a round the remainder is below
the divisor, so it has a leading zero and the round gives one digit at least. A divisor loses only
its trailing zeros: when digits are still needed, the remainder has its high bit set and is not
below the divisor.
-/

namespace Ns3.Core.Int64x64

open Lib

/-! ## The inner loops -/

theorem and_one_eq_zero (n : Nat) : n &&& 1 = 0 ↔ n % 2 = 0 := by
  rw [Nat.and_one_is_mod]

theorem shiftRight_one (n : Nat) : n >>> 1 = n / 2 := Nat.shiftRight_eq_div_pow n 1

/-- The trailing zeros that are skipped are digits. -/
theorem skipDivisorZeros_spec (left shift den : Nat) : ∃ n den', n ≤ left ∧
    skipDivisorZeros left shift den = (shift + n, den') ∧ den = den' * 2 ^ n := by
  induction left generalizing shift den with
  | zero => exact ⟨0, den, Nat.le_refl 0, rfl, (Nat.mul_one den).symm⟩
  | succ left ih =>
    rw [skipDivisorZeros]
    split
    · rename_i heven
      rw [and_one_eq_zero] at heven
      obtain ⟨n, den', hn, heq, hden⟩ := ih (shift + 1) (den >>> 1)
      refine ⟨n + 1, den', by omega, by rw [heq, Nat.add_assoc, Nat.add_comm 1], ?_⟩
      rw [shiftRight_one] at hden
      rw [Nat.pow_succ, ← Nat.mul_assoc, ← hden]
      omega
    · exact ⟨0, den, Nat.zero_le _, rfl, (Nat.mul_one den).symm⟩

theorem and_highBit_eq_zero {rem : Nat} (hrem : rem < 2 ^ 128) :
    rem &&& 2 ^ 127 = 0 ↔ rem < 2 ^ 127 := by
  rw [Nat.and_two_pow, Nat.testBit_eq_decide_div_mod_eq]
  by_cases hbit : rem / 2 ^ 127 % 2 = 1
  · rw [decide_eq_true hbit]
    exact iff_of_false (by decide) (by omega)
  · rw [decide_eq_false hbit]
    exact iff_of_true (Nat.zero_mul _) (by omega)

/-- The remainder is shifted without a loss, until no digit is needed or its high bit is set. -/
theorem skipRemainderZeros_spec (left shift rem : Nat) (hrem : rem < 2 ^ 128) : ∃ n, n ≤ left ∧
    skipRemainderZeros left shift rem = (shift + n, rem * 2 ^ n) ∧ rem * 2 ^ n < 2 ^ 128 ∧
    (n < left → 2 ^ 127 ≤ rem * 2 ^ n) := by
  induction left generalizing shift rem with
  | zero =>
    refine ⟨0, Nat.le_refl 0, ?_, by omega, fun h => absurd h (Nat.lt_irrefl 0)⟩
    rw [skipRemainderZeros, Nat.pow_zero, Nat.mul_one]
    rfl
  | succ left ih =>
    rw [skipRemainderZeros]
    split
    · rename_i hlow
      rw [and_highBit_eq_zero hrem] at hlow
      have hshift : rem <<< 1 % 2 ^ 128 = rem * 2 := by
        rw [Nat.shiftLeft_eq]
        exact Nat.mod_eq_of_lt (by omega)
      obtain ⟨n, hn, heq, hlt, hhigh⟩ := ih (shift + 1) (rem * 2) (by omega)
      have hpow : rem * 2 ^ (n + 1) = rem * 2 * 2 ^ n := by
        rw [Nat.pow_succ', Nat.mul_assoc]
      refine ⟨n + 1, by omega, ?_, by rw [hpow]; exact hlt, fun h => ?_⟩
      · rw [hshift, heq, hpow, Nat.add_assoc, Nat.add_comm 1]
      · rw [hpow]
        exact hhigh (by omega)
    · rename_i hhigh
      rw [and_highBit_eq_zero hrem] at hhigh
      refine ⟨0, Nat.zero_le _, ?_, by omega, fun _ => by omega⟩
      rw [Nat.pow_zero, Nat.mul_one]
      rfl

/-- Only trailing zeros are cast off from a divisor that is not above the remainder. -/
theorem castOffDivisor_spec (rem left shift den : Nat) (hle : 0 < left → den ≤ rem) :
    ∃ n den', n ≤ left ∧ castOffDivisor rem left shift den = (shift + n, den') ∧
      den = den' * 2 ^ n := by
  induction left generalizing shift den with
  | zero => exact ⟨0, den, Nat.le_refl 0, rfl, (Nat.mul_one den).symm⟩
  | succ left ih =>
    have hnot : ¬rem < den := Nat.not_lt.mpr (hle (Nat.succ_pos left))
    rw [castOffDivisor]
    split
    · rename_i hcast
      have heven := (and_one_eq_zero den).mp (hcast.resolve_right hnot)
      obtain ⟨n, den', hn, heq, hden⟩ := ih (shift + 1) (den >>> 1) fun _ => by
        rw [shiftRight_one]
        omega
      refine ⟨n + 1, den', by omega, by rw [heq, Nat.add_assoc, Nat.add_comm 1], ?_⟩
      rw [shiftRight_one] at hden
      rw [Nat.pow_succ, ← Nat.mul_assoc, ← hden]
      omega
    · exact ⟨0, den, Nat.zero_le _, rfl, (Nat.mul_one den).symm⟩

/-! ## Udiv -/

/-- At the start of a round: `quo` is the quotient so far before it is reduced, and `shift` zeros
have been taken from the divisor. -/
structure RoundStart (a b digis shift quo rem den result : Nat) : Prop where
  digits : PartialQuotient a b digis quo rem (den * 2 ^ shift)
  den_le : den * 2 ^ shift ≤ 2 ^ 127
  shift_le : digis + shift ≤ 64
  result_eq : result = quo % 2 ^ 128

/-- One round. -/
theorem RoundStart.round {a b digis shift quo rem den result : Nat}
    (h : RoundStart a b digis shift quo rem den result) (hdigis : digis < 64) :
    ∃ up down den',
      skipRemainderZeros (64 - (digis + shift)) shift rem = (shift + up, rem * 2 ^ up) ∧
      castOffDivisor (rem * 2 ^ up) (64 - (digis + (shift + up))) (shift + up) den =
        (shift + up + down, den') ∧
      0 < shift + up ∧ den' ≠ 0 ∧
      RoundStart a b (digis + (shift + up + down)) 0
        (quo * 2 ^ (shift + up + down) + rem * 2 ^ up / den') (rem * 2 ^ up % den') den'
        ((result <<< (shift + up + down) % 2 ^ 128 + rem * 2 ^ up / den') % 2 ^ 128) := by
  have hrem := h.digits.rem_lt
  have hden := h.den_le
  have hshift := h.shift_le
  obtain ⟨up, hup, hskip, hlt, hhigh⟩ :=
    skipRemainderZeros_spec (64 - (digis + shift)) shift rem (by omega)
  have hdenle : den ≤ 2 ^ 127 :=
    (Nat.le_mul_of_pos_right den (Nat.two_pow_pos shift)).trans hden
  obtain ⟨down, den', hdown, hcast, hden'⟩ := castOffDivisor_spec (rem * 2 ^ up)
    (64 - (digis + (shift + up))) (shift + up) den fun hleft =>
      hdenle.trans (hhigh (by omega))
  have hpos : 0 < shift + up := by
    by_contra hzero
    have hnot := hhigh (by omega)
    rw [show up = 0 by omega, Nat.pow_zero, Nat.mul_one] at hnot
    omega
  have hfactor : den * 2 ^ shift = den' * 2 ^ (down + shift) := by
    rw [hden', Nat.pow_add, Nat.mul_assoc]
  have hround := h.digits.round up (down + shift) hfactor
  have hsum : up + (down + shift) = shift + up + down := by omega
  rw [hsum] at hround
  refine ⟨up, down, den', hskip, hcast, hpos, Nat.ne_zero_of_lt hround.rem_lt, ?_, ?_, ?_, ?_⟩
  · rw [Nat.pow_zero, Nat.mul_one]
    exact hround
  · rw [Nat.pow_zero, Nat.mul_one]
    refine le_trans ?_ hdenle
    rw [hden']
    exact Nat.le_mul_of_pos_right den' (Nat.two_pow_pos down)
  · omega
  · rw [h.result_eq, Nat.shiftLeft_eq, Nat.mod_mul_mod, Nat.mod_add_mod]

/-- Where the loop ends, the digits that are missing are zeros. -/
theorem RoundStart.finish {a b digis shift quo rem den result : Nat}
    (h : RoundStart a b digis shift quo rem den result) (hb : 0 < b)
    (hend : ¬(digis < 64 ∧ rem ≠ 0)) :
    (if digis < 64 then result <<< (64 - digis) % 2 ^ 128 else result) =
      a * 2 ^ 64 / b % 2 ^ 128 := by
  have hshift := h.shift_le
  split
  · rename_i hdigis
    obtain rfl : rem = 0 := by
      by_contra hrem
      exact hend ⟨hdigis, hrem⟩
    have hquo := h.digits.finish hb (64 - digis)
    rw [show digis + (64 - digis) = 64 by omega] at hquo
    rw [h.result_eq, Nat.shiftLeft_eq, Nat.mod_mul_mod, hquo]
  · rename_i hdigis
    obtain rfl : digis = 64 := by omega
    rw [h.result_eq, h.digits.quo_eq hb]

theorem remainderLoop_spec {a b : Nat} (hb : 0 < b) (fuel : Nat)
    {digis shift quo rem den result : Nat}
    (h : RoundStart a b digis shift quo rem den result) (hfuel : 64 - digis ≤ fuel) :
    ∃ digis' result', remainderLoop fuel digis shift rem den result = some (digis', result') ∧
      (if digis' < 64 then result' <<< (64 - digis') % 2 ^ 128 else result') =
        a * 2 ^ 64 / b % 2 ^ 128 := by
  induction fuel generalizing digis shift quo rem den result with
  | zero =>
    have hend : ¬(digis < 64 ∧ rem ≠ 0) := by omega
    exact ⟨digis, result, if_neg hend, h.finish hb hend⟩
  | succ fuel ih =>
    by_cases hloop : digis < 64 ∧ rem ≠ 0
    · obtain ⟨up, down, den', hskip, hcast, hpos, hden', hnext⟩ := h.round hloop.1
      obtain ⟨digis', result', hrun, hresult⟩ := ih hnext (by omega)
      refine ⟨digis', result', ?_, hresult⟩
      rw [remainderLoop, if_pos hloop]
      simp only [hskip, hcast, if_neg hden']
      exact hrun
    · exact ⟨digis, result, if_neg hloop, h.finish hb hloop⟩

/-- `Udiv` ends after 64 rounds at most, and never divides by zero. -/
theorem udiv_eq {a b : Nat} (hpos : 0 < b) (hb : b ≤ 2 ^ 127) (ha : a < 2 ^ 128) {fuel : Nat}
    (hfuel : 64 ≤ fuel) : udiv fuel a b = some (a * 2 ^ 64 / b % 2 ^ 128) := by
  obtain ⟨n, den, hn, hskip, hden⟩ := skipDivisorZeros_spec 64 0 b
  rw [Nat.zero_add] at hskip
  have hstart : RoundStart a b 0 n (a / b) (a % b) den (a / b) := by
    refine ⟨hden ▸ PartialQuotient.start a hpos, hden ▸ hb, by omega, ?_⟩
    exact (Nat.mod_eq_of_lt ((Nat.div_le_self a b).trans_lt ha)).symm
  obtain ⟨digis, result, hrun, hresult⟩ := remainderLoop_spec hpos fuel hstart (by omega)
  rw [udiv, if_neg (Nat.ne_of_gt hpos)]
  simp only [hskip, hrun, hresult]

/-- `Udiv` returns the quotient. -/
def UdivExact (fuel a b : Nat) : Prop :=
  0 < b → udiv fuel a b = some (a * 2 ^ 64 / b % 2 ^ 128)

/-! ## Div -/

theorem div_tdiv_eq (x o : Int64x64) : (x.v * 2 ^ 64).tdiv o.v =
    signed (decide (x.v < 0) != decide (o.v < 0)) (x.v.natAbs * 2 ^ 64 / o.v.natAbs) := by
  rw [← signed_mul_tdiv_signed, signed_natAbs, signed_natAbs]
  rfl

/-- `Div` stores the truncated quotient, modulo 2^128. -/
theorem div_eq (x o : Int64x64) (ho : o.v ≠ 0) {fuel : Nat} (hfuel : 64 ≤ fuel) :
    div fuel x o = some (ofInt ((x.v * 2 ^ 64).tdiv o.v)) := by
  have hx := x.natAbs_le
  rw [div_tdiv_eq, div, outputSign_eq]
  show (udiv fuel x.v.natAbs o.v.natAbs).bind _ = _
  rw [udiv_eq (Int.natAbs_pos.mpr ho) o.natAbs_le (by omega) hfuel]
  refine congrArg some (ofInt_congr ?_)
  generalize x.v.natAbs * 2 ^ 64 / o.v.natAbs = q
  split
  · rename_i hneg
    have hq := int128_emod (q % 2 ^ 128 : Nat)
    rw [int128_emod, hneg, signed, if_pos rfl]
    omega
  · rename_i hneg
    rw [int128_emod, Bool.eq_false_of_not_eq_true hneg, signed, if_neg Bool.false_ne_true]
    omega

/-- `Div` gives the truncated quotient when that fits. -/
def DivExact (fuel : Nat) (x o : Int64x64) : Prop :=
  o.v ≠ 0 → Fits ((x.v * 2 ^ 64).tdiv o.v) →
    ∃ r, div fuel x o = some r ∧ r.v = (x.v * 2 ^ 64).tdiv o.v

theorem divExact (x o : Int64x64) {fuel : Nat} (hfuel : 64 ≤ fuel) : DivExact fuel x o :=
  fun ho hfits => ⟨_, div_eq x o ho hfuel, ofInt_v hfits⟩

/-! ## Both operations -/

/-- Quotients are exact. Products are exact when they fit, and only then. -/
theorem arithmetic_exact_iff (fuel : Nat) (hfuel : 64 ≤ fuel) (a b : Nat) (ha : a ≤ 2 ^ 127)
    (hb : b ≤ 2 ^ 127) (x o : Int64x64) :
    (UdivExact fuel a b ∧ UmulExact a b ∧ MulExact x o ∧ DivExact fuel x o) ↔
      a * b < 2 ^ 192 ∧ ProductBound x o := by
  have hudiv : UdivExact fuel a b := fun hpos => udiv_eq hpos hb (by omega) hfuel
  rw [umulExact_iff ha hb, mulExact_iff]
  constructor
  · rintro ⟨-, humul, hmul, -⟩
    exact ⟨humul, hmul⟩
  · rintro ⟨humul, hmul⟩
    exact ⟨hudiv, humul, hmul, divExact x o hfuel⟩

/-- Three and two, and minus three and a half and two. -/
theorem arithmetic_exact_iff_halves :
    UdivExact 64 (3 * 2 ^ 64) (2 ^ 65) ∧ UmulExact (3 * 2 ^ 64) (2 ^ 65) ∧
      MulExact (ofParts (-4) (2 ^ 63)) (ofParts 2 0) ∧
      DivExact 64 (ofParts (-4) (2 ^ 63)) (ofParts 2 0) :=
  (arithmetic_exact_iff 64 (Nat.le_refl 64) (3 * 2 ^ 64) (2 ^ 65) (by decide) (by decide)
    (ofParts (-4) (2 ^ 63)) (ofParts 2 0)).mpr ⟨by decide, by decide⟩

/-- The product of 2^32 with itself is zero, and that of 2^32 and 2^31 is negative. Nothing is
aborted. -/
theorem mul_not_exact :
    umul (2 ^ 127) (2 ^ 127) = some 0 ∧ ¬UmulExact (2 ^ 127) (2 ^ 127) ∧
      mul (ofParts (2 ^ 32) 0) (ofParts (2 ^ 32) 0) = some (ofParts 0 0) ∧
      ¬MulExact (ofParts (2 ^ 32) 0) (ofParts (2 ^ 32) 0) ∧
      mul (ofParts (2 ^ 32) 0) (ofParts (2 ^ 31) 0) = some (ofParts (-2 ^ 63) 0) ∧
      ¬MulExact (ofParts (2 ^ 32) 0) (ofParts (2 ^ 31) 0) := by
  refine ⟨by decide, ?_, by decide, ?_, by decide, ?_⟩
  · rw [umulExact_iff (by decide) (by decide)]
    decide
  · rw [mulExact_iff]
    decide
  · rw [mulExact_iff]
    decide

end Ns3.Core.Int64x64
