import Ns3.Core.Int64x64Div

/-!
# Division by a stored inverse

`Invert` gives 2^128 / v, rounded up. A number without a fraction has no low partial products with
it, so `UmulByInvert` drops nothing but the digits behind the point. Below 2^63 the error of the
inverse does not reach the next multiple of v.
-/

namespace Ns3.Core.Int64x64

/-! ## The inverse -/

/-- 2^128 / v, rounded up. -/
def ceilInverse (v : Nat) : Nat := (2 ^ 128 + v - 1) / v

variable {v : Nat}

/-- What is rounded up is less than v. -/
theorem mul_ceilInverse (hv : 0 < v) : ∃ e, e < v ∧ v * ceilInverse v = 2 ^ 128 + e := by
  have hdiv := Nat.div_add_mod (2 ^ 128 + v - 1) v
  have hmod := Nat.mod_lt (2 ^ 128 + v - 1) hv
  have hle : 2 ^ 128 ≤ v * ceilInverse v := by
    rw [ceilInverse]
    omega
  refine ⟨v * ceilInverse v - 2 ^ 128, ?_, by omega⟩
  rw [ceilInverse] at hle ⊢
  omega

theorem ceilInverse_le (hv : 1 < v) : ceilInverse v ≤ 2 ^ 127 := by
  rw [ceilInverse, Nat.div_le_iff_le_mul_add_pred (Nat.zero_lt_of_lt hv)]
  have := Nat.mul_le_mul_right (2 ^ 127) hv
  omega

theorem ceilInverse_ge (hv : 0 < v) (hlt : v < 2 ^ 63) : 2 ^ 65 ≤ ceilInverse v := by
  rw [ceilInverse, Nat.le_div_iff_mul_le hv]
  have := Nat.mul_le_mul_left (2 ^ 65) (Nat.le_of_lt hlt)
  omega

/-- The floor that `Udiv` gives, and the test product on it. -/
theorem ceilInverse_eq (hv : 0 < v) :
    ceilInverse v = if v * (2 ^ 128 / v) = 2 ^ 128 then 2 ^ 128 / v else 2 ^ 128 / v + 1 := by
  have hdiv := Nat.div_add_mod (2 ^ 128) v
  have hmod := Nat.mod_lt (2 ^ 128) hv
  have hsum : 2 ^ 128 + v - 1 = v * (2 ^ 128 / v) + (2 ^ 128 % v + v - 1) := by omega
  rw [ceilInverse, hsum, Nat.mul_add_div hv]
  split
  · have hnone : (2 ^ 128 % v + v - 1) / v = 0 := Nat.div_eq_of_lt (by omega)
    rw [hnone, Nat.add_zero]
  · have hone : (2 ^ 128 % v + v - 1) / v = 1 := Nat.div_eq_of_lt_le (by omega) (by omega)
    rw [hone]

/-- The error of the inverse does not reach the next integer. -/
theorem mul_ceilInverse_div {n : Nat} (hn : n < 2 ^ 63) (hv : 0 < v) (hlt : v < 2 ^ 63) :
    n * ceilInverse v / 2 ^ 128 = n / v := by
  obtain ⟨e, he, hmul⟩ := mul_ceilInverse hv
  have hdiv := Nat.div_add_mod n v
  have hmod := Nat.mod_lt n hv
  have herror : n * e < 2 ^ 128 :=
    calc n * e ≤ 2 ^ 63 * 2 ^ 63 := Nat.mul_le_mul hn.le (he.trans hlt).le
      _ < 2 ^ 128 := by decide
  have hscaled : v * (n * ceilInverse v) = n * 2 ^ 128 + n * e := by
    rw [Nat.mul_left_comm, hmul, Nat.mul_add]
  refine Nat.div_eq_of_lt_le ?_ ?_
  · refine Nat.le_of_mul_le_mul_left ?_ hv
    rw [hscaled, ← Nat.mul_assoc]
    exact (Nat.mul_le_mul_right _ (Nat.mul_div_le n v)).trans (Nat.le_add_right _ _)
  · refine Nat.lt_of_mul_lt_mul_left (a := v) ?_
    rw [hscaled, ← Nat.mul_assoc, Nat.mul_succ]
    calc n * 2 ^ 128 + n * e < n * 2 ^ 128 + 2 ^ 128 := Nat.add_lt_add_left herror _
      _ = (n + 1) * 2 ^ 128 := (Nat.succ_mul _ _).symm
      _ ≤ (v * (n / v) + v) * 2 ^ 128 := Nat.mul_le_mul_right _ (by omega)

/-! ## UmulByInvert -/

/-- A number without a fraction: only digits behind the point are dropped. -/
theorem umulByInvert_eq {n b : Nat} (hn : n < 2 ^ 63) (hb : b ≤ 2 ^ 127) :
    umulByInvert (n * 2 ^ 64) b = n * b / 2 ^ 64 := by
  have hbh : b / 2 ^ 64 ≤ 2 ^ 63 := by omega
  have hhi : n * (b / 2 ^ 64) ≤ 2 ^ 63 * 2 ^ 63 := Nat.mul_le_mul hn.le hbh
  have hmid : n * (b % 2 ^ 64) ≤ 2 ^ 63 * 2 ^ 64 :=
    Nat.mul_le_mul hn.le (Nat.mod_lt b (Nat.two_pow_pos 64)).le
  have hproduct : n * b = n * (b / 2 ^ 64) * 2 ^ 64 + n * (b % 2 ^ 64) := by
    rw [Nat.mul_assoc, ← Nat.mul_add, Nat.div_add_mod']
  have hah : n * 2 ^ 64 / 2 ^ 64 = n := Nat.mul_div_cancel n (Nat.two_pow_pos 64)
  have hal : n * 2 ^ 64 % 2 ^ 64 = 0 := Nat.mul_mod_left n _
  simp only [umulByInvert, and_hpMaskLo, Nat.shiftRight_eq_div_pow, hah, hal, Nat.zero_mul,
    Nat.zero_mod, Nat.add_zero]
  rw [hproduct]
  omega

/-! ## Invert -/

/-- The value with an integer part and no fraction. -/
theorem ofParts_v {x : Int} (hlower : -2 ^ 63 ≤ x) (hupper : x < 2 ^ 63) :
    (ofParts x 0).v = x * 2 ^ 64 := by
  have hfits : Fits (x * 2 ^ 64) := by
    constructor <;> omega
  have hhi : int128 (x <<< (64 : Nat)) = x * 2 ^ 64 := by
    rw [Int.shiftLeft_eq]
    exact ofInt_v hfits
  rw [ofParts, hhi, Int.natCast_zero, Int.add_zero, ofInt_v hfits]

theorem uint128_ofInt {c : Nat} (hc : c < 2 ^ 128) : uint128 (ofInt c).v = c := by
  have hupper : (c : Int) < 2 ^ 128 := by exact_mod_cast hc
  rw [uint128, v_ofInt, int128_emod, Int.emod_eq_of_lt (Int.natCast_nonneg c) hupper,
    Int.toNat_natCast]

theorem mulByInvert_ofParts {x : Int} (hlower : -2 ^ 63 < x) (hupper : x < 2 ^ 63) {c : Nat}
    (hc : c ≤ 2 ^ 127) : (ofParts x 0).mulByInvert (ofInt c) =
      ofInt (signed (decide (x < 0)) (x.natAbs * c / 2 ^ 64)) := by
  have hv := ofParts_v hlower.le hupper
  have habs := uint128_abs (ofParts x 0)
  have hnat : (ofParts x 0).v.natAbs = x.natAbs * 2 ^ 64 := by
    rw [hv, Int.natAbs_mul]
    rfl
  have hneg : (ofParts x 0).v < 0 ↔ x < 0 := by omega
  have hproduct := umulByInvert_eq (n := x.natAbs) (by omega) hc
  have hbound : x.natAbs * c ≤ 2 ^ 63 * 2 ^ 127 := Nat.mul_le_mul (by omega) hc
  rw [hnat] at habs
  simp only [mulByInvert]
  rw [habs, uint128_ofInt (show c < 2 ^ 128 by omega), hproduct]
  refine ofInt_congr ?_
  simp only [hneg]
  split
  · rename_i hx
    rw [decide_eq_true hx, signed, if_pos rfl, uint128]
    omega
  · rename_i hx
    rw [decide_eq_false hx, signed, if_neg Bool.false_ne_true]

theorem invert_eq (hv : 1 < v) (hlt : v < 2 ^ 63) {fuel : Nat} (hfuel : 64 ≤ fuel) :
    invert fuel v = some (ofInt (ceilInverse v)) := by
  have hpos : 0 < v := Nat.zero_lt_of_lt hv
  have hfloor : 2 ^ 128 / v ≤ 2 ^ 127 := by
    refine (Nat.div_le_div_left hv (by decide : 0 < 2)).trans ?_
    decide
  have hquotient : udiv fuel (1 <<< 64) v = some (2 ^ 128 / v) := by
    rw [udiv_eq hpos (hlt.le.trans (by decide)) (by decide) hfuel]
    exact congrArg some (Nat.mod_eq_of_lt (hfloor.trans_lt (by decide)))
  have hint : Int.bmod v (2 ^ 64) = v := Int.bmod_eq_of_le (by omega) (by omega)
  have htmp := mulByInvert_ofParts (x := v) (by omega) (by omega) hfloor
  have hle : v * (2 ^ 128 / v) ≤ 2 ^ 128 := Nat.mul_div_le _ _
  have hhigh : (ofInt (v * (2 ^ 128 / v) / 2 ^ 64 : Nat)).getHigh = 1 ↔
      v * (2 ^ 128 / v) = 2 ^ 128 := by
    have hfits : Fits (v * (2 ^ 128 / v) / 2 ^ 64 : Nat) := by
      constructor <;> omega
    rw [getHigh, ofInt_v hfits, Int.shiftRight_eq_div_pow,
      Int.bmod_eq_of_le (by omega) (by omega)]
    omega
  rw [decide_eq_false (by omega : ¬(v : Int) < 0), signed, if_neg Bool.false_ne_true,
    Int.natAbs_natCast] at htmp
  rw [invert, hquotient]
  show some (if ((ofParts (Int.bmod v (2 ^ 64)) 0).mulByInvert
    (ofInt (2 ^ 128 / v : Nat))).getHigh ≠ 1 then _ else _) = _
  rw [hint, htmp]
  simp only [ne_eq, hhigh]
  rw [ceilInverse_eq hpos]
  split
  · refine congrArg some (ofInt_congr ?_)
    rw [v_ofInt, ← Int.emod_add_emod, int128_emod, Int.emod_add_emod, Int.natCast_add,
      Int.natCast_one]
  · rename_i heq
    rw [if_pos (not_not.mp heq)]

/-! ## Division -/

/-- The magnitude of the result, and its sign. -/
theorem mulByInvert_ceilInverse (hv : 1 < v) (hlt : v < 2 ^ 63) {x : Int} (hlower : -2 ^ 63 < x)
    (hupper : x < 2 ^ 63) : ∃ r : Nat, r / 2 ^ 64 = x.natAbs / v ∧ (0 < x.natAbs → 0 < r) ∧
      (x.natAbs = 0 → r = 0) ∧
      ((ofParts x 0).mulByInvert (ofInt (ceilInverse v))).v = signed (decide (x < 0)) r := by
  have hpos : 0 < v := Nat.zero_lt_of_lt hv
  have hle := ceilInverse_le hv
  have hge := ceilInverse_ge hpos hlt
  have hdiv := mul_ceilInverse_div (n := x.natAbs) (by omega) hpos hlt
  have hproduct : x.natAbs * ceilInverse v ≤ 2 ^ 63 * 2 ^ 127 := Nat.mul_le_mul (by omega) hle
  refine ⟨x.natAbs * ceilInverse v / 2 ^ 64, ?_, ?_, ?_, ?_⟩
  · rw [← hdiv, Nat.div_div_eq_div_mul, ← Nat.pow_add]
  · intro hx
    have := Nat.mul_le_mul hx hge
    omega
  · intro hx
    rw [hx, Nat.zero_mul, Nat.zero_div]
  · rw [mulByInvert_ofParts hlower hupper hle, ofInt_v]
    rw [signed]
    constructor <;> split <;> omega

theorem natAbs_signed (negative : Bool) (n : Nat) : (signed negative n).natAbs = n := by
  cases negative
  · exact Int.natAbs_natCast n
  · exact (Int.natAbs_neg _).trans (Int.natAbs_natCast n)

theorem getInt_eq {x : Int64x64} {negative : Bool} {r : Nat} (hx : x.v = signed negative r)
    (hr : r / 2 ^ 64 < 2 ^ 63) : x.getInt = signed negative (r / 2 ^ 64) := by
  have habs := uint128_abs x
  have hsmall : Int.bmod (r / 2 ^ 64 : Nat) (2 ^ 64) = (r / 2 ^ 64 : Nat) :=
    Int.bmod_eq_of_le (by omega) (by omega)
  have hminus : Int.bmod (-(r / 2 ^ 64 : Nat)) (2 ^ 64) = -(r / 2 ^ 64 : Nat) :=
    Int.bmod_eq_of_le (by omega) (by omega)
  rw [hx, natAbs_signed, ← hx] at habs
  simp only [getInt]
  rw [habs, Nat.shiftRight_eq_div_pow, hsmall, hminus]
  cases negative
  · rw [if_neg (by rw [hx, signed, if_neg Bool.false_ne_true]; omega)]
    rfl
  · by_cases hzero : x.v < 0
    · rw [if_pos hzero]
      rfl
    · have hr : r = 0 := by
        rw [hx, signed, if_pos rfl] at hzero
        omega
      rw [if_neg hzero, hr]
      rfl

/-- Multiplication by the inverse is the integer division. -/
theorem mulByInvert_invert (fuel : Nat) (hfuel : 64 ≤ fuel) (v : Nat) (hv : 1 < v)
    (hlt : v < 2 ^ 63) (x : Int) (hlower : -2 ^ 63 < x) (hupper : x < 2 ^ 63) :
    ∃ inv, invert fuel v = some inv ∧
      ((ofParts x 0).mulByInvert inv).v.natAbs / 2 ^ 64 = x.natAbs / v ∧
      ((ofParts x 0).mulByInvert inv).v.sign = x.sign ∧
      ((ofParts x 0).mulByInvert inv).getInt = x.tdiv v := by
  refine ⟨_, invert_eq hv hlt hfuel, ?_⟩
  obtain ⟨r, hdiv, hpos, hzero, hr⟩ := mulByInvert_ceilInverse hv hlt hlower hupper
  have hquotient : x.natAbs / v ≤ x.natAbs := Nat.div_le_self _ _
  have hint := getInt_eq hr (by omega)
  rw [hr, hint, hdiv, natAbs_signed]
  refine ⟨hdiv, ?_, ?_⟩
  · rcases Int.lt_trichotomy x 0 with hx | rfl | hx
    · rw [decide_eq_true hx, signed, if_pos rfl, Int.sign_eq_neg_one_of_neg hx,
        Int.sign_eq_neg_one_of_neg (by have := hpos (by omega); omega)]
    · rw [hzero rfl]
      rfl
    · rw [decide_eq_false (Int.not_lt.mpr hx.le), signed, if_neg Bool.false_ne_true,
        Int.sign_eq_one_of_pos hx, Int.sign_eq_one_of_pos (by have := hpos (by omega); omega)]
  · conv => rhs; rw [← signed_natAbs x]
    cases decide (x < 0)
    · exact Int.ofNat_tdiv _ _
    · rw [signed, signed, if_pos rfl, if_pos rfl, Int.neg_tdiv, Int.ofNat_tdiv]

/-- Minus ten to the eighteen, divided by a thousand million. -/
theorem mulByInvert_invert_billion : ∃ inv, invert 64 (10 ^ 9) = some inv ∧
    ((ofParts (-10 ^ 18) 0).mulByInvert inv).v.natAbs / 2 ^ 64 = 10 ^ 9 ∧
    ((ofParts (-10 ^ 18) 0).mulByInvert inv).getInt = -10 ^ 9 := by
  obtain ⟨inv, hinv, habs, -, hint⟩ := mulByInvert_invert 64 (Nat.le_refl 64) (10 ^ 9) (by decide)
    (by decide) (-10 ^ 18) (by decide) (by decide)
  exact ⟨inv, hinv, habs, hint⟩

end Ns3.Core.Int64x64
