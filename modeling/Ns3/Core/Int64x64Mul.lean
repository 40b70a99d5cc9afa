import Ns3.Core.Int64x64
import Mathlib.Tactic.Ring

/-!
# Products of fixed-point numbers

`Umul` puts a product together from three partial products. It never aborts: the mask of its test is
zero. A product that does not fit is returned modulo 2^128.
-/

namespace Ns3.Core.Int64x64

/-! ## Words -/

theorem and_hpMaskLo (a : Nat) : a &&& hpMaskLo.toNat = a % 2 ^ 64 :=
  Nat.and_two_pow_sub_one_eq_mod a 64

theorem and_hpMaskHi (a : Nat) : a &&& hpMaskHi.toNat = 0 := Nat.and_zero a

theorem int128_emod (n : Int) : int128 n % 2 ^ 128 = n % 2 ^ 128 := Int.bmod_emod

/-- The magnitude of a value. -/
theorem uint128_abs (x : Int64x64) :
    uint128 (if x.v < 0 then int128 (-x.v) else x.v) = x.v.natAbs := by
  have hlower := x.lower
  have hupper := x.upper
  rw [uint128]
  split
  · rw [int128_emod]
    omega
  · omega

theorem outputSign_eq (x o : Int64x64) : outputSign x o =
    (decide (x.v < 0) != decide (o.v < 0), x.v.natAbs, o.v.natAbs) := by
  have hx := uint128_abs x
  have ho := uint128_abs o
  simp only [outputSign, decide_eq_true_eq, hx, ho]

theorem natAbs_le (x : Int64x64) : x.v.natAbs ≤ 2 ^ 127 := by
  have hlower := x.lower
  have hupper := x.upper
  omega

/-- The values that an `int128_t` has. -/
def Fits (q : Int) : Prop := -2 ^ 127 ≤ q ∧ q < 2 ^ 127

theorem v_ofInt (n : Int) : (ofInt n).v = int128 n := by
  simp only [ofInt]

theorem ofInt_v {q : Int} (hq : Fits q) : (ofInt q).v = q :=
  Int.bmod_eq_of_le (by have := hq.1; omega) (by have := hq.2; omega)

/-- Only the value modulo 2^128 is stored. -/
theorem ofInt_congr {p q : Int} (h : p % 2 ^ 128 = q % 2 ^ 128) : ofInt p = ofInt q := by
  have hmod : int128 p = int128 q := by
    rw [int128, int128, ← Int.emod_bmod (n := 2 ^ 128), ← Int.emod_bmod q]
    exact congrArg (fun r => Int.bmod r (2 ^ 128)) h
  simp only [ofInt, hmod]

/-! ## Signs -/

/-- A magnitude with its sign. -/
def signed (negative : Bool) (n : Nat) : Int := if negative then -n else n

theorem signed_natAbs (x : Int) : signed (decide (x < 0)) x.natAbs = x := by
  by_cases hx : x < 0
  · rw [decide_eq_true hx, signed, if_pos rfl]
    omega
  · rw [decide_eq_false hx, signed, if_neg Bool.false_ne_true]
    omega

theorem natCast_mul_tdiv (m n k : Nat) : ((m : Int) * n).tdiv k = (m * n / k : Nat) := by
  rw [Int.ofNat_tdiv, Int.natCast_mul]

theorem signed_mul_tdiv (p q : Bool) (m n k : Nat) :
    (signed p m * signed q n).tdiv k = signed (p != q) (m * n / k) := by
  have hnat := natCast_mul_tdiv m n k
  cases p <;> cases q <;> simp [signed, hnat]

theorem signed_mul_tdiv_signed (p q : Bool) (m n k : Nat) :
    (signed p m * k).tdiv (signed q n) = signed (p != q) (m * k / n) := by
  have hnat := natCast_mul_tdiv m k n
  cases p <;> cases q <;> simp [signed, hnat]

/-! ## Umul -/

/-- The partial products of two numbers. -/
structure Partial (a b lo mid hi : Nat) : Prop where
  product : a * b = hi * 2 ^ 128 + mid * 2 ^ 64 + lo
  lo_lt : lo < 2 ^ 128
  mid_lt : mid < 2 ^ 128

/-- The run over the partial products, with every mask taken away. -/
theorem umulRun_eq {a b : Nat} (ha : a ≤ 2 ^ 127) (hb : b ≤ 2 ^ 127) :
    ∃ lo mid hi, Partial a b lo mid hi ∧ umulRun a b =
      ⟨some (((lo / 2 ^ 64 + mid % 2 ^ 64) % 2 ^ 128 +
          (mid / 2 ^ 64 + hi % 2 ^ 64) % 2 ^ 128 * 2 ^ 64 % 2 ^ 128) % 2 ^ 128),
        [mid, lo / 2 ^ 64 + mid % 2 ^ 64, mid / 2 ^ 64 + hi % 2 ^ 64,
          (mid / 2 ^ 64 + hi % 2 ^ 64) % 2 ^ 128 * 2 ^ 64,
          (lo / 2 ^ 64 + mid % 2 ^ 64) % 2 ^ 128 +
            (mid / 2 ^ 64 + hi % 2 ^ 64) % 2 ^ 128 * 2 ^ 64 % 2 ^ 128]⟩ := by
  have haH : a / 2 ^ 64 ≤ 2 ^ 63 := by omega
  have hbH : b / 2 ^ 64 ≤ 2 ^ 63 := by omega
  have haL := Nat.mod_lt a (Nat.two_pow_pos 64)
  have hbL := Nat.mod_lt b (Nat.two_pow_pos 64)
  have hcross {u v : Nat} (hu : u < 2 ^ 64) (hv : v ≤ 2 ^ 63) : u * v < 2 ^ 127 :=
    calc u * v ≤ u * 2 ^ 63 := Nat.mul_le_mul_left u hv
      _ < 2 ^ 64 * 2 ^ 63 := Nat.mul_lt_mul_of_pos_right hu (Nat.two_pow_pos 63)
  have hlo : a % 2 ^ 64 * (b % 2 ^ 64) < 2 ^ 64 * 2 ^ 64 :=
    Nat.mul_lt_mul_of_lt_of_lt haL hbL
  have hm₁ := hcross haL hbH
  have hm₂ : a / 2 ^ 64 * (b % 2 ^ 64) < 2 ^ 127 := Nat.mul_comm _ _ ▸ hcross hbL haH
  have hhi : a / 2 ^ 64 * (b / 2 ^ 64) ≤ 2 ^ 63 * 2 ^ 63 := Nat.mul_le_mul haH hbH
  refine ⟨a % 2 ^ 64 * (b % 2 ^ 64), a % 2 ^ 64 * (b / 2 ^ 64) + a / 2 ^ 64 * (b % 2 ^ 64),
    a / 2 ^ 64 * (b / 2 ^ 64), ⟨?_, hlo, by omega⟩, ?_⟩
  · calc a * b = (2 ^ 64 * (a / 2 ^ 64) + a % 2 ^ 64) * (2 ^ 64 * (b / 2 ^ 64) + b % 2 ^ 64) := by
          rw [Nat.div_add_mod, Nat.div_add_mod]
      _ = _ := by ring
  · have hA : a / 2 ^ 64 % 2 ^ 64 = a / 2 ^ 64 := Nat.mod_eq_of_lt (by omega)
    have hB : b / 2 ^ 64 % 2 ^ 64 = b / 2 ^ 64 := Nat.mod_eq_of_lt (by omega)
    have hmid : (a % 2 ^ 64 * (b / 2 ^ 64) + a / 2 ^ 64 * (b % 2 ^ 64)) % 2 ^ 128 =
        a % 2 ^ 64 * (b / 2 ^ 64) + a / 2 ^ 64 * (b % 2 ^ 64) := Nat.mod_eq_of_lt (by omega)
    rw [umulRun, and_hpMaskHi, if_neg (fun h => h rfl)]
    have hlo' := Nat.mod_eq_of_lt (show a % 2 ^ 64 * (b % 2 ^ 64) < 2 ^ 128 from hlo)
    have hm₁' := Nat.mod_eq_of_lt (show a % 2 ^ 64 * (b / 2 ^ 64) < 2 ^ 128 by omega)
    have hm₂' := Nat.mod_eq_of_lt (show a / 2 ^ 64 * (b % 2 ^ 64) < 2 ^ 128 by omega)
    have hhi' := Nat.mod_eq_of_lt (show a / 2 ^ 64 * (b / 2 ^ 64) < 2 ^ 128 by omega)
    simp only [and_hpMaskLo, Nat.shiftRight_eq_div_pow, Nat.shiftLeft_eq, hA, hB, hlo', hm₁', hm₂',
      hhi', hmid]

/-- What is returned is the product, modulo 2^128. -/
theorem umul_eq {a b : Nat} (ha : a ≤ 2 ^ 127) (hb : b ≤ 2 ^ 127) :
    umul a b = some (a * b / 2 ^ 64 % 2 ^ 128) := by
  obtain ⟨lo, mid, hi, ⟨hproduct, hlo, hmid⟩, hrun⟩ := umulRun_eq ha hb
  rw [umul, hrun, hproduct]
  exact congrArg some (by omega)

/-- `Umul` aborts or gives the product, and nothing wraps around on the way. -/
def UmulExact (a b : Nat) : Prop :=
  (umul a b = none ∨ umul a b = some (a * b / 2 ^ 64)) ∧ ∀ s ∈ (umulRun a b).sums, s < 2 ^ 128

theorem umulExact_iff {a b : Nat} (ha : a ≤ 2 ^ 127) (hb : b ≤ 2 ^ 127) :
    UmulExact a b ↔ a * b < 2 ^ 192 := by
  constructor
  · rintro ⟨hnone | hsome, -⟩
    · rw [umul_eq ha hb] at hnone
      cases hnone
    · rw [umul_eq ha hb, Option.some.injEq] at hsome
      omega
  · intro hsmall
    refine ⟨Or.inr ?_, ?_⟩
    · have hquotient : a * b / 2 ^ 64 < 2 ^ 128 := Nat.div_lt_of_lt_mul hsmall
      rw [umul_eq ha hb, Nat.mod_eq_of_lt hquotient]
    · obtain ⟨lo, mid, hi, ⟨hproduct, hlo, hmid⟩, hrun⟩ := umulRun_eq ha hb
      rw [hproduct] at hsmall
      rw [hrun]
      have hhigh : mid / 2 ^ 64 + hi < 2 ^ 64 := by omega
      have hmask : hi % 2 ^ 64 = hi := Nat.mod_eq_of_lt (by omega)
      have hword : (mid / 2 ^ 64 + hi) % 2 ^ 128 = mid / 2 ^ 64 + hi :=
        Nat.mod_eq_of_lt (by omega)
      have hshifted : (mid / 2 ^ 64 + hi) * 2 ^ 64 < 2 ^ 128 :=
        Nat.mul_lt_mul_of_pos_right hhigh (Nat.two_pow_pos 64)
      have hsum : lo / 2 ^ 64 + mid % 2 ^ 64 + (mid / 2 ^ 64 + hi) * 2 ^ 64 < 2 ^ 128 := by omega
      have hlow : lo / 2 ^ 64 + mid % 2 ^ 64 < 2 ^ 128 := (Nat.le_add_right _ _).trans_lt hsum
      simp only [hmask, hword, Nat.mod_eq_of_lt hshifted, Nat.mod_eq_of_lt hlow,
        List.forall_mem_cons]
      refine ⟨hmid, hlow, hhigh.trans (by decide), hshifted, hsum, fun s hs => ?_⟩
      cases hs

/-! ## Mul -/

/-- The truncated product, from the magnitudes. -/
theorem tdiv_eq (x o : Int64x64) : (x.v * o.v).tdiv (2 ^ 64) =
    signed (decide (x.v < 0) != decide (o.v < 0)) (x.v.natAbs * o.v.natAbs / 2 ^ 64) := by
  rw [← signed_mul_tdiv, signed_natAbs, signed_natAbs]
  rfl

/-- `Mul` always stores the product, modulo 2^128. -/
theorem mul_eq (x o : Int64x64) : mul x o = some (ofInt ((x.v * o.v).tdiv (2 ^ 64))) := by
  rw [tdiv_eq, mul, outputSign_eq]
  show (umul x.v.natAbs o.v.natAbs).bind _ = _
  rw [umul_eq x.natAbs_le o.natAbs_le]
  refine congrArg some (ofInt_congr ?_)
  generalize x.v.natAbs * o.v.natAbs / 2 ^ 64 = q
  split
  · rename_i hneg
    rw [hneg, signed, if_pos rfl, uint128]
    omega
  · rename_i hneg
    rw [Bool.eq_false_of_not_eq_true hneg, signed, if_neg Bool.false_ne_true]
    omega

/-- `Mul` aborts, or gives the truncated product; it aborts when that does not fit. -/
def MulExact (x o : Int64x64) : Prop :=
  (Fits ((x.v * o.v).tdiv (2 ^ 64)) →
    mul x o = none ∨ ∃ r, mul x o = some r ∧ r.v = (x.v * o.v).tdiv (2 ^ 64)) ∧
  (¬Fits ((x.v * o.v).tdiv (2 ^ 64)) → mul x o = none)

/-- A bound on the magnitudes: one more is left for negative results. -/
def ProductBound (x o : Int64x64) : Prop :=
  x.v.natAbs * o.v.natAbs < 2 ^ 191 + if x.v < 0 ↔ o.v < 0 then 0 else 2 ^ 64

instance (x o : Int64x64) : Decidable (ProductBound x o) := inferInstanceAs (Decidable (_ < _))

theorem fits_iff (x o : Int64x64) : Fits ((x.v * o.v).tdiv (2 ^ 64)) ↔ ProductBound x o := by
  rw [tdiv_eq, ProductBound, Fits]
  generalize x.v.natAbs * o.v.natAbs = product
  by_cases hx : x.v < 0 <;> by_cases ho : o.v < 0 <;> simp [hx, ho, signed] <;> omega

theorem mulExact_iff (x o : Int64x64) : MulExact x o ↔ ProductBound x o := by
  rw [MulExact, mul_eq, ← fits_iff]
  constructor
  · rintro ⟨-, habort⟩
    by_contra hfits
    cases habort hfits
  · intro hfits
    exact ⟨fun _ => Or.inr ⟨_, rfl, ofInt_v hfits⟩, fun h => absurd hfits h⟩

end Ns3.Core.Int64x64
