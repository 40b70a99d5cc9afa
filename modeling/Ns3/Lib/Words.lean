import Mathlib.Data.Nat.Bitwise
import Mathlib.Data.List.Basic

/-!
# A number in words

The words of `w` bits that hold a number, the lowest ones first. A field is put above the number by
at most two words, and taken from below a given bit by at most two.
-/

namespace Ns3.Lib

/-- The words of `w` bits hold the number. -/
def Words (w : ℕ) (words : List ℕ) (n : ℕ) : Prop :=
  ∀ i j, (words.getD i 0).testBit j = (decide (j < w) && n.testBit (w * i + j))

variable {w n x k : ℕ} {words init : List ℕ} {back : ℕ}

theorem words_nil : Words w [] 0 := by
  intro i j
  rw [List.getD_nil, Nat.zero_testBit, Nat.zero_testBit, Bool.and_false]

/-- No bit of the number is behind its words. -/
theorem testBit_of_lt (hlt : n < 2 ^ (w * words.length)) {i j : ℕ} (hi : words.length ≤ i) :
    n.testBit (w * i + j) = false := by
  apply Nat.testBit_lt_two_pow
  refine hlt.trans_le (Nat.pow_le_pow_right (by decide) ?_)
  exact (Nat.mul_le_mul_left w hi).trans (Nat.le_add_right _ _)

theorem getD_append_length {y : ℕ} {rest : List ℕ} :
    (init ++ y :: rest).getD init.length 0 = y := by
  rw [List.getD_append_right _ _ _ _ le_rfl, Nat.sub_self]
  rfl

/-- A new word behind the others. -/
theorem Words.append (h : Words w words n) (hlt : n < 2 ^ (w * words.length)) (hx : x < 2 ^ w) :
    Words w (words ++ [x]) (n ||| x <<< (w * words.length)) := by
  intro i j
  rw [Nat.testBit_or, Nat.testBit_shiftLeft]
  rcases lt_trichotomy i words.length with hi | rfl | hi
  · rw [List.getD_append _ _ _ _ hi, h i j]
    by_cases hj : j < w
    · have hlow : w * i + j < w * words.length := by
        calc w * i + j < w * i + w := by omega
          _ = w * (i + 1) := (Nat.mul_succ w i).symm
          _ ≤ w * words.length := Nat.mul_le_mul_left w hi
      rw [decide_eq_false (not_le.mpr hlow), Bool.false_and, Bool.or_false]
    · rw [decide_eq_false hj, Bool.false_and, Bool.false_and]
  · rw [getD_append_length, testBit_of_lt hlt le_rfl, Bool.false_or,
      decide_eq_true (Nat.le_add_right _ _), Bool.true_and, Nat.add_sub_cancel_left]
    by_cases hj : j < w
    · rw [decide_eq_true hj, Bool.true_and]
    · rw [decide_eq_false hj, Bool.false_and]
      exact Nat.testBit_lt_two_pow (hx.trans_le (Nat.pow_le_pow_right (by decide) (not_lt.mp hj)))
  · have hle : w * words.length + w ≤ w * i := by
      rw [← Nat.mul_succ]
      exact Nat.mul_le_mul_left w hi
    rw [List.getD_append_right _ _ _ _ hi.le, testBit_of_lt hlt hi.le, Bool.false_or]
    have hnone : ([x] : List ℕ).getD (i - words.length) 0 = 0 := by
      obtain ⟨d, hd⟩ := Nat.exists_eq_add_one.mpr (Nat.sub_pos_of_lt hi)
      rw [hd]
      rfl
    have hhigh : x.testBit (w * i + j - w * words.length) = false := by
      apply Nat.testBit_lt_two_pow
      exact hx.trans_le (Nat.pow_le_pow_right (by decide) (by omega))
    rw [hnone, Nat.zero_testBit, hhigh, Bool.and_false, Bool.and_false]

/-- Bits that are put into the last word. -/
theorem Words.or_back (h : Words w (init ++ [back]) n) (hx : x < 2 ^ w) :
    Words w (init ++ [x ||| back]) (n ||| x <<< (w * init.length)) := by
  intro i j
  have hij := h i j
  rw [Nat.testBit_or, Nat.testBit_shiftLeft]
  rcases lt_trichotomy i init.length with hi | rfl | hi
  · rw [List.getD_append _ _ _ _ hi] at hij ⊢
    rw [hij]
    by_cases hj : j < w
    · have hlow : w * i + j < w * init.length := by
        calc w * i + j < w * i + w := by omega
          _ = w * (i + 1) := (Nat.mul_succ w i).symm
          _ ≤ w * init.length := Nat.mul_le_mul_left w hi
      rw [decide_eq_false (not_le.mpr hlow), Bool.false_and, Bool.or_false]
    · rw [decide_eq_false hj, Bool.false_and, Bool.false_and]
  · rw [getD_append_length] at hij ⊢
    rw [Nat.testBit_or, hij, decide_eq_true (Nat.le_add_right _ _), Bool.true_and,
      Nat.add_sub_cancel_left]
    by_cases hj : j < w
    · rw [decide_eq_true hj, Bool.true_and, Bool.true_and, Bool.or_comm]
    · rw [decide_eq_false hj, Bool.false_and, Bool.false_and, Bool.or_false]
      exact Nat.testBit_lt_two_pow (hx.trans_le (Nat.pow_le_pow_right (by decide) (not_lt.mp hj)))
  · have hle : w * init.length + w ≤ w * i := by
      rw [← Nat.mul_succ]
      exact Nat.mul_le_mul_left w hi
    have hnone : ∀ y : ℕ, (init ++ [y]).getD i 0 = 0 := by
      intro y
      obtain ⟨d, hd⟩ := Nat.exists_eq_add_one.mpr (Nat.sub_pos_of_lt hi)
      rw [List.getD_append_right _ _ _ _ hi.le, hd]
      rfl
    have hhigh : x.testBit (w * i + j - w * init.length) = false := by
      apply Nat.testBit_lt_two_pow
      exact hx.trans_le (Nat.pow_le_pow_right (by decide) (by omega))
    rw [hnone, Nat.zero_testBit] at hij ⊢
    rw [hhigh, Bool.and_false, Bool.or_false, hij]

/-- A word of zeros behind the others. -/
theorem Words.append_zero (h : Words w words n) (hlt : n < 2 ^ (w * words.length)) :
    Words w (words ++ [0]) n := by
  have happend := h.append hlt (Nat.two_pow_pos w)
  rwa [Nat.zero_shiftLeft, Nat.or_zero] at happend

/-- The field at the bit `k`, in a word that has it all. -/
theorem Words.field (h : Words w words n) {i m : ℕ} (hk : k ≤ m) (hm : m ≤ w) :
    (words.getD i 0 <<< (w - m) % 2 ^ w) >>> (w - k) = n >>> (w * i + (m - k)) % 2 ^ k := by
  apply Nat.eq_of_testBit_eq
  intro j
  rw [Nat.testBit_shiftRight, Nat.testBit_mod_two_pow, Nat.testBit_shiftLeft, h i,
    Nat.testBit_mod_two_pow, Nat.testBit_shiftRight]
  by_cases hj : j < k
  · have hsub : w - k + j - (w - m) = m - k + j := by omega
    rw [hsub, decide_eq_true (by omega : w - k + j < w),
      decide_eq_true (by omega : w - k + j ≥ w - m), decide_eq_true (by omega : m - k + j < w),
      decide_eq_true hj, Nat.add_assoc]
    rfl
  · rw [decide_eq_false (by omega : ¬w - k + j < w), decide_eq_false hj, Bool.false_and,
      Bool.false_and]

/-- A field over two words: its highest `m` bits are the lowest ones of the upper word. -/
theorem Words.field_span (h : Words w words n) {i m : ℕ} (hm : m < k) (hk : k ≤ w) :
    (words.getD (i + 1) 0 <<< (w - m) % 2 ^ w) >>> (w - k) ||| words.getD i 0 >>> (w - (k - m)) =
      n >>> (w * (i + 1) + m - k) % 2 ^ k := by
  have hsucc : w * (i + 1) = w * i + w := Nat.mul_succ w i
  apply Nat.eq_of_testBit_eq
  intro j
  rw [Nat.testBit_or, Nat.testBit_shiftRight, Nat.testBit_mod_two_pow, Nat.testBit_shiftLeft,
    h (i + 1), Nat.testBit_shiftRight, h i, Nat.testBit_mod_two_pow, Nat.testBit_shiftRight]
  by_cases hj : j < k
  · rw [decide_eq_true (by omega : w - k + j < w), decide_eq_true hj, Bool.true_and, Bool.true_and]
    by_cases hlow : j < k - m
    · have hsum : w * i + (w - (k - m) + j) = w * (i + 1) + m - k + j := by omega
      rw [decide_eq_false (by omega : ¬w - k + j ≥ w - m), Bool.false_and, Bool.false_or,
        decide_eq_true (by omega : w - (k - m) + j < w), Bool.true_and, hsum]
    · have hsum : w * (i + 1) + (w - k + j - (w - m)) = w * (i + 1) + m - k + j := by omega
      rw [decide_eq_true (by omega : w - k + j ≥ w - m), Bool.true_and,
        decide_eq_true (by omega : w - k + j - (w - m) < w), Bool.true_and,
        decide_eq_false (by omega : ¬w - (k - m) + j < w), Bool.false_and, Bool.or_false, hsum]
  · rw [decide_eq_false (by omega : ¬w - k + j < w), decide_eq_false hj, Bool.false_and,
      Bool.false_and, decide_eq_false (by omega : ¬w - (k - m) + j < w), Bool.false_and]
    rfl

/-- A field at the bit `c` of a word, in two parts. -/
theorem shiftLeft_split {b c : ℕ} (hc : c ≤ w) :
    (b <<< c % 2 ^ w) <<< k ||| (b >>> (w - c)) <<< (k + w) = b <<< (k + c) := by
  apply Nat.eq_of_testBit_eq
  intro j
  rw [Nat.testBit_or, Nat.testBit_shiftLeft, Nat.testBit_mod_two_pow, Nat.testBit_shiftLeft,
    Nat.testBit_shiftLeft, Nat.testBit_shiftRight, Nat.testBit_shiftLeft]
  by_cases hlow : j < k + c
  · rw [decide_eq_false (by omega : ¬j ≥ k + w), decide_eq_false (by omega : ¬j ≥ k + c),
      Bool.false_and, Bool.false_and, Bool.or_false]
    by_cases hk : k ≤ j
    · rw [decide_eq_false (by omega : ¬j - k ≥ c), Bool.false_and, Bool.and_false, Bool.and_false]
    · rw [decide_eq_false hk, Bool.false_and]
  · rw [decide_eq_true (by omega : j ≥ k), decide_eq_true (by omega : j - k ≥ c),
      decide_eq_true (by omega : j ≥ k + c), Bool.true_and, Bool.true_and, Bool.true_and]
    by_cases hhigh : j < k + w
    · have hsub : j - k - c = j - (k + c) := by omega
      rw [decide_eq_true (by omega : j - k < w), decide_eq_false (by omega : ¬j ≥ k + w),
        Bool.false_and, Bool.or_false, Bool.true_and, hsub]
    · have hsub : w - c + (j - (k + w)) = j - (k + c) := by omega
      rw [decide_eq_false (by omega : ¬j - k < w), decide_eq_true (by omega : j ≥ k + w),
        Bool.false_and, Bool.false_or, Bool.true_and, hsub]

end Ns3.Lib
