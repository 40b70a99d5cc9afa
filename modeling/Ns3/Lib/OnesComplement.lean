import Mathlib

/-!
# One's complement sums

Sums of 16-bit words with the carry brought round to the low end. Such a sum is the sum modulo
`65535`, but for the two names `0` and `65535` of zero: only the empty sum is `0`. Octets whose sum
is the other zero are in balance, and that is what a check field between them brings about.
-/

namespace Ns3.Lib

/-! ## Words -/

/-- The sum of the 16-bit words, each with its low octet first. An octet left over at the end is a
word. -/
def wordSum : List UInt8 → ℕ
  | [] => 0
  | [b] => b.toNat
  | b₀ :: b₁ :: bs => b₁.toNat * 256 + b₀.toNat + wordSum bs

@[simp] theorem wordSum_nil : wordSum [] = 0 := rfl

@[simp] theorem wordSum_singleton (b : UInt8) : wordSum [b] = b.toNat := rfl

@[simp] theorem wordSum_cons_cons (b₀ b₁ : UInt8) (bs : List UInt8) :
    wordSum (b₀ :: b₁ :: bs) = b₁.toNat * 256 + b₀.toNat + wordSum bs := rfl

/-- Words do not straddle a boundary at an even place. -/
theorem wordSum_append {as : List UInt8} (h : 2 ∣ as.length) (bs : List UInt8) :
    wordSum (as ++ bs) = wordSum as + wordSum bs := by
  induction as using wordSum.induct with
  | case1 => simp
  | case2 b =>
    rw [List.length_singleton] at h
    omega
  | case3 b₀ b₁ as ih =>
    have hrest : 2 ∣ as.length := by
      simp only [List.length_cons] at h
      omega
    rw [List.cons_append, List.cons_append, wordSum_cons_cons, wordSum_cons_cons, ih hrest]
    omega

theorem wordSum_le (bs : List UInt8) : wordSum bs ≤ 65535 * ((bs.length + 1) / 2) := by
  induction bs using wordSum.induct with
  | case1 => simp
  | case2 b =>
    have hb := b.toNat_lt
    simp only [wordSum_singleton, List.length_singleton]
    omega
  | case3 b₀ b₁ bs ih =>
    have h₀ := b₀.toNat_lt
    have h₁ := b₁.toNat_lt
    simp only [wordSum_cons_cons, List.length_cons]
    omega

/-! ## The carry -/

theorem carry_lt {s : ℕ} (h : s / 65536 ≠ 0) : s % 65536 + s / 65536 < s := by
  omega

/-- What is over the low 16 bits is added to them, until nothing is. -/
def endAround (s : ℕ) : ℕ :=
  if h : s / 65536 = 0 then s else endAround (s % 65536 + s / 65536)
termination_by s
decreasing_by exact carry_lt h

theorem endAround_lt (s : ℕ) : endAround s < 65536 := by
  induction s using endAround.induct with
  | case1 s h =>
    rw [endAround, dif_pos h]
    omega
  | case2 s h ih =>
    rw [endAround, dif_neg h]
    exact ih

theorem endAround_mod (s : ℕ) : endAround s % 65535 = s % 65535 := by
  induction s using endAround.induct with
  | case1 s h => rw [endAround, dif_pos h]
  | case2 s h ih =>
    rw [endAround, dif_neg h, ih]
    omega

theorem endAround_eq_zero {s : ℕ} : endAround s = 0 ↔ s = 0 := by
  induction s using endAround.induct with
  | case1 s h => rw [endAround, dif_pos h]
  | case2 s h ih =>
    rw [endAround, dif_neg h, ih]
    omega

/-! ## Balance -/

/-- With what is there before, the words sum up to the zero that is not empty. -/
def InBalance (before : ℕ) (bs : List UInt8) : Prop :=
  endAround (before + wordSum bs) = 65535

theorem inBalance_iff {before : ℕ} {bs : List UInt8} :
    InBalance before bs ↔ 0 < before + wordSum bs ∧ (before + wordSum bs) % 65535 = 0 := by
  have hlt := endAround_lt (before + wordSum bs)
  have hmod := endAround_mod (before + wordSum bs)
  have hzero := endAround_eq_zero (s := before + wordSum bs)
  rw [InBalance]
  omega

/-- The word that a number makes. -/
def word (c : ℕ) : List UInt8 := [UInt8.ofNat c, UInt8.ofNat (c / 256)]

theorem wordSum_word {c : ℕ} (h : c < 65536) : wordSum (word c) = c := by
  have hlow : (UInt8.ofNat c).toNat = c % 256 := by simp
  have hhigh : (UInt8.ofNat (c / 256)).toNat = c / 256 % 256 := by simp
  rw [word, wordSum_cons_cons, wordSum_nil, hlow, hhigh]
  omega

/-- The complement of the sum is what the field needs for the balance. -/
theorem inBalance_of_complement {before : ℕ} {pre post : List UInt8} (heven : 2 ∣ pre.length) :
    InBalance before
      (pre ++ word (65535 - endAround (before + wordSum (pre ++ word 0 ++ post))) ++ post) := by
  have hlen (c : ℕ) : 2 ∣ (pre ++ word c).length := by
    rw [List.length_append]
    exact dvd_add heven (by simp [word])
  have hsum {c : ℕ} (hc : c < 65536) :
      wordSum (pre ++ word c ++ post) = wordSum pre + c + wordSum post := by
    rw [wordSum_append (hlen c), wordSum_append heven, wordSum_word hc]
  set s := before + wordSum (pre ++ word 0 ++ post) with hs
  rw [hsum (by omega)] at hs
  have hlt := endAround_lt s
  have hmod := endAround_mod s
  have hzero := endAround_eq_zero (s := s)
  rw [inBalance_iff, hsum (by omega)]
  omega

/-- The octets differ in a word, and not in the name of zero: `0` and `65535` are the only two words
that are the same number modulo `65535`. -/
structure OneWordApart (bs bs' : List UInt8) (pre w w' post : List UInt8) : Prop where
  left : bs = pre ++ w ++ post
  right : bs' = pre ++ w' ++ post
  even : 2 ∣ pre.length
  word : w.length = 2
  word' : w'.length = 2
  apart : wordSum w % 65535 ≠ wordSum w' % 65535

theorem OneWordApart.length_eq {bs bs' pre w w' post : List UInt8}
    (h : OneWordApart bs bs' pre w w' post) : bs'.length = bs.length := by
  simp [h.left, h.right, h.word, h.word']

/-- Of two lists that are a word apart, one at most is in balance. -/
theorem OneWordApart.not_inBalance {before : ℕ} {bs bs' pre w w' post : List UInt8}
    (h : OneWordApart bs bs' pre w w' post) (hbs : InBalance before bs) :
    ¬ InBalance before bs' := by
  intro hbs'
  have hsum {v : List UInt8} (hv : v.length = 2) :
      wordSum (pre ++ v ++ post) = wordSum pre + wordSum v + wordSum post := by
    have hlen : 2 ∣ (pre ++ v).length := by
      rw [List.length_append, hv]
      exact dvd_add h.even (dvd_refl 2)
    rw [wordSum_append hlen, wordSum_append h.even]
  rw [inBalance_iff, h.left, hsum h.word] at hbs
  rw [inBalance_iff, h.right, hsum h.word'] at hbs'
  exact h.apart (by omega)

end Ns3.Lib
