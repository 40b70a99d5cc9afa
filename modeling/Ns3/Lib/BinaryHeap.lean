import Mathlib.Order.Lattice
import Mathlib.Order.Basic
import Mathlib.Data.Nat.Notation

/-!
# Binary heaps

A binary heap on the positions `1, …, n`: the parent of `i` is `i / 2`. The order of the heap is
read through the keys by position. A sift moves one key along a path by exchanges; `UpOrder` and
`DownOrder` say what holds between two exchanges.
-/

namespace Ns3.Lib.BinaryHeap

variable {κ : Type}

/-- The keys after those of `i` and `j` are exchanged. -/
def exch (a : ℕ → κ) (i j : ℕ) (k : ℕ) : κ :=
  if k = i then a j else if k = j then a i else a k

@[simp] theorem exch_left (a : ℕ → κ) (i j : ℕ) : exch a i j i = a j := by
  simp [exch]

@[simp] theorem exch_right (a : ℕ → κ) (i j : ℕ) : exch a i j j = a i := by
  unfold exch
  split
  · next h => rw [h]
  · simp

theorem exch_of_ne (a : ℕ → κ) {i j k : ℕ} (hi : k ≠ i) (hj : k ≠ j) : exch a i j k = a k := by
  simp [exch, hi, hj]

variable [LinearOrder κ]

/-- No key is before the key of its parent. -/
def Ordered (a : ℕ → κ) (n : ℕ) : Prop :=
  ∀ i, 2 ≤ i → i ≤ n → a (i / 2) ≤ a i

theorem Ordered.congr {a b : ℕ → κ} {n : ℕ} (h : Ordered a n)
    (heq : ∀ k, 1 ≤ k → k ≤ n → b k = a k) : Ordered b n := by
  intro i hi hn
  rw [heq i (by omega) hn, heq (i / 2) (by omega) (by omega)]
  exact h i hi hn

/-- The root is the first key. -/
theorem Ordered.root_le {a : ℕ → κ} {n : ℕ} (h : Ordered a n) :
    ∀ i, 1 ≤ i → i ≤ n → a 1 ≤ a i := by
  intro i
  induction i using Nat.strongRecOn with
  | ind i ih =>
    intro hi hn
    by_cases h1 : i = 1
    · rw [h1]
    · exact (ih (i / 2) (by omega) (by omega) (by omega)).trans (h i (by omega) hn)

/-! ## Towards the root -/

/-- Only the pair of `p` and its parent may be out of order, and the children of `p` are in order
with its parent. -/
structure UpOrder (a : ℕ → κ) (n p : ℕ) : Prop where
  except : ∀ i, 2 ≤ i → i ≤ n → i ≠ p → a (i / 2) ≤ a i
  grand : ∀ i, 2 ≤ p → i ≤ n → i / 2 = p → a (p / 2) ≤ a i

/-- A new last key. -/
theorem UpOrder.last {a b : ℕ → κ} {n : ℕ} (h : Ordered a n)
    (heq : ∀ k, 1 ≤ k → k ≤ n → b k = a k) : UpOrder b (n + 1) (n + 1) where
  except i hi hn hne := h.congr heq i hi (by omega)
  grand i hi hn heq := by omega

theorem UpOrder.move {a : ℕ → κ} {n p : ℕ} (h : UpOrder a n p) (hp : 2 ≤ p) (hn : p ≤ n)
    (hlt : a p < a (p / 2)) : UpOrder (exch a p (p / 2)) n (p / 2) := by
  have hpp : 2 ≤ p / 2 → a (p / 2 / 2) ≤ a (p / 2) :=
    fun h2 => h.except (p / 2) h2 (by omega) (by omega)
  constructor
  · intro i hi hin hne
    by_cases hip : i = p
    · rw [hip, exch_left, exch_right]
      exact hlt.le
    · rw [exch_of_ne a hip hne]
      by_cases hc : i / 2 = p
      · rw [hc, exch_left]
        exact h.grand i hp hin hc
      · by_cases hs : i / 2 = p / 2
        · rw [hs, exch_right]
          have := h.except i hi hin hip
          rw [hs] at this
          exact hlt.le.trans this
        · rw [exch_of_ne a hc hs]
          exact h.except i hi hin hip
  · intro i h2 hin hi2
    rw [exch_of_ne a (by omega : p / 2 / 2 ≠ p) (by omega)]
    by_cases hip : i = p
    · rw [hip, exch_left]
      exact hpp h2
    · rw [exch_of_ne a hip (by omega)]
      have := h.except i (by omega) hin hip
      rw [hi2] at this
      exact (hpp h2).trans this

theorem UpOrder.finish {a : ℕ → κ} {n p : ℕ} (h : UpOrder a n p)
    (hstop : 2 ≤ p → a (p / 2) ≤ a p) : Ordered a n := by
  intro i hi hn
  by_cases hip : i = p
  · rw [hip] at hi ⊢
    exact hstop hi
  · exact h.except i hi hn hip

/-! ## Towards the leaves -/

/-- Only the pairs of `p` and its children may be out of order, and the children of `p` are in order
with its parent. -/
structure DownOrder (a : ℕ → κ) (n p : ℕ) : Prop where
  except : ∀ i, 2 ≤ i → i ≤ n → i / 2 ≠ p → a (i / 2) ≤ a i
  grand : ∀ i, 2 ≤ p → i ≤ n → i / 2 = p → a (p / 2) ≤ a i

/-- The key of `p` is replaced by one that is not before the parent of `p`. -/
theorem DownOrder.replace {a b : ℕ → κ} {m n p : ℕ} (h : Ordered a n) (hm : m ≤ n)
    (heq : ∀ k, 1 ≤ k → k ≤ m → k ≠ p → b k = a k)
    (hp : 2 ≤ p → p ≤ m → a (p / 2) ≤ b p) : DownOrder b m p := by
  constructor
  · intro i hi hin hne
    by_cases hip : i = p
    · rw [hip] at hi hin ⊢
      rw [heq (p / 2) (by omega) (by omega) (by omega)]
      exact hp hi hin
    · rw [heq i (by omega) hin hip, heq (i / 2) (by omega) (by omega) hne]
      exact h i hi (by omega)
  · intro i h2 hin hi2
    rw [heq (p / 2) (by omega) (by omega) (by omega), heq i (by omega) hin (by omega)]
    have hpi := h i (by omega) (by omega)
    rw [hi2] at hpi
    exact (h p h2 (by omega)).trans hpi

theorem DownOrder.move {a : ℕ → κ} {n p c : ℕ} (h : DownOrder a n p) (hc : c / 2 = p)
    (hn : c ≤ n) (hle : a c ≤ a p) (hmin : ∀ i, i ≤ n → i / 2 = p → a c ≤ a i) :
    DownOrder (exch a p c) n c := by
  constructor
  · intro i hi hin hne
    by_cases hip : i = p
    · rw [hip, exch_left, exch_of_ne a (by omega : p / 2 ≠ p) (by omega)]
      rw [hip] at hi
      exact h.grand c hi hn hc
    · by_cases hic : i = c
      · rw [hic, hc, exch_left, exch_right]
        exact hle
      · rw [exch_of_ne a hip hic]
        by_cases hs : i / 2 = p
        · rw [hs, exch_left]
          exact hmin i hin hs
        · rw [exch_of_ne a hs hne]
          exact h.except i hi hin hs
  · intro i h2 hin hi2
    rw [hc, exch_left, exch_of_ne a (by omega : i ≠ p) (by omega)]
    have := h.except i (by omega) hin (by omega)
    rwa [hi2] at this

theorem DownOrder.finish {a : ℕ → κ} {n p : ℕ} (h : DownOrder a n p)
    (hstop : ∀ i, 2 ≤ i → i ≤ n → i / 2 = p → a p ≤ a i) : Ordered a n := by
  intro i hi hn
  by_cases hip : i / 2 = p
  · rw [hip]
    exact hstop i hi hn hip
  · exact h.except i hi hn hip

end Ns3.Lib.BinaryHeap
