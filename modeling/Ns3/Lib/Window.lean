import Mathlib.Data.List.Basic
import Mathlib.Algebra.Order.Group.Nat

/-!
# Windows of a memory

A memory is a function from offsets to cells. `window m lo n` reads `n` cells from `lo` on, and
`poke m lo xs` overwrites the cells from `lo` on with `xs`.
-/

namespace Ns3.Lib

variable {α : Type} {m m' : Nat → α} {lo lo' n k : Nat} {xs : List α}

def window (m : Nat → α) (lo n : Nat) : List α :=
  (List.range n).map fun i => m (lo + i)

def poke (m : Nat → α) (lo : Nat) (xs : List α) : Nat → α :=
  fun i => if i < lo then m i else (xs[i - lo]?).getD (m i)

@[simp] theorem length_window : (window m lo n).length = n := by
  simp [window]

@[simp] theorem getElem_window {i : Nat} (hi : i < (window m lo n).length) :
    (window m lo n)[i] = m (lo + i) := by
  simp [window]

@[simp] theorem window_zero : window m lo 0 = [] := rfl

theorem window_congr (h : ∀ i < n, m (lo + i) = m' (lo' + i)) :
    window m lo n = window m' lo' n := by
  apply List.map_congr_left
  intro i hi
  exact h i (List.mem_range.mp hi)

theorem eq_window (hlen : xs.length = n) (h : ∀ i (hi : i < xs.length), xs[i] = m (lo + i)) :
    xs = window m lo n := by
  apply List.ext_getElem
  · simp [hlen]
  · intro i hi hi'
    rw [h i hi, getElem_window]

theorem window_add (j : Nat) : window m lo (n + j) = window m lo n ++ window m (lo + n) j := by
  simp only [window, List.range_add, List.map_append, List.map_map, Function.comp_def,
    Nat.add_assoc]

theorem take_window : (window m lo n).take k = window m lo (min k n) := by
  apply eq_window
  · simp
  · intro i hi
    simp

theorem drop_window : (window m lo n).drop k = window m (lo + k) (n - k) := by
  apply eq_window
  · simp
  · intro i hi
    simp [Nat.add_assoc]

theorem window_const {x : α} (h : ∀ i < n, m (lo + i) = x) :
    window m lo n = List.replicate n x := by
  apply List.ext_getElem
  · simp
  · intro i hi hi'
    simp only [length_window] at hi
    simp [h i hi]

theorem poke_of_lt {i : Nat} (h : i < lo) : poke m lo xs i = m i := if_pos h

theorem poke_of_le {i : Nat} (h : lo + xs.length ≤ i) : poke m lo xs i = m i := by
  have hlo : ¬ i < lo := by omega
  have hout : xs[i - lo]? = none := List.getElem?_eq_none (by omega)
  simp [poke, hlo, hout]

theorem poke_add {i : Nat} (h : i < xs.length) : poke m lo xs (lo + i) = xs[i] := by
  simp [poke, h]

@[simp] theorem poke_nil : poke m lo [] = m := by
  ext i
  simp [poke]

theorem poke_poke {ys : List α} :
    poke (poke m lo xs) (lo + xs.length) ys = poke m lo (xs ++ ys) := by
  ext i
  by_cases hi : i < lo + xs.length
  · rw [poke_of_lt hi]
    by_cases hlo : i < lo
    · rw [poke_of_lt hlo, poke_of_lt hlo]
    · have hx : i - lo < xs.length := by omega
      simp [poke, hlo, hx, List.getElem?_append_left hx]
  · have hlo : ¬ i < lo := by omega
    have hx : xs.length ≤ i - lo := by omega
    have hsub : i - lo - xs.length = i - (lo + xs.length) := by omega
    simp [poke, hlo, hi, List.getElem?_append_right hx, hsub, List.getElem?_eq_none hx]

end Ns3.Lib
