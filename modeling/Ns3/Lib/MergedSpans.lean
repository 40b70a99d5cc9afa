import Ns3.Lib.CachedTop
import Mathlib.Data.Prod.Lex

/-!
# Spans with gaps between them

A new span is put in front of a list of spans and takes in each one that it touches. A span that was
taken in makes the search start again, since the new span is longer.
-/

namespace Ns3.Lib

variable {α : Type} [LinearOrder α]

/-- There is a gap between the spans. -/
def Separate (x z : α × α) : Prop := x.2 < z.1 ∨ z.2 < x.1

/-- The span `x` in front of the others. It does not touch those of `passed`. -/
def mergeSpans (x : α × α) (passed : List (α × α)) : List (α × α) → List (α × α)
  | [] => x :: passed
  | z :: rest =>
    if x.1 = z.2 then mergeSpans (z.1, x.2) [] (passed ++ rest)
    else if x.2 = z.1 then mergeSpans (x.1, z.2) [] (passed ++ rest)
    else mergeSpans x (passed ++ [z]) rest
termination_by rest => (passed.length + rest.length, rest.length)
decreasing_by
  all_goals
    rw [Prod.lex_def]
    simp
    try omega

variable {x z : α × α} {passed rest : List (α × α)}

theorem Separate.symm (h : Separate x z) : Separate z x := Or.symm h

theorem Apart.separate (h : Apart x z) (hleft : x.1 ≠ z.2) (hright : x.2 ≠ z.1) : Separate x z := by
  rcases h with h | h
  · exact Or.inl (h.lt_of_ne hright)
  · exact Or.inr (h.lt_of_ne (Ne.symm hleft))

/-- A span that is taken in at the lower end. -/
theorem Apart.join_left {y : α × α} (h : Apart x y) (hy : y.1 < y.2)
    (hzy : Separate z y) (hxz : x.1 = z.2) : Apart (z.1, x.2) y := by
  rcases hzy with hzy | hzy
  · rcases h with h | h
    · exact Or.inl h
    · exact absurd (hxz ▸ h) (not_le.mpr (hzy.trans hy))
  · exact Or.inr hzy.le

/-- A span that is taken in at the upper end. -/
theorem Apart.join_right {y : α × α} (h : Apart x y) (hy : y.1 < y.2)
    (hzy : Separate z y) (hxz : x.2 = z.1) : Apart (x.1, z.2) y := by
  rcases hzy with hzy | hzy
  · exact Or.inl hzy.le
  · rcases h with h | h
    · exact absurd (hxz ▸ h) (not_le.mpr (hy.trans hzy))
    · exact Or.inr h

/-- What is true of all spans, and of two that are taken together, is true of the result. -/
theorem forall_mergeSpans {P : α × α → Prop} (hjoin : ∀ y z, P y → P z → y.2 = z.1 → P (y.1, z.2))
    (hx : P x) (hpassed : ∀ z ∈ passed, P z) (hrest : ∀ z ∈ rest, P z) :
    ∀ z ∈ mergeSpans x passed rest, P z := by
  induction x, passed, rest using mergeSpans.induct with
  | case1 x passed =>
    rw [mergeSpans]
    exact List.forall_mem_cons.mpr ⟨hx, hpassed⟩
  | case2 x passed z rest hleft ih =>
    obtain ⟨hz, hrest⟩ := List.forall_mem_cons.mp hrest
    rw [mergeSpans, if_pos hleft]
    exact ih (hjoin z x hz hx hleft.symm) (fun _ h => (List.not_mem_nil h).elim)
      (List.forall_mem_append.mpr ⟨hpassed, hrest⟩)
  | case3 x passed z rest hleft hright ih =>
    obtain ⟨hz, hrest⟩ := List.forall_mem_cons.mp hrest
    rw [mergeSpans, if_neg hleft, if_pos hright]
    exact ih (hjoin x z hx hz hright) (fun _ h => (List.not_mem_nil h).elim)
      (List.forall_mem_append.mpr ⟨hpassed, hrest⟩)
  | case4 x passed z rest hleft hright ih =>
    obtain ⟨hz, hrest⟩ := List.forall_mem_cons.mp hrest
    rw [mergeSpans, if_neg hleft, if_neg hright]
    exact ih hx (List.forall_mem_append.mpr ⟨hpassed, List.forall_mem_singleton.mpr hz⟩) hrest

/-- The first span of the result contains the new one, and no span is split. -/
theorem mergeSpans_head (hpassed : ∀ z ∈ passed, z.1 < z.2) (hrest : ∀ z ∈ rest, z.1 < z.2) :
    ∃ y zs, mergeSpans x passed rest = y :: zs ∧ y.1 ≤ x.1 ∧ x.2 ≤ y.2 ∧
      zs.length ≤ passed.length + rest.length := by
  induction x, passed, rest using mergeSpans.induct with
  | case1 x passed =>
    rw [mergeSpans]
    exact ⟨x, passed, rfl, le_rfl, le_rfl, le_rfl⟩
  | case2 x passed z rest hleft ih =>
    obtain ⟨hz, hrest⟩ := List.forall_mem_cons.mp hrest
    obtain ⟨y, zs, heq, hlow, hhigh, hlength⟩ := ih (fun _ h => (List.not_mem_nil h).elim)
      (List.forall_mem_append.mpr ⟨hpassed, hrest⟩)
    rw [mergeSpans, if_pos hleft]
    refine ⟨y, zs, heq, hlow.trans (hz.le.trans_eq hleft.symm), hhigh, ?_⟩
    simp only [List.length_nil, List.length_append, List.length_cons] at hlength ⊢
    omega
  | case3 x passed z rest hleft hright ih =>
    obtain ⟨hz, hrest⟩ := List.forall_mem_cons.mp hrest
    obtain ⟨y, zs, heq, hlow, hhigh, hlength⟩ := ih (fun _ h => (List.not_mem_nil h).elim)
      (List.forall_mem_append.mpr ⟨hpassed, hrest⟩)
    rw [mergeSpans, if_neg hleft, if_pos hright]
    refine ⟨y, zs, heq, hlow, (hright.trans_le hz.le).trans hhigh, ?_⟩
    simp only [List.length_nil, List.length_append, List.length_cons] at hlength ⊢
    omega
  | case4 x passed z rest hleft hright ih =>
    obtain ⟨hz, hrest⟩ := List.forall_mem_cons.mp hrest
    obtain ⟨y, zs, heq, hlow, hhigh, hlength⟩ :=
      ih (List.forall_mem_append.mpr ⟨hpassed, List.forall_mem_singleton.mpr hz⟩) hrest
    rw [mergeSpans, if_neg hleft, if_neg hright]
    refine ⟨y, zs, heq, hlow, hhigh, ?_⟩
    simp only [List.length_nil, List.length_append, List.length_cons] at hlength ⊢
    omega

/-- A new span that overlaps none of the others: there are gaps between all spans of the result. -/
theorem mergeSpans_separate (hx : x.1 < x.2) (hpos : ∀ z ∈ passed ++ rest, z.1 < z.2)
    (hsep : (passed ++ rest).Pairwise Separate) (hpassed : ∀ z ∈ passed, Separate x z)
    (hrest : ∀ z ∈ rest, Apart x z) : (mergeSpans x passed rest).Pairwise Separate := by
  induction x, passed, rest using mergeSpans.induct with
  | case1 x passed =>
    rw [mergeSpans]
    rw [List.append_nil] at hsep
    exact List.pairwise_cons.mpr ⟨hpassed, hsep⟩
  | case2 x passed z rest hleft ih =>
    obtain ⟨hz, hpos⟩ := List.forall_mem_cons.mp fun y hy =>
      hpos y (List.perm_middle.mem_iff.mpr hy)
    obtain ⟨hzsep, hsep⟩ :=
      List.pairwise_cons.mp ((List.perm_middle.pairwise_iff Separate.symm).mp hsep)
    rw [mergeSpans, if_pos hleft]
    refine ih (hz.trans (hleft ▸ hx)) hpos hsep (fun _ h => (List.not_mem_nil h).elim) ?_
    intro y hy
    have hxy : Apart x y := by
      rcases List.mem_append.mp hy with hy | hy
      · exact (hpassed y hy).imp le_of_lt le_of_lt
      · exact hrest y (List.mem_cons_of_mem z hy)
    exact hxy.join_left (hpos y hy) (hzsep y hy) hleft
  | case3 x passed z rest hleft hright ih =>
    obtain ⟨hz, hpos⟩ := List.forall_mem_cons.mp fun y hy =>
      hpos y (List.perm_middle.mem_iff.mpr hy)
    obtain ⟨hzsep, hsep⟩ :=
      List.pairwise_cons.mp ((List.perm_middle.pairwise_iff Separate.symm).mp hsep)
    rw [mergeSpans, if_neg hleft, if_pos hright]
    refine ih ((hright ▸ hx).trans hz) hpos hsep (fun _ h => (List.not_mem_nil h).elim) ?_
    intro y hy
    have hxy : Apart x y := by
      rcases List.mem_append.mp hy with hy | hy
      · exact (hpassed y hy).imp le_of_lt le_of_lt
      · exact hrest y (List.mem_cons_of_mem z hy)
    exact hxy.join_right (hpos y hy) (hzsep y hy) hright
  | case4 x passed z rest hleft hright ih =>
    rw [mergeSpans, if_neg hleft, if_neg hright]
    apply ih hx
    · rwa [List.append_assoc, List.singleton_append]
    · rwa [List.append_assoc, List.singleton_append]
    · refine List.forall_mem_append.mpr ⟨hpassed, List.forall_mem_singleton.mpr ?_⟩
      exact (hrest z List.mem_cons_self).separate hleft hright
    · exact fun y hy => hrest y (List.mem_cons_of_mem z hy)

end Ns3.Lib
