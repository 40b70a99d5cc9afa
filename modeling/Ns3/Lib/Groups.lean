import Mathlib.Data.List.Basic
import Mathlib.Data.List.Induction
import Mathlib.Data.List.Nodup

/-!
# Groups by key

A list is turned into groups, one for each key, by inserting its elements one after the other:
an element is appended to the group of its key, and a key without a group gets one at the end
(`insertGroup`). The group of a key is then what `filter` finds for it (`grouped_foldl`).
-/

namespace Ns3.Lib

variable {α β κ : Type} [DecidableEq κ]

/-- An element is appended to the group of the key. -/
def insertGroup : List (κ × List α) → κ → α → List (κ × List α)
  | [], k, a => [(k, [a])]
  | g :: gs, k, a => if g.1 = k then (g.1, g.2 ++ [a]) :: gs else g :: insertGroup gs k a

/-- The groups hold the values of the elements by key, in order. -/
structure Grouped (key : β → κ) (val : β → α) (xs : List β) (gs : List (κ × List α)) : Prop where
  nodup : (gs.map Prod.fst).Nodup
  group : ∀ g ∈ gs, g.2 = (xs.filter fun x => key x = g.1).map val
  ne_nil : ∀ g ∈ gs, g.2 ≠ []
  complete : ∀ x ∈ xs, key x ∈ gs.map Prod.fst

section Insert

variable {gs : List (κ × List α)} {k : κ} {a : α} {g : κ × List α}

theorem mem_keys_insertGroup (gs : List (κ × List α)) (k : κ) (a : α) (l : κ) :
    l ∈ (insertGroup gs k a).map Prod.fst ↔ l = k ∨ l ∈ gs.map Prod.fst := by
  induction gs with
  | nil => rw [insertGroup, List.map_cons, List.mem_cons]
  | cons h gs ih =>
    rw [insertGroup]
    split
    · rename_i heq
      rw [List.map_cons, List.map_cons, List.mem_cons, heq]
      exact (or_iff_right_of_imp Or.inl).symm
    · rw [List.map_cons, List.map_cons, List.mem_cons, List.mem_cons, ih, or_left_comm]

theorem nodup_insertGroup (h : (gs.map Prod.fst).Nodup) (k : κ) (a : α) :
    ((insertGroup gs k a).map Prod.fst).Nodup := by
  induction gs with
  | nil => exact List.nodup_singleton k
  | cons g gs ih =>
    rw [List.map_cons, List.nodup_cons] at h
    rw [insertGroup]
    split
    · exact List.nodup_cons.mpr h
    · rename_i hne
      rw [List.map_cons, List.nodup_cons, mem_keys_insertGroup]
      exact ⟨not_or.mpr ⟨hne, h.1⟩, ih h.2⟩

/-- A group is as before, or it is the one of the key. -/
theorem mem_insertGroup (h : (gs.map Prod.fst).Nodup) (hg : g ∈ insertGroup gs k a) :
    (g ∈ gs ∧ g.1 ≠ k) ∨ (∃ g' ∈ gs, g'.1 = k ∧ g = (k, g'.2 ++ [a])) ∨
      (k ∉ gs.map Prod.fst ∧ g = (k, [a])) := by
  induction gs with
  | nil => exact Or.inr (Or.inr ⟨by simp, List.mem_singleton.mp hg⟩)
  | cons g₁ gs ih =>
    rw [List.map_cons, List.nodup_cons] at h
    rw [insertGroup] at hg
    split at hg
    · rename_i heq
      rcases List.mem_cons.mp hg with rfl | hg
      · exact Or.inr (Or.inl ⟨g₁, List.mem_cons_self, heq, by rw [heq]⟩)
      · refine Or.inl ⟨List.mem_cons_of_mem _ hg, ?_⟩
        intro hk
        exact h.1 (heq ▸ hk ▸ List.mem_map_of_mem hg)
    · rename_i hne
      rcases List.mem_cons.mp hg with rfl | hg
      · exact Or.inl ⟨List.mem_cons_self, hne⟩
      · rcases ih h.2 hg with hold | ⟨g', hg', hrest⟩ | ⟨hnew, heq⟩
        · exact Or.inl ⟨List.mem_cons_of_mem _ hold.1, hold.2⟩
        · exact Or.inr (Or.inl ⟨g', List.mem_cons_of_mem _ hg', hrest⟩)
        · refine Or.inr (Or.inr ⟨?_, heq⟩)
          rw [List.map_cons, List.mem_cons, not_or]
          exact ⟨fun hk => hne hk.symm, hnew⟩

end Insert

variable {key : β → κ} {val : β → α} {xs : List β} {gs : List (κ × List α)}

theorem Grouped.insert (h : Grouped key val xs gs) (x : β) :
    Grouped key val (xs ++ [x]) (insertGroup gs (key x) (val x)) where
  nodup := nodup_insertGroup h.nodup _ _
  group := by
    intro g hg
    rw [List.filter_append, List.map_append]
    rcases mem_insertGroup h.nodup hg with ⟨hold, hne⟩ | ⟨g', hg', hk, rfl⟩ | ⟨hnew, rfl⟩
    · rw [List.filter_cons_of_neg (by simpa using hne.symm), List.filter_nil, List.map_nil,
        List.append_nil]
      exact h.group g hold
    · have hgroup := h.group g' hg'
      rw [hk] at hgroup
      rw [List.filter_cons_of_pos (by simp), ← hgroup]
      rfl
    · have hnone : xs.filter (fun y => key y = key x) = [] := by
        rw [List.filter_eq_nil_iff]
        intro y hy hkey
        exact hnew (of_decide_eq_true hkey ▸ h.complete y hy)
      rw [hnone, List.filter_cons_of_pos (by simp)]
      rfl
  ne_nil := by
    intro g hg
    rcases mem_insertGroup h.nodup hg with ⟨hold, -⟩ | ⟨g', -, -, rfl⟩ | ⟨-, rfl⟩
    · exact h.ne_nil g hold
    · exact List.append_ne_nil_of_right_ne_nil _ (List.cons_ne_nil _ _)
    · exact List.cons_ne_nil _ _
  complete := by
    intro y hy
    rw [mem_keys_insertGroup]
    rcases List.mem_append.mp hy with hy | hy
    · exact Or.inr (h.complete y hy)
    · exact Or.inl (List.mem_singleton.mp hy ▸ rfl)

/-- Inserting all elements groups them. -/
theorem grouped_foldl (key : β → κ) (val : β → α) (xs : List β) :
    Grouped key val xs (xs.foldl (fun gs x => insertGroup gs (key x) (val x)) []) := by
  induction xs using List.reverseRecOn with
  | nil => exact ⟨List.nodup_nil, by simp, by simp, by simp⟩
  | append_singleton xs x ih =>
    rw [List.foldl_append]
    exact ih.insert x

theorem Grouped.perm {gs' : List (κ × List α)} (h : Grouped key val xs gs) (hperm : gs'.Perm gs) :
    Grouped key val xs gs' where
  nodup := (hperm.map Prod.fst).nodup_iff.mpr h.nodup
  group := fun g hg => h.group g (hperm.mem_iff.mp hg)
  ne_nil := fun g hg => h.ne_nil g (hperm.mem_iff.mp hg)
  complete := fun x hx => (hperm.map Prod.fst).mem_iff.mpr (h.complete x hx)

/-- Elements with different images are in a group once. -/
theorem Grouped.nodup_group {γ : Type} {f : α → γ} (h : Grouped key val xs gs)
    (hnd : (xs.map fun x => f (val x)).Nodup) {g : κ × List α} (hg : g ∈ gs) :
    (g.2.map f).Nodup := by
  rw [h.group g hg, List.map_map]
  exact hnd.sublist (List.filter_sublist.map _)

/-- With different keys, removing the first match removes all. -/
theorem eraseP_eq_filter {γ : Type} [DecidableEq γ] {f : α → γ} {l : List α}
    (h : (l.map f).Nodup) (c : γ) :
    (l.eraseP fun a => f a = c) = l.filter fun a => f a ≠ c := by
  induction l with
  | nil => rfl
  | cons a l ih =>
    rw [List.map_cons, List.nodup_cons] at h
    by_cases hc : f a = c
    · rw [List.eraseP_cons_of_pos (by simpa using hc), List.filter_cons_of_neg (by simpa using hc)]
      symm
      rw [List.filter_eq_self]
      intro b hb
      refine decide_eq_true fun heq => h.1 ?_
      exact hc.trans heq.symm ▸ List.mem_map_of_mem hb
    · rw [List.eraseP_cons_of_neg (by simpa using hc), List.filter_cons_of_pos (by simpa using hc),
        ih h.2]

end Ns3.Lib
