import Mathlib.Algebra.Order.Group.Multiset
import Mathlib.Data.List.Basic

/-!
# Buckets

Elements that are kept in a list of buckets, each in the bucket of its index.
-/

namespace Ns3.Lib.Buckets

variable {α : Type*} {bs : List (List α)} {i j : ℕ} {f : List α → List α} {x : α}

def bucket (bs : List (List α)) (i : ℕ) : List α := bs.getD i []

/-- The elements of all buckets. -/
def contents (bs : List (List α)) : Multiset α := (bs.flatten : Multiset α)

/-- Each element is in the bucket of its index. -/
def Placed (index : α → ℕ) (bs : List (List α)) : Prop :=
  ∀ i, ∀ x ∈ bucket bs i, index x = i

theorem bucket_replicate (n i : ℕ) : bucket (List.replicate n ([] : List α)) i = [] := by
  unfold bucket
  rw [List.getD_eq_getElem?_getD, List.getElem?_replicate]
  split <;> rfl

theorem contents_replicate (n : ℕ) : contents (List.replicate n ([] : List α)) = 0 := by
  simp [contents]

theorem bucket_modify (h : i < bs.length) :
    bucket (bs.modify i f) j = if i = j then f (bucket bs i) else bucket bs j := by
  unfold bucket
  simp only [List.getD_eq_getElem?_getD, List.getElem?_modify]
  split
  · next heq =>
    subst heq
    rw [List.getElem?_eq_getElem h]
    rfl
  · simp

theorem mem_contents : x ∈ contents bs ↔ ∃ i, x ∈ bucket bs i := by
  unfold contents bucket
  rw [Multiset.mem_coe, List.mem_flatten]
  constructor
  · rintro ⟨b, hb, hx⟩
    obtain ⟨i, hi, rfl⟩ := List.mem_iff_getElem.mp hb
    refine ⟨i, ?_⟩
    rwa [List.getD_eq_getElem?_getD, List.getElem?_eq_getElem hi]
  · rintro ⟨i, hx⟩
    rw [List.getD_eq_getElem?_getD] at hx
    by_cases hi : i < bs.length
    · rw [List.getElem?_eq_getElem hi] at hx
      exact ⟨bs[i], List.getElem_mem hi, hx⟩
    · rw [List.getElem?_eq_none (not_lt.mp hi)] at hx
      exact absurd hx List.not_mem_nil

/-- An element is in the bucket of its index. -/
theorem Placed.mem_iff {index : α → ℕ} (h : Placed index bs) :
    x ∈ contents bs ↔ x ∈ bucket bs (index x) := by
  rw [mem_contents]
  constructor
  · rintro ⟨i, hx⟩
    rwa [h i x hx]
  · intro hx
    exact ⟨_, hx⟩

/-- The elements of one bucket besides the others. -/
theorem contents_modify (h : i < bs.length) :
    contents (bs.modify i f) =
      f (bucket bs i) + (contents (bs.take i) + contents (bs.drop (i + 1))) := by
  have hbucket : bucket bs i = bs[i] := by
    rw [bucket, List.getD_eq_getElem?_getD, List.getElem?_eq_getElem h, Option.getD_some]
  rw [List.modify_eq_take_cons_drop h, hbucket]
  unfold contents
  rw [List.flatten_append, List.flatten_cons, ← Multiset.coe_add, ← Multiset.coe_add]
  exact add_left_comm _ _ _

theorem contents_eq (h : i < bs.length) :
    contents bs = bucket bs i + (contents (bs.take i) + contents (bs.drop (i + 1))) := by
  have hid := contents_modify (f := id) h
  rwa [List.modify_id] at hid

/-- One bucket gets an element. -/
theorem contents_insert (h : i < bs.length) (hf : (f (bucket bs i)).Perm (x :: bucket bs i)) :
    contents (bs.modify i f) = x ::ₘ contents bs := by
  rw [contents_modify h, Multiset.coe_eq_coe.mpr hf, contents_eq h, ← Multiset.cons_coe,
    Multiset.cons_add]

/-- One bucket loses an element. -/
theorem contents_take (h : i < bs.length) (hf : (x :: f (bucket bs i)).Perm (bucket bs i)) :
    x ::ₘ contents (bs.modify i f) = contents bs := by
  rw [contents_modify h, contents_eq h, ← Multiset.coe_eq_coe.mpr hf, ← Multiset.cons_coe,
    Multiset.cons_add]

theorem Placed.modify {index : α → ℕ} (h : Placed index bs) (hi : i < bs.length)
    (hf : ∀ y ∈ f (bucket bs i), index y = i) : Placed index (bs.modify i f) := by
  intro j y hy
  rw [bucket_modify hi] at hy
  split at hy
  · next heq => rw [hf y hy, heq]
  · exact h j y hy

end Ns3.Lib.Buckets
