import Ns3.Lib.Rekey

/-!
# Tables that hold a family

A table holds the family `val 0, ..., val (n - 1)` under the keys `key 0, ..., key (n - 1)` when
these are its entries and there are no others. A member can be added, and moved to a new key.
-/

namespace Ns3.Lib.Table

variable {κ β : Type} [DecidableEq κ]

def Holds (m : Table κ β) (n : Nat) (key : Nat → κ) (val : Nat → β) : Prop :=
  ∀ x v, m.lookup x = some v ↔ ∃ i < n, x = key i ∧ v = val i

variable {m : Table κ β} {n : Nat} {key : Nat → κ} {val : Nat → β}

theorem holds_empty (key : Nat → κ) (val : Nat → β) : (∅ : Table κ β).Holds 0 key val := by
  intro x v
  constructor
  · intro h
    rw [AList.lookup_empty] at h
    cases h
  · rintro ⟨i, hi, -⟩
    cases hi

theorem Holds.congr (h : m.Holds n key val) {key' : Nat → κ} (hkey : ∀ i < n, key' i = key i) :
    m.Holds n key' val := by
  intro x v
  rw [h x v]
  constructor
  · rintro ⟨i, hi, hx, hv⟩
    exact ⟨i, hi, hx.trans (hkey i hi).symm, hv⟩
  · rintro ⟨i, hi, hx, hv⟩
    exact ⟨i, hi, hx.trans (hkey i hi), hv⟩

theorem Holds.lookup_self (h : m.Holds n key val) {i : Nat} (hi : i < n) :
    m.lookup (key i) = some (val i) :=
  (h _ _).mpr ⟨i, hi, rfl, rfl⟩

theorem Holds.lookup_eq_none (h : m.Holds n key val) {x : κ} (hx : ∀ i < n, key i ≠ x) :
    m.lookup x = none := by
  cases hlookup : m.lookup x with
  | none => rfl
  | some v =>
    obtain ⟨i, hi, heq, -⟩ := (h x v).mp hlookup
    exact absurd heq.symm (hx i hi)

theorem Holds.not_mem (h : m.Holds n key val) {x : κ} (hx : ∀ i < n, key i ≠ x) : x ∉ m :=
  AList.lookup_eq_none.mp (h.lookup_eq_none hx)

theorem Holds.insert (h : m.Holds n key val) (hnew : ∀ i < n, key i ≠ key n) :
    Holds (AList.insert (key n) (val n) m) (n + 1) key val := by
  intro x v
  by_cases hx : x = key n
  · rw [hx, AList.lookup_insert]
    constructor
    · intro hv
      cases hv
      exact ⟨n, Nat.lt_succ_self n, rfl, rfl⟩
    · rintro ⟨i, hi, heq, rfl⟩
      rcases Nat.lt_succ_iff_lt_or_eq.mp hi with hlt | rfl
      · exact absurd heq.symm (hnew i hlt)
      · rfl
  · rw [AList.lookup_insert_ne hx, h x v]
    constructor
    · rintro ⟨i, hi, hxi, hv⟩
      exact ⟨i, Nat.lt_succ_of_lt hi, hxi, hv⟩
    · rintro ⟨i, hi, hxi, hv⟩
      rcases Nat.lt_succ_iff_lt_or_eq.mp hi with hlt | rfl
      · exact ⟨i, hlt, hxi, hv⟩
      · exact absurd hxi hx

/-- The member `j` goes to the key that `key'` has for it. -/
theorem Holds.move (h : m.Holds n key val) (key' : Nat → κ) {j : Nat} (hj : j < n)
    (hinj : ∀ i < n, key i = key j → i = j) (hkey : ∀ i, i ≠ j → key' i = key i)
    (hnew : ∀ i < n, i ≠ j → key i ≠ key' j) :
    Holds (AList.insert (key' j) (val j) (m.erase (key j))) n key' val := by
  intro x v
  by_cases hx : x = key' j
  · rw [hx, AList.lookup_insert]
    constructor
    · intro hv
      cases hv
      exact ⟨j, hj, rfl, rfl⟩
    · rintro ⟨i, hi, heq, rfl⟩
      by_cases hij : i = j
      · rw [hij]
      · rw [hkey i hij] at heq
        exact absurd heq.symm (hnew i hi hij)
  · rw [AList.lookup_insert_ne hx]
    by_cases hold : x = key j
    · rw [hold, AList.lookup_erase]
      constructor
      · intro hv
        cases hv
      · rintro ⟨i, hi, heq, -⟩
        by_cases hij : i = j
        · rw [hij] at heq
          exact absurd (hold.trans heq) hx
        · rw [hkey i hij] at heq
          exact absurd (hinj i hi heq.symm) hij
    · rw [AList.lookup_erase_ne hold, h x v]
      constructor
      · rintro ⟨i, hi, hxi, hv⟩
        have hij : i ≠ j := by
          intro hij
          rw [hij] at hxi
          exact hold hxi
        exact ⟨i, hi, hxi.trans (hkey i hij).symm, hv⟩
      · rintro ⟨i, hi, hxi, hv⟩
        have hij : i ≠ j := by
          intro hij
          rw [hij] at hxi
          exact hx hxi
        exact ⟨i, hi, hxi.trans (hkey i hij), hv⟩

end Ns3.Lib.Table
