import Mathlib.Data.List.Basic
import Mathlib.Data.List.Pairwise
import Mathlib.Order.Basic
import Mathlib.Algebra.Order.Group.Nat
import Mathlib.Tactic.Cases

/-!
# First fit into rows

Items of given sizes are laid one after the other into `B` rows of `k` cells. An item takes as many
whole rows as it needs and no row is shared. An item is left out when one of its group has a place
already or when the free rows have too few cells. `firstFit` gives each item its first row, if it
has a place.
-/

namespace Ns3.Lib

/-- The rows of `k` cells that `n` cells need. -/
def rowsFor (k n : Nat) : Nat := if n % k = 0 then n / k else n / k + 1

theorem rowsFor_le {k n b : Nat} (h : n ≤ b * k) : rowsFor k n ≤ b := by
  have hle : n / k ≤ b := Nat.div_le_of_le_mul (by rw [Nat.mul_comm]; exact h)
  unfold rowsFor
  split
  · exact hle
  · next hmod =>
    apply Nat.succ_le_of_lt
    apply lt_of_le_of_ne hle
    rintro rfl
    have hdm := Nat.div_add_mod n k
    rw [Nat.mul_comm] at hdm
    omega

theorem le_rowsFor_mul {k n : Nat} (hk : 0 < k) : n ≤ rowsFor k n * k := by
  have hdm := Nat.div_add_mod n k
  rw [Nat.mul_comm] at hdm
  unfold rowsFor
  split
  · omega
  · have := Nat.mod_lt n hk
    rw [Nat.add_mul, Nat.one_mul]
    omega

theorem rowsFor_pos {k n : Nat} (hk : 0 < k) (hn : 0 < n) : 0 < rowsFor k n := by
  have hle := le_rowsFor_mul (n := n) hk
  exact Nat.pos_of_mul_pos_right (hn.trans_le hle)

section FirstFit

variable {α γ : Type} [DecidableEq γ]

/-- The first row of each item, from row `row` on, with the groups `taken` placed before. -/
def firstFit (B k : Nat) (group : α → γ) (size : α → Nat) :
    Nat → List γ → List α → List (α × Option Nat)
  | _, _, [] => []
  | row, taken, a :: as =>
    if group a ∈ taken ∨ (B - row) * k < size a then
      (a, none) :: firstFit B k group size row taken as
    else
      (a, some row) ::
        firstFit B k group size (row + rowsFor k (size a)) (taken ++ [group a]) as

/-- The rows up to which `firstFit` fills. -/
def filledRows (B k : Nat) (group : α → γ) (size : α → Nat) : Nat → List γ → List α → Nat
  | row, _, [] => row
  | row, taken, a :: as =>
    if group a ∈ taken ∨ (B - row) * k < size a then filledRows B k group size row taken as
    else filledRows B k group size (row + rowsFor k (size a)) (taken ++ [group a]) as

variable {B k row : Nat} {group : α → γ} {size : α → Nat} {taken : List γ} {as : List α}
  {a b : α} {s t : Nat}

theorem map_firstFit (B k : Nat) (group : α → γ) (size : α → Nat) (row : Nat) (taken : List γ)
    (as : List α) : (firstFit B k group size row taken as).map Prod.fst = as := by
  induction as generalizing row taken with
  | nil => rfl
  | cons a as ih =>
    unfold firstFit
    split
    · rw [List.map_cons, ih]
    · rw [List.map_cons, ih]

/-- The rows of an item that got a place, and that it is the first of its group. -/
theorem firstFit_some (hrow : row ≤ B)
    (h : (a, some s) ∈ firstFit B k group size row taken as) :
    row ≤ s ∧ s + rowsFor k (size a) ≤ B ∧ group a ∉ taken ∧ size a ≤ (B - s) * k := by
  induction as generalizing row taken with
  | nil => cases h
  | cons b as ih =>
    unfold firstFit at h
    split at h
    · rcases List.mem_cons.mp h with heq | h
      · cases heq
      · exact ih hrow h
    · next hfit =>
      rw [not_or, not_lt] at hfit
      have hw := rowsFor_le hfit.2
      rcases List.mem_cons.mp h with heq | h
      · cases heq
        exact ⟨le_rfl, by omega, hfit.1, hfit.2⟩
      · obtain ⟨hle, hB, htaken, hroom⟩ := ih (by omega) h
        refine ⟨by omega, hB, ?_, hroom⟩
        intro hmem
        exact htaken (List.mem_append_left _ hmem)

/-- Later items lie behind earlier ones and are of other groups. -/
theorem firstFit_pairwise (k : Nat) (group : α → γ) (size : α → Nat) (taken : List γ) (as : List α)
    (hrow : row ≤ B) :
    (firstFit B k group size row taken as).Pairwise fun x y =>
      ∀ s t, x.2 = some s → y.2 = some t →
        s + rowsFor k (size x.1) ≤ t ∧ group x.1 ≠ group y.1 := by
  induction as generalizing row taken with
  | nil => exact List.Pairwise.nil
  | cons a as ih =>
    unfold firstFit
    split
    · refine List.pairwise_cons.mpr ⟨?_, ih _ hrow⟩
      intro y _ s t hs
      cases hs
    · next hfit =>
      rw [not_or, not_lt] at hfit
      have hw := rowsFor_le hfit.2
      refine List.pairwise_cons.mpr ⟨?_, ih _ (by omega)⟩
      rintro ⟨y, _⟩ hy s t hs ht
      cases hs
      cases ht
      obtain ⟨hle, -, hnot, -⟩ := firstFit_some (by omega) hy
      refine ⟨hle, ?_⟩
      intro heq
      exact hnot (List.mem_append_right _ (List.mem_singleton.mpr heq.symm))

/-- Only one item of a group gets a place. -/
theorem firstFit_group_inj (hrow : row ≤ B)
    (ha : (a, some s) ∈ firstFit B k group size row taken as)
    (hb : (b, some t) ∈ firstFit B k group size row taken as) (heq : group a = group b) :
    (a, some s) = (b, some t) := by
  let R : α × Option Nat → α × Option Nat → Prop := fun x y =>
    x.2.isSome → y.2.isSome → group x.1 ≠ group y.1
  have hsymm : Std.Symm R := ⟨fun x y h hy hx => (h hx hy).symm⟩
  have hpair : (firstFit B k group size row taken as).Pairwise R := by
    apply (firstFit_pairwise k group size taken as hrow).imp
    intro x y h hx hy
    obtain ⟨s, hs⟩ := Option.isSome_iff_exists.mp hx
    obtain ⟨t, ht⟩ := Option.isSome_iff_exists.mp hy
    exact (h s t hs ht).2
  by_contra hne
  exact hpair.forall ha hb hne rfl rfl heq

theorem le_filledRows (B k : Nat) (group : α → γ) (size : α → Nat) (row : Nat) (taken : List γ)
    (as : List α) : row ≤ filledRows B k group size row taken as := by
  induction as generalizing row taken with
  | nil => exact le_rfl
  | cons a as ih =>
    unfold filledRows
    split
    · exact ih _ _
    · exact (Nat.le_add_right _ _).trans (ih _ _)

/-- The rows from `row` to `filledRows` are those of the items that got a place. -/
theorem filledRows_iff {i : Nat} :
    (row ≤ i ∧ i < filledRows B k group size row taken as) ↔
      ∃ a s, (a, some s) ∈ firstFit B k group size row taken as ∧ s ≤ i ∧
        i < s + rowsFor k (size a) := by
  induction as generalizing row taken with
  | nil =>
    constructor
    · rintro ⟨hle, hlt⟩
      exact absurd hlt (not_lt.mpr hle)
    · rintro ⟨a, s, h, -⟩
      cases h
  | cons b as ih =>
    unfold filledRows firstFit
    split
    · rw [ih]
      constructor
      · rintro ⟨a, s, h, hi⟩
        exact ⟨a, s, List.mem_cons_of_mem _ h, hi⟩
      · rintro ⟨a, s, h, hi⟩
        rcases List.mem_cons.mp h with heq | h
        · cases heq
        · exact ⟨a, s, h, hi⟩
    · constructor
      · rintro ⟨hle, hlt⟩
        by_cases hb : i < row + rowsFor k (size b)
        · exact ⟨b, row, List.mem_cons_self, hle, hb⟩
        · obtain ⟨a, s, h, hi⟩ := ih.mp ⟨not_lt.mp hb, hlt⟩
          exact ⟨a, s, List.mem_cons_of_mem _ h, hi⟩
      · rintro ⟨a, s, h, hle, hlt⟩
        rcases List.mem_cons.mp h with heq | h
        · cases heq
          exact ⟨hle, lt_of_lt_of_le hlt (le_filledRows _ _ _ _ _ _ _)⟩
        · have := ih.mpr ⟨a, s, h, hle, hlt⟩
          exact ⟨by omega, this.2⟩

theorem filledRows_of_none (h : (firstFit B k group size row taken as).countP (·.2.isSome) = 0) :
    filledRows B k group size row taken as = row := by
  rw [List.countP_eq_zero] at h
  rcases lt_or_eq_of_le (le_filledRows B k group size row taken as) with hlt | heq
  · obtain ⟨a, s, hmem, -⟩ := filledRows_iff.mp ⟨le_rfl, hlt⟩
    exact absurd rfl (h _ hmem)
  · exact heq.symm

end FirstFit

end Ns3.Lib
