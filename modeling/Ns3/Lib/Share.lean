import Mathlib.Algebra.Order.Ring.Int
import Mathlib.Algebra.BigOperators.Group.List.Basic
import Mathlib.Algebra.Order.BigOperators.Group.List
import Mathlib.Algebra.Order.Group.Nat
import Mathlib.Data.List.Nodup
import Mathlib.Data.List.Perm.Basic

/-!
# Sharing out units

Two ways to hand out units one at a time. A `Service` gives a unit to the first entry of a
list whose demand is not met, and stops when there is none. `raiseMin` adds one to an entry
that no other is below.
-/

namespace Ns3.Lib

/-! ## The first unmet demand -/

/-- Entries with a demand. `pass` is what happens to an entry that is met when it is passed
over, `miss` what happens to the others when one is given a unit, `arrange` the order in which
the entries are looked at when so many units are left. -/
structure Service (α : Type) where
  unmet : α → Bool
  give : α → α
  pass : α → α
  miss : α → α
  arrange : Nat → List α → List α
  arrange_perm : ∀ n l, (arrange n l).Perm l

namespace Service

variable {α : Type} (s : Service α)

/-- The list after one unit, and whether it was given away. -/
def first : List α → List α × Bool
  | [] => ([], false)
  | a :: as =>
    if s.unmet a then (s.give a :: as.map s.miss, true)
    else if (first as).2 then (s.miss (s.pass a) :: (first as).1, true)
    else (s.pass a :: (first as).1, false)

def run : Nat → List α → List α
  | 0, l => l
  | n + 1, l =>
    if (s.first (s.arrange (n + 1) l)).2 then run n (s.first (s.arrange (n + 1) l)).1
    else (s.first (s.arrange (n + 1) l)).1

variable {s}

/-- Whatever a unit for an unmet demand, missing one and passing over a met demand keep holds of
the entries. -/
theorem first_forall_of_unmet {P : α → Prop} (hgive : ∀ a, P a → s.unmet a = true → P (s.give a))
    (hpass : ∀ a, P a → s.unmet a = false → P (s.pass a)) (hmiss : ∀ a, P a → P (s.miss a))
    {l : List α} (h : ∀ a ∈ l, P a) : ∀ a ∈ (s.first l).1, P a := by
  induction l with
  | nil => exact h
  | cons a l ih =>
    have ha := h a List.mem_cons_self
    have hl : ∀ b ∈ l, P b := fun b hb => h b (List.mem_cons_of_mem _ hb)
    rw [first]
    split
    · next hunmet =>
      intro b hb
      rcases List.mem_cons.mp hb with rfl | hb
      · exact hgive a ha hunmet
      · obtain ⟨c, hc, rfl⟩ := List.mem_map.mp hb
        exact hmiss c (hl c hc)
    · next hmet =>
      have hpassed := hpass a ha (Bool.eq_false_iff.mpr hmet)
      split
      · exact List.forall_mem_cons.mpr ⟨hmiss _ hpassed, ih hl⟩
      · exact List.forall_mem_cons.mpr ⟨hpassed, ih hl⟩

theorem run_forall_of_unmet {P : α → Prop} (hgive : ∀ a, P a → s.unmet a = true → P (s.give a))
    (hpass : ∀ a, P a → s.unmet a = false → P (s.pass a)) (hmiss : ∀ a, P a → P (s.miss a))
    (n : Nat) {l : List α} (h : ∀ a ∈ l, P a) : ∀ a ∈ s.run n l, P a := by
  induction n generalizing l with
  | zero => exact h
  | succ n ih =>
    have hfirst := first_forall_of_unmet hgive hpass hmiss
      fun a ha => h a ((s.arrange_perm (n + 1) l).mem_iff.mp ha)
    rw [run]
    split
    · exact ih hfirst
    · exact hfirst

theorem run_forall {P : α → Prop} (hgive : ∀ a, P a → P (s.give a))
    (hpass : ∀ a, P a → P (s.pass a)) (hmiss : ∀ a, P a → P (s.miss a)) (n : Nat) {l : List α}
    (h : ∀ a ∈ l, P a) : ∀ a ∈ s.run n l, P a :=
  run_forall_of_unmet (fun a ha _ => hgive a ha) (fun a ha _ => hpass a ha) hmiss n h

section Amount

variable {amount : α → Nat}

theorem sum_first (hgive : ∀ a, amount (s.give a) = amount a + 1)
    (hpass : ∀ a, amount (s.pass a) = amount a) (hmiss : ∀ a, amount (s.miss a) = amount a)
    (l : List α) :
    ((s.first l).1.map amount).sum = (l.map amount).sum + if (s.first l).2 then 1 else 0 := by
  induction l with
  | nil => rfl
  | cons a l ih =>
    rw [first]
    split
    · have hrest : (l.map s.miss).map amount = l.map amount := by
        rw [List.map_map]
        exact List.map_congr_left fun b _ => hmiss b
      rw [List.map_cons, List.sum_cons, List.map_cons, List.sum_cons, hgive, hrest, if_pos rfl]
      omega
    · split
      · next hserved =>
        rw [if_pos hserved] at ih
        rw [List.map_cons, List.sum_cons, List.map_cons, List.sum_cons, hmiss, hpass, ih,
          if_pos rfl]
        exact (Nat.add_assoc _ _ _).symm
      · next hserved =>
        rw [if_neg hserved] at ih
        rw [List.map_cons, List.sum_cons, List.map_cons, List.sum_cons, hpass, ih,
          if_neg Bool.false_ne_true]
        exact (Nat.add_assoc _ _ _).symm

theorem sum_arrange (s : Service α) (n : Nat) (l : List α) :
    ((s.arrange n l).map amount).sum = (l.map amount).sum :=
  ((s.arrange_perm n l).map amount).sum_eq

theorem sum_run_le (hgive : ∀ a, amount (s.give a) = amount a + 1)
    (hpass : ∀ a, amount (s.pass a) = amount a) (hmiss : ∀ a, amount (s.miss a) = amount a)
    (n : Nat) (l : List α) :
    ((s.run n l).map amount).sum ≤ (l.map amount).sum + n := by
  induction n generalizing l with
  | zero => exact le_rfl
  | succ n ih =>
    have hsum := sum_first hgive hpass hmiss (s.arrange (n + 1) l)
    rw [sum_arrange] at hsum
    rw [run]
    split
    · rename_i hserved
      rw [if_pos hserved] at hsum
      have := ih (s.first (s.arrange (n + 1) l)).1
      omega
    · rename_i hserved
      rw [if_neg hserved] at hsum
      omega

theorem le_sum_run (hgive : ∀ a, amount (s.give a) = amount a + 1)
    (hpass : ∀ a, amount (s.pass a) = amount a) (hmiss : ∀ a, amount (s.miss a) = amount a)
    (n : Nat) (l : List α) :
    (l.map amount).sum ≤ ((s.run n l).map amount).sum := by
  induction n generalizing l with
  | zero => exact le_rfl
  | succ n ih =>
    have hsum := sum_first hgive hpass hmiss (s.arrange (n + 1) l)
    rw [sum_arrange] at hsum
    rw [run]
    split
    · have := ih (s.first (s.arrange (n + 1) l)).1
      omega
    · omega

end Amount

theorem first_served {a : α} {l : List α} (ha : a ∈ l) (hunmet : s.unmet a = true) :
    (s.first l).2 = true := by
  induction l with
  | nil => cases ha
  | cons b l ih =>
    rw [first]
    split
    · rfl
    · next hb =>
      rcases List.mem_cons.mp ha with rfl | ha
      · exact absurd hunmet hb
      · rw [if_pos (ih ha)]

/-- A demand that is not met at the start gets something, or another one does. -/
theorem lt_sum_run {amount : α → Nat} (hgive : ∀ a, amount (s.give a) = amount a + 1)
    (hpass : ∀ a, amount (s.pass a) = amount a) (hmiss : ∀ a, amount (s.miss a) = amount a)
    {n : Nat} (hn : 0 < n) {l : List α} {a : α} (ha : a ∈ l) (hunmet : s.unmet a = true) :
    (l.map amount).sum < ((s.run n l).map amount).sum := by
  obtain ⟨n, rfl⟩ := Nat.exists_eq_succ_of_ne_zero hn.ne'
  have hserved := first_served ((s.arrange_perm (n + 1) l).mem_iff.mpr ha) hunmet
  have hsum := sum_first hgive hpass hmiss (s.arrange (n + 1) l)
  rw [sum_arrange, if_pos hserved] at hsum
  have := le_sum_run hgive hpass hmiss n (s.first (s.arrange (n + 1) l)).1
  rw [run, if_pos hserved]
  omega

theorem map_first {β : Type} {f : α → β} (hgive : ∀ a, f (s.give a) = f a)
    (hpass : ∀ a, f (s.pass a) = f a) (hmiss : ∀ a, f (s.miss a) = f a) (l : List α) :
    (s.first l).1.map f = l.map f := by
  induction l with
  | nil => rfl
  | cons a l ih =>
    rw [first]
    split
    · rw [List.map_cons, List.map_cons, hgive, List.map_map]
      exact congrArg _ (List.map_congr_left fun b _ => hmiss b)
    · split
      · rw [List.map_cons, List.map_cons, hmiss, hpass, ih]
      · rw [List.map_cons, List.map_cons, hpass, ih]

section Fair

variable {P : α → Prop} {amount : α → Nat}

theorem first_eq_of_met (hpass : ∀ a, P a → s.pass a = a) {l : List α} (hP : ∀ a ∈ l, P a)
    (h : (s.first l).2 = false) : (s.first l).1 = l ∧ ∀ a ∈ l, s.unmet a = false := by
  induction l with
  | nil => exact ⟨rfl, nofun⟩
  | cons a l ih =>
    rw [first] at h ⊢
    by_cases hmet : s.unmet a = true
    · rw [if_pos hmet] at h
      cases h
    · rw [if_neg hmet] at h ⊢
      by_cases hserved : (s.first l).2 = true
      · rw [if_pos hserved] at h
        cases h
      obtain ⟨heq, hl⟩ :=
        ih (fun b hb => hP b (List.mem_cons_of_mem _ hb)) (Bool.eq_false_iff.mpr hserved)
      rw [if_neg hserved, hpass a (hP a List.mem_cons_self), heq]
      refine ⟨rfl, fun b hb => ?_⟩
      rcases List.mem_cons.mp hb with rfl | hb
      · exact Bool.eq_false_iff.mpr hmet
      · exact hl b hb

/-- The amounts of unmet demands differ by at most one. -/
def Even (s : Service α) (amount : α → Nat) (l : List α) : Prop :=
  ∀ a ∈ l, ∀ b ∈ l, s.unmet a = true → s.unmet b = true → amount a ≤ amount b + 1

/-- The first unmet demand of a sorted list is one that no other unmet one is below. -/
theorem even_first (hpass : ∀ a, P a → s.pass a = a) (hmiss : ∀ a, s.miss a = a)
    (hgive : ∀ a, amount (s.give a) = amount a + 1) {l : List α} (hP : ∀ a ∈ l, P a)
    (hsorted : l.Pairwise fun a b => amount a ≤ amount b) (h : s.Even amount l) :
    s.Even amount (s.first l).1 := by
  induction l with
  | nil => exact h
  | cons x l ih =>
    obtain ⟨hx, hl⟩ := List.pairwise_cons.mp hsorted
    have hmissed : l.map s.miss = l :=
      (List.map_congr_left fun b _ => hmiss b).trans (List.map_id l)
    rw [first]
    split
    · next hunmet =>
      rw [hmissed]
      intro a ha b hb hua hub
      rcases List.mem_cons.mp ha with rfl | ha
      · rcases List.mem_cons.mp hb with rfl | hb
        · exact Nat.le_succ _
        · rw [hgive]
          exact Nat.succ_le_succ (hx b hb)
      · rcases List.mem_cons.mp hb with rfl | hb
        · have hle := h a (List.mem_cons_of_mem _ ha) x List.mem_cons_self hua hunmet
          rw [hgive]
          omega
        · exact h a (List.mem_cons_of_mem _ ha) b (List.mem_cons_of_mem _ hb) hua hub
    · next hmet =>
      have hrest : s.Even amount (s.first l).1 :=
        ih (fun a ha => hP a (List.mem_cons_of_mem _ ha)) hl
          fun a ha b hb => h a (List.mem_cons_of_mem _ ha) b (List.mem_cons_of_mem _ hb)
      have hall : s.Even amount (x :: (s.first l).1) := by
        intro a ha b hb hua hub
        rcases List.mem_cons.mp ha with rfl | ha
        · exact absurd hua hmet
        · rcases List.mem_cons.mp hb with rfl | hb
          · exact absurd hub hmet
          · exact hrest a ha b hb hua hub
      rw [hpass x (hP x List.mem_cons_self), hmiss x]
      split
      · exact hall
      · exact hall

/-- A service that always looks at the smallest amounts first shares evenly. -/
theorem even_run (hpass : ∀ a, P a → s.pass a = a) (hmiss : ∀ a, s.miss a = a)
    (hP : ∀ a, P a → s.unmet a = true → P (s.give a))
    (hgive : ∀ a, amount (s.give a) = amount a + 1)
    (hsorted : ∀ n l, (s.arrange n l).Pairwise fun a b => amount a ≤ amount b) (n : Nat)
    {l : List α} (hl : ∀ a ∈ l, P a) (h : s.Even amount l) : s.Even amount (s.run n l) := by
  induction n generalizing l with
  | zero => exact h
  | succ n ih =>
    have hmem : ∀ a ∈ s.arrange (n + 1) l, a ∈ l :=
      fun a => (s.arrange_perm (n + 1) l).mem_iff.mp
    have hl' : ∀ a ∈ s.arrange (n + 1) l, P a := fun a ha => hl a (hmem a ha)
    have hfirst := even_first hpass hmiss hgive hl' (hsorted (n + 1) l)
      fun a ha b hb => h a (hmem a ha) b (hmem b hb)
    rw [run]
    split
    · apply ih _ hfirst
      apply first_forall_of_unmet hP _ _ hl'
      · intro a ha _
        rw [hpass a ha]
        exact ha
      · intro a ha
        rw [hmiss a]
        exact ha
    · exact hfirst

/-- The units run out, or all demands are met. -/
theorem met_or_sum_run (hpass : ∀ a, P a → s.pass a = a) (hmiss : ∀ a, s.miss a = a)
    (hP : ∀ a, P a → s.unmet a = true → P (s.give a))
    (hgive : ∀ a, amount (s.give a) = amount a + 1)
    (hpassAmount : ∀ a, amount (s.pass a) = amount a) (n : Nat) {l : List α} (hl : ∀ a ∈ l, P a) :
    (∀ a ∈ s.run n l, s.unmet a = false) ∨
      ((s.run n l).map amount).sum = (l.map amount).sum + n := by
  induction n generalizing l with
  | zero => exact Or.inr rfl
  | succ n ih =>
    have hl' : ∀ a ∈ s.arrange (n + 1) l, P a :=
      fun a ha => hl a ((s.arrange_perm (n + 1) l).mem_iff.mp ha)
    rw [run]
    split
    · next hserved =>
      have hkept : ∀ a ∈ (s.first (s.arrange (n + 1) l)).1, P a := by
        apply first_forall_of_unmet hP _ _ hl'
        · intro a ha _
          rw [hpass a ha]
          exact ha
        · intro a ha
          rw [hmiss a]
          exact ha
      have hsum := sum_first hgive hpassAmount (fun a => congrArg amount (hmiss a))
        (s.arrange (n + 1) l)
      rw [sum_arrange, if_pos hserved] at hsum
      rcases ih hkept with hmet | hrest
      · exact Or.inl hmet
      · exact Or.inr (by omega)
    · next hserved =>
      obtain ⟨heq, hmet⟩ := first_eq_of_met hpass hl' (Bool.eq_false_iff.mpr hserved)
      rw [heq]
      exact Or.inl hmet

end Fair

/-- What a unit, missing one and being passed over do not change stays, in whatever order. -/
theorem map_run_perm {β : Type} {f : α → β} (hgive : ∀ a, f (s.give a) = f a)
    (hpass : ∀ a, f (s.pass a) = f a) (hmiss : ∀ a, f (s.miss a) = f a) (n : Nat) (l : List α) :
    ((s.run n l).map f).Perm (l.map f) := by
  induction n generalizing l with
  | zero => exact List.Perm.refl _
  | succ n ih =>
    have hfirst := map_first hgive hpass hmiss (s.arrange (n + 1) l)
    have harrange := (s.arrange_perm (n + 1) l).map f
    rw [run]
    split
    · exact (ih _).trans (hfirst ▸ harrange)
    · rw [hfirst]
      exact harrange

theorem length_run (n : Nat) (l : List α) : (s.run n l).length = l.length := by
  have hperm := map_run_perm (s := s) (f := fun _ => ()) (fun _ => rfl) (fun _ => rfl)
    (fun _ => rfl) n l
  have hlen := hperm.length_eq
  rwa [List.length_map, List.length_map] at hlen

theorem isEmpty_run (n : Nat) (l : List α) : (s.run n l).isEmpty = l.isEmpty := by
  have hlen := length_run (s := s) n l
  rw [Bool.eq_iff_iff, List.isEmpty_iff, List.isEmpty_iff, ← List.length_eq_zero_iff,
    ← List.length_eq_zero_iff, hlen]

end Service

/-- Entries that are looked up by their keys in a list with the same keys. -/
theorem map_find_perm {α : Type} {key : α → Nat} {l r : List α} (hnodup : (l.map key).Nodup)
    (hkeys : (r.map key).Perm (l.map key)) :
    (l.map fun a => (r.find? fun b => key b = key a).getD a).Perm r := by
  have hfound : ∀ a ∈ l, ∃ b ∈ r, key b = key a ∧
      (r.find? fun b => key b = key a).getD a = b := by
    intro a ha
    obtain ⟨b, hb, hkey⟩ := List.mem_map.mp (hkeys.mem_iff.mpr (List.mem_map_of_mem ha))
    cases hfind : r.find? (fun b => key b = key a) with
    | none => exact absurd (decide_eq_true hkey) (List.find?_eq_none.mp hfind b hb)
    | some b' =>
      have hkey' : key b' = key a := by simpa using List.find?_some hfind
      exact ⟨b', List.mem_of_find?_eq_some hfind, hkey', rfl⟩
  have hsame : (l.map fun a => (r.find? fun b => key b = key a).getD a).map key = l.map key := by
    rw [List.map_map]
    apply List.map_congr_left
    intro a ha
    obtain ⟨b, -, hkey, heq⟩ := hfound a ha
    exact (congrArg key heq).trans hkey
  have hsub : (l.map fun a => (r.find? fun b => key b = key a).getD a) ⊆ r := by
    intro x hx
    obtain ⟨a, ha, rfl⟩ := List.mem_map.mp hx
    obtain ⟨b, hb, -, heq⟩ := hfound a ha
    exact heq ▸ hb
  have hlen := hkeys.length_eq
  rw [List.length_map, List.length_map] at hlen
  refine (List.subperm_of_subset (List.Nodup.of_map key (hsame ▸ hnodup)) hsub).perm_of_length_le ?_
  rw [List.length_map, hlen]

/-! ## The smallest entry -/

/-- A choice of an entry that no other is below. -/
structure MinChoice where
  index : List Nat → Nat
  index_lt : ∀ l, l ≠ [] → index l < l.length
  index_le : ∀ (l : List Nat) (x : Nat), x ∈ l → l.getD (index l) 0 ≤ x

/-- The index of the first of the smallest entries. -/
def firstMinIndex : List Nat → Nat
  | [] => 0
  | x :: l => if l = [] ∨ x ≤ l.getD (firstMinIndex l) 0 then 0 else firstMinIndex l + 1

theorem firstMinIndex_lt {l : List Nat} (h : l ≠ []) : firstMinIndex l < l.length := by
  induction l with
  | nil => exact absurd rfl h
  | cons x l ih =>
    rw [firstMinIndex, List.length_cons]
    split
    · exact Nat.succ_pos _
    · rename_i hnot
      rw [not_or] at hnot
      exact Nat.succ_lt_succ (ih hnot.1)

theorem getD_firstMinIndex_le (l : List Nat) (x : Nat) (hx : x ∈ l) :
    l.getD (firstMinIndex l) 0 ≤ x := by
  induction l with
  | nil => cases hx
  | cons y l ih =>
    rw [firstMinIndex]
    split
    · rename_i hmin
      rw [List.getD_cons_zero]
      rcases List.mem_cons.mp hx with rfl | hx
      · exact le_rfl
      · rcases hmin with rfl | hle
        · cases hx
        · exact hle.trans (ih hx)
    · rename_i hnot
      rw [not_or, not_le] at hnot
      rw [List.getD_cons_succ]
      rcases List.mem_cons.mp hx with rfl | hx
      · exact hnot.2.le
      · exact ih hx

/-- The first of the smallest entries is taken. -/
def MinChoice.first : MinChoice where
  index := firstMinIndex
  index_lt _ := firstMinIndex_lt
  index_le := getD_firstMinIndex_le

/-- Add one to the chosen entry, `n` times. -/
def raiseMin (c : MinChoice) : Nat → List Nat → List Nat
  | 0, l => l
  | n + 1, l => raiseMin c n (l.modify (c.index l) (· + 1))

section Raise

variable {c : MinChoice} {l : List Nat}

theorem sum_modify_succ {i : Nat} (h : i < l.length) : (l.modify i (· + 1)).sum = l.sum + 1 := by
  induction l generalizing i with
  | nil => cases h
  | cons x l ih =>
    cases i with
    | zero =>
      rw [List.modify_zero_cons, List.sum_cons, List.sum_cons]
      omega
    | succ i =>
      rw [List.modify_succ_cons, List.sum_cons, List.sum_cons, ih (Nat.lt_of_succ_lt_succ h)]
      omega

theorem length_raiseMin (n : Nat) : (raiseMin c n l).length = l.length := by
  induction n generalizing l with
  | zero => rfl
  | succ n ih => rw [raiseMin, ih, List.length_modify]

theorem sum_raiseMin (n : Nat) (h : l ≠ []) : (raiseMin c n l).sum = l.sum + n := by
  induction n generalizing l with
  | zero => rfl
  | succ n ih =>
    have hne : l.modify (c.index l) (· + 1) ≠ [] := by
      intro hnil
      apply h
      rw [← List.length_eq_zero_iff, ← List.length_modify, hnil, List.length_nil]
    rw [raiseMin, ih hne, sum_modify_succ (c.index_lt l h)]
    omega

/-- The number of entries that have something. -/
def positives (l : List Nat) : Nat := l.countP (0 < ·)

theorem positives_modify {i : Nat} (h : i < l.length) :
    positives (l.modify i (· + 1)) = positives l + if l.getD i 0 = 0 then 1 else 0 := by
  induction l generalizing i with
  | nil => cases h
  | cons x l ih =>
    cases i with
    | zero =>
      rw [List.modify_zero_cons, positives, positives, List.countP_cons, List.countP_cons,
        List.getD_cons_zero]
      rcases Nat.eq_zero_or_pos x with rfl | hx
      · simp
      · rw [if_neg hx.ne']
        simp [hx]
    | succ i =>
      have := ih (Nat.lt_of_succ_lt_succ h)
      rw [positives, positives] at this
      rw [List.modify_succ_cons, positives, positives, List.countP_cons, List.countP_cons, this,
        List.getD_cons_succ]
      omega

/-- Raising an entry of a list in which one entry is zero makes one more positive. -/
theorem positives_raise (h : l ≠ []) :
    min l.length (positives l + 1) ≤ positives (l.modify (c.index l) (· + 1)) := by
  rw [positives_modify (c.index_lt l h)]
  by_cases hz : l.getD (c.index l) 0 = 0
  · rw [if_pos hz]
    exact min_le_right _ _
  · -- the smallest entry is positive, so all of them are
    rw [if_neg hz]
    have hall : positives l = l.length := by
      rw [positives, List.countP_eq_length]
      intro x hx
      have := c.index_le l x hx
      simp only [decide_eq_true_eq]
      omega
    omega

theorem positives_raiseMin (n : Nat) (h : l ≠ []) :
    min l.length (positives l + n) ≤ positives (raiseMin c n l) := by
  induction n generalizing l with
  | zero =>
    exact min_le_right _ _
  | succ n ih =>
    have hne : l.modify (c.index l) (· + 1) ≠ [] := by
      intro hnil
      apply h
      rw [← List.length_eq_zero_iff, ← List.length_modify, hnil, List.length_nil]
    have hstep := positives_raise (c := c) h
    have hrest := ih hne
    rw [List.length_modify] at hrest
    rw [raiseMin]
    omega

end Raise

theorem sum_lt_of_positives_le_one {l : List Nat} {bound : Nat} (hpos : 0 < bound)
    (h : positives l ≤ 1) (hlt : ∀ x ∈ l, x < bound) : l.sum < bound := by
  induction l with
  | nil => exact hpos
  | cons x l ih =>
    rw [positives, List.countP_cons] at h
    rw [List.sum_cons]
    rcases Nat.eq_zero_or_pos x with rfl | hx
    · rw [Nat.zero_add]
      exact ih (by simpa [positives] using h) fun y hy => hlt y (List.mem_cons_of_mem _ hy)
    · -- all others are zero
      have hnone : l.countP (0 < ·) = 0 := by
        rw [if_pos (decide_eq_true hx)] at h
        omega
      have hzero : l.sum = 0 := by
        rw [List.sum_eq_zero_iff]
        intro y hy
        have := List.countP_eq_zero.mp hnone y hy
        simpa using this
      rw [hzero, Nat.add_zero]
      exact hlt x List.mem_cons_self

theorem positives_pos_of_sum_pos {l : List Nat} (h : 0 < l.sum) : 0 < positives l := by
  rw [positives, List.countP_pos_iff]
  by_contra hnone
  have hzero : l.sum = 0 := by
    rw [List.sum_eq_zero_iff]
    intro y hy
    by_contra hy0
    exact hnone ⟨y, hy, decide_eq_true (Nat.pos_of_ne_zero hy0)⟩
  omega

theorem positives_le_sum (l : List Nat) : positives l ≤ l.sum := by
  induction l with
  | nil => exact le_rfl
  | cons x l ih =>
    rw [positives] at ih ⊢
    rw [List.countP_cons, List.sum_cons]
    split
    · rename_i hx
      have := of_decide_eq_true hx
      omega
    · omega

theorem lt_sum_of_mem {α : Type} {f : α → Nat} {l : List α} (hpos : ∀ a ∈ l, 0 < f a)
    (hlen : 2 ≤ l.length) {a : α} (ha : a ∈ l) : f a < (l.map f).sum := by
  obtain ⟨s, t, rfl⟩ := List.append_of_mem ha
  rw [List.map_append, List.sum_append, List.map_cons, List.sum_cons]
  have hother : ∀ u : List α, u ≠ [] → (∀ b ∈ u, 0 < f b) → 0 < (u.map f).sum := by
    intro u hu hall
    obtain ⟨b, u, rfl⟩ := List.exists_cons_of_ne_nil hu
    rw [List.map_cons, List.sum_cons]
    have := hall b List.mem_cons_self
    omega
  by_cases hs : s = []
  · have ht : t ≠ [] := by
      rintro rfl
      rw [hs] at hlen
      simp at hlen
    have := hother t ht fun b hb => hpos b (by simp [hb])
    omega
  · have := hother s hs fun b hb => hpos b (by simp [hb])
    omega

theorem foldl_add_mod (m : Nat) (l : List Nat) (used : Nat) :
    l.foldl (fun used x => (used + x) % m) (used % m) = (used + l.sum) % m := by
  induction l generalizing used with
  | nil => rfl
  | cons x l ih =>
    rw [List.foldl_cons, Nat.mod_add_mod, ih, List.sum_cons, Nat.add_assoc]

end Ns3.Lib
