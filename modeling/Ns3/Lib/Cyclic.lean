import Mathlib.Data.List.Count
import Mathlib.Data.List.Range
import Mathlib.Data.Int.ModEq
import Mathlib.Algebra.BigOperators.Group.List.Basic

/-!
# Work of a cyclic calendar, done ahead of time

A calendar repeats every `n` slots. The positions `ps` of one period have work to do, and
the work for a slot at position `i` is started `K i` slots ahead. `dueAt n ps K g` lists
the offsets of the work that is started in the slots at position `g`. Over a run of
consecutive slots every slot gets its work once (`sum_countP_dueAt`), and in one period each
position comes once (`countP_range_add_mod`).
-/

namespace Ns3.Lib.Cyclic

/-- The offsets started at position `g` of the calendar. -/
def dueAt (n : Nat) (ps : List Nat) (K : Nat → Nat) (g : Nat) : List Nat :=
  (ps.filter fun i : Nat => ((i : Int) - (K i : Int)) % n = g).map K

variable {n : Nat} {ps : List Nat} {K : Nat → Nat}

theorem mem_dueAt {g k : Nat} :
    k ∈ dueAt n ps K g ↔ ∃ i ∈ ps, ((i : Int) - K i) % n = g ∧ K i = k := by
  simp [dueAt, and_assoc]

theorem dueAt_append (ps qs : List Nat) (g : Nat) :
    dueAt n (ps ++ qs) K g = dueAt n ps K g ++ dueAt n qs K g := by
  rw [dueAt, List.filter_append, List.map_append]
  rfl

theorem dueAt_singleton {i e : Nat} (h : ((i : Int) - K i) % n = (e : Int)) (g : Nat) :
    dueAt n [i] K g = if e = g then [K i] else [] := by
  rw [dueAt, List.filter_singleton, h]
  simp only [Nat.cast_inj, Bool.cond_decide]
  split <;> rfl

/-- Starting at `t` with the offset of position `i` reaches a slot at position `i`. -/
theorem due_iff {i t s : Nat} (hi : i < n) (h : t + K i = s) :
    ((i : Int) - K i) % n = ((t % n : Nat) : Int) ↔ i = s % n := by
  subst h
  rw [Int.natCast_mod]
  constructor
  · intro he
    have hmod : (i : Int) ≡ t + K i [ZMOD n] := by
      have := Int.ModEq.add_right (K i : Int) (show (i : Int) - K i ≡ t [ZMOD n] from he)
      rwa [sub_add_cancel] at this
    have hnat : i ≡ t + K i [MOD n] := by
      rw [← Int.natCast_modEq_iff]
      push_cast
      exact hmod
    rw [← hnat, Nat.mod_eq_of_lt hi]
  · intro he
    have hnat : i ≡ t + K i [MOD n] := by
      rw [he]
      exact (Nat.mod_modEq _ _).trans (by rw [← he])
    have hmod := (Int.natCast_modEq_iff (n := n)).mpr hnat
    push_cast at hmod
    have := Int.ModEq.sub_right (K i : Int) hmod
    rwa [add_sub_cancel_right] at this

theorem countP_dueAt (hnd : ps.Nodup) (hlt : ∀ i ∈ ps, i < n) (t s : Nat) :
    (dueAt n ps K (t % n)).countP (fun k => t + k = s) =
      if s % n ∈ ps ∧ t + K (s % n) = s then 1 else 0 := by
  have hcongr : (dueAt n ps K (t % n)).countP (fun k => t + k = s) =
      ps.countP fun i => i = s % n ∧ t + K (s % n) = s := by
    rw [dueAt, List.countP_map, List.countP_filter]
    apply List.countP_congr
    intro i hi
    simp only [Function.comp_apply, Bool.decide_and, Bool.and_eq_true, decide_eq_true_eq]
    constructor
    · rintro ⟨hs, hg⟩
      obtain rfl := (due_iff (hlt i hi) hs).mp hg
      exact ⟨rfl, hs⟩
    · rintro ⟨hi', hs⟩
      rw [← hi'] at hs
      exact ⟨hs, (due_iff (hlt i hi) hs).mpr hi'⟩
  rw [hcongr]
  by_cases hs : t + K (s % n) = s
  · simp only [hs, and_true]
    have hcount : ps.countP (fun i => decide (i = s % n)) = ps.count (s % n) := by
      apply List.countP_congr
      intro i _
      simp
    rw [hcount, hnd.count]
  · simp [hs]

theorem sum_range_ite_eq (R t₀ : Nat) :
    ((List.range R).map fun t => if t = t₀ then 1 else 0).sum = if t₀ < R then 1 else 0 := by
  induction R with
  | zero => simp
  | succ R ih =>
    rw [List.range_succ, List.map_append, List.sum_append, ih]
    simp only [List.map_cons, List.map_nil, List.sum_cons, List.sum_nil, Nat.add_zero]
    split <;> split <;> split <;> omega

/-- Over a run of `R` slots the work for slot `s` is started once, `K (s % n)` slots
ahead, if the run covers that slot, and else not at all. -/
theorem sum_countP_dueAt (hnd : ps.Nodup) (hlt : ∀ i ∈ ps, i < n) (R s : Nat) :
    ((List.range R).map fun t => (dueAt n ps K (t % n)).countP fun k => t + k = s).sum =
      if s % n ∈ ps ∧ K (s % n) ≤ s ∧ s - K (s % n) < R then 1 else 0 := by
  simp only [countP_dueAt hnd hlt]
  by_cases hs : s % n ∈ ps ∧ K (s % n) ≤ s
  · have hterm : ∀ t, (if s % n ∈ ps ∧ t + K (s % n) = s then 1 else 0) =
        if t = s - K (s % n) then 1 else 0 := by
      intro t
      congr 1
      apply propext
      constructor
      · rintro ⟨-, h⟩
        omega
      · intro h
        exact ⟨hs.1, by omega⟩
    simp only [hterm, sum_range_ite_eq]
    simp [hs.1, hs.2]
  · have hterm : ∀ t, (if s % n ∈ ps ∧ t + K (s % n) = s then 1 else 0) = 0 := by
      intro t
      rw [if_neg]
      rintro ⟨h1, h2⟩
      exact hs ⟨h1, by omega⟩
    rw [if_neg (fun h => hs ⟨h.1, h.2.1⟩)]
    simp only [hterm]
    simp

/-- In `n` consecutive slots each position of the calendar comes once. -/
theorem countP_range_add_mod {i : Nat} (hi : i < n) (t : Nat) :
    ((List.range n).countP fun k => (t + k) % n = i) = 1 := by
  have hlt : t % n < n := Nat.mod_lt _ (by omega)
  have hmod : ∀ k < n, (t + k) % n = if t % n + k < n then t % n + k else t % n + k - n := by
    intro k hk
    rw [Nat.add_mod, Nat.mod_eq_of_lt hk]
    split
    · rename_i h
      exact Nat.mod_eq_of_lt h
    · rw [Nat.mod_eq_sub_mod (by omega), Nat.mod_eq_of_lt (by omega)]
  have hcongr : ((List.range n).countP fun k => (t + k) % n = i) =
      (List.range n).count (if t % n ≤ i then i - t % n else i + n - t % n) := by
    apply List.countP_congr
    intro k hk
    rw [decide_eq_true_eq, beq_iff_eq, hmod k (List.mem_range.mp hk)]
    have := List.mem_range.mp hk
    split <;> split <;> omega
  rw [hcongr, List.nodup_range.count, if_pos]
  rw [List.mem_range]
  split <;> omega

end Ns3.Lib.Cyclic
