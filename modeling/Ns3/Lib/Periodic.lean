import Mathlib.Tactic.Ring

/-!
# Periodic deadlines

A deadline recurs at `s₀`, `s₀ + p`, `s₀ + 2 * p` and so on. `IsNext s₀ p t d` says that
`d` is the first of them that is not before `t`; a clock that keeps `d` and adds `p` when
it is reached keeps `IsNext` (`IsNext.fire`, `IsNext.wait`).
-/

namespace Ns3.Lib

/-- `t` is a recurrence of `s₀` with period `p`. -/
def Due (s₀ p t : Nat) : Prop := ∃ k, t = s₀ + k * p

structure IsNext (s₀ p t d : Nat) : Prop where
  due : Due s₀ p d
  le : t ≤ d
  first : ∀ x, Due s₀ p x → t ≤ x → d ≤ x

variable {s₀ p t d : Nat}

theorem Due.start (s₀ p : Nat) : Due s₀ p s₀ := ⟨0, by simp⟩

theorem Due.le (h : Due s₀ p t) : s₀ ≤ t := by
  obtain ⟨k, rfl⟩ := h
  exact Nat.le_add_right _ _

theorem Due.add (h : Due s₀ p t) : Due s₀ p (t + p) := by
  obtain ⟨k, rfl⟩ := h
  exact ⟨k + 1, by ring⟩

/-- Two recurrences are a multiple of the period apart. -/
theorem Due.add_le {x : Nat} (ht : Due s₀ p t) (hx : Due s₀ p x) (hlt : t < x) :
    t + p ≤ x := by
  obtain ⟨k, rfl⟩ := ht
  obtain ⟨l, rfl⟩ := hx
  have hkl : k < l := by
    by_contra hle
    have := Nat.mul_le_mul_right p (Nat.not_lt.mp hle)
    omega
  have := Nat.mul_le_mul_right p (Nat.succ_le_of_lt hkl)
  rw [Nat.succ_mul] at this
  omega

theorem IsNext.start (h : t ≤ s₀) : IsNext s₀ p t s₀ :=
  ⟨Due.start s₀ p, h, fun _ hx _ => hx.le⟩

/-- The deadline is reached exactly in the slots that are due. -/
theorem IsNext.eq_iff (h : IsNext s₀ p t d) : d = t ↔ Due s₀ p t := by
  constructor
  · rintro rfl
    exact h.due
  · intro ht
    exact le_antisymm (h.first t ht le_rfl) h.le

theorem IsNext.fire (hp : 0 < p) (h : IsNext s₀ p t t) : IsNext s₀ p (t + 1) (t + p) :=
  ⟨h.due.add, by omega, fun _ hx hle => h.due.add_le hx hle⟩

theorem IsNext.wait (h : IsNext s₀ p t d) (hne : d ≠ t) : IsNext s₀ p (t + 1) d :=
  ⟨h.due, Nat.lt_of_le_of_ne h.le (Ne.symm hne), fun x hx hle => h.first x hx (by omega)⟩

end Ns3.Lib
