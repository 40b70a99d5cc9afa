import Mathlib.Order.Lattice
import Mathlib.Order.Defs.LinearOrder
import Mathlib.Data.Option.Basic
import Mathlib.Data.List.Basic
import Mathlib.Order.Basic

/-!
# A cached highest span

Spans that do not overlap arrive in any order, and the start of the highest one is cached. The cache
moves to a span whose end is not below the cached start. That is right for a span above, but it
moves down when the span directly below arrives; `KeepsTop` says that a higher one arrives after
that.
-/

namespace Ns3.Lib

variable {α : Type} [LinearOrder α]

/-- One span ends where the other one starts, or before. -/
def Apart (x z : α × α) : Prop := x.2 ≤ z.1 ∨ z.2 ≤ x.1

theorem Apart.symm {x z : α × α} (h : Apart x z) : Apart z x := Or.symm h

/-- The cached start after a span arrived. -/
def move (top : Option α) (x : α × α) : Option α :=
  match top with
  | none => some x.1
  | some o => if o ≤ x.2 then some x.1 else some o

/-- The cached start is that of the highest span. -/
inductive IsTop : Option α → List (α × α) → Prop
  | none : IsTop none []
  | some (z : α × α) (spans : List (α × α)) (hz : z ∈ spans) (hle : ∀ y ∈ spans, y.1 ≤ z.1) :
      IsTop (some z.1) spans

/-- Where a span arrives that ends at the start of the highest one, a higher one arrives later. -/
def KeepsTop : List (α × α) → List (α × α) → Prop
  | _, [] => True
  | old, x :: news => (∀ z ∈ old, (∀ y ∈ old, y.1 ≤ z.1) → x.2 = z.1 → ∃ y ∈ news, z.1 < y.1) ∧
    KeepsTop (x :: old) news

instance decidableKeepsTop : (old news : List (α × α)) → Decidable (KeepsTop old news)
  | _, [] => isTrue trivial
  | old, x :: news =>
    let _rest := decidableKeepsTop (x :: old) news
    inferInstanceAs (Decidable ((∀ z ∈ old, (∀ y ∈ old, y.1 ≤ z.1) → x.2 = z.1 →
      ∃ y ∈ news, z.1 < y.1) ∧ KeepsTop (x :: old) news))

/-- The cached start is below the highest one, and a higher span is to come. -/
def Pending (top : Option α) (old news : List (α × α)) : Prop :=
  ∃ o z, top = some o ∧ z ∈ old ∧ (∀ y ∈ old, y.1 ≤ z.1) ∧ o ≤ z.1 ∧ ∃ y ∈ news, z.1 < y.1

variable {top : Option α} {old news : List (α × α)} {x z : α × α}

theorem IsTop.perm {spans : List (α × α)} (h : IsTop top old) (hperm : old.Perm spans) :
    IsTop top spans := by
  cases h with
  | none =>
    rw [hperm.nil_eq.symm]
    exact .none
  | some z _ hz hle =>
    exact .some z _ (hperm.mem_iff.mp hz) fun y hy => hle y (hperm.mem_iff.mpr hy)

theorem IsTop.eq_nil (h : IsTop Option.none old) : old = [] := by
  cases h
  rfl

theorem IsTop.le {o : α} (h : IsTop (Option.some o) old) : ∀ y ∈ old, y.1 ≤ o := by
  cases h with
  | some z _ _ hle => exact hle

theorem isTop_cons_of_lt (hlt : ∀ y ∈ old, y.1 ≤ z.1) (hx : z.1 < x.1) :
    IsTop (some x.1) (x :: old) := by
  refine .some x _ List.mem_cons_self ?_
  intro y hy
  rcases List.mem_cons.mp hy with rfl | hy
  · exact le_rfl
  · exact (hlt y hy).trans hx.le

theorem le_cons (hle : ∀ y ∈ old, y.1 ≤ z.1) (hx : x.1 ≤ z.1) : ∀ y ∈ x :: old, y.1 ≤ z.1 := by
  intro y hy
  rcases List.mem_cons.mp hy with rfl | hy
  · exact hx
  · exact hle y hy

/-- A span arrives while the cache is right. -/
theorem IsTop.move (h : IsTop top old) (hx : x.1 < x.2) (hapart : ∀ y ∈ old, Apart x y)
    (hpos : ∀ y ∈ old, y.1 < y.2)
    (hkeeps : ∀ z ∈ old, (∀ y ∈ old, y.1 ≤ z.1) → x.2 = z.1 → ∃ y ∈ news, z.1 < y.1) :
    IsTop (move top x) (x :: old) ∨ Pending (Lib.move top x) (x :: old) news := by
  cases h with
  | none =>
    refine Or.inl (.some x [x] List.mem_cons_self ?_)
    intro y hy
    rw [List.mem_singleton.mp hy]
  | some z _ hz hle =>
    rw [Lib.move]
    rcases hapart z hz with hbelow | habove
    · have hlt : x.1 < z.1 := hx.trans_le hbelow
      rcases hbelow.lt_or_eq with hbelow | hbelow
      · rw [if_neg (not_le.mpr hbelow)]
        exact Or.inl (.some z _ (List.mem_cons_of_mem x hz) (le_cons hle hlt.le))
      · -- the span directly below: the cache moves down
        rw [if_pos hbelow.ge]
        exact Or.inr ⟨x.1, z, rfl, List.mem_cons_of_mem x hz, le_cons hle hlt.le, hlt.le,
          hkeeps z hz hle hbelow⟩
    · have hlt : z.1 < x.1 := (hpos z hz).trans_le habove
      rw [if_pos (hlt.trans hx).le]
      exact Or.inl (isTop_cons_of_lt hle hlt)

/-- A span arrives while the cache is too low. -/
theorem Pending.move (h : Pending top old (x :: news)) (hx : x.1 < x.2) :
    IsTop (move top x) (x :: old) ∨ Pending (Lib.move top x) (x :: old) news := by
  obtain ⟨o, z, rfl, hz, hle, hoz, y, hy, hyz⟩ := h
  rw [Lib.move]
  rcases lt_or_ge z.1 x.1 with hlt | hge
  · rw [if_pos (hoz.trans (hlt.trans hx).le)]
    exact Or.inl (isTop_cons_of_lt hle hlt)
  · have hy : y ∈ news := by
      rcases List.mem_cons.mp hy with rfl | hy
      · exact absurd hyz (not_lt.mpr hge)
      · exact hy
    refine Or.inr ?_
    split
    · exact ⟨x.1, z, rfl, List.mem_cons_of_mem x hz, le_cons hle hge, hge, y, hy, hyz⟩
    · exact ⟨o, z, rfl, List.mem_cons_of_mem x hz, le_cons hle hge, hoz, y, hy, hyz⟩

/-- The cache is right after spans arrived, if a higher one arrives after each move down. -/
theorem isTop_foldl_move (h : IsTop top old) (hkeeps : KeepsTop old news)
    (hpos : ∀ y ∈ news ++ old, y.1 < y.2) (hapart : (news.reverse ++ old).Pairwise Apart) :
    IsTop (news.foldl move top) (news.reverse ++ old) := by
  suffices hgen : ∀ (news old : List (α × α)) (top : Option α), IsTop top old ∨
      Pending top old news →
      KeepsTop old news → (∀ y ∈ news ++ old, y.1 < y.2) → (news.reverse ++ old).Pairwise Apart →
      IsTop (news.foldl Lib.move top) (news.reverse ++ old) from
    hgen news old top (Or.inl h) hkeeps hpos hapart
  intro news
  induction news with
  | nil =>
    intro old top h _ _ _
    rcases h with h | ⟨_, _, _, _, _, _, y, hy, _⟩
    · exact h
    · exact (List.not_mem_nil hy).elim
  | cons x news ih =>
    intro old top h hkeeps hpos hapart
    rw [List.reverse_cons, List.append_assoc, List.singleton_append] at hapart ⊢
    rw [List.foldl_cons]
    have hx : x.1 < x.2 := hpos x (by simp)
    have hcons := (List.pairwise_append.mp hapart).2.1
    apply ih (x :: old) _ _ hkeeps.2
    · intro y hy
      apply hpos y
      simp only [List.mem_append, List.mem_cons] at hy ⊢
      tauto
    · exact hapart
    · rcases h with h | h
      · exact h.move hx (List.pairwise_cons.mp hcons).1 (fun y hy => hpos y (by simp [hy])) hkeeps.1
      · exact h.move hx

end Ns3.Lib
