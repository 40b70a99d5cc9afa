import Mathlib.Order.CompletePartialOrder
import Mathlib.Data.Set.Lattice
import Mathlib.Data.Set.Prod
import Mathlib.Order.Interval.Set.Basic

/-!
# Blocks in a grid

A block covers an interval of columns and a set of rows. `Packed lo hi` says of a list of
blocks that no two of them share a cell and that all of them lie in the columns from `lo`
to `hi`. Lists grow at the front, by a block behind all others (`Packed.cons_after`) or by
one beside them (`Packed.cons_beside`).
-/

namespace Ns3.Lib

structure Block where
  start : Nat
  len : Nat
  rows : Set Nat

namespace Block

def cells (b : Block) : Set (Nat × Nat) := Set.Ico b.start (b.start + b.len) ×ˢ b.rows

variable {a b : Block}

theorem disjoint_of_before (h : a.start + a.len ≤ b.start) : Disjoint a.cells b.cells := by
  rw [Set.disjoint_left]
  intro p ha hb
  exact absurd (ha.1.2.trans_le h) (not_lt.mpr hb.1.1)

theorem disjoint_of_rows (h : Disjoint a.rows b.rows) : Disjoint a.cells b.cells := by
  rw [Set.disjoint_left] at h ⊢
  intro p ha hb
  exact h ha.2 hb.2

theorem not_disjoint {column row : Nat} (ha : (column, row) ∈ a.cells)
    (hb : (column, row) ∈ b.cells) : ¬ Disjoint a.cells b.cells := by
  intro h
  exact Set.disjoint_left.mp h ha hb

/-- A block and one that does not start behind it are apart if the other ends in front of it or
their rows are. -/
theorem disjoint_iff (hstart : b.start ≤ a.start) (hlen : 0 < a.len) :
    Disjoint a.cells b.cells ↔ b.start + b.len ≤ a.start ∨ Disjoint a.rows b.rows := by
  constructor
  · intro h
    by_contra hnot
    rw [not_or, Set.not_disjoint_iff] at hnot
    obtain ⟨hend, row, ha, hb⟩ := hnot
    have ha' : (a.start, row) ∈ a.cells := ⟨⟨le_rfl, Nat.lt_add_of_pos_right hlen⟩, ha⟩
    have hb' : (a.start, row) ∈ b.cells := ⟨⟨hstart, not_le.mp hend⟩, hb⟩
    exact not_disjoint ha' hb' h
  · rintro (h | h)
    · exact (disjoint_of_before h).symm
    · exact disjoint_of_rows h

end Block

/-- Blocks without common cells in the columns from `lo` to `hi`. -/
structure Packed (lo hi : Nat) (bs : List Block) : Prop where
  disjoint : bs.Pairwise fun a b => Disjoint a.cells b.cells
  within : ∀ b ∈ bs, lo ≤ b.start ∧ b.start + b.len ≤ hi

namespace Packed

variable {lo hi hi' : Nat} {b : Block} {bs : List Block}

theorem nil : Packed lo hi [] := ⟨List.Pairwise.nil, by simp⟩

theorem mono (h : Packed lo hi bs) (hle : hi ≤ hi') : Packed lo hi' bs := by
  refine ⟨h.disjoint, ?_⟩
  intro b hb
  exact ⟨(h.within b hb).1, (h.within b hb).2.trans hle⟩

theorem mono_left {lo' : Nat} (h : Packed lo hi bs) (hle : lo' ≤ lo) : Packed lo' hi bs := by
  refine ⟨h.disjoint, ?_⟩
  intro b hb
  exact ⟨hle.trans (h.within b hb).1, (h.within b hb).2⟩

theorem of_append_right {as : List Block} (h : Packed lo hi (as ++ bs)) : Packed lo hi bs := by
  refine ⟨(List.pairwise_append.mp h.disjoint).2.1, ?_⟩
  intro c hc
  exact h.within c (List.mem_append_right _ hc)

theorem cons_iff : Packed lo hi (b :: bs) ↔
    Packed lo hi bs ∧ lo ≤ b.start ∧ b.start + b.len ≤ hi ∧
      ∀ c ∈ bs, Disjoint b.cells c.cells := by
  constructor
  · intro h
    obtain ⟨hnew, hold⟩ := List.pairwise_cons.mp h.disjoint
    have hb := h.within b List.mem_cons_self
    exact ⟨⟨hold, fun c hc => h.within c (List.mem_cons_of_mem _ hc)⟩, hb.1, hb.2, hnew⟩
  · rintro ⟨h, hlo, hhi, hnew⟩
    refine ⟨List.pairwise_cons.mpr ⟨hnew, h.disjoint⟩, ?_⟩
    intro c hc
    rcases List.mem_cons.mp hc with rfl | hc
    · exact ⟨hlo, hhi⟩
    · exact h.within c hc

theorem append {mid : Nat} {as : List Block} (ha : Packed lo mid as) (hb : Packed mid hi bs)
    (hlo : lo ≤ mid) (hhi : mid ≤ hi) : Packed lo hi (as ++ bs) := by
  constructor
  · rw [List.pairwise_append]
    refine ⟨ha.disjoint, hb.disjoint, ?_⟩
    intro a hamem b hbmem
    exact Block.disjoint_of_before ((ha.within a hamem).2.trans (hb.within b hbmem).1)
  · intro c hc
    rcases List.mem_append.mp hc with hc | hc
    · exact ⟨(ha.within c hc).1, (ha.within c hc).2.trans hhi⟩
    · exact ⟨hlo.trans (hb.within c hc).1, (hb.within c hc).2⟩

theorem cons_beside (h : Packed lo hi bs) (hlo : lo ≤ b.start) (hhi : b.start + b.len ≤ hi)
    (hdisj : ∀ c ∈ bs, Disjoint b.cells c.cells) : Packed lo hi (b :: bs) :=
  cons_iff.mpr ⟨h, hlo, hhi, hdisj⟩

theorem cons_after (h : Packed lo hi bs) (hlo : lo ≤ b.start) (hstart : hi ≤ b.start) :
    Packed lo (b.start + b.len) (b :: bs) := by
  refine (h.mono (hstart.trans (Nat.le_add_right _ _))).cons_beside hlo le_rfl ?_
  intro c hc
  exact (Block.disjoint_of_before ((h.within c hc).2.trans hstart)).symm

end Packed

end Ns3.Lib
