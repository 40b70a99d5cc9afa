import Mathlib.Algebra.Order.Ring.Int
import Mathlib.Algebra.Order.Group.Nat
import Mathlib.Data.List.Basic
import Mathlib.Tactic.Tauto

/-!
# Sorted disjoint intervals

Half-open intervals of natural numbers in a list, and what a buffer of such intervals does with a
new one: it trims the new interval against those it has, or drops those inside the new one (`trim`);
and it finds the first number from a given one on that no interval covers (`advance`).
-/

namespace Ns3.Lib.Intervals

/-- The intervals `[x.1, x.2)`, nonempty and one behind the other. -/
def Tidy (ds : List (ℕ × ℕ)) : Prop :=
  ds.Pairwise (fun x y => x.2 ≤ y.1) ∧ ∀ x ∈ ds, x.1 < x.2

def Covers (ds : List (ℕ × ℕ)) (p : ℕ) : Prop := ∃ x ∈ ds, x.1 ≤ p ∧ p < x.2

theorem tidy_nil : Tidy [] := ⟨.nil, fun _ h => absurd h List.not_mem_nil⟩

theorem tidy_cons {x : ℕ × ℕ} {ds : List (ℕ × ℕ)} :
    Tidy (x :: ds) ↔ x.1 < x.2 ∧ (∀ y ∈ ds, x.2 ≤ y.1) ∧ Tidy ds := by
  unfold Tidy
  rw [List.pairwise_cons, List.forall_mem_cons]
  tauto

theorem Tidy.sublist {ds es : List (ℕ × ℕ)} (h : Tidy ds) (hs : es.Sublist ds) : Tidy es :=
  ⟨h.1.sublist hs, fun x hx => h.2 x (hs.subset hx)⟩

@[simp] theorem covers_nil (p : ℕ) : ¬ Covers [] p := by
  simp [Covers]

@[simp] theorem covers_cons {x : ℕ × ℕ} {ds : List (ℕ × ℕ)} {p : ℕ} :
    Covers (x :: ds) p ↔ (x.1 ≤ p ∧ p < x.2) ∨ Covers ds p := by
  simp [Covers]

/-! ## Lengths -/

/-- The sum of the lengths. -/
def total (ds : List (ℕ × ℕ)) : ℕ := (ds.map fun x => x.2 - x.1).sum

@[simp] theorem total_cons (x : ℕ × ℕ) (ds : List (ℕ × ℕ)) :
    total (x :: ds) = x.2 - x.1 + total ds := by
  simp [total]

/-! ## Trimming -/

/-- What is left of the intervals and of the new interval `[head, tail)`, and the sum of the lengths
of the dropped intervals. -/
structure Trimmed where
  kept : List (ℕ × ℕ)
  head : ℕ
  tail : ℕ
  dropped : ℕ

def trim : List (ℕ × ℕ) → ℕ → ℕ → Trimmed
  | [], head, tail => ⟨[], head, tail, 0⟩
  | x :: ds, head, tail =>
    if x.1 ≤ tail then
      if x.2 > head then
        if x.1 > head ∧ x.2 < tail then
          let r := trim ds head tail
          { r with dropped := r.dropped + (x.2 - x.1) }
        else
          let r := trim ds (if x.1 ≤ head then x.2 else head) (if x.2 ≥ tail then x.1 else tail)
          { r with kept := x :: r.kept }
      else
        let r := trim ds head tail
        { r with kept := x :: r.kept }
    else ⟨x :: ds, head, tail, 0⟩

/-- An empty new interval stays empty, and nothing is dropped. -/
theorem trim_of_le {ds : List (ℕ × ℕ)} (hd : Tidy ds) {head tail : ℕ} (h : tail ≤ head) :
    (trim ds head tail).kept = ds ∧ (trim ds head tail).dropped = 0 ∧
      head ≤ (trim ds head tail).head ∧ (trim ds head tail).tail ≤ tail := by
  induction ds generalizing head tail with
  | nil => exact ⟨rfl, rfl, le_rfl, le_rfl⟩
  | cons x ds ih =>
    obtain ⟨hx, -, hds⟩ := tidy_cons.mp hd
    unfold trim
    split
    · split
      · rw [if_neg (by omega)]
        obtain ⟨hk, hz, hh, ht⟩ := @ih hds (if x.1 ≤ head then x.2 else head)
          (if x.2 ≥ tail then x.1 else tail) (by split <;> split <;> omega)
        refine ⟨congrArg (x :: ·) hk, hz, le_trans ?_ hh, le_trans ht ?_⟩
        · split <;> omega
        · split <;> omega
      · obtain ⟨hk, hz, hh, ht⟩ := ih hds h
        exact ⟨congrArg (x :: ·) hk, hz, hh, ht⟩
    · exact ⟨rfl, rfl, le_rfl, le_rfl⟩

/-- The trimmed interval and the kept ones are disjoint and cover what was covered before and the
new interval. -/
structure TrimSpec (ds : List (ℕ × ℕ)) (head tail : ℕ) (r : Trimmed) : Prop where
  sublist : r.kept.Sublist ds
  head_ge : head ≤ r.head
  tail_le : r.tail ≤ tail
  disjoint : r.head < r.tail → ∀ x ∈ r.kept, x.2 ≤ r.head ∨ r.tail ≤ x.1
  covers : ∀ p, (Covers r.kept p ∨ r.head ≤ p ∧ p < r.tail) ↔ Covers ds p ∨ head ≤ p ∧ p < tail

/-- An interval that stays in front. -/
theorem TrimSpec.keep {ds : List (ℕ × ℕ)} {head tail head' tail' : ℕ} {r : Trimmed} {x : ℕ × ℕ}
    (h : TrimSpec ds head' tail' r) (hh : head ≤ head') (ht : tail' ≤ tail)
    (hx : x.2 ≤ head' ∨ tail' ≤ x.1)
    (hc : ∀ p, (x.1 ≤ p ∧ p < x.2) ∨ (head' ≤ p ∧ p < tail') ↔
      (x.1 ≤ p ∧ p < x.2) ∨ (head ≤ p ∧ p < tail)) :
    TrimSpec (x :: ds) head tail { r with kept := x :: r.kept } where
  sublist := h.sublist.cons_cons x
  head_ge := hh.trans h.head_ge
  tail_le := h.tail_le.trans ht
  disjoint hlt y hy := by
    rcases List.mem_cons.mp hy with rfl | hy
    · have := h.head_ge
      have := h.tail_le
      dsimp only
      omega
    · exact h.disjoint hlt y hy
  covers p := by
    dsimp only
    rw [covers_cons, covers_cons, or_assoc, h.covers p, or_left_comm, hc p, or_left_comm, or_assoc]

theorem trim_spec {ds : List (ℕ × ℕ)} (hd : Tidy ds) {head tail : ℕ} (h : head < tail) :
    TrimSpec ds head tail (trim ds head tail) := by
  induction ds generalizing head tail with
  | nil => exact ⟨.slnil, le_rfl, le_rfl, fun _ _ hx => absurd hx List.not_mem_nil, fun p => .rfl⟩
  | cons x ds ih =>
    obtain ⟨hx, hlt, hds⟩ := tidy_cons.mp hd
    unfold trim
    split
    · next h1 =>
      split
      · next h2 =>
        split
        · next h3 =>
          -- inside the new interval
          have hr := ih hds h
          refine ⟨hr.sublist.cons x, hr.head_ge, hr.tail_le, hr.disjoint, ?_⟩
          intro p
          have := hr.covers p
          dsimp only
          rw [covers_cons, this]
          have : x.1 ≤ p ∧ p < x.2 → head ≤ p ∧ p < tail := by omega
          tauto
        · next h3 =>
          by_cases h4 : x.1 ≤ head
          · by_cases h5 : x.2 ≥ tail
            · -- around the new interval
              rw [if_pos h4, if_pos h5]
              obtain ⟨hk, -, hh, ht⟩ := trim_of_le hds hx.le
              have hr : TrimSpec ds x.2 x.1 (trim ds x.2 x.1) := by
                refine ⟨by rw [hk], hh, ht, fun hlt => by omega, ?_⟩
                intro p
                rw [hk]
                constructor
                · rintro (hp | hp)
                  · exact Or.inl hp
                  · omega
                · rintro (hp | hp)
                  · exact Or.inl hp
                  · omega
              exact hr.keep (by omega) (by omega) (Or.inl le_rfl) (by omega)
            · -- over the head of the new interval
              rw [if_pos h4, if_neg h5]
              exact (ih hds (by omega)).keep (by omega) le_rfl (Or.inl le_rfl) (by omega)
          · -- over the tail of the new interval
            rw [if_neg h4, if_pos (by omega)]
            exact (ih hds (by omega)).keep le_rfl h1 (Or.inr le_rfl) (by omega)
      · next h2 =>
        exact (ih hds h).keep le_rfl le_rfl (Or.inl (by omega)) (fun p => .rfl)
    · next h1 =>
      refine ⟨.refl _, le_rfl, le_rfl, ?_, fun p => .rfl⟩
      intro _ y hy
      dsimp only at hy ⊢
      rcases List.mem_cons.mp hy with rfl | hy
      · omega
      · have := hlt y hy
        omega

theorem TrimSpec.head_eq {ds : List (ℕ × ℕ)} {head tail : ℕ} {r : Trimmed}
    (h : TrimSpec ds head tail r) (hlt : head < tail) (hgap : ¬Covers ds head) : r.head = head := by
  rcases (h.covers head).mpr (Or.inr ⟨le_rfl, hlt⟩) with hc | hc
  · obtain ⟨x, hx, hk⟩ := hc
    exact absurd ⟨x, h.sublist.subset hx, hk⟩ hgap
  · exact le_antisymm hc.1 h.head_ge

/-- A dropped interval ends before the new one, and a number in front of it is not covered. -/
theorem gap_of_not_kept {ds : List (ℕ × ℕ)} (hd : Tidy ds) {head tail : ℕ} {x : ℕ × ℕ} (hx : x ∈ ds)
    (hnot : x ∉ (trim ds head tail).kept) :
    x.2 < tail ∧ ∃ k, head ≤ k ∧ k < x.1 ∧ ¬Covers ds k := by
  induction ds generalizing head tail with
  | nil => exact (List.not_mem_nil hx).elim
  | cons z ds ih =>
    obtain ⟨hz, hlt, hds⟩ := tidy_cons.mp hd
    unfold trim at hnot
    split at hnot
    · rename_i hnear
      split at hnot
      · rename_i hover
        split at hnot
        · rename_i hinside
          -- nothing covers the head of the new interval
          have hgap : ¬Covers (z :: ds) head := by
            rw [covers_cons]
            rintro (h | ⟨y, hy, h⟩)
            · omega
            · have := hlt y hy
              omega
          rcases List.mem_cons.mp hx with rfl | hx
          · exact ⟨hinside.2, head, le_rfl, hinside.1, hgap⟩
          · obtain ⟨hend, -⟩ := ih hds hx hnot
            have := hlt x hx
            exact ⟨hend, head, le_rfl, by omega, hgap⟩
        · rename_i houtside
          rw [List.mem_cons, not_or] at hnot
          have hx := (List.mem_cons.mp hx).resolve_left hnot.1
          obtain ⟨hend, k, hk, hkx, hgap⟩ := ih hds hx hnot.2
          have hxz := hlt x hx
          have hpos := hds.2 x hx
          refine ⟨by split at hend <;> omega, k, by split at hk <;> omega, hkx, ?_⟩
          rw [covers_cons, not_or]
          refine ⟨?_, hgap⟩
          split at hk
          · omega
          · split at hend
            · omega
            · omega
      · rename_i hbelow
        rw [List.mem_cons, not_or] at hnot
        have hx := (List.mem_cons.mp hx).resolve_left hnot.1
        obtain ⟨hend, k, hk, hkx, hgap⟩ := ih hds hx hnot.2
        refine ⟨hend, k, hk, hkx, ?_⟩
        rw [covers_cons, not_or]
        exact ⟨by omega, hgap⟩
    · exact absurd hx hnot

theorem trim_ends {ds : List (ℕ × ℕ)} (hd : Tidy ds) (head tail : ℕ) :
    head ≤ (trim ds head tail).head ∧ (trim ds head tail).tail ≤ tail := by
  rcases Nat.lt_or_ge head tail with h | h
  · exact ⟨(trim_spec hd h).head_ge, (trim_spec hd h).tail_le⟩
  · exact (trim_of_le hd h).2.2

theorem trim_sublist {ds : List (ℕ × ℕ)} (hd : Tidy ds) (head tail : ℕ) :
    (trim ds head tail).kept.Sublist ds := by
  rcases Nat.lt_or_ge head tail with h | h
  · exact (trim_spec hd h).sublist
  · rw [(trim_of_le hd h).1]

/-- A new interval of which nothing is left was covered before. -/
theorem covers_trim {ds : List (ℕ × ℕ)} (hd : Tidy ds) {head tail : ℕ}
    (h : (trim ds head tail).tail ≤ (trim ds head tail).head) (p : ℕ) :
    Covers (trim ds head tail).kept p ↔ Covers ds p := by
  rcases Nat.lt_or_ge head tail with hlt | hge
  · constructor
    · rintro ⟨x, hx, hp⟩
      exact ⟨x, (trim_sublist hd head tail).subset hx, hp⟩
    · intro hp
      rcases ((trim_spec hd hlt).covers p).mpr (Or.inl hp) with hk | hk
      · exact hk
      · omega
  · rw [(trim_of_le hd hge).1]

/-- The dropped lengths. -/
theorem trim_dropped (ds : List (ℕ × ℕ)) (head tail : ℕ) :
    total (trim ds head tail).kept + (trim ds head tail).dropped = total ds := by
  induction ds generalizing head tail with
  | nil => rfl
  | cons x ds ih =>
    unfold trim
    split
    · split
      · split
        · have := ih head tail
          simp only [total_cons]
          omega
        · have := ih (if x.1 ≤ head then x.2 else head) (if x.2 ≥ tail then x.1 else tail)
          simp only [total_cons]
          omega
      · have := ih head tail
        simp only [total_cons]
        omega
    · simp

/-- The trimmed ends stay where the intervals and the new interval lie. -/
theorem trim_bounds {ds : List (ℕ × ℕ)} {lo hi : ℕ} (hd : ∀ x ∈ ds, lo ≤ x.1 ∧ x.2 ≤ hi)
    {head tail : ℕ} (hh : head ≤ hi) (ht : lo ≤ tail) :
    (trim ds head tail).head ≤ hi ∧ lo ≤ (trim ds head tail).tail := by
  induction ds generalizing head tail with
  | nil => exact ⟨hh, ht⟩
  | cons x ds ih =>
    obtain ⟨hx, hds⟩ := List.forall_mem_cons.mp hd
    unfold trim
    split
    · split
      · split
        · exact ih hds hh ht
        · refine ih hds ?_ ?_
          · split <;> omega
          · split <;> omega
      · exact ih hds hh ht
    · exact ⟨hh, ht⟩

/-! ## Insertion -/

/-- The new interval in the order of the lower ends. -/
def insert (y : ℕ × ℕ) : List (ℕ × ℕ) → List (ℕ × ℕ)
  | [] => [y]
  | x :: ds => if y.1 < x.1 then y :: x :: ds else x :: insert y ds

theorem insert_of_lt {y : ℕ × ℕ} {ds : List (ℕ × ℕ)} (h : ∀ x ∈ ds, y.1 < x.1) :
    insert y ds = y :: ds := by
  cases ds with
  | nil => rfl
  | cons x ds => exact if_pos (h x List.mem_cons_self)

theorem perm_insert (y : ℕ × ℕ) (ds : List (ℕ × ℕ)) : (insert y ds).Perm (y :: ds) := by
  induction ds with
  | nil => exact .refl _
  | cons x ds ih =>
    unfold insert
    split
    · exact .refl _
    · exact (ih.cons x).trans (.swap y x ds)

theorem covers_insert {y : ℕ × ℕ} {ds : List (ℕ × ℕ)} {p : ℕ} :
    Covers (insert y ds) p ↔ Covers ds p ∨ y.1 ≤ p ∧ p < y.2 := by
  have : Covers (insert y ds) p ↔ Covers (y :: ds) p := by
    unfold Covers
    simp only [(perm_insert y ds).mem_iff]
  rw [this, covers_cons, or_comm]

theorem tidy_insert {y : ℕ × ℕ} {ds : List (ℕ × ℕ)} (hd : Tidy ds) (hy : y.1 < y.2)
    (hdis : ∀ x ∈ ds, x.2 ≤ y.1 ∨ y.2 ≤ x.1) : Tidy (insert y ds) := by
  induction ds with
  | nil => exact tidy_cons.mpr ⟨hy, fun _ h => absurd h List.not_mem_nil, tidy_nil⟩
  | cons x ds ih =>
    obtain ⟨hx, hlt, hds⟩ := tidy_cons.mp hd
    obtain ⟨hx', hdis'⟩ := List.forall_mem_cons.mp hdis
    unfold insert
    split
    · refine tidy_cons.mpr ⟨hy, ?_, hd⟩
      intro z hz
      rcases List.mem_cons.mp hz with rfl | hz
      · omega
      · have := hlt z hz
        omega
    · refine tidy_cons.mpr ⟨hx, ?_, ih hds hdis'⟩
      intro z hz
      rcases List.mem_cons.mp ((perm_insert y ds).mem_iff.mp hz) with rfl | hz
      · omega
      · exact hlt z hz

/-! ## The first number that is not covered -/

def advance : List (ℕ × ℕ) → ℕ → ℕ
  | [], from_ => from_
  | x :: ds, from_ =>
    if x.1 < from_ then advance ds from_
    else if x.1 > from_ then from_
    else advance ds x.2

theorem le_advance {ds : List (ℕ × ℕ)} (h : ∀ x ∈ ds, x.1 < x.2) (p : ℕ) : p ≤ advance ds p := by
  induction ds generalizing p with
  | nil => exact le_rfl
  | cons x ds ih =>
    obtain ⟨hx, hds⟩ := List.forall_mem_cons.mp h
    unfold advance
    split
    · exact ih hds p
    · split
      · exact le_rfl
      · have := ih hds x.2
        omega

/-- No interval starts before `p` and ends behind it. -/
def Splits (ds : List (ℕ × ℕ)) (p : ℕ) : Prop := ∀ x ∈ ds, x.1 < p → x.2 ≤ p

theorem advance_spec {ds : List (ℕ × ℕ)} (hd : Tidy ds) {p : ℕ} (hp : Splits ds p) :
    p ≤ advance ds p ∧ (∀ q, p ≤ q → q < advance ds p → Covers ds q) ∧
      ¬ Covers ds (advance ds p) ∧ Splits ds (advance ds p) := by
  induction ds generalizing p with
  | nil =>
    exact ⟨le_rfl, fun q h1 h2 => absurd h2 (not_lt.mpr h1), covers_nil _,
      fun _ h => absurd h List.not_mem_nil⟩
  | cons x ds ih =>
    obtain ⟨hx, hlt, hds⟩ := tidy_cons.mp hd
    obtain ⟨hpx, hpds⟩ := List.forall_mem_cons.mp hp
    unfold advance
    split
    · next h1 =>
      obtain ⟨hle, hcov, hnot, hspl⟩ := ih hds hpds
      have hxp := hpx h1
      refine ⟨hle, fun q h1 h2 => covers_cons.mpr (Or.inr (hcov q h1 h2)), ?_, ?_⟩
      · rw [covers_cons]
        rintro (h | h)
        · omega
        · exact hnot h
      · exact List.forall_mem_cons.mpr ⟨fun _ => hxp.trans hle, hspl⟩
    · split
      · next h1 h2 =>
        refine ⟨le_rfl, fun q h1 h2 => absurd h2 (not_lt.mpr h1), ?_, hp⟩
        rintro ⟨y, hy, hyp⟩
        rcases List.mem_cons.mp hy with rfl | hy
        · omega
        · have := hlt y hy
          omega
      · next h1 h2 =>
        have heq : x.1 = p := by omega
        have hpds' : Splits ds x.2 := fun y hy hyx => absurd (hlt y hy) (not_le.mpr hyx)
        obtain ⟨hle, hcov, hnot, hspl⟩ := ih hds hpds'
        refine ⟨by omega, ?_, ?_, ?_⟩
        · intro q h1 h2
          rw [covers_cons]
          by_cases hq : q < x.2
          · exact Or.inl ⟨by omega, hq⟩
          · exact Or.inr (hcov q (by omega) h2)
        · rw [covers_cons]
          rintro (h | h)
          · omega
          · exact hnot h
        · exact List.forall_mem_cons.mpr ⟨fun _ => hle, hspl⟩

/-! ## Taking away what lies in front -/

/-- What is left behind `p`. -/
def cut : List (ℕ × ℕ) → ℕ → List (ℕ × ℕ)
  | [], _ => []
  | x :: ds, p =>
    if x.2 ≤ p then cut ds p
    else if x.1 < p then (p, x.2) :: ds
    else x :: ds

theorem cut_of_le {ds : List (ℕ × ℕ)} {p : ℕ} (h : ∀ x ∈ ds, p ≤ x.1 ∧ x.1 < x.2) :
    cut ds p = ds := by
  cases ds with
  | nil => rfl
  | cons x ds =>
    have := h x List.mem_cons_self
    unfold cut
    rw [if_neg (by omega), if_neg (by omega)]

theorem mem_cut {ds : List (ℕ × ℕ)} (hd : Tidy ds) {p : ℕ} {y : ℕ × ℕ} (hy : y ∈ cut ds p) :
    p ≤ y.1 ∧ y.1 < y.2 ∧ ∃ x ∈ ds, x.1 ≤ y.1 ∧ y.2 = x.2 := by
  induction ds with
  | nil => exact absurd hy List.not_mem_nil
  | cons x ds ih =>
    obtain ⟨hx, hlt, hds⟩ := tidy_cons.mp hd
    have htail : ∀ {z}, p < x.2 → z ∈ ds → p ≤ z.1 ∧ z.1 < z.2 ∧ ∃ x' ∈ x :: ds,
        x'.1 ≤ z.1 ∧ z.2 = x'.2 := by
      intro z hp hz
      have := hlt z hz
      exact ⟨by omega, hds.2 z hz, z, List.mem_cons_of_mem _ hz, le_rfl, rfl⟩
    unfold cut at hy
    split at hy
    · obtain ⟨h1, h2, z, hz, h3⟩ := ih hds hy
      exact ⟨h1, h2, z, List.mem_cons_of_mem _ hz, h3⟩
    · split at hy
      · rcases List.mem_cons.mp hy with rfl | hy
        · exact ⟨le_rfl, by dsimp only; omega, x, List.mem_cons_self, by dsimp only; omega, rfl⟩
        · exact htail (by omega) hy
      · rcases List.mem_cons.mp hy with rfl | hy
        · exact ⟨by omega, hx, y, List.mem_cons_self, le_rfl, rfl⟩
        · exact htail (by omega) hy

theorem tidy_cut {ds : List (ℕ × ℕ)} (hd : Tidy ds) (p : ℕ) : Tidy (cut ds p) := by
  induction ds with
  | nil => exact tidy_nil
  | cons x ds ih =>
    obtain ⟨hx, hlt, hds⟩ := tidy_cons.mp hd
    unfold cut
    split
    · exact ih hds
    · split
      · exact tidy_cons.mpr ⟨by dsimp only; omega, hlt, hds⟩
      · exact hd

theorem covers_cut {ds : List (ℕ × ℕ)} (hd : Tidy ds) {p q : ℕ} :
    Covers (cut ds p) q ↔ Covers ds q ∧ p ≤ q := by
  induction ds with
  | nil => simp [cut]
  | cons x ds ih =>
    obtain ⟨hx, hlt, hds⟩ := tidy_cons.mp hd
    have htail : p < x.2 → (Covers ds q ↔ Covers ds q ∧ p ≤ q) := by
      intro hp
      refine ⟨fun h => ⟨h, ?_⟩, And.left⟩
      obtain ⟨y, hy, hq⟩ := h
      have := hlt y hy
      omega
    unfold cut
    split
    · rw [ih hds, covers_cons]
      have : x.1 ≤ q ∧ q < x.2 → ¬ p ≤ q := by omega
      tauto
    · split
      · rw [covers_cons, covers_cons, htail (by omega)]
        dsimp only
        have : p ≤ q → x.1 ≤ q := by omega
        tauto
      · rw [covers_cons, htail (by omega)]
        have : x.1 ≤ q → p ≤ q := by omega
        tauto

/-! ## Sums of lengths -/

theorem total_insert (y : ℕ × ℕ) (ds : List (ℕ × ℕ)) :
    total (insert y ds) = y.2 - y.1 + total ds := by
  rw [← total_cons]
  exact ((perm_insert y ds).map _).sum_nat

theorem total_le {ds : List (ℕ × ℕ)} (hd : Tidy ds) {lo hi : ℕ} (hlo : lo ≤ hi)
    (h : ∀ x ∈ ds, lo ≤ x.1 ∧ x.2 ≤ hi) : total ds ≤ hi - lo := by
  induction ds generalizing lo with
  | nil => exact Nat.zero_le _
  | cons x ds ih =>
    obtain ⟨hx, hlt, hds⟩ := tidy_cons.mp hd
    obtain ⟨hx', hb⟩ := List.forall_mem_cons.mp h
    have := ih hds hx'.2 fun y hy => ⟨hlt y hy, (hb y hy).2⟩
    rw [total_cons]
    omega

/-- The part cut off is covered, so it is as long as the lengths lost. -/
theorem total_cut {ds : List (ℕ × ℕ)} (hd : Tidy ds) {e n : ℕ} (he : ∀ x ∈ ds, e ≤ x.1)
    (hcov : ∀ k, e ≤ k → k < e + n → Covers ds k) : total (cut ds (e + n)) + n = total ds := by
  induction ds generalizing e n with
  | nil =>
    cases n with
    | zero => rfl
    | succ n => exact absurd (hcov e le_rfl (by omega)) (covers_nil e)
  | cons x ds ih =>
    obtain ⟨hx, hlt, hds⟩ := tidy_cons.mp hd
    obtain ⟨hex, heds⟩ := List.forall_mem_cons.mp he
    cases n with
    | zero =>
      rw [Nat.add_zero, Nat.add_zero, cut_of_le fun y hy => ⟨he y hy, hd.2 y hy⟩]
    | succ n =>
      have hxe : x.1 = e := by
        rcases covers_cons.mp (hcov e le_rfl (by omega)) with h | ⟨y, hy, h⟩
        · omega
        · have := hlt y hy
          omega
      unfold cut
      split
      · have := @ih hds x.2 (n + 1 - (x.2 - x.1)) hlt (by
          intro k hk hk'
          rcases covers_cons.mp (hcov k (by omega) (by omega)) with h | h
          · omega
          · exact h)
        rw [show x.2 + (n + 1 - (x.2 - x.1)) = e + (n + 1) by omega] at this
        rw [total_cons]
        omega
      · rw [if_pos (by omega), total_cons, total_cons]
        dsimp only
        omega

end Ns3.Lib.Intervals
