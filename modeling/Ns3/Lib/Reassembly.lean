import Mathlib.Data.List.Basic
import Mathlib.Data.List.Infix

/-!
# Cutting units into segments and putting them together again

A sender cuts a list of units into pieces and packs consecutive pieces into segments. Only the first
piece of a segment may continue a unit, and only its last piece may leave one open. `absorb` puts
the pieces together. A receiver that misses segments resumes with `salvage`, which gives up the
unit that is open. Whatever it misses, it delivers a sublist of the units (`Follows`), and if
it misses nothing a prefix.
-/

namespace Ns3.Lib

/-- `first` tells that the first piece begins a unit, `last` that the last piece ends one. -/
structure Segment (α : Type) where
  pieces : List (List α)
  first : Bool
  last : Bool
deriving DecidableEq, Repr

variable {α : Type}

namespace Segment

/-- The last of the units is complete or kept. -/
def close (units : List (List α)) (last : Bool) : List (List α) × Option (List α) :=
  if last then (units, none) else (units.dropLast, units.getLast?)

/-- The units that a segment completes after the open unit `kept`, and the unit it leaves open. -/
def absorb (kept : Option (List α)) (s : Segment α) : Option (List (List α) × Option (List α)) :=
  match kept, s.first, s.pieces with
  | none, true, units => some (close units s.last)
  | some open', false, piece :: units => some (close ((open' ++ piece) :: units) s.last)
  | _, _, _ => none

/-- The same without the open unit. -/
def salvage (s : Segment α) : List (List α) × Option (List α) :=
  close (if s.first then s.pieces else s.pieces.tail) s.last

theorem close_cons_sublist (unit : List α) (units : List (List α)) (last : Bool) :
    (close units last).1.Sublist (close (unit :: units) last).1 := by
  cases last with
  | true => exact List.sublist_cons_self unit units
  | false =>
    cases units with
    | nil => exact List.nil_sublist _
    | cons u us => exact List.sublist_cons_self unit _

theorem close_cons_kept (unit : List α) (units : List (List α)) (last : Bool) :
    (close units last).2 = none ∨ (close units last).2 = (close (unit :: units) last).2 := by
  cases last with
  | true => exact Or.inl rfl
  | false =>
    cases units with
    | nil => exact Or.inl rfl
    | cons u us => exact Or.inr (List.getLast?_cons_cons).symm

theorem close_cons {units : List (List α)} (unit : List α) (hne : units ≠ []) (last : Bool) :
    close (unit :: units) last = (unit :: (close units last).1, (close units last).2) := by
  cases last with
  | true => rfl
  | false =>
    obtain ⟨u, us, rfl⟩ := List.exists_cons_of_ne_nil hne
    rfl

variable {kept kept' : Option (List α)} {s : Segment α} {out : List (List α)}

/-- A piece that ends its unit, in front of pieces that begin one. -/
theorem absorb_cons (kept : Option (List α)) (piece : List α) (hne : s.pieces ≠ [])
    (h : s.absorb none = some (out, kept')) :
    (Segment.mk (piece :: s.pieces) kept.isNone s.last).absorb kept =
      some ((kept.getD [] ++ piece) :: out, kept') := by
  have hclose : close s.pieces s.last = (out, kept') := by
    obtain ⟨pieces, first, last⟩ := s
    cases first with
    | false => simp [absorb] at h
    | true => simpa [absorb] using h
  cases kept with
  | none => simp [absorb, close_cons _ hne, hclose]
  | some unit => simp [absorb, close_cons _ hne, hclose]

/-- Without an open unit, a segment begins one, and nothing of it is given up. -/
theorem absorb_none (h : s.absorb none = some (out, kept')) :
    s.first = true ∧ s.salvage = (out, kept') := by
  obtain ⟨pieces, first, last⟩ := s
  cases first with
  | false => simp [absorb] at h
  | true => exact ⟨rfl, by simpa [absorb, salvage] using h⟩

/-- The first piece of a segment continues the open unit. -/
theorem absorb_some {unit : List α} (h : s.absorb (some unit) = some (out, kept')) :
    ∃ piece rest, s.first = false ∧ s.pieces = piece :: rest ∧
      close ((unit ++ piece) :: rest) s.last = (out, kept') := by
  obtain ⟨pieces, first, last⟩ := s
  cases first with
  | true => simp [absorb] at h
  | false =>
    cases pieces with
    | nil => simp [absorb] at h
    | cons piece rest => exact ⟨piece, rest, rfl, rfl, by simpa [absorb] using h⟩

theorem salvage_sublist (h : s.absorb kept = some (out, kept')) :
    s.salvage.1.Sublist out ∧ (s.salvage.2 = none ∨ s.salvage.2 = kept') := by
  cases kept with
  | none =>
    obtain ⟨-, hsal⟩ := absorb_none h
    simp [hsal]
  | some unit =>
    obtain ⟨piece, rest, hfirst, hpieces, hclose⟩ := absorb_some h
    have hsub := close_cons_sublist (unit ++ piece) rest s.last
    have hkept := close_cons_kept (unit ++ piece) rest s.last
    rw [hclose] at hsub hkept
    simpa [salvage, hfirst, hpieces] using And.intro hsub hkept

end Segment

/-- One more segment after the units `r.1`, with `r.2` open. -/
def absorbNext (r : List (List α) × Option (List α)) (s : Segment α) :
    Option (List (List α) × Option (List α)) :=
  (s.absorb r.2).map fun t => (r.1 ++ t.1, t.2)

/-- All the segments in turn: the units they complete, and the one they leave open. -/
def absorbAll (segs : List (Segment α)) : Option (List (List α) × Option (List α)) :=
  segs.foldlM absorbNext ([], none)

variable {kept kept' : Option (List α)} {s : Segment α} {segs : List (Segment α)}
  {out out' units : List (List α)} {unit : List α} {k j : Nat}

@[simp] theorem absorbAll_nil : absorbAll ([] : List (Segment α)) = some ([], none) := rfl

theorem absorbAll_concat (h : absorbAll segs = some (out, kept))
    (hs : s.absorb kept = some (units, kept')) :
    absorbAll (segs ++ [s]) = some (out ++ units, kept') := by
  unfold absorbAll at h ⊢
  rw [List.foldlM_append, h]
  simp [absorbNext, hs]

theorem absorbAll_of_concat {r : List (List α) × Option (List α)}
    (h : absorbAll (segs ++ [s]) = some r) :
    ∃ out kept units, absorbAll segs = some (out, kept) ∧ s.absorb kept = some (units, r.2) ∧
      r.1 = out ++ units := by
  unfold absorbAll at h ⊢
  rw [List.foldlM_append] at h
  cases hsegs : segs.foldlM absorbNext (([], none) : List (List α) × Option (List α)) with
  | none => simp [hsegs] at h
  | some r' =>
    cases hs : s.absorb r'.2 with
    | none => simp [hsegs, absorbNext, hs] at h
    | some t =>
      simp only [hsegs, List.foldlM_cons, absorbNext, hs, Option.map_some, List.foldlM_nil,
        Option.bind_eq_bind, Option.bind_some, Option.pure_def, Option.some.injEq] at h
      subst h
      exact ⟨r'.1, r'.2, t.1, rfl, hs, rfl⟩

theorem absorbAll_take_succ (hk : k < segs.length) {r : List (List α) × Option (List α)}
    (h : absorbAll (segs.take (k + 1)) = some r) :
    ∃ out kept units, absorbAll (segs.take k) = some (out, kept) ∧
      segs[k].absorb kept = some (units, r.2) ∧ r.1 = out ++ units := by
  rw [List.take_succ_eq_append_getElem hk] at h
  exact absorbAll_of_concat h

/-- What fewer segments complete is a prefix. -/
theorem absorbAll_take_le (hkj : k ≤ j) (hj : j ≤ segs.length)
    {r : List (List α) × Option (List α)} (h : absorbAll (segs.take j) = some r) :
    ∃ r', absorbAll (segs.take k) = some r' ∧ r'.1 <+: r.1 := by
  induction j, hkj using Nat.le_induction generalizing r with
  | base => exact ⟨r, h, List.prefix_rfl⟩
  | succ j hkj ih =>
    obtain ⟨out, kept, units, hout, -, hr⟩ := absorbAll_take_succ (by omega) h
    obtain ⟨r', hr', hpre⟩ := ih (by omega) hout
    refine ⟨r', hr', hpre.trans ?_⟩
    rw [hr]
    exact List.prefix_append _ _

/-! ## What is sent and what it completes -/

/-- The units of which the last element is among the first `n` elements. -/
def completed : Nat → List (List α) → List (List α)
  | _, [] => []
  | n, unit :: units => if unit.length ≤ n then unit :: completed (n - unit.length) units else []

theorem completed_append (out rest : List (List α)) (n : Nat) :
    completed (out.flatten.length + n) (out ++ rest) = out ++ completed n rest := by
  induction out with
  | nil => simp
  | cons unit out ih =>
    have hle : unit.length ≤ (unit :: out).flatten.length + n := by simp; omega
    have hsub : (unit :: out).flatten.length + n - unit.length = out.flatten.length + n := by
      simp; omega
    rw [List.cons_append, completed, if_pos hle, hsub, ih, List.cons_append]

theorem completed_eq_nil {n : Nat} {units : List (List α)}
    (h : ∀ unit ∈ units.head?, n < unit.length) : completed n units = [] := by
  cases units with
  | nil => rfl
  | cons unit units => exact if_neg (Nat.not_le.mpr (h unit rfl))

theorem Segment.close_flatten (units : List (List α)) (last : Bool) :
    (close units last).1.flatten ++ (close units last).2.getD [] = units.flatten := by
  cases last with
  | true => simp [close]
  | false =>
    induction units using List.reverseRecOn with
    | nil => rfl
    | append_singleton units unit => simp [close]

/-- A segment keeps its elements. -/
theorem Segment.absorb_flatten (h : s.absorb kept = some (out, kept')) :
    out.flatten ++ kept'.getD [] = kept.getD [] ++ s.pieces.flatten := by
  cases kept with
  | none =>
    obtain ⟨hfirst, hsalvage⟩ := absorb_none h
    rw [salvage, if_pos hfirst] at hsalvage
    have hclose := close_flatten s.pieces s.last
    rw [hsalvage] at hclose
    exact hclose
  | some unit =>
    obtain ⟨piece, rest, -, hpieces, hclosed⟩ := absorb_some h
    have hclose := close_flatten ((unit ++ piece) :: rest) s.last
    rw [hclosed] at hclose
    rw [hclose, hpieces]
    simp

/-- All the elements of the segments are in the units they complete or in the one they leave
open. -/
theorem absorbAll_flatten (h : absorbAll segs = some (out, kept)) :
    out.flatten ++ kept.getD [] = (segs.map fun s => s.pieces.flatten).flatten := by
  induction segs using List.reverseRecOn generalizing out kept with
  | nil =>
    cases h
    rfl
  | append_singleton segs s ih =>
    obtain ⟨out', kept', units, hout, hunits, heq⟩ := absorbAll_of_concat h
    have hsegs := ih hout
    have hs := Segment.absorb_flatten hunits
    simp only at heq hs
    rw [heq, List.flatten_append, List.append_assoc, hs, ← List.append_assoc, hsegs]
    simp

/-- A receiver has come past the first `k` segments, has delivered `out` and keeps `kept`. -/
def Follows (segs : List (Segment α)) (k : Nat) (out : List (List α)) (kept : Option (List α)) :
    Prop :=
  ∃ r, absorbAll (segs.take k) = some r ∧ out.Sublist r.1 ∧ (kept = none ∨ kept = r.2)

theorem Follows.zero : Follows segs 0 [] none :=
  ⟨([], none), by simp, List.Sublist.refl _, Or.inl rfl⟩

variable {r : List (List α) × Option (List α)}

/-- Segments are missed, and with them the open unit. -/
theorem Follows.skip (hf : Follows segs k out kept) (hkj : k ≤ j) (hj : j ≤ segs.length)
    (hsegs : absorbAll segs = some r) : Follows segs j out none := by
  obtain ⟨r1, hr1, hsub, -⟩ := hf
  have hall : absorbAll (segs.take segs.length) = some r := by simpa using hsegs
  obtain ⟨r2, hr2, -⟩ := absorbAll_take_le hj (Nat.le_refl _) hall
  obtain ⟨r1', hr1', hpre⟩ := absorbAll_take_le hkj hj hr2
  rw [hr1] at hr1'
  cases hr1'
  exact ⟨r2, hr2, hsub.trans hpre.sublist, Or.inl rfl⟩

theorem absorbAll_get (hk : k < segs.length) (hsegs : absorbAll segs = some r) :
    ∃ out kept units kept', absorbAll (segs.take k) = some (out, kept) ∧
      segs[k].absorb kept = some (units, kept') ∧
      absorbAll (segs.take (k + 1)) = some (out ++ units, kept') := by
  have hall : absorbAll (segs.take segs.length) = some r := by simpa using hsegs
  obtain ⟨r1, hr1, -⟩ := absorbAll_take_le (Nat.succ_le_of_lt hk) (Nat.le_refl _) hall
  obtain ⟨out, kept, units, hout, habs, hr⟩ := absorbAll_take_succ hk hr1
  exact ⟨out, kept, units, r1.2, hout, habs, by rw [hr1, ← hr]⟩

/-- The next segment without the open unit. -/
theorem Follows.salvage (hf : Follows segs k out kept) (hk : k < segs.length)
    (hsegs : absorbAll segs = some r) :
    Follows segs (k + 1) (out ++ segs[k].salvage.1) segs[k].salvage.2 := by
  obtain ⟨r1, hr1, hsub, -⟩ := hf
  obtain ⟨out1, kept1, units, kept2, hout, habs, hnext⟩ := absorbAll_get hk hsegs
  rw [hr1] at hout
  cases hout
  obtain ⟨hunits, hkept⟩ := Segment.salvage_sublist habs
  exact ⟨_, hnext, hsub.append hunits, hkept⟩

/-- The next segment after an open unit that is kept. -/
theorem Follows.absorb (hf : Follows segs k out (some unit)) (hk : k < segs.length)
    (hsegs : absorbAll segs = some r) :
    ∃ units kept, segs[k].absorb (some unit) = some (units, kept) ∧
      Follows segs (k + 1) (out ++ units) kept := by
  obtain ⟨r1, hr1, hsub, hkept⟩ := hf
  obtain ⟨out1, kept1, units, kept2, hout, habs, hnext⟩ := absorbAll_get hk hsegs
  rw [hr1] at hout
  cases hout
  rcases hkept with hkept | hkept
  · cases hkept
  · have hkept1 : kept1 = some unit := hkept.symm
    rw [hkept1] at habs
    exact ⟨units, kept2, habs, _, hnext, hsub.append (List.Sublist.refl _), Or.inr rfl⟩

end Ns3.Lib
