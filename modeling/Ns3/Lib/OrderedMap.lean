import Mathlib.Order.Lattice
import Mathlib.Data.List.Basic
import Mathlib.Order.Basic

/-!
# Maps in the order of their keys

A map as the list of its entries, which the structure keeps in the order of the keys. A walk over
the entries meets the keys in that order.
-/

namespace Ns3.Lib

/-- The entries, by increasing keys. -/
structure OrderedMap (κ υ : Type) [LinearOrder κ] where
  entries : List (κ × υ)
  sorted : entries.Pairwise fun a b => a.1 < b.1

namespace OrderedMap

variable {κ υ : Type} [LinearOrder κ]

instance : EmptyCollection (OrderedMap κ υ) := ⟨[], .nil⟩

/-- The entry of the key `k` becomes `v`. -/
def insertEntry (k : κ) (v : υ) : List (κ × υ) → List (κ × υ)
  | [] => [(k, v)]
  | e :: es =>
    if k < e.1 then (k, v) :: e :: es
    else if k = e.1 then (k, v) :: es
    else e :: insertEntry k v es

theorem mem_insertEntry {k : κ} {v : υ} {es : List (κ × υ)}
    (hs : es.Pairwise fun a b => a.1 < b.1) {e : κ × υ} :
    e ∈ insertEntry k v es ↔ e = (k, v) ∨ e.1 ≠ k ∧ e ∈ es := by
  induction es with
  | nil => simp [insertEntry]
  | cons a es ih =>
    obtain ⟨ha, hes⟩ := List.pairwise_cons.mp hs
    unfold insertEntry
    split
    · next hlt =>
      have hne : ∀ b ∈ a :: es, b.1 ≠ k := by
        intro b hb
        rcases List.mem_cons.mp hb with rfl | hb
        · exact ne_of_gt hlt
        · exact ne_of_gt (hlt.trans (ha b hb))
      simp only [List.mem_cons] at hne ⊢
      have := hne e
      tauto
    · split
      · next heq =>
        have hne : ∀ b ∈ es, b.1 ≠ k := fun b hb => heq ▸ ne_of_gt (ha b hb)
        simp only [List.mem_cons]
        constructor
        · rintro (he | he)
          · exact Or.inl he
          · exact Or.inr ⟨hne e he, Or.inr he⟩
        · rintro (he | ⟨he, rfl | he'⟩)
          · exact Or.inl he
          · exact absurd heq.symm he
          · exact Or.inr he'
      · next hne =>
        rw [List.mem_cons, ih hes, List.mem_cons]
        have hak : a.1 ≠ k := Ne.symm hne
        constructor
        · rintro (rfl | he | he)
          · exact Or.inr ⟨hak, Or.inl rfl⟩
          · exact Or.inl he
          · exact Or.inr ⟨he.1, Or.inr he.2⟩
        · tauto

theorem sorted_insertEntry {k : κ} {v : υ} {es : List (κ × υ)}
    (hs : es.Pairwise fun a b => a.1 < b.1) :
    (insertEntry k v es).Pairwise fun a b => a.1 < b.1 := by
  induction es with
  | nil => exact List.pairwise_singleton _ _
  | cons a es ih =>
    obtain ⟨ha, hes⟩ := List.pairwise_cons.mp hs
    unfold insertEntry
    split
    · next hlt =>
      refine List.pairwise_cons.mpr ⟨fun b hb => ?_, hs⟩
      rcases List.mem_cons.mp hb with rfl | hb
      · exact hlt
      · exact hlt.trans (ha b hb)
    · split
      · next heq => exact List.pairwise_cons.mpr ⟨fun b hb => heq ▸ ha b hb, hes⟩
      · next hlt hne =>
        refine List.pairwise_cons.mpr ⟨fun b hb => ?_, ih hes⟩
        rcases (mem_insertEntry hes).mp hb with rfl | ⟨-, hb⟩
        · exact lt_of_le_of_ne (not_lt.mp hlt) (Ne.symm hne)
        · exact ha b hb

def insert (m : OrderedMap κ υ) (k : κ) (v : υ) : OrderedMap κ υ :=
  ⟨insertEntry k v m.entries, sorted_insertEntry m.sorted⟩

def erase (m : OrderedMap κ υ) (k : κ) : OrderedMap κ υ :=
  ⟨m.entries.filter fun e => e.1 ≠ k, m.sorted.filter _⟩

def find? (m : OrderedMap κ υ) (k : κ) : Option υ :=
  (m.entries.find? fun e => e.1 = k).map Prod.snd

variable {m : OrderedMap κ υ} {k j : κ} {v w : υ}

theorem find?_eq_some : m.find? k = some v ↔ (k, v) ∈ m.entries := by
  obtain ⟨es, hs⟩ := m
  unfold find?
  induction es with
  | nil => simp
  | cons a es ih =>
    obtain ⟨ha, hes⟩ := List.pairwise_cons.mp hs
    obtain ⟨a1, a2⟩ := a
    rw [List.find?_cons]
    by_cases hk : a1 = k
    · subst hk
      have hnot : (a1, v) ∉ es := fun hv => lt_irrefl a1 (ha (a1, v) hv)
      simp [hnot, eq_comm]
    · have hk' : k ≠ a1 := Ne.symm hk
      simpa [hk, hk'] using ih hes

theorem find?_eq_none : m.find? k = none ↔ ∀ v, (k, v) ∉ m.entries := by
  constructor
  · intro h v hv
    rw [find?_eq_some.mpr hv] at h
    cases h
  · intro h
    cases hfind : m.find? k with
    | none => rfl
    | some v => exact absurd (find?_eq_some.mp hfind) (h v)

@[simp] theorem mem_insert {e : κ × υ} :
    e ∈ (m.insert k v).entries ↔ e = (k, v) ∨ e.1 ≠ k ∧ e ∈ m.entries :=
  mem_insertEntry m.sorted

@[simp] theorem mem_erase {e : κ × υ} : e ∈ (m.erase k).entries ↔ e ∈ m.entries ∧ e.1 ≠ k := by
  simp [erase]

@[simp] theorem mem_empty {e : κ × υ} : e ∉ (∅ : OrderedMap κ υ).entries := List.not_mem_nil

end OrderedMap

end Ns3.Lib
