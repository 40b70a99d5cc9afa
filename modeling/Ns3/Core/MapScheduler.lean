import Mathlib.Order.Lattice
import Mathlib.Data.Multiset.Basic
import Ns3.Core.Scheduler
import Ns3.Lib.OrderedMap

/-!
# The map scheduler

The scheduler that keeps its events in a map. The order of the map is that of the keys, so two keys
are the same to it when their time and uid are.
-/

namespace Ns3.Core

open Ns3.Lib Scheduler

/-- `m_list`, with the whole event as the value. -/
structure MapScheduler where
  m_list : OrderedMap (ℕ ×ₗ ℕ) Event
  keyed : ∀ e ∈ m_list.entries, e.1 = e.2.key.order

namespace MapScheduler

/-- `Insert`; an event whose key is present is not inserted. -/
def insert (s : MapScheduler) (ev : Event) : MapScheduler :=
  if (s.m_list.find? ev.key.order).isSome then s
  else
    ⟨s.m_list.insert ev.key.order ev, fun e he => by
      rcases OrderedMap.mem_insert.mp he with rfl | ⟨-, he⟩
      · rfl
      · exact s.keyed e he⟩

def isEmpty (s : MapScheduler) : Bool := s.m_list.entries.isEmpty

/-- The first entry. -/
def peekNext (s : MapScheduler) : Option Event := s.m_list.entries.head?.map Prod.snd

def erase (s : MapScheduler) (k : ℕ ×ₗ ℕ) : MapScheduler :=
  ⟨s.m_list.erase k, fun e he => s.keyed e (OrderedMap.mem_erase.mp he).1⟩

def removeNext (s : MapScheduler) : Option (Event × MapScheduler) := do
  let i ← s.m_list.entries.head?
  return (i.2, s.erase i.1)

/-- `Remove`; the key is present. -/
def remove (s : MapScheduler) (ev : Event) : MapScheduler := s.erase ev.key.order

/-! ## What is stored -/

variable {s : MapScheduler} {ev : Event}

def stored (s : MapScheduler) : Multiset Event := (s.m_list.entries.map Prod.snd : List Event)

theorem mem_stored : ev ∈ s.stored ↔ (ev.key.order, ev) ∈ s.m_list.entries := by
  unfold stored
  rw [Multiset.mem_coe, List.mem_map]
  constructor
  · rintro ⟨e, he, rfl⟩
    rwa [← s.keyed e he]
  · intro h
    exact ⟨_, h, rfl⟩

/-- No two entries have the same key. -/
theorem eq_of_order {a b : Event} (ha : a ∈ s.stored) (hb : b ∈ s.stored)
    (h : a.key.order = b.key.order) : a = b := by
  have ha' := OrderedMap.find?_eq_some.mpr (mem_stored.mp ha)
  have hb' := OrderedMap.find?_eq_some.mpr (mem_stored.mp hb)
  rw [h, hb'] at ha'
  exact (Option.some.inj ha').symm

theorem nodup_stored (s : MapScheduler) : s.stored.Nodup := by
  unfold stored
  rw [Multiset.coe_nodup, List.Nodup, List.pairwise_map]
  refine s.m_list.sorted.imp_of_mem ?_
  intro a b ha hb hlt heq
  rw [s.keyed a ha, s.keyed b hb, heq] at hlt
  exact lt_irrefl _ hlt

theorem stored_insert (h : ∀ x ∈ s.stored, x.key.m_uid ≠ ev.key.m_uid) :
    (s.insert ev).stored = ev ::ₘ s.stored := by
  have hnew : ∀ x ∈ s.stored, x.key.order ≠ ev.key.order := by
    intro x hx heq
    exact h x hx (congrArg (fun k => (ofLex k).2) heq)
  have hnone : s.m_list.find? ev.key.order = none := by
    refine OrderedMap.find?_eq_none.mpr ?_
    intro x hx
    have hord := s.keyed _ hx
    exact hnew x (mem_stored.mpr (hord ▸ hx)) hord.symm
  have hnot : ev ∉ s.stored := fun hmem => hnew ev hmem rfl
  refine ((nodup_stored _).ext (Multiset.nodup_cons.mpr ⟨hnot, s.nodup_stored⟩)).mpr ?_
  intro x
  rw [mem_stored, insert, hnone, if_neg (by simp), OrderedMap.mem_insert, Multiset.mem_cons,
    mem_stored]
  constructor
  · rintro (heq | ⟨-, hx⟩)
    · exact Or.inl (Prod.mk.inj heq).2
    · exact Or.inr hx
  · rintro (rfl | hx)
    · exact Or.inl rfl
    · exact Or.inr ⟨hnew x (mem_stored.mpr hx), hx⟩

theorem stored_erase (h : ev ∈ s.stored) : ev ::ₘ (s.erase ev.key.order).stored = s.stored := by
  have hnot : ev ∉ (s.erase ev.key.order).stored := by
    intro hmem
    exact (OrderedMap.mem_erase.mp (mem_stored.mp hmem)).2 rfl
  refine ((Multiset.nodup_cons.mpr ⟨hnot, nodup_stored _⟩).ext s.nodup_stored).mpr ?_
  intro x
  rw [Multiset.mem_cons, mem_stored, mem_stored, erase, OrderedMap.mem_erase]
  constructor
  · rintro (rfl | hx)
    · exact mem_stored.mp h
    · exact hx.1
  · intro hx
    by_cases heq : x.key.order = ev.key.order
    · exact Or.inl (eq_of_order (mem_stored.mpr hx) h heq)
    · exact Or.inr ⟨hx, heq⟩

/-- The first entry has the smallest key. -/
theorem head_isNext {e : (ℕ ×ₗ ℕ) × Event} (hd : DistinctUids s.stored)
    (h : s.m_list.entries.head? = some e) : IsNext s.stored e.2 := by
  have hmem := List.mem_of_mem_head? h
  have hin : e.2 ∈ s.stored := mem_stored.mpr (s.keyed e hmem ▸ hmem)
  refine IsNext.of_le hd hin ?_
  intro x hx
  have hx' := mem_stored.mp hx
  obtain ⟨es, hes⟩ := List.head?_eq_some_iff.mp h
  have hsorted := s.m_list.sorted
  rw [hes] at hsorted hx'
  rw [← s.keyed e hmem]
  rcases List.mem_cons.mp hx' with heq | hx'
  · rw [← heq]
  · exact ((List.pairwise_cons.mp hsorted).1 _ hx').le

instance : KeyScheduler MapScheduler where
  empty := ⟨∅, fun _ he => absurd he OrderedMap.mem_empty⟩
  isEmpty := isEmpty
  insert := insert
  removeNext := removeNext
  remove := remove
  stored := stored
  stored_empty := rfl
  isEmpty_iff s := by simp [isEmpty, stored]
  stored_insert s ev h := stored_insert h
  removeNext_isNext s hd hne := by
    unfold stored at hne
    rw [Ne, Multiset.coe_eq_zero, List.map_eq_nil_iff] at hne
    obtain ⟨e, es, heq⟩ := List.exists_cons_of_ne_nil hne
    have hhead : s.m_list.entries.head? = some e := by rw [heq]; rfl
    have hmem := List.mem_of_mem_head? hhead
    have hkey := s.keyed e hmem
    refine ⟨e.2, s.erase e.1, ?_, head_isNext hd hhead, ?_⟩
    · rw [removeNext, hhead]
      rfl
    · rw [hkey]
      exact stored_erase (mem_stored.mpr (hkey ▸ hmem))
  stored_remove s ev _ hev := stored_erase hev

end MapScheduler

end Ns3.Core
