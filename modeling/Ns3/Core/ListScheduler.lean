import Ns3.Core.Scheduler

/-!
# The list scheduler

The scheduler that keeps its events in a list sorted by their keys.
-/

namespace Ns3.Core

open Scheduler

/-- `m_events`, in the order of the keys. -/
structure ListScheduler where
  m_events : List Event
  sorted : m_events.Pairwise fun a b => a.key.order ≤ b.key.order

namespace ListScheduler

/-- The loop of `Insert`: the event goes before the first one with a greater key. -/
def insertEvent (ev : Event) : List Event → List Event
  | [] => [ev]
  | i :: events => if ev.key.less i.key then ev :: i :: events else i :: insertEvent ev events

theorem perm_insertEvent (ev : Event) (l : List Event) : (insertEvent ev l).Perm (ev :: l) := by
  induction l with
  | nil => exact .refl _
  | cons i events ih =>
    unfold insertEvent
    split
    · exact .refl _
    · exact (ih.cons i).trans (.swap ev i events)

theorem sorted_insertEvent {ev : Event} {l : List Event}
    (h : l.Pairwise fun a b => a.key.order ≤ b.key.order) :
    (insertEvent ev l).Pairwise fun a b => a.key.order ≤ b.key.order := by
  induction l with
  | nil => exact List.pairwise_singleton _ _
  | cons i events ih =>
    obtain ⟨hi, hevents⟩ := List.pairwise_cons.mp h
    unfold insertEvent
    split
    · next hless =>
      have hlt := (EventKey.less_iff.mp hless).le
      refine List.pairwise_cons.mpr ⟨?_, h⟩
      intro x hx
      rcases List.mem_cons.mp hx with rfl | hx
      · exact hlt
      · exact hlt.trans (hi x hx)
    · next hless =>
      rw [Bool.not_eq_true, EventKey.less_eq_false_iff] at hless
      refine List.pairwise_cons.mpr ⟨?_, ih hevents⟩
      intro x hx
      rcases List.mem_cons.mp ((perm_insertEvent ev events).mem_iff.mp hx) with rfl | hx
      · exact hless
      · exact hi x hx

def insert (s : ListScheduler) (ev : Event) : ListScheduler :=
  ⟨insertEvent ev s.m_events, sorted_insertEvent s.sorted⟩

def isEmpty (s : ListScheduler) : Bool := s.m_events.isEmpty

/-- The front of the list, when there is one. -/
def removeNext (s : ListScheduler) : Option (Event × ListScheduler) :=
  match h : s.m_events with
  | [] => none
  | next :: events => some (next, ⟨events, (List.pairwise_cons.mp (h ▸ s.sorted)).2⟩)

/-- The first event with the uid is erased. -/
def remove (s : ListScheduler) (ev : Event) : ListScheduler :=
  ⟨s.m_events.eraseP fun i => i.key.m_uid == ev.key.m_uid,
    s.sorted.sublist List.eraseP_sublist⟩

theorem removeNext_eq {s : ListScheduler} {next : Event} {events : List Event}
    (h : s.m_events = next :: events) :
    ∃ s', s.removeNext = some (next, s') ∧ s'.m_events = events := by
  obtain ⟨l, hl⟩ := s
  subst h
  exact ⟨_, rfl, rfl⟩

theorem remove_perm {s : ListScheduler} {ev : Event}
    (hd : DistinctUids (s.m_events : Multiset Event)) (h : ev ∈ s.m_events) :
    (ev :: (s.remove ev).m_events).Perm s.m_events := by
  obtain ⟨a, l₁, l₂, -, ha, hl, herase⟩ :=
    List.exists_of_eraseP (p := fun i : Event => i.key.m_uid == ev.key.m_uid) h (beq_self_eq_true _)
  have hmem : a ∈ s.m_events := by
    rw [hl]
    simp
  have hae : a = ev := hd.eq hmem h (beq_iff_eq.mp ha)
  unfold remove
  dsimp only
  rw [herase, hl, ← hae]
  exact List.perm_middle.symm

instance : KeyScheduler ListScheduler where
  empty := ⟨[], .nil⟩
  isEmpty := isEmpty
  insert := insert
  removeNext := removeNext
  remove := remove
  stored s := s.m_events
  stored_empty := rfl
  isEmpty_iff s := by simp [isEmpty]
  stored_insert s ev _ := Multiset.coe_eq_coe.mpr (perm_insertEvent ev s.m_events)
  removeNext_isNext s hd hne := by
    rw [Ne, Multiset.coe_eq_zero] at hne
    obtain ⟨next, events, heq⟩ := List.exists_cons_of_ne_nil hne
    obtain ⟨s', hs', hevents⟩ := removeNext_eq heq
    refine ⟨next, s', hs', ?_, ?_⟩
    · apply IsNext.of_le hd
      · rw [heq]
        exact List.mem_cons_self
      · intro x hx
        have hs := s.sorted
        rw [heq] at hs hx
        rcases List.mem_cons.mp hx with rfl | hx
        · exact le_rfl
        · exact (List.pairwise_cons.mp hs).1 x hx
    · rw [hevents, heq]
      rfl
  stored_remove s ev hd hev := Multiset.coe_eq_coe.mpr (remove_perm hd hev)

end ListScheduler

end Ns3.Core
