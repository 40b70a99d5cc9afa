import Mathlib.Order.Lattice
import Mathlib.Data.List.MinMax
import Mathlib.Data.Multiset.Basic
import Ns3.Core.Scheduler

/-!
# The priority queue scheduler

The scheduler that keeps its events in a `std::priority_queue` over a vector. What the queue
promises is that its top is an event with no smaller key; where the others lie in the vector is not
specified, here they lie as they came.
-/

namespace Ns3.Core

open Scheduler

/-- The vector of `m_queue`. -/
structure PriorityQueueScheduler where
  c : List Event
deriving DecidableEq, Repr

namespace PriorityQueueScheduler

/-- `m_queue.top ()`. -/
def top (s : PriorityQueueScheduler) : Option Event := s.c.argmin fun ev => ev.key.order

/-- `m_queue.push (ev)`. -/
def insert (s : PriorityQueueScheduler) (ev : Event) : PriorityQueueScheduler := ⟨s.c ++ [ev]⟩

def isEmpty (s : PriorityQueueScheduler) : Bool := s.c.isEmpty

def peekNext (s : PriorityQueueScheduler) : Option Event := s.top

/-- The top is taken and popped. -/
def removeNext (s : PriorityQueueScheduler) : Option (Event × PriorityQueueScheduler) := do
  let ev ← s.top
  return (ev, ⟨s.c.erase ev⟩)

/-- `EventPriorityQueue::remove`: the first event with the uid is erased. -/
def remove (s : PriorityQueueScheduler) (ev : Event) : PriorityQueueScheduler :=
  ⟨s.c.eraseP fun i => i.key.m_uid == ev.key.m_uid⟩

def stored (s : PriorityQueueScheduler) : Multiset Event := s.c

variable {s : PriorityQueueScheduler} {ev : Event}

theorem top_isNext (hd : DistinctUids s.stored) (h : s.top = some ev) : IsNext s.stored ev := by
  refine IsNext.of_le hd (List.argmin_mem h) ?_
  intro x hx
  exact List.le_of_mem_argmin (f := fun ev : Event => ev.key.order) hx h

theorem stored_remove (hd : DistinctUids s.stored) (h : ev ∈ s.stored) :
    ev ::ₘ (s.remove ev).stored = s.stored := by
  obtain ⟨a, l₁, l₂, -, ha, hl, herase⟩ :=
    List.exists_of_eraseP (p := fun i : Event => i.key.m_uid == ev.key.m_uid) h (beq_self_eq_true _)
  have hmem : a ∈ s.stored := by
    unfold stored
    rw [hl]
    simp
  obtain rfl : a = ev := hd.eq hmem h (beq_iff_eq.mp ha)
  unfold stored remove
  rw [herase, hl]
  exact Multiset.coe_eq_coe.mpr List.perm_middle.symm

instance : KeyScheduler PriorityQueueScheduler where
  empty := ⟨[]⟩
  isEmpty := isEmpty
  insert := insert
  removeNext := removeNext
  remove := remove
  stored := stored
  stored_empty := rfl
  isEmpty_iff s := by simp [isEmpty, stored]
  stored_insert s ev _ := Multiset.coe_eq_coe.mpr (List.perm_append_singleton ev s.c)
  removeNext_isNext s hd hne := by
    have htop : s.top ≠ none := by
      intro hnone
      exact hne (congrArg Multiset.ofList (List.argmin_eq_none.mp hnone))
    obtain ⟨ev, hev⟩ := Option.ne_none_iff_exists'.mp htop
    refine ⟨ev, ⟨s.c.erase ev⟩, ?_, top_isNext hd hev, ?_⟩
    · rw [removeNext, hev]
      rfl
    · exact Multiset.coe_eq_coe.mpr (List.perm_cons_erase (List.argmin_mem hev)).symm
  stored_remove s ev hd hev := stored_remove hd hev

end PriorityQueueScheduler

end Ns3.Core
