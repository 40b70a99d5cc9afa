import Mathlib.Data.Multiset.AddSub
import Mathlib.Data.Multiset.MapFold
import Mathlib.Data.Multiset.UnionInter
import Mathlib.Data.Prod.Lex

/-!
# The scheduler interface

The events of the simulator, their keys, and what a scheduler is for: a collection of events from
which the one with the smallest key is taken.
-/

namespace Ns3.Core

/-- `Scheduler::EventKey`. -/
structure EventKey where
  m_ts : ℕ
  m_uid : ℕ
  m_context : ℕ
deriving Repr, DecidableEq

/-- `Scheduler::Event`; `impl` stands for the pointer to the implementation. -/
structure Event where
  impl : ℕ
  key : EventKey
deriving Repr, DecidableEq

namespace EventKey

/-- `operator <` of the keys. -/
def less (a b : EventKey) : Bool :=
  if a.m_ts < b.m_ts then true
  else if a.m_ts == b.m_ts && a.m_uid < b.m_uid then true
  else false

/-- `operator >` of the keys. -/
def greater (a b : EventKey) : Bool :=
  if a.m_ts > b.m_ts then true
  else if a.m_ts == b.m_ts && a.m_uid > b.m_uid then true
  else false

/-- The pair by which the keys are ordered. -/
def order (k : EventKey) : ℕ ×ₗ ℕ := toLex (k.m_ts, k.m_uid)

theorem order_lt_iff {a b : EventKey} :
    a.order < b.order ↔ a.m_ts < b.m_ts ∨ a.m_ts = b.m_ts ∧ a.m_uid < b.m_uid := by
  simp [order, Prod.Lex.toLex_lt_toLex]

theorem order_le_iff {a b : EventKey} :
    a.order ≤ b.order ↔ a.m_ts < b.m_ts ∨ a.m_ts = b.m_ts ∧ a.m_uid ≤ b.m_uid := by
  simp [order, Prod.Lex.toLex_le_toLex]

theorem less_iff {a b : EventKey} : a.less b = true ↔ a.order < b.order := by
  rw [order_lt_iff]
  unfold less
  split
  · next h => simp [h]
  · next h => simp [h]

theorem less_eq_false_iff {a b : EventKey} : a.less b = false ↔ b.order ≤ a.order := by
  rw [← not_lt, ← less_iff, Bool.not_eq_true]

theorem greater_eq_less (a b : EventKey) : a.greater b = b.less a := by
  have h : (a.m_ts == b.m_ts) = (b.m_ts == a.m_ts) := by simp [Bool.beq_comm]
  simp [greater, less, h]

end EventKey

namespace Scheduler

/-- A call of the interface. -/
inductive Request
  | insert (ev : Event)
  | peekNext
  | removeNext
  | remove (ev : Event)
deriving Repr, DecidableEq

/-- What the caller of a request promises, when the scheduler stores the events of `q`: the uid of
an inserted event is not in use, the next event is asked for only while there is one, and only
present events are removed. -/
def Legal (q : Multiset Event) : Request → Prop
  | .insert ev => ∀ x ∈ q, x.key.m_uid ≠ ev.key.m_uid
  | .peekNext => q ≠ 0
  | .removeNext => q ≠ 0
  | .remove ev => ev ∈ q

instance (q : Multiset Event) : DecidablePred (Legal q)
  | .insert ev => inferInstanceAs (Decidable (∀ x ∈ q, x.key.m_uid ≠ ev.key.m_uid))
  | .peekNext => inferInstanceAs (Decidable (q ≠ 0))
  | .removeNext => inferInstanceAs (Decidable (q ≠ 0))
  | .remove ev => inferInstanceAs (Decidable (ev ∈ q))

/-- The events inserted and not yet removed after a request answered by `ans`. -/
def after (q : Multiset Event) : Request → Option Event → Multiset Event
  | .insert ev, _ => ev ::ₘ q
  | .peekNext, _ => q
  | .removeNext, some ev => q.erase ev
  | .removeNext, none => q
  | .remove ev, _ => q.erase ev

/-- The event with the smallest key among those of `q`. -/
def IsNext (q : Multiset Event) (ev : Event) : Prop :=
  ev ∈ q ∧ ∀ x ∈ q, x ≠ ev → ev.key.less x.key = true

/-- The right answers to a request. -/
def Answers (q : Multiset Event) : Request → Option Event → Prop
  | .peekNext, ans | .removeNext, ans => ∃ ev, ans = some ev ∧ IsNext q ev
  | .insert _, ans | .remove _, ans => ans = none

/-- The uids in use are distinct. -/
def DistinctUids (q : Multiset Event) : Prop :=
  (q.map fun ev => ev.key.m_uid).Nodup

theorem DistinctUids.zero : DistinctUids 0 := by
  simp [DistinctUids]

theorem DistinctUids.mono {p q : Multiset Event} (h : DistinctUids q) (hle : p ≤ q) :
    DistinctUids p :=
  Multiset.nodup_of_le (Multiset.map_le_map hle) h

theorem DistinctUids.eq {q : Multiset Event} (h : DistinctUids q) {x y : Event} (hx : x ∈ q)
    (hy : y ∈ q) (heq : x.key.m_uid = y.key.m_uid) : x = y :=
  Multiset.inj_on_of_nodup_map h x hx y hy heq

/-- Legal requests keep the uids distinct. -/
theorem DistinctUids.after {q : Multiset Event} {r : Request} (h : DistinctUids q)
    (hr : Legal q r) (ans : Option Event) : DistinctUids (after q r ans) := by
  cases r with
  | insert ev =>
    unfold DistinctUids Scheduler.after
    rw [Multiset.map_cons, Multiset.nodup_cons]
    refine ⟨?_, h⟩
    intro hmem
    obtain ⟨x, hx, heq⟩ := Multiset.mem_map.mp hmem
    exact hr x hx heq
  | peekNext => exact h
  | removeNext =>
    cases ans with
    | none => exact h
    | some ev => exact h.mono (Multiset.erase_le ev q)
  | remove ev => exact h.mono (Multiset.erase_le ev q)

/-- With distinct uids, an event not after any other is the next one. -/
theorem IsNext.of_le {q : Multiset Event} (h : DistinctUids q) {ev : Event} (hev : ev ∈ q)
    (hle : ∀ x ∈ q, ev.key.order ≤ x.key.order) : IsNext q ev := by
  refine ⟨hev, ?_⟩
  intro x hx hne
  have hu : ev.key.m_uid ≠ x.key.m_uid := fun heq => hne (h.eq hev hx heq).symm
  rw [EventKey.less_iff, EventKey.order_lt_iff]
  rcases EventKey.order_le_iff.mp (hle x hx) with hts | ⟨hts, huid⟩
  · exact Or.inl hts
  · exact Or.inr ⟨hts, by omega⟩

/-- A scheduler that returns the event with the smallest key, with the collection of the events it
stores. -/
class KeyScheduler (σ : Type) where
  empty : σ
  isEmpty : σ → Bool
  insert : σ → Event → σ
  removeNext : σ → Option (Event × σ)
  remove : σ → Event → σ
  stored : σ → Multiset Event
  stored_empty : stored empty = 0
  isEmpty_iff : ∀ s, isEmpty s = true ↔ stored s = 0
  stored_insert : ∀ s ev, Legal (stored s) (.insert ev) → stored (insert s ev) = ev ::ₘ stored s
  removeNext_isNext : ∀ s, DistinctUids (stored s) → stored s ≠ 0 →
    ∃ ev s', removeNext s = some (ev, s') ∧ IsNext (stored s) ev ∧ ev ::ₘ stored s' = stored s
  stored_remove : ∀ s ev, DistinctUids (stored s) → Legal (stored s) (.remove ev) →
    ev ::ₘ stored (remove s ev) = stored s

end Scheduler

end Ns3.Core
