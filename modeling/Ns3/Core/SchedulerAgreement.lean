import Ns3.Core.CalendarRun
import Ns3.Core.HeapScheduler
import Ns3.Core.ListScheduler
import Ns3.Core.MapScheduler
import Ns3.Core.PriorityQueueScheduler
import Ns3.Lib.Interface

/-!
# The schedulers agree

The priority queue that every scheduler is to be is an interface with one right answer to each
request. So the schedulers answer alike on every list of legal requests, the heap as long as its
removals keep it ordered.
-/

namespace Ns3.Core.Scheduler

open Ns3.Lib

/-- The collection of the events, and the time of the last one taken as the next. -/
def queue : Interface (Multiset Event × ℕ) Request (Option Event) where
  Legal q r := Legal q.1 r ∧ CalendarScheduler.Timely q.2 r
  Right q r ans := Answers q.1 r ans
  after q r ans := (after q.1 r ans, CalendarScheduler.lastAfter q.2 r ans)

theorem queue_cons {q : Multiset Event} {last : ℕ} {r : Request} {ans : Option Event}
    {tr : List (Request × Option Event)} {q' : Multiset Event × ℕ} (hl : Legal q r)
    (ht : CalendarScheduler.Timely last r) (ha : Answers q r ans)
    (h : queue.Trace (after q r ans, CalendarScheduler.lastAfter last r ans) tr q') :
    queue.Trace (q, last) ((r, ans) :: tr) q' :=
  .cons ⟨hl, ht⟩ ha h

theorem IsNext.eq {q : Multiset Event} {a b : Event} (ha : IsNext q a) (hb : IsNext q b) :
    a = b := by
  by_contra hne
  have hab := EventKey.less_iff.mp (ha.2 b hb.1 (Ne.symm hne))
  have hba := EventKey.less_iff.mp (hb.2 a ha.1 hne)
  exact lt_asymm hab hba

theorem queue_determined : queue.Determined := by
  intro q r a b ha hb
  cases r with
  | insert ev => exact Eq.trans ha (Eq.symm hb)
  | remove ev => exact Eq.trans ha (Eq.symm hb)
  | peekNext =>
    obtain ⟨x, rfl, hx⟩ := ha
    obtain ⟨y, rfl, hy⟩ := hb
    rw [hx.eq hy]
  | removeNext =>
    obtain ⟨x, rfl, hx⟩ := ha
    obtain ⟨y, rfl, hy⟩ := hb
    rw [hx.eq hy]

/-! ## The schedulers that keep every order -/

/-- The requests to a scheduler whose next event is `peekNext`. -/
def request {σ : Type} [KeyScheduler σ] (peekNext : σ → Option Event) (s : σ) :
    Request → Option (σ × Option Event)
  | .insert ev => some (KeyScheduler.insert s ev, none)
  | .peekNext => (peekNext s).map fun ev => (s, some ev)
  | .removeNext => (KeyScheduler.removeNext s).map fun r => (r.2, some r.1)
  | .remove ev => some (KeyScheduler.remove s ev, none)

theorem request_provides {σ : Type} [KeyScheduler σ] {peekNext : σ → Option Event}
    (hpeek : ∀ s, peekNext s = (KeyScheduler.removeNext s).map Prod.fst) :
    queue.Provided (request peekNext) (fun _ _ => True)
      (fun s q => KeyScheduler.stored s = q.1 ∧ DistinctUids q.1) := by
  constructor
  rintro s ⟨q, last⟩ r ⟨rfl, hd⟩ ⟨hl, -⟩ -
  cases r with
  | insert ev =>
    refine ⟨_, none, rfl, rfl, KeyScheduler.stored_insert s ev hl, ?_⟩
    exact hd.after hl none
  | peekNext =>
    obtain ⟨ev, s', hs', hnext, -⟩ := KeyScheduler.removeNext_isNext s hd hl
    refine ⟨s, some ev, ?_, ⟨ev, rfl, hnext⟩, rfl, hd⟩
    simp [request, hpeek, hs']
  | removeNext =>
    obtain ⟨ev, s', hs', hnext, hstored⟩ := KeyScheduler.removeNext_isNext s hd hl
    refine ⟨s', some ev, ?_, ⟨ev, rfl, hnext⟩, ?_, ?_⟩
    · simp [request, hs']
    · change _ = (KeyScheduler.stored s).erase ev
      rw [← hstored, Multiset.erase_cons_head]
    · exact hd.after hl (some ev)
  | remove ev =>
    refine ⟨_, none, rfl, rfl, ?_, ?_⟩
    · change _ = (KeyScheduler.stored s).erase ev
      rw [← KeyScheduler.stored_remove s ev hd hl, Multiset.erase_cons_head]
    · exact hd.after hl none

end Ns3.Core.Scheduler

namespace Ns3.Core

open Scheduler Ns3.Lib

def ListScheduler.peekNext (s : ListScheduler) : Option Event := s.m_events.head?

def ListScheduler.step : ListScheduler → Request → Option (ListScheduler × Option Event) :=
  request ListScheduler.peekNext

def MapScheduler.step : MapScheduler → Request → Option (MapScheduler × Option Event) :=
  request MapScheduler.peekNext

def PriorityQueueScheduler.step :
    PriorityQueueScheduler → Request → Option (PriorityQueueScheduler × Option Event) :=
  request PriorityQueueScheduler.peekNext

theorem ListScheduler.peekNext_eq (s : ListScheduler) :
    s.peekNext = (KeyScheduler.removeNext s).map Prod.fst := by
  cases heq : s.m_events with
  | nil =>
    obtain ⟨l, hl⟩ := s
    obtain rfl : l = [] := heq
    rfl
  | cons ev events =>
    obtain ⟨s', hs', -⟩ := removeNext_eq heq
    change _ = s.removeNext.map _
    rw [hs', peekNext, heq]
    rfl

theorem MapScheduler.peekNext_eq (s : MapScheduler) :
    s.peekNext = (KeyScheduler.removeNext s).map Prod.fst := by
  change s.m_list.entries.head?.map Prod.snd = s.removeNext.map Prod.fst
  unfold removeNext
  cases s.m_list.entries.head? with
  | none => rfl
  | some e => rfl

theorem PriorityQueueScheduler.peekNext_eq (s : PriorityQueueScheduler) :
    s.peekNext = (KeyScheduler.removeNext s).map Prod.fst := by
  change s.top = s.removeNext.map Prod.fst
  unfold removeNext
  cases s.top with
  | none => rfl
  | some ev => rfl

/-! ## The two others -/

theorem CalendarScheduler.provides :
    queue.Provided CalendarScheduler.step (fun _ _ => True)
      (fun s q => s.Inv q.1 q.2 ∧ CalendarScheduler.Valid q.1) := by
  constructor
  rintro s ⟨q, last⟩ r ⟨hinv, hv⟩ ⟨hl, ht⟩ -
  obtain ⟨s', ans, hs', hans, hinv'⟩ := hinv.step hv hl ht
  exact ⟨s', ans, hs', hans, hinv', hv.after hl ht ans⟩

theorem HeapScheduler.provides :
    queue.Provided HeapScheduler.step (fun s r => s.sinks r = true) (fun s q => s.Inv q.1) := by
  constructor
  rintro s ⟨q, last⟩ r hinv ⟨hl, -⟩ hsinks
  exact hinv.step hl hsinks

/-! ## All together -/

/-- On every list of legal requests, the list, the map, the priority queue and the calendar in both
its configurations give the right answers; so does the heap when its removals meet the condition
that keeps it ordered. -/
theorem Scheduler.answers_alike {tr : List (Request × Option Event)} {q : Multiset Event × ℕ}
    (h : queue.Trace (0, 0) tr q) (reverse : Bool) :
    Interface.answers ListScheduler.step KeyScheduler.empty (tr.map Prod.fst)
        = some (tr.map Prod.snd) ∧
      Interface.answers MapScheduler.step KeyScheduler.empty (tr.map Prod.fst)
        = some (tr.map Prod.snd) ∧
      Interface.answers PriorityQueueScheduler.step KeyScheduler.empty (tr.map Prod.fst)
        = some (tr.map Prod.snd) ∧
      Interface.answers CalendarScheduler.step (CalendarScheduler.start reverse) (tr.map Prod.fst)
        = some (tr.map Prod.snd) ∧
      (Interface.Along HeapScheduler.step (fun s r => s.sinks r = true) {} (tr.map Prod.fst) →
        Interface.answers HeapScheduler.step {} (tr.map Prod.fst) = some (tr.map Prod.snd)) := by
  have hall : ∀ {σ : Type} [KeyScheduler σ] {peekNext : σ → Option Event},
      (∀ s, peekNext s = (KeyScheduler.removeNext s).map Prod.fst) →
        Interface.answers (request peekNext) KeyScheduler.empty (tr.map Prod.fst)
          = some (tr.map Prod.snd) := by
    intro σ _ peekNext hpeek
    exact (request_provides hpeek).answers_eq queue_determined
      ⟨KeyScheduler.stored_empty, DistinctUids.zero⟩ h
      (Interface.along_of_forall (fun _ _ => trivial) _ _)
  refine ⟨hall ListScheduler.peekNext_eq, hall MapScheduler.peekNext_eq,
    hall PriorityQueueScheduler.peekNext_eq, ?_, ?_⟩
  · exact CalendarScheduler.provides.answers_eq queue_determined
      ⟨CalendarScheduler.inv_start reverse, DistinctUids.zero,
        fun x hx => absurd hx (Multiset.notMem_zero x)⟩ h
      (Interface.along_of_forall (fun _ _ => trivial) _ _)
  · exact HeapScheduler.provides.answers_eq queue_determined HeapScheduler.Inv.start h

/-- Six requests, of which one removes the last event of the heap. -/
def Scheduler.sixRequests : List (Request × Option Event) :=
  [(.insert ⟨0, ⟨5, 4, 0⟩⟩, none), (.insert ⟨1, ⟨3, 5, 0⟩⟩, none), (.insert ⟨2, ⟨5, 6, 0⟩⟩, none),
    (.removeNext, some ⟨1, ⟨3, 5, 0⟩⟩), (.remove ⟨2, ⟨5, 6, 0⟩⟩, none),
    (.peekNext, some ⟨0, ⟨5, 4, 0⟩⟩)]

theorem Scheduler.answers_alike_six :
    Interface.answers MapScheduler.step KeyScheduler.empty (sixRequests.map Prod.fst)
        = some (sixRequests.map Prod.snd) ∧
      Interface.answers HeapScheduler.step {} (sixRequests.map Prod.fst)
        = some (sixRequests.map Prod.snd) := by
  have hfive : IsNext {⟨2, ⟨5, 6, 0⟩⟩, ⟨1, ⟨3, 5, 0⟩⟩, ⟨0, ⟨5, 4, 0⟩⟩} ⟨1, ⟨3, 5, 0⟩⟩ :=
    ⟨by decide, by decide⟩
  have hone : IsNext {⟨0, ⟨5, 4, 0⟩⟩} ⟨0, ⟨5, 4, 0⟩⟩ := ⟨by decide, by decide⟩
  have h : queue.Trace (0, 0) sixRequests ({⟨0, ⟨5, 4, 0⟩⟩}, 3) := by
    refine queue_cons (by decide) (by decide) rfl ?_
    refine queue_cons (by decide) (by decide) rfl ?_
    refine queue_cons (by decide) (by decide) rfl ?_
    refine queue_cons (by decide) (by decide) ⟨_, rfl, hfive⟩ ?_
    refine queue_cons (by decide) (by decide) rfl ?_
    exact queue_cons (by decide) (by decide) ⟨_, rfl, hone⟩ (.nil _)
  have halike := answers_alike h true
  exact ⟨halike.2.1, halike.2.2.2.2 (by decide)⟩

end Ns3.Core
