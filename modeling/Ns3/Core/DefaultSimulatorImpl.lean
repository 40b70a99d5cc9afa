import Mathlib.Algebra.Order.Ring.Int
import Ns3.Core.Scheduler
import Mathlib.Logic.Function.Basic

/-!
# DefaultSimulatorImpl

The event loop over any scheduler that returns the smallest key. The objects of `EventImpl` are
named by numbers; `m_cancel` is their flag. A system is a simulator with the program around it: the
event handlers are the calls they make, in any pattern, and the histories record what happened.
-/

namespace Ns3.Core

open Scheduler

/-- `EventId`. -/
structure EventId where
  m_eventImpl : Option ℕ
  m_ts : ℕ
  m_context : ℕ
  m_uid : ℕ
deriving DecidableEq, Repr

namespace EventId

/-- The constants of `EventId::UID`. -/
def invalid : ℕ := 0
def destroy : ℕ := 2
def valid : ℕ := 4

end EventId

/-- The id that `Schedule` returns for an event. -/
def Event.id (ev : Event) : EventId := ⟨some ev.impl, ev.key.m_ts, ev.key.m_context, ev.key.m_uid⟩

/-- `EventWithContext`. -/
structure EventWithContext where
  context : ℕ
  timestamp : ℕ
  event : ℕ
deriving DecidableEq, Repr

/-- The value of a 32-bit `int`. -/
def int32 (x : ℤ) : ℤ := x.bmod (2 ^ 32)

structure DefaultSimulatorImpl (σ : Type) where
  m_eventsWithContext : List EventWithContext := []
  m_destroyEvents : List EventId := []
  m_stop : Bool := false
  m_events : σ
  m_uid : ℕ := EventId.valid
  m_currentUid : ℕ := EventId.invalid
  m_currentTs : ℕ := 0
  m_currentContext : ℕ := 0xffffffff
  m_eventCount : ℕ := 0
  m_unscheduledEvents : ℤ := 0
  m_cancel : ℕ → Bool := fun _ => false

namespace DefaultSimulatorImpl

variable {σ : Type} [KeyScheduler σ]

/-- A new event goes to the scheduler. -/
def insertEvent (s : DefaultSimulatorImpl σ) (ts context event : ℕ) :
    DefaultSimulatorImpl σ × Event :=
  let ev : Event := ⟨event, ⟨ts, s.m_uid, context⟩⟩
  ({ s with
      m_uid := (s.m_uid + 1) % 2 ^ 32
      m_unscheduledEvents := int32 (s.m_unscheduledEvents + 1)
      m_events := KeyScheduler.insert s.m_events ev }, ev)

/-- `delay + TimeStep (m_currentTs)` as a 64-bit number. -/
def tAbsolute (s : DefaultSimulatorImpl σ) (delay : ℤ) : ℕ :=
  ((delay + s.m_currentTs) % 2 ^ 64).toNat

def schedule (s : DefaultSimulatorImpl σ) (delay : ℤ) (event : ℕ) :
    DefaultSimulatorImpl σ × Event :=
  s.insertEvent (s.tAbsolute delay) s.m_currentContext event

def scheduleNow (s : DefaultSimulatorImpl σ) (event : ℕ) : DefaultSimulatorImpl σ × Event :=
  s.schedule 0 event

/-- `ScheduleWithContext` on the main thread. -/
def scheduleWithContext (s : DefaultSimulatorImpl σ) (context : ℕ) (delay : ℤ) (event : ℕ) :
    DefaultSimulatorImpl σ × Event :=
  s.insertEvent (s.tAbsolute delay) context event

def scheduleDestroy (s : DefaultSimulatorImpl σ) (event : ℕ) : DefaultSimulatorImpl σ × EventId :=
  let id : EventId := ⟨some event, s.m_currentTs, 0xffffffff, EventId.destroy⟩
  ({ s with m_destroyEvents := s.m_destroyEvents ++ [id], m_uid := (s.m_uid + 1) % 2 ^ 32 }, id)

def isExpired (s : DefaultSimulatorImpl σ) (id : EventId) : Bool :=
  match id.m_eventImpl with
  | none => true
  | some impl =>
    if id.m_uid = EventId.destroy then
      if s.m_cancel impl then true else !decide (id ∈ s.m_destroyEvents)
    else
      decide (id.m_ts < s.m_currentTs) ||
        decide (id.m_ts = s.m_currentTs ∧ id.m_uid ≤ s.m_currentUid) || s.m_cancel impl

/-- `EventImpl::Cancel`. -/
def cancelImpl (s : DefaultSimulatorImpl σ) (impl : ℕ) : DefaultSimulatorImpl σ :=
  { s with m_cancel := Function.update s.m_cancel impl true }

def cancel (s : DefaultSimulatorImpl σ) (id : EventId) : DefaultSimulatorImpl σ :=
  if s.isExpired id then s
  else
    match id.m_eventImpl with
    | some impl => s.cancelImpl impl
    | none => s

def remove (s : DefaultSimulatorImpl σ) (id : EventId) : DefaultSimulatorImpl σ :=
  if id.m_uid = EventId.destroy then { s with m_destroyEvents := s.m_destroyEvents.erase id }
  else if s.isExpired id then s
  else
    match id.m_eventImpl with
    | some impl =>
      { s.cancelImpl impl with
        m_events := KeyScheduler.remove s.m_events ⟨impl, ⟨id.m_ts, id.m_uid, id.m_context⟩⟩
        m_unscheduledEvents := int32 (s.m_unscheduledEvents - 1) }
    | none => s

def stop (s : DefaultSimulatorImpl σ) : DefaultSimulatorImpl σ := { s with m_stop := true }

/-- `ProcessEventsWithContext`: the calls of other threads, in their order. -/
def processEventsWithContext (s : DefaultSimulatorImpl σ) : DefaultSimulatorImpl σ :=
  s.m_eventsWithContext.foldl
    (fun s e => (s.insertEvent ((s.m_currentTs + e.timestamp) % 2 ^ 64) e.context e.event).1)
    { s with m_eventsWithContext := [] }

/-- `ProcessOneEvent` up to the invocation. -/
def takeEvent (s : DefaultSimulatorImpl σ) : Option (Event × DefaultSimulatorImpl σ) := do
  let (next, m_events) ← KeyScheduler.removeNext s.m_events
  return (next, { s with
    m_events := m_events
    m_unscheduledEvents := int32 (s.m_unscheduledEvents - 1)
    m_eventCount := (s.m_eventCount + 1) % 2 ^ 64
    m_currentTs := next.key.m_ts
    m_currentContext := next.key.m_context
    m_currentUid := next.key.m_uid })

/-- The condition of the loop of `Run`. -/
def goesOn (s : DefaultSimulatorImpl σ) : Bool := !KeyScheduler.isEmpty s.m_events && !s.m_stop

end DefaultSimulatorImpl

/-! ## The system -/

/-- The calls of a program. -/
inductive Action
  | schedule (delay : ℤ) (event : ℕ)
  | scheduleNow (event : ℕ)
  | scheduleWithContext (context : ℕ) (delay : ℤ) (event : ℕ)
  | scheduleDestroy (event : ℕ)
  | cancel (id : EventId)
  | remove (id : EventId)
  | stop
deriving DecidableEq, Repr

/-- Where the program is: outside `Run`, in its loop, or in the invocation of an event. The handler
of a cancelled event is not called. -/
inductive Phase
  | outside
  | loop
  | invocation (notified : Bool)
deriving DecidableEq, Repr

/-- A simulator in its program. The histories are: the events given to the scheduler, in that order;
those whose turn came; those of them whose handler was called; those removed; and the objects whose
event was cancelled or removed before its turn. -/
structure SimulatorSystem (σ : Type) where
  impl : DefaultSimulatorImpl σ
  phase : Phase := .outside
  scheduled : List Event := []
  turns : List Event := []
  invoked : List Event := []
  removed : List Event := []
  cancelled : List ℕ := []

/-- A step of the program. -/
inductive SimulatorStep
  | call (a : Action)
  | run
  | processOneEvent
  | finishEvent
  | leave
deriving DecidableEq, Repr

namespace SimulatorSystem

variable {σ : Type} [KeyScheduler σ]

/-- The event of an id is still to come, by the histories. -/
def Ahead (s : SimulatorSystem σ) (id : EventId) (impl : ℕ) : Prop :=
  impl ∉ s.cancelled ∧
    if id.m_uid = EventId.destroy then id ∈ s.impl.m_destroyEvents
    else ∀ ev ∈ s.turns, ev.key.m_uid ≠ id.m_uid

instance (s : SimulatorSystem σ) (id : EventId) (impl : ℕ) : Decidable (s.Ahead id impl) :=
  inferInstanceAs (Decidable (_ ∧ _))

/-- The histories after an event was given to the scheduler. -/
def noteScheduled (s : SimulatorSystem σ) (r : DefaultSimulatorImpl σ × Event) :
    SimulatorSystem σ :=
  { s with impl := r.1, scheduled := s.scheduled ++ [r.2] }

def call (s : SimulatorSystem σ) : Action → SimulatorSystem σ
  | .schedule delay event => s.noteScheduled (s.impl.schedule delay event)
  | .scheduleNow event => s.noteScheduled (s.impl.scheduleNow event)
  | .scheduleWithContext context delay event =>
    s.noteScheduled (s.impl.scheduleWithContext context delay event)
  | .scheduleDestroy event => { s with impl := (s.impl.scheduleDestroy event).1 }
  | .cancel id =>
    match id.m_eventImpl with
    | none => { s with impl := s.impl.cancel id }
    | some impl =>
      { s with
        impl := s.impl.cancel id
        cancelled := if s.Ahead id impl then impl :: s.cancelled else s.cancelled }
  | .remove id =>
    match id.m_eventImpl with
    | none => { s with impl := s.impl.remove id }
    | some impl =>
      if id.m_uid ≠ EventId.destroy ∧ s.Ahead id impl then
        { s with
          impl := s.impl.remove id
          removed := ⟨impl, ⟨id.m_ts, id.m_uid, id.m_context⟩⟩ :: s.removed
          cancelled := impl :: s.cancelled }
      else { s with impl := s.impl.remove id }
  | .stop => { s with impl := s.impl.stop }

/-- The program calls outside `Run` and in the handlers. -/
def Phase.calls : Phase → Bool
  | .outside => true
  | .loop => false
  | .invocation notified => notified

def step (s : SimulatorSystem σ) : SimulatorStep → Option (SimulatorSystem σ)
  | .call a => if Phase.calls s.phase then some (s.call a) else none
  | .run =>
    if s.phase = .outside then
      some { s with
        impl := { s.impl.processEventsWithContext with m_stop := false }
        phase := .loop }
    else none
  | .processOneEvent =>
    if s.phase = .loop ∧ s.impl.goesOn = true then do
      let (next, impl) ← s.impl.takeEvent
      let notified := !s.impl.m_cancel next.impl
      return { s with
        impl := impl
        phase := .invocation notified
        turns := s.turns ++ [next]
        invoked := if notified then s.invoked ++ [next] else s.invoked }
    else none
  | .finishEvent =>
    match s.phase with
    | .invocation _ => some { s with impl := s.impl.processEventsWithContext, phase := .loop }
    | _ => none
  | .leave =>
    if s.phase = .loop ∧ s.impl.goesOn = false then some { s with phase := .outside } else none

/-- The ids that a program has: the empty one, those of destroy events, and those of the events it
scheduled. -/
def Known (s : SimulatorSystem σ) : SimulatorStep → Prop
  | .call (.cancel id) | .call (.remove id) =>
    id.m_eventImpl = none ∨ id.m_uid = EventId.destroy ∨ ∃ ev ∈ s.scheduled, id = ev.id
  | _ => True

/-- Room for one more event: in the 32-bit uids and in the counter of the stored events. -/
def Room (s : SimulatorSystem σ) : Prop :=
  s.impl.m_uid + 1 < 2 ^ 32 ∧ (KeyScheduler.stored s.impl.m_events).card + 1 < 2 ^ 31

/-- The event is not in the past and not after the maximum simulation time. -/
def InTime (s : SimulatorSystem σ) (delay : ℤ) : Prop :=
  0 ≤ delay ∧ s.impl.m_currentTs + delay ≤ 0x7fffffffffffffff

/-- The condition on a step. -/
def Fits (s : SimulatorSystem σ) : SimulatorStep → Prop
  | .call (.schedule delay _) | .call (.scheduleWithContext _ delay _) => s.Room ∧ s.InTime delay
  | .call (.scheduleNow _) => s.Room
  | .call (.scheduleDestroy _) => s.impl.m_uid + 1 < 2 ^ 32
  | _ => True

instance (s : SimulatorSystem σ) : DecidablePred s.Known
  | .call (.cancel _) | .call (.remove _) => inferInstanceAs (Decidable (_ ∨ _ ∨ _))
  | .call (.schedule _ _) | .call (.scheduleNow _) | .call (.scheduleWithContext _ _ _)
  | .call (.scheduleDestroy _) | .call .stop | .run | .processOneEvent | .finishEvent | .leave =>
    isTrue trivial

instance (s : SimulatorSystem σ) : Decidable s.Room :=
  inferInstanceAs (Decidable (_ ∧ _))

instance (s : SimulatorSystem σ) (delay : ℤ) : Decidable (s.InTime delay) :=
  inferInstanceAs (Decidable (_ ∧ _))

instance (s : SimulatorSystem σ) : DecidablePred s.Fits
  | .call (.schedule _ _) | .call (.scheduleWithContext _ _ _) =>
    inferInstanceAs (Decidable (_ ∧ _))
  | .call (.scheduleNow _) => inferInstanceAs (Decidable s.Room)
  | .call (.scheduleDestroy _) => inferInstanceAs (Decidable (_ < _))
  | .call (.cancel _) | .call (.remove _) | .call .stop | .run | .processOneEvent | .finishEvent
  | .leave => isTrue trivial

/-- The runs of a new simulator. `Q` is the condition on each step. -/
inductive Run (Q : SimulatorSystem σ → SimulatorStep → Prop) : SimulatorSystem σ → Prop
  | start : Run Q { impl := { m_events := KeyScheduler.empty } }
  | step {s s' : SimulatorSystem σ} (h : Run Q s) (r : SimulatorStep) (hk : s.Known r) (hQ : Q s r)
    (hs : s.step r = some s') : Run Q s'

end SimulatorSystem

end Ns3.Core
