import Mathlib
import Ns3.Core.DefaultSimulatorImpl
import Ns3.Core.ListScheduler

/-!
# The simulator of one rank

The ranks of a distributed simulation keep their events, clock and ids as the default simulator
does, on its main thread. Here the events are in a list scheduler.
-/

namespace Ns3.Mpi

open Ns3.Core

/-- What a distributed simulator has in common with the default one. -/
abbrev LocalSimulator := DefaultSimulatorImpl ListScheduler

/-- `GetMaximumSimulationTime`. -/
def maximumSimulationTime : ℕ := 0x7fffffffffffffff

namespace LocalSimulator

def start : LocalSimulator := { m_events := Scheduler.KeyScheduler.empty }

/-- A call of the program. -/
def call (s : LocalSimulator) : Action → LocalSimulator
  | .schedule delay event => (s.schedule delay event).1
  | .scheduleNow event => (s.scheduleNow event).1
  | .scheduleWithContext context delay event => (s.scheduleWithContext context delay event).1
  | .scheduleDestroy event => (s.scheduleDestroy event).1
  | .cancel id => s.cancel id
  | .remove id => s.remove id
  | .stop => s.stop

/-- `m_events->IsEmpty () || m_stop`. -/
def isFinished (s : LocalSimulator) : Bool := s.m_events.isEmpty || s.m_stop

/-- `m_events->PeekNext ().key.m_ts`. -/
def peekTs (s : LocalSimulator) : Option ℕ := s.m_events.m_events.head?.map fun ev => ev.key.m_ts

/-- The delay is not negative, and the time not after the maximum one. -/
def InTime (s : LocalSimulator) (delay : ℤ) : Prop :=
  0 ≤ delay ∧ s.m_currentTs + delay ≤ maximumSimulationTime

instance (s : LocalSimulator) (delay : ℤ) : Decidable (s.InTime delay) :=
  inferInstanceAs (Decidable (_ ∧ _))

/-- What the program promises about a call. -/
def Promised (s : LocalSimulator) : Action → Prop
  | .schedule delay _ | .scheduleWithContext _ delay _ => s.InTime delay
  | _ => True

instance (s : LocalSimulator) : DecidablePred s.Promised
  | .schedule _ _ | .scheduleWithContext _ _ _ => inferInstanceAs (Decidable (_ ∧ _))
  | .scheduleNow _ | .scheduleDestroy _ | .cancel _ | .remove _ | .stop => isTrue trivial

/-- The time stamps of the stored events. -/
def Pending (s : LocalSimulator) (ts : ℕ) : Prop := ∃ ev ∈ s.m_events.m_events, ev.key.m_ts = ts

variable {s s' : LocalSimulator}

/-- The clock stands, a stopped simulator stays so, and what is new is not before the time `t` and
not after the maximum one. -/
structure Extends (s s' : LocalSimulator) (t : ℕ) : Prop where
  currentTs_eq : s'.m_currentTs = s.m_currentTs
  stop : s.m_stop = true → s'.m_stop = true
  pending : ∀ ts, s'.Pending ts → s.Pending ts ∨ t ≤ ts ∧ ts ≤ maximumSimulationTime

theorem pending_insertEvent {ts context event u : ℕ}
    (h : LocalSimulator.Pending (s.insertEvent ts context event).1 u) : s.Pending u ∨ u = ts := by
  obtain ⟨ev, hev, rfl⟩ := h
  have hperm := ListScheduler.perm_insertEvent ⟨event, ⟨ts, s.m_uid, context⟩⟩ s.m_events.m_events
  rcases List.mem_cons.mp (hperm.mem_iff.mp hev) with rfl | hev
  · exact Or.inr rfl
  · exact Or.inl ⟨ev, hev, rfl⟩

theorem extends_insertEvent {ts context event t : ℕ} (h : t ≤ ts)
    (hle : ts ≤ maximumSimulationTime) :
    Extends s (s.insertEvent ts context event).1 t where
  currentTs_eq := rfl
  stop := id
  pending u hu := by
    rcases pending_insertEvent hu with hu | rfl
    · exact Or.inl hu
    · exact Or.inr ⟨h, hle⟩

/-- The absolute time of a delay that is in time. -/
theorem tAbsolute_eq {delay : ℤ} (h : s.InTime delay) :
    (s.tAbsolute delay : ℤ) = s.m_currentTs + delay := by
  obtain ⟨h0, hle⟩ := h
  unfold maximumSimulationTime at hle
  unfold DefaultSimulatorImpl.tAbsolute
  omega

theorem extends_insertDelay {delay : ℤ} (h : s.InTime delay) (context event : ℕ) :
    Extends s (s.insertEvent (s.tAbsolute delay) context event).1 s.m_currentTs := by
  have habs := tAbsolute_eq h
  obtain ⟨h0, hle⟩ := h
  exact extends_insertEvent (by omega) (by omega)

theorem extends_of_subset (h : s'.m_events.m_events ⊆ s.m_events.m_events)
    (hts : s'.m_currentTs = s.m_currentTs) (hstop : s.m_stop = true → s'.m_stop = true) (t : ℕ) :
    Extends s s' t where
  currentTs_eq := hts
  stop := hstop
  pending ts hts := by
    obtain ⟨ev, hev, rfl⟩ := hts
    exact Or.inl ⟨ev, h hev, rfl⟩

theorem cancel_frame (s : LocalSimulator) (id : EventId) :
    (s.cancel id).m_events = s.m_events ∧ (s.cancel id).m_currentTs = s.m_currentTs ∧
      (s.cancel id).m_stop = s.m_stop := by
  unfold DefaultSimulatorImpl.cancel
  split
  · exact ⟨rfl, rfl, rfl⟩
  · cases id.m_eventImpl with
    | none => exact ⟨rfl, rfl, rfl⟩
    | some impl => exact ⟨rfl, rfl, rfl⟩

theorem remove_frame (s : LocalSimulator) (id : EventId) :
    (s.remove id).m_events.m_events ⊆ s.m_events.m_events ∧
      (s.remove id).m_currentTs = s.m_currentTs ∧ (s.remove id).m_stop = s.m_stop := by
  unfold DefaultSimulatorImpl.remove
  split
  · exact ⟨List.Subset.refl _, rfl, rfl⟩
  · split
    · exact ⟨List.Subset.refl _, rfl, rfl⟩
    · cases id.m_eventImpl with
      | none => exact ⟨List.Subset.refl _, rfl, rfl⟩
      | some impl => exact ⟨List.eraseP_subset, rfl, rfl⟩

/-- A call schedules nothing in the past. -/
theorem extends_call {a : Action} (h : s.Promised a) (hlt : s.m_currentTs ≤ maximumSimulationTime) :
    Extends s (s.call a) s.m_currentTs := by
  cases a with
  | schedule delay event => exact extends_insertDelay h _ event
  | scheduleNow event =>
    refine extends_insertDelay ⟨le_rfl, ?_⟩ _ event
    omega
  | scheduleWithContext context delay event => exact extends_insertDelay h context event
  | scheduleDestroy event => exact ⟨rfl, id, fun _ => Or.inl⟩
  | cancel id =>
    obtain ⟨hevents, hts, hstop⟩ := cancel_frame s id
    have hsub : (s.cancel id).m_events.m_events ⊆ s.m_events.m_events := by
      rw [hevents]
      exact List.Subset.refl _
    exact extends_of_subset hsub hts (fun h => hstop.trans h) _
  | remove id =>
    obtain ⟨hevents, hts, hstop⟩ := remove_frame s id
    exact extends_of_subset hevents hts (fun h => hstop.trans h) _
  | stop => exact ⟨rfl, fun _ => rfl, fun _ => Or.inl⟩

end LocalSimulator

end Ns3.Mpi
