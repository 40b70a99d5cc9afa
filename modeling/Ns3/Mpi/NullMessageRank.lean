import Mathlib
import Ns3.Mpi.NullMessageSimulatorImpl
import Ns3.Mpi.TimeWindow

/-!
# One rank under the null message algorithm

What a rank may still do to keep a guarantee that it gave. A guarantee is the delay after a base
time, which is not before the next event when it is given. So either the clock has passed the base,
or all events are at or after the base, up to the null message event itself, or a packet was sent
along with the guarantee: then the device is busy until after the base.
-/

namespace Ns3.Mpi

open Ns3.Core

/-! ## Steps of the simulator -/

namespace LocalSimulator

variable {s s' : LocalSimulator} {ev : Event}

/-- An event was added. -/
structure Added (s s' : LocalSimulator) (ev : Event) : Prop where
  clock : s'.m_currentTs = s.m_currentTs
  cancel : s'.m_cancel = s.m_cancel
  events : s'.m_events.m_events.Perm (ev :: s.m_events.m_events)

theorem Added.mem_iff (h : Added s s' ev) {e : Event} :
    e ∈ s'.m_events.m_events ↔ e = ev ∨ e ∈ s.m_events.m_events := by
  rw [h.events.mem_iff, List.mem_cons]

theorem insertEvent_added (s : LocalSimulator) (ts context event : ℕ) :
    Added s (s.insertEvent ts context event).1 (s.insertEvent ts context event).2 where
  clock := rfl
  cancel := rfl
  events := ListScheduler.perm_insertEvent _ _

/-- An event that is scheduled in time. -/
theorem schedule_added {delay : ℕ} (h : s.m_currentTs + delay ≤ maximumSimulationTime) (event : ℕ) :
    Added s (s.schedule delay event).1 (s.schedule delay event).2 ∧
      (s.schedule delay event).2.impl = event ∧
      (s.schedule delay event).2.key.m_ts = s.m_currentTs + delay := by
  have htime : s.InTime delay := ⟨by omega, by omega⟩
  have hts := tAbsolute_eq htime
  refine ⟨insertEvent_added s _ _ event, rfl, ?_⟩
  change s.tAbsolute delay = _
  omega

theorem scheduleWithContext_added {delay : ℤ} (h : s.InTime delay) (context event : ℕ) :
    Added s (s.scheduleWithContext context delay event).1
        (s.scheduleWithContext context delay event).2 ∧
      (s.scheduleWithContext context delay event).2.impl = event ∧
      ((s.scheduleWithContext context delay event).2.key.m_ts : ℤ) = s.m_currentTs + delay :=
  ⟨insertEvent_added s _ context event, rfl, tAbsolute_eq h⟩

/-- The next event is taken. -/
theorem takeEvent_eq (h : s.takeEvent = some (ev, s')) :
    s.m_events.m_events = ev :: s'.m_events.m_events ∧ s'.m_currentTs = ev.key.m_ts ∧
      s'.m_cancel = s.m_cancel := by
  obtain ⟨⟨next, rest⟩, hr, heq⟩ := Option.bind_eq_some_iff.mp h
  cases heq
  cases hl : s.m_events.m_events with
  | nil =>
    have hnone : s.m_events.removeNext = none := by
      unfold ListScheduler.removeNext
      split
      · rfl
      · next hcons =>
        rw [hl] at hcons
        cases hcons
    change s.m_events.removeNext = _ at hr
    rw [hnone] at hr
    cases hr
  | cons a events =>
    obtain ⟨rest', hrest', hrest⟩ := ListScheduler.removeNext_eq hl
    change s.m_events.removeNext = _ at hr
    rw [hrest'] at hr
    cases hr
    exact ⟨by rw [hrest], rfl, rfl⟩

/-- What a call of the program does, when its objects are not `owned` by the simulator. -/
structure Called (owned : ℕ → Prop) (s s' : LocalSimulator) : Prop where
  clock : s'.m_currentTs = s.m_currentTs
  old_or_new : ∀ ev ∈ s'.m_events.m_events, ev ∈ s.m_events.m_events ∨
    ¬ owned ev.impl ∧ s.m_currentTs ≤ ev.key.m_ts ∧ ev.key.m_ts ≤ maximumSimulationTime
  keeps : ∀ ev ∈ s.m_events.m_events, owned ev.impl → ev ∈ s'.m_events.m_events
  cancel : ∀ obj, owned obj → s'.m_cancel obj = s.m_cancel obj

theorem Added.called {owned : ℕ → Prop} (h : Added s s' ev) (hev : ¬ owned ev.impl)
    (hts : s.m_currentTs ≤ ev.key.m_ts) (hmax : ev.key.m_ts ≤ maximumSimulationTime) :
    Called owned s s' where
  clock := h.clock
  old_or_new e he := by
    rcases h.mem_iff.mp he with rfl | he
    · exact Or.inr ⟨hev, hts, hmax⟩
    · exact Or.inl he
  keeps e he _ := h.mem_iff.mpr (Or.inr he)
  cancel obj _ := by rw [h.cancel]

theorem cancel_called {owned : ℕ → Prop} {id : EventId} (h : ∀ obj ∈ id.m_eventImpl, ¬ owned obj) :
    Called owned s (s.cancel id) where
  clock := (cancel_frame s id).2.1
  old_or_new ev hev := by
    rw [(cancel_frame s id).1] at hev
    exact Or.inl hev
  keeps ev hev _ := by
    rw [(cancel_frame s id).1]
    exact hev
  cancel obj hobj := by
    unfold DefaultSimulatorImpl.cancel
    split
    · rfl
    · cases hid : id.m_eventImpl with
      | none => rfl
      | some impl =>
        have hne : obj ≠ impl := by
          rintro rfl
          exact h obj (by rw [hid]; rfl) hobj
        exact Function.update_of_ne hne _ _

theorem remove_called {owned : ℕ → Prop} {id : EventId} (h : ∀ obj ∈ id.m_eventImpl, ¬ owned obj)
    (huid : ∀ ev ∈ s.m_events.m_events, ev.key.m_uid = id.m_uid → ¬ owned ev.impl) :
    Called owned s (s.remove id) where
  clock := (remove_frame s id).2.1
  old_or_new ev hev := Or.inl ((remove_frame s id).1 hev)
  keeps ev hev howned := by
    unfold DefaultSimulatorImpl.remove
    split
    · exact hev
    · split
      · exact hev
      · cases id.m_eventImpl with
        | none => exact hev
        | some impl =>
          refine (List.mem_eraseP_of_neg ?_).mpr hev
          intro heq
          exact huid ev hev (beq_iff_eq.mp heq) howned
  cancel obj hobj := by
    unfold DefaultSimulatorImpl.remove
    split
    · rfl
    · split
      · rfl
      · cases hid : id.m_eventImpl with
        | none => rfl
        | some impl =>
          have hne : obj ≠ impl := by
            rintro rfl
            exact h obj (by rw [hid]; rfl) hobj
          exact Function.update_of_ne hne _ _

theorem scheduleWithContext_called {owned : ℕ → Prop} {delay : ℤ} {context event : ℕ}
    (h : s.InTime delay) (hown : ¬ owned event) :
    Called owned s (s.scheduleWithContext context delay event).1 := by
  obtain ⟨hadded, himpl, hts⟩ := scheduleWithContext_added h context event
  obtain ⟨hpos, hmax⟩ := h
  refine hadded.called ?_ (by omega) (by omega)
  rw [himpl]
  exact hown

theorem schedule_called {owned : ℕ → Prop} {delay : ℤ} {event : ℕ} (h : s.InTime delay)
    (hown : ¬ owned event) : Called owned s (s.schedule delay event).1 :=
  scheduleWithContext_called h hown

end LocalSimulator

/-! ## What a rank owes -/

namespace NullMessageSimulatorImpl

variable {n m : ℕ} {net : NullMessageNetwork n m} {i j : Fin n}
  {r r' : NullMessageSimulatorImpl n m}
  {phase phase' : NullPhase n} {p : ℕ}

/-- The stored events. -/
abbrev events (r : NullMessageSimulatorImpl n m) : List Event := r.simulator.m_events.m_events

/-- The events in which the simulator itself turns to the rank `j`: its null message event, or the
end of a packet to it. -/
def Concerns (net : NullMessageNetwork n m) (i j : Fin n) : Callback n m → Prop
  | .nullMessageEventHandler bundle => bundle = j
  | .transmitComplete c => net.Joins c i j

/-- All events but one of `j`'s null message events are at or after the base of the guarantee
`p`. -/
def Quiet (net : NullMessageNetwork n m) (i j : Fin n) (r : NullMessageSimulatorImpl n m) (p : ℕ) :
    Prop :=
  ∃ ev₀, r.callback ev₀.impl = some (.nullMessageEventHandler j) ∧
    ∀ ev ∈ r.events.erase ev₀, p ≤ ev.key.m_ts + net.delay i j

/-- The devices to `j` are busy, until after the base of the guarantee `p`. -/
def Sending (net : NullMessageNetwork n m) (i j : Fin n) (r : NullMessageSimulatorImpl n m)
    (p : ℕ) : Prop :=
  (∀ c, net.Joins c i j → r.busy c = true) ∧
    ∀ ev ∈ r.events, (∃ callback ∈ r.callback ev.impl, Concerns net i j callback) →
      p ≤ ev.key.m_ts + net.delay i j

/-- The rank keeps the guarantee `p` that it gave to `j`. -/
structure Owes (net : NullMessageNetwork n m) (i j : Fin n) (r : NullMessageSimulatorImpl n m)
    (phase : NullPhase n) (p : ℕ) : Prop where
  ahead : p ≤ r.m_safeTime + net.delay i j
  cases : p ≤ r.simulator.m_currentTs + net.delay i j ∨
    phase.calls = false ∧ Quiet net i j r p ∨ Sending net i j r p

/-- There is a null message event for `j`, at or before the guarantee `p`. -/
def Live (net : NullMessageNetwork n m) (i j : Fin n) (r : NullMessageSimulatorImpl n m) (p : ℕ) :
    Prop :=
  ∃ ev ∈ r.events, r.callback ev.impl = some (.nullMessageEventHandler j) ∧
    r.simulator.m_cancel ev.impl = false ∧
    ev.key.m_ts ≤ r.simulator.m_currentTs + net.tuned (net.delay i j) ∧ ev.key.m_ts ≤ p

end NullMessageSimulatorImpl

/-- The rank has not yet begun the loop of `Run`. -/
def NullPhase.early {n : ℕ} : NullPhase n → Bool
  | .outside | .initializing _ => true
  | _ => false

/-- The bundle to `j` has its first null message event. -/
def NullPhase.Initialized {n : ℕ} : NullPhase n → Fin n → Prop
  | .outside, _ => False
  | .initializing bundles, j => j ∉ bundles
  | _, _ => True

namespace NullMessageSimulatorImpl

variable {n m : ℕ} {net : NullMessageNetwork n m} {i j : Fin n}
  {r r' : NullMessageSimulatorImpl n m}
  {phase phase' : NullPhase n} {p : Fin n → ℕ}

/-- What holds of a rank wherever it is. -/
structure RankBase (net : NullMessageNetwork n m) (i : Fin n) (r : NullMessageSimulatorImpl n m) :
    Prop where
  clock_le : r.simulator.m_currentTs ≤ r.m_safeTime
  behind : ∀ ev ∈ r.events, r.simulator.m_currentTs ≤ ev.key.m_ts
  safe_le : ∀ j, net.Bundle i j → r.m_safeTime ≤ r.m_guaranteeTime j
  safe_max : r.m_safeTime ≤ maximumSimulationTime
  pending_max : ∀ ev ∈ r.events, ev.key.m_ts ≤ maximumSimulationTime
  bundled : ∀ ev ∈ r.events, ∀ j,
    r.callback ev.impl = some (.nullMessageEventHandler j) → net.Bundle i j
  ids : ∀ j, ∀ obj ∈ (r.m_nullEventId j).m_eventImpl,
    r.callback obj = some (.nullMessageEventHandler j)

/-- What the safe time is where the rank is. -/
structure PhaseInv (net : NullMessageNetwork n m) (i : Fin n) (r : NullMessageSimulatorImpl n m)
    (phase : NullPhase n) : Prop where
  early : phase.early = true → r.simulator.m_currentTs = 0 ∧ r.m_safeTime = 0 ∧
    ∀ j, r.m_guaranteeTime j = 0
  tight : phase ≠ .polling → ∀ j, net.Bundle i j → r.m_safeTime < maximumSimulationTime →
    ∃ k, net.Bundle i k ∧ r.m_safeTime = r.m_guaranteeTime k
  waits : phase = .waiting → (∃ ts, r.simulator.peekTs = some ts ∧ r.m_safeTime < ts) ∧
    ∃ j, net.Bundle i j

/-- What holds of the bundle to `j`, with the guarantee `q`. -/
structure PeerInv (net : NullMessageNetwork n m) (i j : Fin n) (r : NullMessageSimulatorImpl n m)
    (phase : NullPhase n) (q : ℕ) : Prop where
  owes : Owes net i j r phase q
  live : phase.Initialized j → Live net i j r q
  early : phase.early = true → q ≤ net.delay i j

/-- A rank that gave the guarantees `p` to the others. -/
structure RankInv (net : NullMessageNetwork n m) (i : Fin n) (r : NullMessageSimulatorImpl n m)
    (phase : NullPhase n) (p : Fin n → ℕ) : Prop where
  base : RankBase net i r
  place : PhaseInv net i r phase
  peer : ∀ j, net.Bundle i j → PeerInv net i j r phase (p j)

variable {q : ℕ} {ev : Event} {callback : Callback n m} {simulator : LocalSimulator}

/-! ## The program -/

/-- The calls of the program, with the objects that are not the simulator's. -/
theorem call_called {a : Action} (hp : r.simulator.Promised a) (hown : r.Own a)
    (hclock : r.simulator.m_currentTs ≤ maximumSimulationTime) :
    LocalSimulator.Called (fun obj => r.callback obj ≠ none) r.simulator (r.simulator.call a) := by
  cases a with
  | schedule delay event => exact LocalSimulator.schedule_called hp (not_not.mpr hown)
  | scheduleNow event =>
    have htime : r.simulator.InTime 0 := ⟨le_rfl, by omega⟩
    exact LocalSimulator.schedule_called htime (not_not.mpr hown)
  | scheduleWithContext context delay event =>
    exact LocalSimulator.scheduleWithContext_called hp (not_not.mpr hown)
  | scheduleDestroy event => exact ⟨rfl, fun _ => Or.inl, fun _ h _ => h, fun _ _ => rfl⟩
  | cancel id => exact LocalSimulator.cancel_called fun obj hobj => not_not.mpr (hown obj hobj)
  | remove id =>
    exact LocalSimulator.remove_called (fun obj hobj => not_not.mpr (hown.1 obj hobj))
      fun ev hev huid => not_not.mpr (hown.2 ev hev huid)
  | stop => exact ⟨rfl, fun _ => Or.inl, fun _ h _ => h, fun _ _ => rfl⟩

section Called

variable (hc : LocalSimulator.Called (fun obj => r.callback obj ≠ none) r.simulator simulator)
include hc

theorem RankBase.called (h : RankBase net i r) :
    RankBase net i { r with simulator := simulator } where
  clock_le := by
    rw [hc.clock]
    exact h.clock_le
  behind ev hev := by
    rw [hc.clock]
    rcases hc.old_or_new ev hev with hev | hev
    · exact h.behind ev hev
    · exact hev.2.1
  safe_le := h.safe_le
  safe_max := h.safe_max
  pending_max ev hev := by
    rcases hc.old_or_new ev hev with hev | hev
    · exact h.pending_max ev hev
    · exact hev.2.2
  bundled ev hev j hj := by
    rcases hc.old_or_new ev hev with hev | hev
    · exact h.bundled ev hev j hj
    · refine absurd ?_ hev.1
      intro hnone
      rw [hnone] at hj
      cases hj
  ids := h.ids

theorem Live.called (h : Live net i j r q) : Live net i j { r with simulator := simulator } q := by
  obtain ⟨ev, hev, hcallback, hcancel, hts, hq⟩ := h
  have howned : r.callback ev.impl ≠ none := by
    rw [hcallback]
    exact Option.some_ne_none _
  refine ⟨ev, hc.keeps ev hev howned, hcallback, ?_, ?_, hq⟩
  · exact (hc.cancel _ howned).trans hcancel
  · rw [hc.clock]
    exact hts

theorem Sending.called (h : Sending net i j r q) :
    Sending net i j { r with simulator := simulator } q := by
  refine ⟨h.1, fun ev hev => ?_⟩
  rintro ⟨callback, hcallback, hconcerns⟩
  rcases hc.old_or_new ev hev with hev | ⟨hnew, -⟩
  · exact h.2 ev hev ⟨callback, hcallback, hconcerns⟩
  · refine absurd ?_ hnew
    intro hnone
    rw [hnone] at hcallback
    cases hcallback

theorem PeerInv.called (h : PeerInv net i j r phase q) (hp : phase.calls = true) :
    PeerInv net i j { r with simulator := simulator } phase q where
  owes := by
    refine ⟨h.owes.ahead, ?_⟩
    rcases h.owes.cases with hpassed | ⟨hquiet, -⟩ | hsending
    · left
      rw [hc.clock]
      exact hpassed
    · rw [hp] at hquiet
      cases hquiet
    · exact Or.inr (Or.inr (hsending.called hc))
  live hinit := (h.live hinit).called hc
  early := h.early

theorem RankInv.called (h : RankInv net i r phase p) (hp : phase.calls = true) :
    RankInv net i { r with simulator := simulator } phase p where
  base := h.base.called hc
  place := by
    refine ⟨fun hearly => ?_, h.place.tight, fun hw => ?_⟩
    · rw [hc.clock]
      exact h.place.early hearly
    · subst hw
      cases hp
  peer j hj := (h.peer j hj).called hc hp

end Called

/-! ## Events of the simulator -/

/-- The rank `r'` has one more event, with an object that was not in use. -/
structure Scheduled (r r' : NullMessageSimulatorImpl n m) (ev : Event) (callback : Callback n m) :
    Prop where
  added : LocalSimulator.Added r.simulator r'.simulator ev
  safe : r'.m_safeTime = r.m_safeTime
  guarantee : r'.m_guaranteeTime = r.m_guaranteeTime
  busy : r'.busy = r.busy
  new : r'.callback ev.impl = some callback
  not_cancelled : r.simulator.m_cancel ev.impl = false
  old : ∀ obj, r.callback obj ≠ none → r'.callback obj = r.callback obj
  stored : ∀ e ∈ r.events, r'.callback e.impl = r.callback e.impl

theorem scheduleCallback_scheduled {delay obj : ℕ} (hfresh : r.Fresh obj)
    (hrange : r.simulator.m_currentTs + delay ≤ maximumSimulationTime) (callback : Callback n m) :
    Scheduled r (r.scheduleCallback delay obj callback).1 (r.scheduleCallback delay obj callback).2
        callback ∧
      (r.scheduleCallback delay obj callback).2.key.m_ts = r.simulator.m_currentTs + delay ∧
      (r.scheduleCallback delay obj callback).2.impl = obj := by
  obtain ⟨hnone, hcancel, hstored⟩ := hfresh
  obtain ⟨hadded, himpl, hts⟩ := LocalSimulator.schedule_added hrange obj
  refine ⟨⟨hadded, rfl, rfl, rfl, ?_, ?_, ?_, ?_⟩, hts, himpl⟩
  · exact Function.update_self _ _ _
  · exact hcancel
  · intro o ho
    refine Function.update_of_ne ?_ _ _
    rintro rfl
    exact ho hnone
  · intro e he
    exact Function.update_of_ne (hstored e he) _ _

section Scheduled

variable (hs : Scheduled r r' ev callback)
include hs

theorem Scheduled.base (h : RankBase net i r) (hts : r.simulator.m_currentTs ≤ ev.key.m_ts)
    (hmax : ev.key.m_ts ≤ maximumSimulationTime)
    (hbundle : ∀ j, callback = .nullMessageEventHandler j → net.Bundle i j)
    (hids : ∀ j, ∀ obj ∈ (r'.m_nullEventId j).m_eventImpl,
      r'.callback obj = some (.nullMessageEventHandler j)) : RankBase net i r' where
  clock_le := by
    rw [hs.added.clock, hs.safe]
    exact h.clock_le
  behind e he := by
    rw [hs.added.clock]
    rcases hs.added.mem_iff.mp he with rfl | he
    · exact hts
    · exact h.behind e he
  safe_le j hj := by
    rw [hs.safe, hs.guarantee]
    exact h.safe_le j hj
  safe_max := by
    rw [hs.safe]
    exact h.safe_max
  pending_max e he := by
    rcases hs.added.mem_iff.mp he with rfl | he
    · exact hmax
    · exact h.pending_max e he
  bundled e he j hj := by
    rcases hs.added.mem_iff.mp he with rfl | he
    · rw [hs.new, Option.some.injEq] at hj
      exact hbundle j hj
    · rw [hs.stored e he] at hj
      exact h.bundled e he j hj
  ids := hids

/-- The ids of the null message events stay what they are. -/
theorem Scheduled.ids (h : RankBase net i r) :
    ∀ j, ∀ obj ∈ (r.m_nullEventId j).m_eventImpl,
      r'.callback obj = some (.nullMessageEventHandler j) := by
  intro j obj hobj
  have hold := h.ids j obj hobj
  have howned : r.callback obj ≠ none := by
    rw [hold]
    exact Option.some_ne_none _
  rw [hs.old obj howned, hold]

theorem Scheduled.sending (h : Sending net i j r q) (hne : ¬ Concerns net i j callback) :
    Sending net i j r' q := by
  refine ⟨fun c hc => ?_, fun e he => ?_⟩
  · rw [hs.busy]
    exact h.1 c hc
  · rintro ⟨cb, hcb, hconcerns⟩
    rcases hs.added.mem_iff.mp he with rfl | he
    · rw [hs.new] at hcb
      cases hcb
      exact absurd hconcerns hne
    · rw [hs.stored e he] at hcb
      exact h.2 e he ⟨cb, hcb, hconcerns⟩

theorem Scheduled.live (h : Live net i j r q) : Live net i j r' q := by
  obtain ⟨e, he, hcallback, hcancel, hts, hq⟩ := h
  refine ⟨e, hs.added.mem_iff.mpr (Or.inr he), ?_, ?_, ?_, hq⟩
  · rw [hs.stored e he, hcallback]
  · rw [hs.added.cancel]
    exact hcancel
  · rw [hs.added.clock]
    exact hts

end Scheduled

theorem Scheduled.live_new (hs : Scheduled r r' ev (.nullMessageEventHandler j))
    (hts : ev.key.m_ts ≤ r.simulator.m_currentTs + net.tuned (net.delay i j))
    (hq : ev.key.m_ts ≤ q) : Live net i j r' q := by
  refine ⟨ev, hs.added.mem_iff.mpr (Or.inl rfl), hs.new, ?_, ?_, hq⟩
  · rw [hs.added.cancel]
    exact hs.not_cancelled
  · rw [hs.added.clock]
    exact hts

/-- The guarantee, with no null message event that it waits for. -/
def Settled (net : NullMessageNetwork n m) (i j : Fin n) (r : NullMessageSimulatorImpl n m)
    (q : ℕ) : Prop :=
  q ≤ r.simulator.m_currentTs + net.delay i j ∨ Sending net i j r q

theorem Owes.settled (h : Owes net i j r phase q) (hp : phase.calls = true) :
    Settled net i j r q := by
  rcases h.cases with hpassed | ⟨hquiet, -⟩ | hsending
  · exact Or.inl hpassed
  · rw [hp] at hquiet
    cases hquiet
  · exact Or.inr hsending

theorem Settled.owes (h : Settled net i j r q) (hahead : q ≤ r.m_safeTime + net.delay i j)
    (phase : NullPhase n) : Owes net i j r phase q := by
  refine ⟨hahead, ?_⟩
  rcases h with hpassed | hsending
  · exact Or.inl hpassed
  · exact Or.inr (Or.inr hsending)

theorem Scheduled.settled (hs : Scheduled r r' ev callback) (h : Settled net i j r q)
    (hne : ¬ Concerns net i j callback) : Settled net i j r' q := by
  rcases h with hpassed | hsending
  · left
    rw [hs.added.clock]
    exact hpassed
  · exact Or.inr (hs.sending hsending hne)

/-- The null message event of a bundle. -/
theorem scheduleNullMessageEvent_scheduled {obj : ℕ} (hfresh : r.Fresh obj)
    (hrange : r.simulator.m_currentTs + net.delay i j ≤ maximumSimulationTime) :
    ∃ ev, Scheduled r (r.scheduleNullMessageEvent net i j obj) ev (.nullMessageEventHandler j) ∧
      ev.key.m_ts = r.simulator.m_currentTs + net.tuned (net.delay i j) ∧
      (r.scheduleNullMessageEvent net i j obj).m_nullEventId
        = Function.update r.m_nullEventId j ev.id := by
  have htuned := net.tuned_le (net.delay i j)
  obtain ⟨hs, hts, -⟩ := scheduleCallback_scheduled hfresh
    (show r.simulator.m_currentTs + net.tuned (net.delay i j) ≤ maximumSimulationTime by omega)
    (.nullMessageEventHandler j)
  exact ⟨_, ⟨hs.added, hs.safe, hs.guarantee, hs.busy, hs.new, hs.not_cancelled, hs.old, hs.stored⟩,
    hts, rfl⟩

theorem RankBase.scheduleNullMessageEvent {obj : ℕ} (h : RankBase net i r) (hfresh : r.Fresh obj)
    (hj : net.Bundle i j)
    (hrange : r.simulator.m_currentTs + net.delay i j ≤ maximumSimulationTime) :
    RankBase net i (r.scheduleNullMessageEvent net i j obj) := by
  obtain ⟨ev, hs, hts, hid⟩ := scheduleNullMessageEvent_scheduled hfresh hrange
  have htuned := net.tuned_le (net.delay i j)
  refine hs.base h (by omega) (by omega) ?_ ?_
  · intro k hk
    cases hk
    exact hj
  intro k obj' hobj
  rw [hid] at hobj
  by_cases hk : k = j
  · subst hk
    rw [Function.update_self] at hobj
    cases hobj
    exact hs.new
  · rw [Function.update_of_ne hk] at hobj
    exact hs.ids h k obj' hobj

end NullMessageSimulatorImpl

end Ns3.Mpi
