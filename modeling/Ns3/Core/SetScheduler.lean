import Mathlib
import Ns3.Core.SimulatorRun
import Ns3.Core.SchedulerAgreement

/-!
# Changing the scheduler

`SetScheduler` moves the events of the simulator from its scheduler to a new one. What the simulator
does afterwards is what it would have done with the old one.
-/

namespace Ns3.Core

open Scheduler

variable {σ τ : Type} [KeyScheduler σ] [KeyScheduler τ]

/-- The loop of `SetScheduler`; `none` means more than `n` turns. -/
def moveEvents (n : ℕ) (m_events : σ) (scheduler : τ) : Option τ :=
  if KeyScheduler.isEmpty m_events then some scheduler
  else
    match n with
    | 0 => none
    | n + 1 => do
      let (next, m_events) ← KeyScheduler.removeNext m_events
      moveEvents n m_events (KeyScheduler.insert scheduler next)

theorem moveEvents_stored {n : ℕ} (m_events : σ) (scheduler : τ)
    (hd : DistinctUids (KeyScheduler.stored m_events + KeyScheduler.stored scheduler))
    (hn : (KeyScheduler.stored m_events).card ≤ n) :
    ∃ scheduler', moveEvents n m_events scheduler = some scheduler' ∧
      KeyScheduler.stored scheduler' =
        KeyScheduler.stored m_events + KeyScheduler.stored scheduler := by
  induction n generalizing m_events scheduler with
  | zero =>
    have h0 : KeyScheduler.stored m_events = 0 := Multiset.card_eq_zero.mp (by omega)
    refine ⟨scheduler, ?_, by rw [h0, zero_add]⟩
    rw [moveEvents, if_pos ((KeyScheduler.isEmpty_iff m_events).mpr h0)]
  | succ n ih =>
    unfold moveEvents
    split
    · next hempty =>
      have h0 := (KeyScheduler.isEmpty_iff m_events).mp hempty
      exact ⟨scheduler, rfl, by rw [h0, zero_add]⟩
    · next hempty =>
      have hne : KeyScheduler.stored m_events ≠ 0 :=
        mt (KeyScheduler.isEmpty_iff m_events).mpr hempty
      obtain ⟨next, rest, hnext, -, hstored⟩ := KeyScheduler.removeNext_isNext m_events
        (hd.mono (Multiset.le_add_right _ _)) hne
      have hfresh : Legal (KeyScheduler.stored scheduler) (.insert next) := by
        intro x hx heq
        rw [← hstored, Multiset.cons_add] at hd
        unfold DistinctUids at hd
        rw [Multiset.map_cons, Multiset.nodup_cons] at hd
        exact hd.1 (Multiset.mem_map.mpr ⟨x, Multiset.mem_add.mpr (Or.inr hx), heq⟩)
      have hins := KeyScheduler.stored_insert scheduler next hfresh
      have hsum :
          KeyScheduler.stored rest + KeyScheduler.stored (KeyScheduler.insert scheduler next)
          = KeyScheduler.stored m_events + KeyScheduler.stored scheduler := by
        rw [hins, ← hstored, Multiset.add_cons, Multiset.cons_add]
      have hcard : (KeyScheduler.stored rest).card + 1 = (KeyScheduler.stored m_events).card := by
        rw [← hstored, Multiset.card_cons]
      obtain ⟨scheduler', hmove, hstored'⟩ := ih rest _ (hsum ▸ hd) (by omega)
      refine ⟨scheduler', ?_, hstored'.trans hsum⟩
      simp only [hnext, Option.bind_eq_bind, Option.bind_some]
      exact hmove

/-- The simulator with another scheduler. -/
def DefaultSimulatorImpl.withEvents (s : DefaultSimulatorImpl σ) (m_events : τ) :
    DefaultSimulatorImpl τ where
  m_eventsWithContext := s.m_eventsWithContext
  m_destroyEvents := s.m_destroyEvents
  m_stop := s.m_stop
  m_events := m_events
  m_uid := s.m_uid
  m_currentUid := s.m_currentUid
  m_currentTs := s.m_currentTs
  m_currentContext := s.m_currentContext
  m_eventCount := s.m_eventCount
  m_unscheduledEvents := s.m_unscheduledEvents
  m_cancel := s.m_cancel

/-- `SetScheduler`; the new scheduler is an empty one. -/
def DefaultSimulatorImpl.setScheduler (τ : Type) [KeyScheduler τ] (s : DefaultSimulatorImpl σ) :
    Option (DefaultSimulatorImpl τ) :=
  (moveEvents (KeyScheduler.stored s.m_events).card s.m_events KeyScheduler.empty).map s.withEvents

namespace SimulatorSystem

/-- The system with another scheduler. -/
def withEvents (s : SimulatorSystem σ) (m_events : τ) : SimulatorSystem τ where
  impl := s.impl.withEvents m_events
  phase := s.phase
  scheduled := s.scheduled
  turns := s.turns
  invoked := s.invoked
  removed := s.removed
  cancelled := s.cancelled

/-- The two systems differ in the scheduler only, which stores the same events. -/
def Alike (s : SimulatorSystem σ) (t : SimulatorSystem τ) : Prop :=
  ∃ m_events : τ, t = s.withEvents m_events ∧ KeyScheduler.stored m_events = s.stored

variable {s s' : SimulatorSystem σ} {t : SimulatorSystem τ}

/-! ## Calls -/

theorem alike_insertEvent (h : Inv s) (ha : Alike s t) (ts context event : ℕ) :
    Alike (s.noteScheduled (s.impl.insertEvent ts context event))
      (t.noteScheduled (t.impl.insertEvent ts context event)) := by
  obtain ⟨m_events, rfl, hstored⟩ := ha
  refine ⟨KeyScheduler.insert m_events ⟨event, ⟨ts, s.impl.m_uid, context⟩⟩, rfl, ?_⟩
  have hfresh : Legal s.stored (.insert ⟨event, ⟨ts, s.impl.m_uid, context⟩⟩) := fun x hx =>
    (h.uid_bounds x (h.stored_mem hx)).2.ne
  have hs := KeyScheduler.stored_insert s.impl.m_events _ hfresh
  rw [KeyScheduler.stored_insert m_events _ (by rw [hstored]; exact hfresh), hstored]
  exact hs.symm

omit [KeyScheduler σ] [KeyScheduler τ] in
theorem cancel_withEvents (s : DefaultSimulatorImpl σ) (m_events : τ) (id : EventId) :
    (s.withEvents m_events).cancel id = (s.cancel id).withEvents m_events ∧
      (s.cancel id).m_events = s.m_events := by
  have he : (s.withEvents m_events).isExpired id = s.isExpired id := rfl
  unfold DefaultSimulatorImpl.cancel
  rw [he]
  split
  · exact ⟨rfl, rfl⟩
  · cases id.m_eventImpl with
    | none => exact ⟨rfl, rfl⟩
    | some impl => exact ⟨rfl, rfl⟩

theorem alike_cancel (ha : Alike s t) (id : EventId) :
    Alike (s.call (.cancel id)) (t.call (.cancel id)) := by
  obtain ⟨m_events, rfl, hstored⟩ := ha
  obtain ⟨hcancel, hevents⟩ := cancel_withEvents s.impl m_events id
  have hkeep : (s.call (.cancel id)).stored = s.stored := by
    unfold stored
    cases hid : id.m_eventImpl with
    | none => simp only [SimulatorSystem.call, hid, hevents]
    | some impl => simp only [SimulatorSystem.call, hid, hevents]
  refine ⟨m_events, ?_, hstored.trans hkeep.symm⟩
  have himpl : (s.withEvents m_events).impl.cancel id = (s.impl.cancel id).withEvents m_events :=
    hcancel
  cases hid : id.m_eventImpl with
  | none =>
    simp only [SimulatorSystem.call, hid, himpl]
    rfl
  | some impl =>
    simp only [SimulatorSystem.call, hid, himpl]
    rfl

/-- An id that is not expired is that of a stored event. -/
theorem Inv.mem_stored_of_id (h : Inv s) {id : EventId} (hk : s.Known (.call (.remove id)))
    (hu : id.m_uid ≠ EventId.destroy) (he : s.impl.isExpired id ≠ true) :
    ∃ ev ∈ s.stored, id = ev.id := by
  have hid : id.m_eventImpl ≠ none := fun hid => he (isExpired_none hid)
  obtain ⟨ev, hev, rfl⟩ := (hk.resolve_left hid).resolve_left hu
  rw [Ne, h.isExpired_iff hev, not_or] at he
  refine ⟨ev, ?_, rfl⟩
  rcases h.mem_scheduled_iff.mp hev with hs | ht | hr
  · exact hs
  · exact absurd ht he.1
  · exact absurd (h.removed_cancelled ev hr) he.2

theorem remove_withEvents (h : Inv s) {id : EventId} (hk : s.Known (.call (.remove id)))
    {m_events : τ} (hstored : KeyScheduler.stored m_events = s.stored) :
    ∃ rest : τ, (s.impl.withEvents m_events).remove id = (s.impl.remove id).withEvents rest ∧
      KeyScheduler.stored rest = KeyScheduler.stored (s.impl.remove id).m_events := by
  have hexp : (s.impl.withEvents m_events).isExpired id = s.impl.isExpired id := rfl
  unfold DefaultSimulatorImpl.remove
  rw [hexp]
  split
  · exact ⟨m_events, rfl, hstored⟩
  · next hu =>
    split
    · exact ⟨m_events, rfl, hstored⟩
    · next he =>
      obtain ⟨ev, hev, rfl⟩ := h.mem_stored_of_id hk hu he
      refine ⟨KeyScheduler.remove m_events ev, rfl, ?_⟩
      have hs := KeyScheduler.stored_remove s.impl.m_events ev h.distinctUids hev
      have ht := KeyScheduler.stored_remove m_events ev (hstored ▸ h.distinctUids)
        (by rw [hstored]; exact hev)
      refine (Multiset.cons_inj_right ev).mp ?_
      rw [ht, hstored]
      exact hs.symm

theorem alike_remove (h : Inv s) (ha : Alike s t) {id : EventId}
    (hk : s.Known (.call (.remove id))) :
    Alike (s.call (.remove id)) (t.call (.remove id)) := by
  obtain ⟨m_events, rfl, hstored⟩ := ha
  obtain ⟨rest, hrest, heq⟩ := remove_withEvents h hk hstored
  have himpl : (s.withEvents m_events).impl.remove id = (s.impl.remove id).withEvents rest := hrest
  have hahead : ∀ impl, (s.withEvents m_events).Ahead id impl ↔ s.Ahead id impl :=
    fun _ => Iff.rfl
  have hs : (s.call (.remove id)).impl = s.impl.remove id := by
    cases hid : id.m_eventImpl with
    | none => simp only [SimulatorSystem.call, hid]
    | some impl =>
      simp only [SimulatorSystem.call, hid]
      split <;> rfl
  refine ⟨rest, ?_, ?_⟩
  · cases hid : id.m_eventImpl with
    | none =>
      simp only [SimulatorSystem.call, hid, himpl]
      rfl
    | some impl =>
      simp only [SimulatorSystem.call, hid, himpl, hahead]
      split <;> rfl
  · rw [heq, stored, hs]

theorem alike_call (h : Inv s) (ha : Alike s t) {a : Action} (hk : s.Known (.call a)) :
    Alike (s.call a) (t.call a) := by
  cases a with
  | schedule delay event =>
    obtain ⟨m_events, rfl, hstored⟩ := ha
    exact alike_insertEvent h ⟨m_events, rfl, hstored⟩ _ _ event
  | scheduleNow event =>
    obtain ⟨m_events, rfl, hstored⟩ := ha
    exact alike_insertEvent h ⟨m_events, rfl, hstored⟩ _ _ event
  | scheduleWithContext context delay event =>
    obtain ⟨m_events, rfl, hstored⟩ := ha
    exact alike_insertEvent h ⟨m_events, rfl, hstored⟩ _ context event
  | scheduleDestroy event =>
    obtain ⟨m_events, rfl, hstored⟩ := ha
    exact ⟨m_events, rfl, hstored⟩
  | cancel id => exact alike_cancel ha id
  | remove id => exact alike_remove h ha hk
  | stop =>
    obtain ⟨m_events, rfl, hstored⟩ := ha
    exact ⟨m_events, rfl, hstored⟩

/-! ## Steps -/

theorem Alike.goesOn (ha : Alike s t) : t.impl.goesOn = s.impl.goesOn := by
  obtain ⟨m_events, rfl, hstored⟩ := ha
  have hempty : KeyScheduler.isEmpty m_events = KeyScheduler.isEmpty s.impl.m_events := by
    rw [Bool.eq_iff_iff, KeyScheduler.isEmpty_iff, KeyScheduler.isEmpty_iff, hstored, stored]
  change (!KeyScheduler.isEmpty m_events && !s.impl.m_stop) = _
  rw [hempty]
  rfl

theorem Alike.takeEvent (h : Inv s) (ha : Alike s t) (hgo : s.impl.goesOn = true) {next : Event}
    {impl : DefaultSimulatorImpl σ} (hs : s.impl.takeEvent = some (next, impl)) :
    ∃ rest : τ, t.impl.takeEvent = some (next, impl.withEvents rest) ∧
      KeyScheduler.stored rest = KeyScheduler.stored impl.m_events := by
  obtain ⟨m_events, rfl, hstored⟩ := ha
  have hne : s.stored ≠ 0 := by
    intro h0
    unfold DefaultSimulatorImpl.goesOn at hgo
    rw [(KeyScheduler.isEmpty_iff s.impl.m_events).mpr h0] at hgo
    cases hgo
  obtain ⟨x, xs, hx, hnext, hxs⟩ :=
    KeyScheduler.removeNext_isNext s.impl.m_events h.distinctUids hne
  obtain ⟨y, ys, hy, hnext', hys⟩ :=
    KeyScheduler.removeNext_isNext m_events (hstored ▸ h.distinctUids) (by rw [hstored]; exact hne)
  -- both schedulers store the same events, so they have the same next one
  rw [hstored] at hnext' hys
  have hxy := hnext.eq hnext'
  subst hxy
  unfold DefaultSimulatorImpl.takeEvent at hs
  rw [hx] at hs
  cases hs
  refine ⟨ys, ?_, ?_⟩
  · change (KeyScheduler.removeNext m_events).bind _ = _
    rw [hy]
    rfl
  · refine (Multiset.cons_inj_right next).mp ?_
    rw [hys]
    exact hxs.symm

theorem Alike.processEventsWithContext (h : Inv s) (ha : Alike s t) :
    t.impl.processEventsWithContext = t.impl := by
  obtain ⟨m_events, rfl, -⟩ := ha
  have hp := h.pending
  have hp' : (s.impl.withEvents m_events).m_eventsWithContext = [] := hp
  change (s.impl.withEvents m_events).processEventsWithContext = s.impl.withEvents m_events
  unfold DefaultSimulatorImpl.processEventsWithContext
  rw [hp']
  change { s.impl.withEvents m_events with m_eventsWithContext := [] } = s.impl.withEvents m_events
  rw [← hp']

/-- A step of one of two alike systems is a step of the other, and they stay alike. -/
theorem Alike.step (h : Inv s) (ha : Alike s t) {r : SimulatorStep} (hk : s.Known r)
    (hs : s.step r = some s') : ∃ t', t.step r = some t' ∧ Alike s' t' := by
  have hphase : t.phase = s.phase := by
    obtain ⟨m_events, rfl, -⟩ := ha
    rfl
  cases r with
  | call a =>
    dsimp only [SimulatorSystem.step] at hs ⊢
    rw [hphase]
    split at hs
    · next hc =>
      cases hs
      exact ⟨t.call a, if_pos hc, alike_call h ha hk⟩
    · cases hs
  | run =>
    dsimp only [SimulatorSystem.step] at hs ⊢
    rw [hphase, ha.processEventsWithContext h]
    rw [h.processEventsWithContext] at hs
    split at hs
    · next hc =>
      cases hs
      obtain ⟨m_events, rfl, hstored⟩ := ha
      exact ⟨_, if_pos hc, m_events, rfl, hstored⟩
    · cases hs
  | processOneEvent =>
    dsimp only [SimulatorSystem.step] at hs ⊢
    rw [hphase, ha.goesOn]
    split at hs
    · next hc =>
      obtain ⟨⟨next, impl⟩, ht, heq⟩ := Option.bind_eq_some_iff.mp hs
      obtain ⟨rest, ht', hrest⟩ := ha.takeEvent h hc.2 ht
      cases heq
      obtain ⟨m_events, rfl, hstored⟩ := ha
      rw [if_pos hc, ht']
      exact ⟨_, rfl, rest, rfl, hrest⟩
    · cases hs
  | finishEvent =>
    dsimp only [SimulatorSystem.step] at hs ⊢
    rw [hphase, ha.processEventsWithContext h]
    rw [h.processEventsWithContext] at hs
    cases hph : s.phase with
    | outside => simp only [hph] at hs; cases hs
    | loop => simp only [hph] at hs; cases hs
    | invocation notified =>
      simp only [hph] at hs ⊢
      cases hs
      obtain ⟨m_events, rfl, hstored⟩ := ha
      exact ⟨_, rfl, m_events, rfl, hstored⟩
  | leave =>
    dsimp only [SimulatorSystem.step] at hs ⊢
    rw [hphase, ha.goesOn]
    split at hs
    · next hc =>
      cases hs
      obtain ⟨m_events, rfl, hstored⟩ := ha
      exact ⟨_, if_pos hc, m_events, rfl, hstored⟩
    · cases hs

theorem Alike.known (ha : Alike s t) (r : SimulatorStep) : t.Known r ↔ s.Known r := by
  obtain ⟨m_events, rfl, -⟩ := ha
  exact Iff.rfl

theorem Alike.fits (ha : Alike s t) (r : SimulatorStep) : t.Fits r ↔ s.Fits r := by
  obtain ⟨m_events, rfl, hstored⟩ := ha
  have hroom : (s.withEvents m_events).Room ↔ s.Room := by
    unfold Room
    change _ ∧ (KeyScheduler.stored m_events).card + 1 < 2 ^ 31 ↔ _
    rw [hstored]
    exact Iff.rfl
  cases r with
  | call a =>
    cases a with
    | schedule delay event => exact and_congr_left fun _ => hroom
    | scheduleNow event => exact hroom
    | scheduleWithContext context delay event => exact and_congr_left fun _ => hroom
    | scheduleDestroy event => exact Iff.rfl
    | cancel id => exact Iff.rfl
    | remove id => exact Iff.rfl
    | stop => exact Iff.rfl
  | run => exact Iff.rfl
  | processOneEvent => exact Iff.rfl
  | finishEvent => exact Iff.rfl
  | leave => exact Iff.rfl

theorem Alike.steps (h : Inv s) (ha : Alike s t) {rs : List SimulatorStep}
    (hs : s.steps Fits rs = some s') : ∃ t', t.steps Fits rs = some t' ∧ Alike s' t' := by
  induction rs generalizing s t with
  | nil =>
    cases hs
    exact ⟨t, rfl, ha⟩
  | cons r rs ih =>
    unfold SimulatorSystem.steps at hs ⊢
    split at hs
    · next hc =>
      rw [if_pos ⟨(ha.known r).mpr hc.1, (ha.fits r).mpr hc.2⟩]
      split at hs
      · next s₁ hstep =>
        obtain ⟨t₁, hstep', ha'⟩ := ha.step h hc.1 hstep
        rw [hstep']
        exact ih (h.step hc.1 hc.2 hstep) ha' hs
      · cases hs
    · cases hs

/-! ## The main result -/

/-- `SetScheduler` in any state of a run, to any scheduler that returns the smallest key: every
continuation of the run is one with the new scheduler, with the same clock, the same events invoked
in the same order, and the same events stored. -/
theorem continues_alike (h : Run Fits s) {rs : List SimulatorStep}
    (hs : s.steps Fits rs = some s') :
    ∃ impl : DefaultSimulatorImpl τ, s.impl.setScheduler τ = some impl ∧
      ∃ t' : SimulatorSystem τ,
        SimulatorSystem.steps Fits ⟨impl, s.phase, s.scheduled, s.turns, s.invoked, s.removed,
          s.cancelled⟩ rs = some t' ∧
        t'.turns = s'.turns ∧ t'.invoked = s'.invoked ∧ t'.scheduled = s'.scheduled ∧
        t'.removed = s'.removed ∧ t'.impl = s'.impl.withEvents t'.impl.m_events ∧
        KeyScheduler.stored t'.impl.m_events = s'.stored := by
  have hinv := h.inv
  have h0 : KeyScheduler.stored (KeyScheduler.empty : τ) = 0 := KeyScheduler.stored_empty
  obtain ⟨m_events, hmove, hstored⟩ := moveEvents_stored s.impl.m_events (KeyScheduler.empty : τ)
    (by rw [h0, add_zero]; exact hinv.distinctUids) le_rfl
  rw [h0, add_zero] at hstored
  refine ⟨s.impl.withEvents m_events, ?_, ?_⟩
  · unfold DefaultSimulatorImpl.setScheduler
    rw [hmove]
    rfl
  · obtain ⟨t', ht', rest, rfl, hrest⟩ :=
      Alike.steps hinv (t := s.withEvents m_events) ⟨m_events, rfl, hstored⟩ hs
    exact ⟨_, ht', rfl, rfl, rfl, rfl, rfl, hrest⟩

/-- The change to a map in the middle of a run. -/
theorem continues_alike_cancelling :
    ∃ s : SimulatorSystem ListScheduler, new.steps Fits (cancelling.take 6) = some s ∧
      ∃ impl : DefaultSimulatorImpl MapScheduler, s.impl.setScheduler MapScheduler = some impl ∧
        ∃ t' : SimulatorSystem MapScheduler,
          SimulatorSystem.steps Fits ⟨impl, s.phase, s.scheduled, s.turns, s.invoked, s.removed,
            s.cancelled⟩ (cancelling.drop 6) = some t' ∧
          t'.invoked.map Event.impl = [3, 2, 4] := by
  have hrun : ((new.steps Fits (cancelling.take 6)).bind fun s =>
      (s.steps Fits (cancelling.drop 6)).map fun s' => s'.invoked.map Event.impl) =
        some [3, 2, 4] := by
    decide
  obtain ⟨s, hs, hrest⟩ := Option.bind_eq_some_iff.mp hrun
  obtain ⟨s', hs', hinvoked⟩ := Option.map_eq_some_iff.mp hrest
  obtain ⟨impl, himpl, t', ht', -, heq, -⟩ :=
    continues_alike (τ := MapScheduler) (Run.start.steps hs) hs'
  exact ⟨s, hs, impl, himpl, t', ht', heq ▸ hinvoked⟩

end SimulatorSystem

end Ns3.Core
