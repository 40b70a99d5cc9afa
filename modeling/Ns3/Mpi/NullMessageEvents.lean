import Mathlib
import Ns3.Mpi.NullMessageTurns

/-!
# The next event under the null message algorithm

The next event takes the clock past the base of a guarantee, unless a packet is under way, or the
event is the null message event for which the guarantee waits.
-/

namespace Ns3.Mpi

open Ns3.Core

namespace NullMessageSimulatorImpl

variable {n m : ℕ} {net : NullMessageNetwork n m} {i j k : Fin n}
  {r r' : NullMessageSimulatorImpl n m} {phase : NullPhase n} {p : Fin n → ℕ} {q : ℕ} {ev : Event}
  {simulator : LocalSimulator} {c : Fin m}

theorem peekTs_of_takeEvent {s s' : LocalSimulator} (h : s.takeEvent = some (ev, s')) :
    s.peekTs = some ev.key.m_ts := by
  unfold LocalSimulator.peekTs
  rw [(LocalSimulator.takeEvent_eq h).1]
  rfl

theorem le_of_takeEvent {s s' : LocalSimulator} (h : s.takeEvent = some (ev, s')) :
    ∀ e ∈ s'.m_events.m_events, ev.key.m_ts ≤ e.key.m_ts := by
  intro e he
  refine peekTs_le (peekTs_of_takeEvent h) ⟨e, ?_, rfl⟩
  rw [(LocalSimulator.takeEvent_eq h).1]
  exact List.mem_cons_of_mem _ he

section Taken

variable (ht : r.simulator.takeEvent = some (ev, simulator))
include ht

theorem mem_of_taken {e : Event} (he : e ∈ simulator.m_events.m_events) : e ∈ r.events := by
  unfold events
  rw [(LocalSimulator.takeEvent_eq ht).1]
  exact List.mem_cons_of_mem _ he

theorem taken_mem : ev ∈ r.events := by
  unfold events
  rw [(LocalSimulator.takeEvent_eq ht).1]
  exact List.mem_cons_self

theorem RankBase.taken (h : RankBase net i r) (hsafe : ev.key.m_ts ≤ r.m_safeTime) :
    RankBase net i { r with simulator := simulator } where
  clock_le := by
    rw [(LocalSimulator.takeEvent_eq ht).2.1]
    exact hsafe
  behind e he := by
    rw [(LocalSimulator.takeEvent_eq ht).2.1]
    exact le_of_takeEvent ht e he
  safe_le := h.safe_le
  safe_max := h.safe_max
  pending_max e he := h.pending_max e (mem_of_taken ht he)
  bundled e he := h.bundled e (mem_of_taken ht he)
  ids := h.ids

theorem Live.taken (h : Live net i j r q) (hclock : r.simulator.m_currentTs ≤ ev.key.m_ts)
    (hne : r.callback ev.impl = some (.nullMessageEventHandler j) →
      r.simulator.m_cancel ev.impl = true) :
    Live net i j { r with simulator := simulator } q := by
  obtain ⟨hevents, hts, hcancelled⟩ := LocalSimulator.takeEvent_eq ht
  obtain ⟨e, he, hcallback, hcancel, hle, hq⟩ := h
  have hstored : e ∈ simulator.m_events.m_events := by
    unfold events at he
    rw [hevents] at he
    rcases List.mem_cons.mp he with rfl | he
    · rw [hne hcallback] at hcancel
      cases hcancel
    · exact he
  refine ⟨e, hstored, hcallback, ?_, ?_, hq⟩
  · rw [hcancelled]
    exact hcancel
  · rw [hts]
    exact hle.trans (Nat.add_le_add_right hclock _)

/-- What becomes of a guarantee when the clock goes to the next event. -/
theorem Owes.taken (h : Owes net i j r phase q) (hclock : r.simulator.m_currentTs ≤ ev.key.m_ts) :
    q ≤ ev.key.m_ts + net.delay i j ∨
      (Sending net i j { r with simulator := simulator } q ∧
        ∀ callback ∈ r.callback ev.impl, ¬ Concerns net i j callback) ∨
      (r.callback ev.impl = some (.nullMessageEventHandler j) ∧
        ∀ e ∈ simulator.m_events.m_events, q ≤ e.key.m_ts + net.delay i j) := by
  obtain ⟨hevents, hts, -⟩ := LocalSimulator.takeEvent_eq ht
  rcases h.cases with hpassed | ⟨-, ev₀, hev₀, hothers⟩ | ⟨hbusy, hconcerned⟩
  · exact Or.inl (hpassed.trans (Nat.add_le_add_right hclock _))
  · unfold events at hothers
    rw [hevents] at hothers
    by_cases heq : ev = ev₀
    · subst heq
      rw [List.erase_cons_head] at hothers
      exact Or.inr (Or.inr ⟨hev₀, hothers⟩)
    · rw [List.erase_cons_tail (by simpa using heq)] at hothers
      exact Or.inl (hothers ev List.mem_cons_self)
  · by_cases hev : ∃ callback ∈ r.callback ev.impl, Concerns net i j callback
    · exact Or.inl (hconcerned ev (taken_mem ht) hev)
    · refine Or.inr (Or.inl ⟨⟨hbusy, fun e he => hconcerned e (mem_of_taken ht he)⟩, ?_⟩)
      intro callback hcallback hconcerns
      exact hev ⟨callback, hcallback, hconcerns⟩

/-- Unless it is the null message event of the bundle, nothing is left to wait for. -/
theorem Owes.taken_settled (h : Owes net i j r phase q)
    (hclock : r.simulator.m_currentTs ≤ ev.key.m_ts)
    (hne : r.callback ev.impl ≠ some (.nullMessageEventHandler j)) :
    Settled net i j { r with simulator := simulator } q := by
  obtain ⟨-, hts, -⟩ := LocalSimulator.takeEvent_eq ht
  rcases h.taken ht hclock with hpassed | ⟨hsending, -⟩ | ⟨hnull, -⟩
  · left
    rw [hts]
    exact hpassed
  · exact Or.inr hsending
  · exact absurd hnull hne

/-- The guarantee for the null message: neither the clock nor another event is before the base. -/
theorem Owes.taken_null (h : Owes net i j r phase q)
    (hclock : r.simulator.m_currentTs ≤ ev.key.m_ts)
    (hnull : r.callback ev.impl = some (.nullMessageEventHandler j)) :
    ∀ e ∈ simulator.m_events.m_events, q ≤ e.key.m_ts + net.delay i j := by
  intro e he
  rcases h.taken ht hclock with hpassed | ⟨-, hnot⟩ | ⟨-, hothers⟩
  · exact hpassed.trans (Nat.add_le_add_right (le_of_takeEvent ht e he) _)
  · exact absurd rfl (hnot _ hnull)
  · exact hothers e he

/-- A cancelled event. -/
theorem RankInv.taken_cancelled (h : RankInv net i r .head p) (hsafe : ev.key.m_ts ≤ r.m_safeTime)
    (hcancelled : r.simulator.m_cancel ev.impl = true) :
    RankInv net i { r with simulator := simulator } .polling p := by
  have hclock := h.base.behind ev (taken_mem ht)
  obtain ⟨-, hts, -⟩ := LocalSimulator.takeEvent_eq ht
  refine ⟨h.base.taken ht hsafe, .polling,
    fun j hj => ⟨⟨(h.peer j hj).owes.ahead, ?_⟩, fun _ => ?_, ?_⟩⟩
  · rcases (h.peer j hj).owes.taken ht hclock with hpassed | ⟨hsending, -⟩ | ⟨hnull, hothers⟩
    · left
      rw [hts]
      exact hpassed
    · exact Or.inr (Or.inr hsending)
    · refine Or.inr (Or.inl ⟨rfl, ev, hnull, fun e he => hothers e ?_⟩)
      exact List.mem_of_mem_erase he
  · exact ((h.peer j hj).live trivial).taken ht hclock fun _ => hcancelled
  · intro he
    cases he

/-- An event of the program, or the end of a packet. -/
theorem RankInv.taken_event (h : RankInv net i r .head p) (hsafe : ev.key.m_ts ≤ r.m_safeTime)
    (hne : ∀ j, r.callback ev.impl ≠ some (.nullMessageEventHandler j)) :
    RankInv net i { r with simulator := simulator } .invocation p := by
  have hclock := h.base.behind ev (taken_mem ht)
  refine ⟨h.base.taken ht hsafe, h.place.invocation (by simp) rfl rfl,
    fun j hj => ⟨?_, fun _ => ?_, ?_⟩⟩
  · exact ((h.peer j hj).owes.taken_settled ht hclock (hne j)).owes (h.peer j hj).owes.ahead _
  · exact ((h.peer j hj).live trivial).taken ht hclock fun hnull => absurd hnull (hne j)
  · intro he
    cases he

/-- `TransmitComplete`: when the packet was to `j`, the clock has passed the base of `j`'s
guarantee. -/
theorem RankInv.taken_transmitComplete (h : RankInv net i r .head p)
    (hsafe : ev.key.m_ts ≤ r.m_safeTime) (hc : r.callback ev.impl = some (.transmitComplete c)) :
    RankInv net i
      { r with simulator := simulator, busy := Function.update r.busy c false } .invocation p := by
  have hclock := h.base.behind ev (taken_mem ht)
  obtain ⟨-, hts, -⟩ := LocalSimulator.takeEvent_eq ht
  have hinv := h.taken_event ht hsafe fun j hnull => by
    rw [hc] at hnull
    cases hnull
  refine ⟨⟨hinv.base.clock_le, hinv.base.behind, hinv.base.safe_le, hinv.base.safe_max,
    hinv.base.pending_max, hinv.base.bundled, hinv.base.ids⟩,
    ⟨hinv.place.early, hinv.place.tight, hinv.place.waits⟩, ?_⟩
  intro j hj
  refine ⟨⟨(hinv.peer j hj).owes.ahead, ?_⟩, (hinv.peer j hj).live, (hinv.peer j hj).early⟩
  rcases (h.peer j hj).owes.taken ht hclock with hpassed | ⟨⟨hbusy, hconcerned⟩, hnot⟩ | ⟨hnull, -⟩
  · left
    rw [hts]
    exact hpassed
  · refine Or.inr (Or.inr ⟨fun c' hc' => ?_, hconcerned⟩)
    have hne : c' ≠ c := by
      rintro rfl
      exact hnot _ hc hc'
    exact (Function.update_of_ne hne _ _).trans (hbusy c' hc')
  · rw [hc] at hnull
    cases hnull

/-- `NullMessageEventHandler`. -/
theorem RankInv.taken_null {obj : ℕ} {msg : NullMessage} (h : RankInv net i r .head p)
    (hsafe : ev.key.m_ts ≤ r.m_safeTime)
    (hnull : r.callback ev.impl = some (.nullMessageEventHandler k))
    (hfresh : r.Fresh obj) (hrange : r.InRange net i)
    (hh : { r with simulator := simulator }.nullMessageEventHandler net i k obj = some (r', msg)) :
    Gave net i k r r' .polling p msg ∧ net.Bundle i k := by
  have hclock := h.base.behind ev (taken_mem ht)
  have hk := h.base.bundled ev (taken_mem ht) k hnull
  obtain ⟨-, hts, hcancelled⟩ := LocalSimulator.takeEvent_eq ht
  obtain ⟨time, htime, heq⟩ := Option.bind_eq_some_iff.mp hh
  obtain ⟨next, hnext, rfl⟩ := calculateGuaranteeTime_eq htime
  cases heq
  have hbase := h.base.taken ht hsafe
  have hfresh' : Fresh { r with simulator := simulator } obj := by
    refine ⟨hfresh.1, ?_, fun e he => hfresh.2.2 e (mem_of_taken ht he)⟩
    rw [hcancelled]
    exact hfresh.2.1
  have hrange' : simulator.m_currentTs + net.delay i k ≤ maximumSimulationTime := by
    rw [hts]
    exact (Nat.add_le_add_right hsafe _).trans (hrange k hk)
  obtain ⟨new, hs, hnewts, -⟩ := scheduleNullMessageEvent_scheduled hfresh' hrange'
  have htuned := net.tuned_le (net.delay i k)
  have hclocknext := hbase.le_peekTs hnext
  have hclocksafe := hbase.clock_le
  have hgiven : p k ≤ min next r.m_safeTime + net.delay i k := by
    obtain ⟨e, he, hnexte⟩ := peekTs_pending hnext
    have hnext' := (h.peer k hk).owes.taken_null ht hclock hnull e he
    have hahead := (h.peer k hk).owes.ahead
    omega
  refine ⟨⟨⟨hbase.scheduleNullMessageEvent hfresh' hk hrange', .polling, fun j hj => ?_⟩, rfl,
    hgiven, Or.inl rfl⟩, hk⟩
  by_cases hjk : j = k
  · subst hjk
    rw [Function.update_self]
    refine ⟨⟨Nat.add_le_add_right (min_le_right _ _) _, Or.inr (Or.inl ⟨rfl, new, hs.new, ?_⟩)⟩,
      fun _ => hs.live_new ?_ ?_, fun he => ?_⟩
    · intro e he
      have hperm := hs.added.events.erase new
      rw [List.erase_cons_head] at hperm
      have hle : next ≤ e.key.m_ts := peekTs_le hnext ⟨e, hperm.mem_iff.mp he, rfl⟩
      exact Nat.add_le_add_right ((min_le_left _ _).trans hle) _
    · exact hnewts.le
    · change new.key.m_ts ≤ min next r.m_safeTime + net.delay i j
      change new.key.m_ts = simulator.m_currentTs + _ at hnewts
      change simulator.m_currentTs ≤ next at hclocknext
      change simulator.m_currentTs ≤ r.m_safeTime at hclocksafe
      omega
    · cases he
  · rw [Function.update_of_ne hjk]
    have hne : r.callback ev.impl ≠ some (.nullMessageEventHandler j) := by
      intro hj'
      rw [hnull] at hj'
      cases hj'
      exact hjk rfl
    have hsettled := (h.peer j hj).owes.taken_settled ht hclock hne
    refine ⟨(hs.settled hsettled fun hkj => hjk hkj.symm).owes (h.peer j hj).owes.ahead _,
      fun _ => ?_, fun he => ?_⟩
    · exact hs.live (((h.peer j hj).live trivial).taken ht hclock fun hj' => absurd hj' hne)
    · cases he

end Taken

end NullMessageSimulatorImpl

end Ns3.Mpi
