import Mathlib
import Ns3.Mpi.NullMessageRank

/-!
# The turns of a rank under the null message algorithm

Each thing that a rank does keeps the guarantees that it gave, and a new guarantee is not before the
one that it replaces.
-/

namespace Ns3.Mpi

open Ns3.Core

namespace NullMessageNetwork

variable {n m : ℕ} {net : NullMessageNetwork n m} {i j : Fin n} {c : Fin m}

theorem foldl_delay_le (l : List (Fin m)) (b : ℕ) :
    let d := l.foldl
      (fun m_delay c => if net.Joins c i j then min m_delay (net.channels c).delay else m_delay) b
    d ≤ b ∧ ∀ c ∈ l, net.Joins c i j → d ≤ (net.channels c).delay := by
  induction l generalizing b with
  | nil => exact ⟨le_rfl, fun _ h => absurd h List.not_mem_nil⟩
  | cons a l ih =>
    rw [List.foldl_cons]
    obtain ⟨hle, hmem⟩ := ih (if net.Joins a i j then min b (net.channels a).delay else b)
    refine ⟨hle.trans (by split <;> omega), ?_⟩
    intro c hc hjoins
    rcases List.mem_cons.mp hc with rfl | hc
    · refine hle.trans ?_
      rw [if_pos hjoins]
      exact min_le_right _ _
    · exact hmem c hc hjoins

/-- The delay of a bundle is the smallest one of its channels. -/
theorem delay_le (h : net.Joins c i j) : net.delay i j ≤ (net.channels c).delay :=
  (foldl_delay_le _ _).2 c (List.mem_finRange c) h

theorem mem_bundles : j ∈ net.bundles i ↔ net.Bundle i j := by
  unfold bundles
  rw [List.mem_filter]
  simp

/-- A channel joins both ranks to each other. -/
theorem Joins.symm (h : net.Joins c i j) : net.Joins c j i := by
  obtain ⟨hleaves, rfl⟩ := h
  refine ⟨Network.leaves_remote hleaves, ?_⟩
  obtain ⟨hne, h₀ | h₁⟩ := hleaves
  · unfold RemoteChannel.remote
    rw [if_pos h₀, if_neg hne, h₀]
  · have h₀ : (net.channels c).rank₀ ≠ i := fun h₀ => hne (h₀.trans h₁.symm)
    unfold RemoteChannel.remote
    rw [if_neg h₀, if_pos rfl, h₁]

theorem Bundle.symm (h : net.Bundle i j) : net.Bundle j i := by
  obtain ⟨c, hc⟩ := h
  exact ⟨c, hc.symm⟩

end NullMessageNetwork

namespace NullMessageSimulatorImpl

variable {n m : ℕ} {net : NullMessageNetwork n m} {i j : Fin n}
  {r r' : NullMessageSimulatorImpl n m}
  {phase phase' : NullPhase n} {p : Fin n → ℕ} {q : ℕ} {ev : Event} {callback : Callback n m}
  {simulator : LocalSimulator}

/-! ## Another phase -/

theorem PeerInv.move (h : PeerInv net i j r phase q)
    (hcalls : phase'.calls = true → phase.calls = true)
    (hinit : phase.Initialized j) (hearly : phase'.early = false) : PeerInv net i j r phase' q where
  owes := by
    refine ⟨h.owes.ahead, ?_⟩
    rcases h.owes.cases with hpassed | ⟨hnot, hquiet⟩ | hsending
    · exact Or.inl hpassed
    · refine Or.inr (Or.inl ⟨?_, hquiet⟩)
      rw [← Bool.not_eq_true]
      intro hc
      rw [hcalls hc] at hnot
      cases hnot
    · exact Or.inr (Or.inr hsending)
  live _ := h.live hinit
  early he := by
    rw [hearly] at he
    cases he

/-- The rank goes on in another phase of the loop. -/
theorem RankInv.move (h : RankInv net i r phase p)
    (hcalls : phase'.calls = true → phase.calls = true)
    (hinit : ∀ j, phase.Initialized j) (hearly : phase'.early = false)
    (hplace : PhaseInv net i r phase') : RankInv net i r phase' p where
  base := h.base
  place := hplace
  peer j hj := (h.peer j hj).move hcalls (hinit j) hearly

theorem PhaseInv.move (h : PhaseInv net i r phase) (hpoll : phase ≠ .polling)
    (hearly : phase'.early = false) (hwaits : phase' ≠ .waiting) : PhaseInv net i r phase' where
  early he := by
    rw [hearly] at he
    cases he
  tight _ := h.tight hpoll
  waits hw := absurd hw hwaits

theorem PhaseInv.invocation (h : PhaseInv net i r phase) (hpoll : phase ≠ .polling)
    (hsafe : r'.m_safeTime = r.m_safeTime) (hguarantee : r'.m_guaranteeTime = r.m_guaranteeTime) :
    PhaseInv net i r' .invocation where
  early he := by cases he
  tight _ := by
    rw [hsafe, hguarantee]
    exact h.tight hpoll
  waits hw := by cases hw

theorem PhaseInv.polling : PhaseInv net i r .polling where
  early he := by cases he
  tight hp := absurd rfl hp
  waits hw := by cases hw

/-! ## The safe time -/

theorem foldl_guarantee (l : List (Fin n)) (b : ℕ) :
    let t := l.foldl (fun safeTime j => min safeTime (r.m_guaranteeTime j)) b
    t ≤ b ∧ (∀ j ∈ l, t ≤ r.m_guaranteeTime j) ∧
      (∀ a, a ≤ b → (∀ j ∈ l, a ≤ r.m_guaranteeTime j) → a ≤ t) ∧
      (t < b → ∃ j ∈ l, t = r.m_guaranteeTime j) := by
  induction l generalizing b with
  | nil =>
    refine ⟨le_rfl, ?_, fun _ h _ => h, fun h => absurd h (lt_irrefl _)⟩
    intro _ h
    exact absurd h List.not_mem_nil
  | cons k l ih =>
    rw [List.foldl_cons]
    obtain ⟨hle, hmem, hleast, hattained⟩ := ih (min b (r.m_guaranteeTime k))
    refine ⟨hle.trans (min_le_left _ _), ?_, ?_, ?_⟩
    · intro j hj
      rcases List.mem_cons.mp hj with rfl | hj
      · exact hle.trans (min_le_right _ _)
      · exact hmem j hj
    · intro a ha hall
      obtain ⟨hk, hl⟩ := List.forall_mem_cons.mp hall
      exact hleast a (le_min ha hk) hl
    · intro hlt
      rcases hle.lt_or_eq with hlt' | heq
      · obtain ⟨j, hj, ht⟩ := hattained hlt'
        exact ⟨j, List.mem_cons_of_mem _ hj, ht⟩
      · have hmin : min b (r.m_guaranteeTime k) < b := heq ▸ hlt
        have hk : r.m_guaranteeTime k ≤ b := (lt_of_not_ge fun hb => hmin.ne (min_eq_left hb)).le
        exact ⟨k, List.mem_cons_self, heq.trans (min_eq_right hk)⟩

theorem getSafeTime_le_guarantee (h : net.Bundle i j) : r.getSafeTime net i ≤ r.m_guaranteeTime j :=
  (foldl_guarantee _ _).2.1 j (NullMessageNetwork.mem_bundles.mpr h)

/-- The safe time does not go back. -/
theorem RankBase.le_getSafeTime (h : RankBase net i r) : r.m_safeTime ≤ r.getSafeTime net i := by
  refine (foldl_guarantee _ _).2.2.1 _ h.safe_max ?_
  intro j hj
  exact h.safe_le j (NullMessageNetwork.mem_bundles.mp hj)

theorem RankBase.calculateSafeTime (h : RankBase net i r) :
    RankBase net i (r.calculateSafeTime net i) where
  clock_le := h.clock_le.trans h.le_getSafeTime
  behind := h.behind
  safe_le _ hj := getSafeTime_le_guarantee hj
  safe_max := (foldl_guarantee _ _).1
  pending_max := h.pending_max
  bundled := h.bundled
  ids := h.ids

/-- The end of a poll. -/
theorem RankInv.calculateSafeTime (h : RankInv net i r .polling p) :
    RankInv net i (r.calculateSafeTime net i) .head p where
  base := h.base.calculateSafeTime
  place := by
    refine ⟨fun he => ?_, ?_, fun hw => ?_⟩
    · cases he
    · intro _ _ _ hlt
      obtain ⟨k, hk, heq⟩ := (foldl_guarantee _ _).2.2.2 hlt
      exact ⟨k, NullMessageNetwork.mem_bundles.mp hk, heq⟩
    · cases hw
  peer j hj := by
    obtain ⟨howes, hlive, -⟩ := h.peer j hj
    refine ⟨⟨?_, howes.cases⟩, hlive, fun he => ?_⟩
    · exact howes.ahead.trans (Nat.add_le_add_right h.base.le_getSafeTime _)
    · cases he

/-! ## The first null messages -/

theorem PeerInv.of_early (hsafe : q ≤ net.delay i j)
    (hlive : phase.Initialized j → Live net i j r q) :
    PeerInv net i j r phase q where
  owes := ⟨hsafe.trans (Nat.le_add_left _ _), Or.inl (hsafe.trans (Nat.le_add_left _ _))⟩
  live := hlive
  early _ := hsafe

/-- `Run` begins. -/
theorem RankInv.run (h : RankInv net i r .outside p) :
    RankInv net i { r with m_safeTime := 0 } (.initializing (net.bundles i)) p := by
  obtain ⟨hclock, hsafe, hguarantee⟩ := h.place.early rfl
  have hr : { r with m_safeTime := 0 } = r := by
    rw [← hsafe]
  rw [hr]
  refine ⟨h.base, ⟨fun _ => ⟨hclock, hsafe, hguarantee⟩, ?_, fun hw => ?_⟩, ?_⟩
  · intro _ j hj _
    exact ⟨j, hj, hsafe.trans (hguarantee j).symm⟩
  · cases hw
  · intro j hj
    refine PeerInv.of_early ((h.peer j hj).early rfl) fun hinit => ?_
    exact absurd (NullMessageNetwork.mem_bundles.mpr hj) hinit

/-- `InitializeNullMessageEvents` sends the delay of a bundle. -/
theorem RankInv.initBundle {bundles : List (Fin n)} {obj : ℕ}
    (h : RankInv net i r (.initializing (j :: bundles)) p) (hj : net.Bundle i j)
    (hfresh : r.Fresh obj)
    (hrange : r.simulator.m_currentTs + net.delay i j ≤ maximumSimulationTime) :
    RankInv net i (r.scheduleNullMessageEvent net i j obj) (.initializing bundles)
      (Function.update p j (net.delay i j)) := by
  obtain ⟨ev, hs, hts, -⟩ := scheduleNullMessageEvent_scheduled hfresh hrange
  obtain ⟨hclock, hsafe, hguarantee⟩ := h.place.early rfl
  have htuned := net.tuned_le (net.delay i j)
  have hearly : (r.scheduleNullMessageEvent net i j obj).simulator.m_currentTs = 0 ∧
      (r.scheduleNullMessageEvent net i j obj).m_safeTime = 0 ∧
      ∀ k, (r.scheduleNullMessageEvent net i j obj).m_guaranteeTime k = 0 := by
    rw [hs.added.clock, hs.safe, hs.guarantee]
    exact ⟨hclock, hsafe, hguarantee⟩
  refine ⟨h.base.scheduleNullMessageEvent hfresh hj hrange, ⟨fun _ => hearly, ?_, fun hw => ?_⟩, ?_⟩
  · intro _ k hk _
    exact ⟨k, hk, hearly.2.1.trans (hearly.2.2 k).symm⟩
  · cases hw
  · intro k hk
    by_cases hkj : k = j
    · subst hkj
      rw [Function.update_self]
      refine PeerInv.of_early le_rfl fun _ => hs.live_new hts.le ?_
      omega
    · rw [Function.update_of_ne hkj]
      refine PeerInv.of_early ((h.peer k hk).early rfl) fun hinit => ?_
      refine hs.live ((h.peer k hk).live ?_)
      intro hmem
      rcases List.mem_cons.mp hmem with rfl | hmem
      · exact hkj rfl
      · exact hinit hmem

/-- The loop of `Run` begins. -/
theorem RankInv.begin (h : RankInv net i r (.initializing []) p) :
    RankInv net i { r with simulator := { r.simulator with m_stop := false } } .head p where
  base := ⟨h.base.clock_le, h.base.behind, h.base.safe_le, h.base.safe_max, h.base.pending_max,
    h.base.bundled, h.base.ids⟩
  place := by
    refine ⟨fun he => ?_, fun _ => h.place.tight ?_, fun hw => ?_⟩
    · cases he
    · intro hp
      cases hp
    · cases hw
  peer j hj := by
    obtain ⟨⟨hahead, hcases⟩, hlive, -⟩ := h.peer j hj
    refine ⟨⟨hahead, hcases⟩, fun _ => hlive List.not_mem_nil, fun he => ?_⟩
    cases he

/-! ## Messages -/

section Added

variable (ha : LocalSimulator.Added r.simulator simulator ev) (hown : r.callback ev.impl = none)
include ha hown

theorem Quiet.added (h : Quiet net i j r q) (hq : q ≤ ev.key.m_ts + net.delay i j) :
    Quiet net i j { r with simulator := simulator } q := by
  obtain ⟨ev₀, hev₀, hothers⟩ := h
  have hne : ev ≠ ev₀ := by
    rintro rfl
    rw [hown] at hev₀
    cases hev₀
  refine ⟨ev₀, hev₀, fun e he => ?_⟩
  have hperm := ha.events.erase ev₀
  rw [List.erase_cons_tail (by simpa using hne)] at hperm
  rcases List.mem_cons.mp (hperm.mem_iff.mp he) with rfl | he
  · exact hq
  · exact hothers e he

theorem Sending.added (h : Sending net i j r q) :
    Sending net i j { r with simulator := simulator } q := by
  refine ⟨h.1, fun e he => ?_⟩
  rintro ⟨callback, hcallback, hconcerns⟩
  rcases ha.mem_iff.mp he with rfl | he
  · rw [hown] at hcallback
    cases hcallback
  · exact h.2 e he ⟨callback, hcallback, hconcerns⟩

omit hown in
theorem Live.added (h : Live net i j r q) : Live net i j { r with simulator := simulator } q := by
  obtain ⟨e, he, hcallback, hcancel, hts, hq⟩ := h
  refine ⟨e, ha.mem_iff.mpr (Or.inr he), hcallback, ?_, ?_, hq⟩
  · rw [ha.cancel]
    exact hcancel
  · rw [ha.clock]
    exact hts

/-- The event of a message is not before the safe time. -/
theorem RankInv.added (h : RankInv net i r .polling p) (hsafe : r.m_safeTime ≤ ev.key.m_ts)
    (hmax : ev.key.m_ts ≤ maximumSimulationTime) :
    RankInv net i { r with simulator := simulator } .polling p where
  base := by
    have hclock := h.base.clock_le
    refine ⟨?_, fun e he => ?_, h.base.safe_le, h.base.safe_max, fun e he => ?_,
      fun e he k hk => ?_, h.base.ids⟩
    · rw [ha.clock]
      exact hclock
    · rw [ha.clock]
      rcases ha.mem_iff.mp he with rfl | he
      · exact hclock.trans hsafe
      · exact h.base.behind e he
    · rcases ha.mem_iff.mp he with rfl | he
      · exact hmax
      · exact h.base.pending_max e he
    · rcases ha.mem_iff.mp he with rfl | he
      · rw [hown] at hk
        cases hk
      · exact h.base.bundled e he k hk
  place := .polling
  peer j hj := by
    obtain ⟨⟨hahead, hcases⟩, hlive, -⟩ := h.peer j hj
    refine ⟨⟨hahead, ?_⟩, fun hinit => (hlive hinit).added ha, fun he => ?_⟩
    · rcases hcases with hpassed | ⟨hnot, hquiet⟩ | hsending
      · left
        rw [ha.clock]
        exact hpassed
      · exact Or.inr (Or.inl ⟨hnot, hquiet.added ha hown (by omega)⟩)
      · exact Or.inr (Or.inr (hsending.added ha hown))
    · cases he

end Added

/-- The other rank guarantees more. -/
theorem RankInv.guaranteed {g : ℕ} (h : RankInv net i r .polling p) (hg : r.m_guaranteeTime j ≤ g) :
    RankInv net i { r with m_guaranteeTime := Function.update r.m_guaranteeTime j g }
      .polling p where
  base := by
    refine ⟨h.base.clock_le, h.base.behind, fun k hk => ?_, h.base.safe_max, h.base.pending_max,
      h.base.bundled, h.base.ids⟩
    have hle : r.m_guaranteeTime k ≤ Function.update r.m_guaranteeTime j g k := by
      by_cases hkj : k = j
      · subst hkj
        rw [Function.update_self]
        exact hg
      · rw [Function.update_of_ne hkj]
    exact (h.base.safe_le k hk).trans hle
  place := .polling
  peer k hk := by
    obtain ⟨⟨hahead, hcases⟩, hlive, -⟩ := h.peer k hk
    refine ⟨⟨hahead, hcases⟩, hlive, fun he => ?_⟩
    cases he

theorem RankInv.receiveMessage {msg : NullMessage} (h : RankInv net i r .polling p)
    (hj : net.Bundle i j) (hupdate : r.m_guaranteeTime j ≤ msg.guaranteeUpdate)
    (hkept : msg.rxTime = 0 ∨ r.m_guaranteeTime j ≤ msg.rxTime)
    (hmax : msg.rxTime ≤ maximumSimulationTime) (hown : r.callback msg.event = none) :
    RankInv net i (r.receiveMessage j msg) .polling p := by
  have hsafe := h.base.safe_le j hj
  have hclock := h.base.clock_le
  unfold NullMessageSimulatorImpl.receiveMessage
  by_cases hrx : msg.rxTime > 0
  · rw [if_pos hrx]
    have htime : r.simulator.InTime ((msg.rxTime : ℤ) - r.simulator.m_currentTs) := by
      constructor <;> omega
    obtain ⟨hadded, himpl, hts⟩ := LocalSimulator.scheduleWithContext_added htime msg.node msg.event
    refine (h.added hadded ?_ ?_ ?_).guaranteed hupdate
    · rw [himpl]
      exact hown
    · omega
    · omega
  · rw [if_neg hrx]
    exact h.guaranteed hupdate

/-! ## Transmission -/

theorem calculateGuaranteeTime_eq {time : ℕ} (h : r.calculateGuaranteeTime net i j = some time) :
    ∃ next, r.simulator.peekTs = some next ∧ time = min next r.m_safeTime + net.delay i j := by
  obtain ⟨next, hnext, heq⟩ := Option.bind_eq_some_iff.mp h
  cases heq
  exact ⟨next, hnext, rfl⟩

/-- The next event is before all others. -/
theorem peekTs_le_of_mem {next : ℕ} {e : Event} (hnext : r.simulator.peekTs = some next)
    (he : e ∈ r.events) : next ≤ e.key.m_ts :=
  peekTs_le hnext ⟨e, he, rfl⟩

theorem RankBase.le_peekTs {next : ℕ} (h : RankBase net i r)
    (hnext : r.simulator.peekTs = some next) :
    r.simulator.m_currentTs ≤ next := by
  obtain ⟨ev, hev, rfl⟩ := peekTs_pending hnext
  exact h.behind ev hev

theorem Fresh.scheduleCallback {delay obj obj' : ℕ} (h : r.Fresh obj) (hne : obj' ≠ obj)
    (hrange : r.simulator.m_currentTs + delay ≤ maximumSimulationTime) (callback : Callback n m) :
    (r.scheduleCallback delay obj' callback).1.Fresh obj := by
  obtain ⟨hnone, hcancel, hstored⟩ := h
  obtain ⟨hadded, himpl, -⟩ := LocalSimulator.schedule_added hrange obj'
  refine ⟨?_, ?_, ?_⟩
  · exact (Function.update_of_ne hne.symm _ _).trans hnone
  · exact hcancel
  · intro e he
    rcases hadded.mem_iff.mp he with rfl | he
    · rw [himpl]
      exact hne
    · exact hstored e he

section Cancel

variable {id : EventId} (hid : ∀ obj ∈ id.m_eventImpl,
      r.callback obj = some (.nullMessageEventHandler j))

theorem cancel_other {obj : ℕ} (h : obj ∉ id.m_eventImpl) (s : LocalSimulator) :
    (s.cancel id).m_cancel obj = s.m_cancel obj := by
  have hc : LocalSimulator.Called (fun obj => obj ∉ id.m_eventImpl) s (s.cancel id) :=
    LocalSimulator.cancel_called fun _ hobj hnot => hnot hobj
  exact hc.cancel obj h

theorem events_cancel (r : NullMessageSimulatorImpl n m) (id : EventId) :
    { r with simulator := r.simulator.cancel id }.events = r.events :=
  congrArg ListScheduler.m_events (LocalSimulator.cancel_frame r.simulator id).1

theorem RankBase.cancel (h : RankBase net i r) (id : EventId) :
    RankBase net i { r with simulator := r.simulator.cancel id } := by
  obtain ⟨-, hclock, -⟩ := LocalSimulator.cancel_frame r.simulator id
  refine ⟨?_, fun e he => ?_, h.safe_le, h.safe_max, fun e he => ?_, fun e he => ?_, h.ids⟩
  · rw [hclock]
    exact h.clock_le
  · rw [hclock]
    rw [events_cancel] at he
    exact h.behind e he
  · rw [events_cancel] at he
    exact h.pending_max e he
  · rw [events_cancel] at he
    exact h.bundled e he

theorem Settled.cancel (h : Settled net i j r q) (id : EventId) :
    Settled net i j { r with simulator := r.simulator.cancel id } q := by
  obtain ⟨-, hclock, -⟩ := LocalSimulator.cancel_frame r.simulator id
  rcases h with hpassed | ⟨hbusy, hothers⟩
  · left
    rw [hclock]
    exact hpassed
  · refine Or.inr ⟨hbusy, fun e he => ?_⟩
    rw [events_cancel] at he
    exact hothers e he

include hid in
theorem Fresh.cancel {obj : ℕ} (h : r.Fresh obj) :
    Fresh { r with simulator := r.simulator.cancel id } obj := by
  obtain ⟨hnone, hcancel, hstored⟩ := h
  refine ⟨hnone, ?_, fun e he => ?_⟩
  · refine (cancel_other ?_ _).trans hcancel
    intro hmem
    rw [hid obj hmem] at hnone
    cases hnone
  · change e ∈ { r with simulator := r.simulator.cancel id }.events at he
    rw [events_cancel] at he
    exact hstored e he

include hid in
/-- The null message events of the other bundles are not cancelled. -/
theorem Live.cancel {k : Fin n} (h : Live net i k r q) (hk : k ≠ j) :
    Live net i k { r with simulator := r.simulator.cancel id } q := by
  obtain ⟨-, hclock, -⟩ := LocalSimulator.cancel_frame r.simulator id
  obtain ⟨e, he, hcallback, hcancel, hts, hq⟩ := h
  refine ⟨e, ?_, hcallback, ?_, ?_, hq⟩
  · rw [events_cancel]
    exact he
  · refine (cancel_other ?_ _).trans hcancel
    intro hmem
    rw [hid _ hmem] at hcallback
    cases hcallback
    exact hk rfl
  · rw [hclock]
    exact hts

end Cancel

theorem Settled.busy (h : Settled net i j r q) (c : Fin m) :
    Settled net i j { r with busy := Function.update r.busy c true } q := by
  rcases h with hpassed | ⟨hbusy, hothers⟩
  · exact Or.inl hpassed
  · refine Or.inr ⟨fun c' hc' => ?_, hothers⟩
    change Function.update r.busy c true c' = true
    by_cases hcc : c' = c
    · subst hcc
      exact Function.update_self _ _ _
    · rw [Function.update_of_ne hcc]
      exact hbusy c' hc'

/-- The rank sends a message to `j`, and keeps the guarantee in it from now on. -/
structure Gave (net : NullMessageNetwork n m) (i j : Fin n) (r r' : NullMessageSimulatorImpl n m)
    (phase' : NullPhase n) (p : Fin n → ℕ) (msg : NullMessage) : Prop where
  inv : RankInv net i r' phase' (Function.update p j msg.guaranteeUpdate)
  guarantee : r'.m_guaranteeTime = r.m_guaranteeTime
  ascends : p j ≤ msg.guaranteeUpdate
  kept : msg.rxTime = 0 ∨ p j ≤ msg.rxTime

theorem RankInv.initBundle_gave {bundles : List (Fin n)} {obj : ℕ}
    (h : RankInv net i r (.initializing (j :: bundles)) p) (hj : net.Bundle i j)
    (hfresh : r.Fresh obj)
    (hrange : r.InRange net i) :
    Gave net i j r (r.scheduleNullMessageEvent net i j obj) (.initializing bundles) p
      ⟨0, net.delay i j, 0, 0⟩ where
  inv := h.initBundle hj hfresh ((Nat.add_le_add_right h.base.clock_le _).trans (hrange j hj))
  guarantee := rfl
  ascends := (h.peer j hj).early rfl
  kept := Or.inl rfl

/-- The rank after its device at `c` has got busy, up to the guarantee. -/
def begunTransmission (r : NullMessageSimulatorImpl n m) (c : Fin m) (delay complete : ℕ) :
    NullMessageSimulatorImpl n m :=
  ({ r with busy := Function.update r.busy c true }.scheduleCallback delay complete
    (.transmitComplete c)).1

section Transmission

variable {c : Fin m} {delay complete obj : ℕ} (hfresh : r.Fresh complete)
  (hrange : r.simulator.m_currentTs + delay ≤ maximumSimulationTime)
include hfresh hrange

theorem begunTransmission_scheduled : ∃ ev,
    Scheduled { r with busy := Function.update r.busy c true }
    (r.begunTransmission c delay complete) ev
        (.transmitComplete c) ∧
      ev.key.m_ts = r.simulator.m_currentTs + delay := by
  have hfresh' : Fresh { r with busy := Function.update r.busy c true } complete := hfresh
  obtain ⟨hs, hts, -⟩ := scheduleCallback_scheduled hfresh' hrange (.transmitComplete c)
  exact ⟨_, hs, hts⟩

theorem RankBase.begunTransmission (h : RankBase net i r) :
    RankBase net i (r.begunTransmission c delay complete) := by
  obtain ⟨ev, hs, hts⟩ := begunTransmission_scheduled (c := c) hfresh hrange
  have hbase : RankBase net i { r with busy := Function.update r.busy c true } :=
    ⟨h.clock_le, h.behind, h.safe_le, h.safe_max, h.pending_max, h.bundled, h.ids⟩
  refine hs.base hbase ?_ ?_ (fun _ hk => ?_) (hs.ids hbase)
  · rw [hts]
    exact Nat.le_add_right _ _
  · rw [hts]
    exact hrange
  · cases hk

theorem Live.begunTransmission {k : Fin n} (h : Live net i k r q) :
    Live net i k (r.begunTransmission c delay complete) q := by
  obtain ⟨ev, hs, -⟩ := begunTransmission_scheduled (c := c) hfresh hrange
  have hlive : Live net i k { r with busy := Function.update r.busy c true } q := h
  exact hs.live hlive

theorem Settled.begunTransmission {k : Fin n} (h : Settled net i k r q) (hc : net.Joins c i j)
    (hk : k ≠ j) : Settled net i k (r.begunTransmission c delay complete) q := by
  obtain ⟨ev, hs, -⟩ := begunTransmission_scheduled (c := c) hfresh hrange
  refine hs.settled (h.busy c) ?_
  intro hconcerns
  exact hk (hconcerns.2.symm.trans hc.2)

end Transmission

section Reschedule

variable {obj : ℕ} (hbase : RankBase net i r) (hfresh : r.Fresh obj)
  (hrange : r.simulator.m_currentTs + net.delay i j ≤ maximumSimulationTime)
include hbase hfresh hrange

theorem rescheduleNullMessageEvent_scheduled : ∃ ev,
    Scheduled { r with simulator := r.simulator.cancel (r.m_nullEventId j) }
        (r.rescheduleNullMessageEvent net i j obj) ev (.nullMessageEventHandler j) ∧
      ev.key.m_ts = r.simulator.m_currentTs + net.tuned (net.delay i j) := by
  have hclock := (LocalSimulator.cancel_frame r.simulator (r.m_nullEventId j)).2.1
  rw [← hclock] at hrange
  obtain ⟨ev, hs, hts, -⟩ := scheduleNullMessageEvent_scheduled (hfresh.cancel (hbase.ids j)) hrange
  refine ⟨ev, hs, hts.trans ?_⟩
  rw [hclock]

theorem RankBase.rescheduleNullMessageEvent (hj : net.Bundle i j) :
    RankBase net i (r.rescheduleNullMessageEvent net i j obj) := by
  refine (hbase.cancel _).scheduleNullMessageEvent (hfresh.cancel (hbase.ids j)) hj ?_
  rw [(LocalSimulator.cancel_frame r.simulator (r.m_nullEventId j)).2.1]
  exact hrange

/-- The other bundles do not notice it. -/
theorem rescheduleNullMessageEvent_other {k : Fin n} (hk : k ≠ j) :
    (Settled net i k r q → Settled net i k (r.rescheduleNullMessageEvent net i j obj) q) ∧
      (Live net i k r q → Live net i k (r.rescheduleNullMessageEvent net i j obj) q) := by
  obtain ⟨ev, hs, -⟩ := rescheduleNullMessageEvent_scheduled hbase hfresh hrange
  refine ⟨fun h => hs.settled (h.cancel _) ?_, fun h => hs.live (h.cancel (hbase.ids j) hk)⟩
  intro hconcerns
  exact hk hconcerns.symm

/-- The new guarantee is not after the next event, which is not after the old null message event. -/
theorem rescheduleNullMessageEvent_peer {next : ℕ} (hnext : r.simulator.peekTs = some next)
    (hlive : Live net i j r q) (hbusy : ∀ c, net.Joins c i j → r.busy c = true) :
    PeerInv net i j (r.rescheduleNullMessageEvent net i j obj) .invocation
      (min next r.m_safeTime + net.delay i j) := by
  obtain ⟨ev, hs, hts⟩ := rescheduleNullMessageEvent_scheduled hbase hfresh hrange
  obtain ⟨old, hold, -, -, holdts, -⟩ := hlive
  have hnextold := peekTs_le_of_mem hnext hold
  have hclock := hbase.clock_le
  have hclocknext := hbase.le_peekTs hnext
  have htuned := net.tuned_le (net.delay i j)
  have hcancelled := (LocalSimulator.cancel_frame r.simulator (r.m_nullEventId j)).2.1
  refine ⟨⟨?_, Or.inr (Or.inr ⟨fun c hc => ?_, fun e he _ => ?_⟩)⟩, fun _ => hs.live_new ?_ ?_, ?_⟩
  · rw [hs.safe]
    exact Nat.add_le_add_right (min_le_right _ _) _
  · rw [hs.busy]
    exact hbusy c hc
  · rcases hs.added.mem_iff.mp he with rfl | he
    · omega
    · have hstored : e ∈ { r with simulator := r.simulator.cancel (r.m_nullEventId j) }.events := he
      rw [events_cancel] at hstored
      have := peekTs_le_of_mem hnext hstored
      omega
  · rw [hts, hcancelled]
  · omega
  · intro he
    cases he

end Reschedule

theorem transmitStart_eq {c : Fin m} {txTime gap node event complete obj : ℕ} {msg : NullMessage}
    (h : r.transmitStart net i c txTime gap node event complete obj = some (r', msg))
    (hc : net.Joins c i j) :
    ∃ next, (r.begunTransmission c (txTime + gap) complete).simulator.peekTs = some next ∧
      r' = (r.begunTransmission c (txTime + gap) complete).rescheduleNullMessageEvent net i j obj ∧
      msg = ⟨r.simulator.m_currentTs + txTime + (net.channels c).delay,
        min next r.m_safeTime + net.delay i j, node, event⟩ := by
  obtain ⟨time, htime, heq⟩ := Option.bind_eq_some_iff.mp h
  rw [hc.2] at htime heq
  obtain ⟨next, hnext, rfl⟩ := calculateGuaranteeTime_eq htime
  cases heq
  exact ⟨next, hnext, rfl, rfl⟩

/-- `TransmitStart` at an idle device. -/
theorem RankInv.transmitStart {c : Fin m} {txTime gap node event complete obj : ℕ}
    {msg : NullMessage}
    (h : RankInv net i r .invocation p) (hsingle : net.Single) (hc : net.Joins c i j)
    (hidle : r.busy c = false) (hcomplete : r.Fresh complete) (hobj : r.Fresh obj)
    (hne : complete ≠ obj) (hend : r.simulator.m_currentTs + (txTime + gap) ≤ maximumSimulationTime)
    (hrange : r.InRange net i)
    (ht : r.transmitStart net i c txTime gap node event complete obj = some (r', msg)) :
    Gave net i j r r' .invocation p msg := by
  obtain ⟨next, hnext, rfl, rfl⟩ := transmitStart_eq ht hc
  have hj : net.Bundle i j := ⟨c, hc⟩
  have hbase := h.base.begunTransmission (c := c) hcomplete hend
  have hfresh : (r.begunTransmission c (txTime + gap) complete).Fresh obj :=
    Fresh.scheduleCallback (r := { r with busy := Function.update r.busy c true }) hobj hne hend _
  have hclock := h.base.clock_le
  have hrangej : r.simulator.m_currentTs + net.delay i j ≤ maximumSimulationTime :=
    (Nat.add_le_add_right hclock _).trans (hrange j hj)
  have hclocknext : r.simulator.m_currentTs ≤ next := hbase.le_peekTs hnext
  -- no packet is under way, so the clock has passed the base of the old guarantee
  have hpassed : p j ≤ r.simulator.m_currentTs + net.delay i j := by
    rcases (h.peer j hj).owes.settled rfl with hpassed | hsending
    · exact hpassed
    · rw [hsending.1 c hc] at hidle
      cases hidle
  have hdelay := NullMessageNetwork.delay_le hc
  refine ⟨⟨hbase.rescheduleNullMessageEvent hfresh hrangej hj,
    h.place.invocation (by simp) rfl rfl, fun k hk => ?_⟩, rfl, ?_, Or.inr ?_⟩
  · by_cases hkj : k = j
    · subst hkj
      rw [Function.update_self]
      refine rescheduleNullMessageEvent_peer hbase hfresh hrangej hnext
        (((h.peer k hk).live trivial).begunTransmission hcomplete hend) ?_
      intro c' hc'
      rw [hsingle c' c i k hc' hc]
      exact Function.update_self _ _ _
    · rw [Function.update_of_ne hkj]
      obtain ⟨hsettled, hlive⟩ := rescheduleNullMessageEvent_other hbase hfresh hrangej hkj
      have howes := ((h.peer k hk).owes.settled rfl).begunTransmission hcomplete hend hc hkj
      refine ⟨(hsettled howes).owes (h.peer k hk).owes.ahead _, fun _ => hlive ?_, fun he => ?_⟩
      · exact ((h.peer k hk).live trivial).begunTransmission hcomplete hend
      · cases he
  · change p j ≤ min next r.m_safeTime + net.delay i j
    omega
  · change p j ≤ r.simulator.m_currentTs + txTime + (net.channels c).delay
    omega

end NullMessageSimulatorImpl

end Ns3.Mpi
