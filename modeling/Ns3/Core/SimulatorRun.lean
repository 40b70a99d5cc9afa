import Ns3.Core.DefaultSimulatorImpl
import Ns3.Core.ListScheduler

/-!
# What a run of the simulator invokes

The invariant of a run: every scheduled event is stored, has had its turn or was removed; what is
stored comes after the running event in the order of the keys, and what had its turn does not.
-/

namespace Ns3.Core

open Scheduler

theorem int32_eq {x : ℤ} (h : -2 ^ 31 ≤ x) (h' : x < 2 ^ 31) : int32 x = x := by
  unfold int32
  rw [Int.bmod_eq_of_le_mul_two] <;> omega

/-- Two elements of a list in the order of a strict relation stand in that order. -/
theorem sublist_of_pairwise {α : Type} {R : α → α → Prop} (hR : ∀ a b, R a b → ¬ R b a)
    {l : List α} (h : l.Pairwise R) {a b : α} (ha : a ∈ l) (hb : b ∈ l) (hab : R a b) :
    [a, b].Sublist l := by
  induction l with
  | nil => cases ha
  | cons x l ih =>
    obtain ⟨hx, hl⟩ := List.pairwise_cons.mp h
    rcases List.mem_cons.mp hb with rfl | hb'
    · rcases List.mem_cons.mp ha with rfl | ha'
      · exact absurd hab (hR a a hab)
      · exact absurd (hx a ha') (hR a b hab)
    · rcases List.mem_cons.mp ha with rfl | ha'
      · exact (List.singleton_sublist.mpr hb').cons_cons a
      · exact (ih hl ha' hb').cons x

namespace SimulatorSystem

variable {σ : Type} [KeyScheduler σ] {s : SimulatorSystem σ}

/-- The events that the scheduler stores. -/
def stored (s : SimulatorSystem σ) : Multiset Event := KeyScheduler.stored s.impl.m_events

/-- The key of the event that is running or ran last. -/
def current (s : SimulatorSystem σ) : ℕ ×ₗ ℕ := toLex (s.impl.m_currentTs, s.impl.m_currentUid)

structure Inv (s : SimulatorSystem σ) : Prop where
  pending : s.impl.m_eventsWithContext = []
  partition : (s.scheduled : Multiset Event) = s.stored + s.turns + s.removed
  uids : s.scheduled.Pairwise fun a b => a.key.m_uid < b.key.m_uid
  uid_bounds : ∀ ev ∈ s.scheduled, 4 ≤ ev.key.m_uid ∧ ev.key.m_uid < s.impl.m_uid
  currentUid_lt : s.impl.m_currentUid < s.impl.m_uid
  uid_ge : 4 ≤ s.impl.m_uid
  time_lt : s.impl.m_currentTs < 2 ^ 63
  stored_time : ∀ ev ∈ s.stored, ev.key.m_ts < 2 ^ 63
  ahead : ∀ ev ∈ s.stored, s.current < ev.key.order
  past : ∀ ev ∈ s.turns, ev.key.order ≤ s.current
  sorted : s.turns.Pairwise fun a b => a.key.order < b.key.order
  cancel_iff : ∀ i, s.impl.m_cancel i = true ↔ i ∈ s.cancelled
  removed_cancelled : ∀ ev ∈ s.removed, ev.impl ∈ s.cancelled
  invoked_sublist : s.invoked.Sublist s.turns
  invoked_of : ∀ ev ∈ s.turns, ev.impl ∉ s.cancelled → ev ∈ s.invoked
  counter : s.impl.m_unscheduledEvents = s.stored.card
  card_lt : s.stored.card < 2 ^ 31

theorem Inv.start : Inv ({ impl := { m_events := KeyScheduler.empty } } : SimulatorSystem σ) := by
  have h0 : stored ({ impl := { m_events := KeyScheduler.empty } } : SimulatorSystem σ) = 0 :=
    KeyScheduler.stored_empty
  constructor
  case partition => rw [h0]; rfl
  case stored_time => rw [h0]; exact fun ev hev => absurd hev (Multiset.notMem_zero ev)
  case ahead => rw [h0]; exact fun ev hev => absurd hev (Multiset.notMem_zero ev)
  case counter => rw [h0]; rfl
  case card_lt => rw [h0]; decide
  case cancel_iff => simp
  all_goals simp [EventId.valid, EventId.invalid]

/-! ## Where an event is -/

theorem Inv.mem_scheduled_iff (h : Inv s) {ev : Event} :
    ev ∈ s.scheduled ↔ ev ∈ s.stored ∨ ev ∈ s.turns ∨ ev ∈ s.removed := by
  have := h.partition
  rw [← Multiset.mem_coe, this, Multiset.mem_add, Multiset.mem_add, Multiset.mem_coe,
    Multiset.mem_coe, or_assoc]

theorem Inv.distinct_scheduled (h : Inv s) : DistinctUids (s.scheduled : Multiset Event) := by
  unfold DistinctUids
  rw [Multiset.map_coe, Multiset.coe_nodup, List.Nodup, List.pairwise_map]
  exact h.uids.imp fun hlt => hlt.ne

theorem Inv.eq_of_uid (h : Inv s) {a b : Event} (ha : a ∈ s.scheduled) (hb : b ∈ s.scheduled)
    (heq : a.key.m_uid = b.key.m_uid) : a = b :=
  h.distinct_scheduled.eq ha hb heq

theorem Inv.distinctUids (h : Inv s) : DistinctUids s.stored := by
  apply h.distinct_scheduled.mono
  rw [h.partition]
  exact (Multiset.le_add_right _ _).trans (Multiset.le_add_right _ _)

theorem Inv.turns_mem (h : Inv s) {ev : Event} (hev : ev ∈ s.turns) : ev ∈ s.scheduled :=
  h.mem_scheduled_iff.mpr (Or.inr (Or.inl hev))

theorem Inv.stored_mem (h : Inv s) {ev : Event} (hev : ev ∈ s.stored) : ev ∈ s.scheduled :=
  h.mem_scheduled_iff.mpr (Or.inl hev)

omit [KeyScheduler σ] in
/-- The code's test for expiry, in terms of the key of the running event. -/
theorem isExpired_id {ev : Event} (hu : ev.key.m_uid ≠ EventId.destroy) :
    s.impl.isExpired ev.id = true ↔ ev.key.order ≤ s.current ∨ s.impl.m_cancel ev.impl = true := by
  unfold DefaultSimulatorImpl.isExpired Event.id
  simp only [if_neg hu, Bool.or_eq_true, decide_eq_true_eq]
  unfold current EventKey.order
  rw [Prod.Lex.toLex_le_toLex]

/-- An event is expired when its turn came, or it was cancelled or removed before. -/
theorem Inv.isExpired_iff (h : Inv s) {ev : Event} (hev : ev ∈ s.scheduled) :
    s.impl.isExpired ev.id = true ↔ ev ∈ s.turns ∨ ev.impl ∈ s.cancelled := by
  have hu := (h.uid_bounds ev hev).1
  rw [isExpired_id (by unfold EventId.destroy; omega), h.cancel_iff]
  constructor
  · rintro (hle | hc)
    · rcases h.mem_scheduled_iff.mp hev with hs | ht | hr
      · exact absurd (h.ahead ev hs) (not_lt.mpr hle)
      · exact Or.inl ht
      · exact Or.inr (h.removed_cancelled ev hr)
    · exact Or.inr hc
  · rintro (ht | hc)
    · exact Or.inl (h.past ev ht)
    · exact Or.inr hc

/-- The code and the histories agree about the ids of the program. -/
theorem Inv.isExpired_eq (h : Inv s) {id : EventId} {impl : ℕ} (hi : id.m_eventImpl = some impl)
    (hk : id.m_uid = EventId.destroy ∨ ∃ ev ∈ s.scheduled, id = ev.id) :
    s.impl.isExpired id = true ↔ ¬ s.Ahead id impl := by
  unfold Ahead
  rcases hk with hd | ⟨ev, hev, rfl⟩
  · unfold DefaultSimulatorImpl.isExpired
    rw [hi, if_pos hd]
    simp only [if_pos hd]
    rw [← h.cancel_iff]
    by_cases hc : s.impl.m_cancel impl = true <;> simp [hc]
  · cases hi
    have hu := (h.uid_bounds ev hev).1
    rw [h.isExpired_iff hev, if_neg (by unfold EventId.destroy Event.id; dsimp only; omega)]
    have hturn : ev ∈ s.turns ↔ ¬ ∀ x ∈ s.turns, x.key.m_uid ≠ ev.id.m_uid := by
      constructor
      · exact fun ht hall => hall ev ht rfl
      · intro hall
        push Not at hall
        obtain ⟨x, hx, heq⟩ := hall
        rwa [← h.eq_of_uid (h.turns_mem hx) hev heq]
    rw [hturn]
    tauto

/-! ## Steps -/

/-- An event given to the scheduler, not in the past and not after the maximum time. -/
theorem Inv.insertEvent (h : Inv s) (hroom : s.Room) {ts : ℕ} (hge : s.impl.m_currentTs ≤ ts)
    (hlt : ts < 2 ^ 63) (context event : ℕ) :
    Inv (s.noteScheduled (s.impl.insertEvent ts context event)) := by
  obtain ⟨huid, hcard⟩ := hroom
  set ev : Event := ⟨event, ⟨ts, s.impl.m_uid, context⟩⟩ with hev
  have hfresh : Legal s.stored (.insert ev) := by
    intro x hx heq
    have := (h.uid_bounds x (h.stored_mem hx)).2
    simp only [hev] at heq
    omega
  have hstored : stored (s.noteScheduled (s.impl.insertEvent ts context event)) =
      ev ::ₘ s.stored := KeyScheduler.stored_insert _ _ hfresh
  have hnext : (s.impl.m_uid + 1) % 2 ^ 32 = s.impl.m_uid + 1 := Nat.mod_eq_of_lt huid
  have hnew : s.current < ev.key.order := by
    unfold current EventKey.order
    rw [Prod.Lex.toLex_lt_toLex]
    have := h.currentUid_lt
    simp only [hev]
    omega
  constructor
  case pending => exact h.pending
  case partition =>
    rw [hstored, Multiset.cons_add, Multiset.cons_add]
    refine (Multiset.coe_eq_coe.mpr (List.perm_append_singleton ev s.scheduled)).trans ?_
    rw [← Multiset.cons_coe, h.partition]
    rfl
  case uids =>
    refine List.pairwise_append.mpr ⟨h.uids, List.pairwise_singleton _ _, ?_⟩
    intro a ha b hb
    rw [List.mem_singleton.mp hb]
    exact (h.uid_bounds a ha).2
  case uid_bounds =>
    intro x hx
    change _ ∧ x.key.m_uid < (s.impl.m_uid + 1) % 2 ^ 32
    rw [hnext]
    have hge4 := h.uid_ge
    rcases List.mem_append.mp hx with hx | hx
    · have := h.uid_bounds x hx
      omega
    · rw [List.mem_singleton.mp hx]
      exact ⟨hge4, Nat.lt_succ_self _⟩
  case currentUid_lt =>
    change s.impl.m_currentUid < (s.impl.m_uid + 1) % 2 ^ 32
    rw [hnext]
    exact h.currentUid_lt.trans (Nat.lt_succ_self _)
  case uid_ge =>
    change 4 ≤ (s.impl.m_uid + 1) % 2 ^ 32
    rw [hnext]
    exact h.uid_ge.trans (Nat.le_succ _)
  case time_lt => exact h.time_lt
  case stored_time =>
    rw [hstored, Multiset.forall_mem_cons]
    exact ⟨hlt, h.stored_time⟩
  case ahead =>
    rw [hstored, Multiset.forall_mem_cons]
    exact ⟨hnew, h.ahead⟩
  case past => exact h.past
  case sorted => exact h.sorted
  case cancel_iff => exact h.cancel_iff
  case removed_cancelled => exact h.removed_cancelled
  case invoked_sublist => exact h.invoked_sublist
  case invoked_of => exact h.invoked_of
  case counter =>
    rw [hstored, Multiset.card_cons]
    change int32 (s.impl.m_unscheduledEvents + 1) = _
    have : s.stored.card + 1 < 2 ^ 31 := hcard
    rw [h.counter, int32_eq (by omega) (by omega)]
    rfl
  case card_lt =>
    rw [hstored, Multiset.card_cons]
    exact hcard

omit [KeyScheduler σ] in
/-- The absolute time of a delay that is in time. -/
theorem tAbsolute_eq {delay : ℤ} (ht : s.InTime delay) :
    s.impl.m_currentTs ≤ s.impl.tAbsolute delay ∧ s.impl.tAbsolute delay < 2 ^ 63 := by
  obtain ⟨h0, hle⟩ := ht
  unfold DefaultSimulatorImpl.tAbsolute
  omega

theorem Inv.inTime_zero (h : Inv s) : s.InTime 0 := by
  have := h.time_lt
  unfold InTime
  omega

/-- The object of an event that is still to come is cancelled. -/
theorem Inv.cancelImpl (h : Inv s) (impl : ℕ) :
    Inv { s with impl := s.impl.cancelImpl impl, cancelled := impl :: s.cancelled } where
  pending := h.pending
  partition := h.partition
  uids := h.uids
  uid_bounds := h.uid_bounds
  currentUid_lt := h.currentUid_lt
  uid_ge := h.uid_ge
  time_lt := h.time_lt
  stored_time := h.stored_time
  ahead := h.ahead
  past := h.past
  sorted := h.sorted
  cancel_iff i := by
    unfold DefaultSimulatorImpl.cancelImpl
    dsimp only
    rw [List.mem_cons]
    by_cases hi : i = impl
    · simp [hi]
    · rw [Function.update_of_ne hi, h.cancel_iff]
      simp [hi]
  removed_cancelled ev hev := List.mem_cons_of_mem _ (h.removed_cancelled ev hev)
  invoked_sublist := h.invoked_sublist
  invoked_of ev hev hn := h.invoked_of ev hev fun hc => hn (List.mem_cons_of_mem _ hc)
  counter := h.counter
  card_lt := h.card_lt

/-- A stored event is removed. -/
theorem Inv.removeStored (h : Inv s) {ev : Event} (hev : ev ∈ s.stored) :
    Inv { s with
      impl := { s.impl.cancelImpl ev.impl with
        m_events := KeyScheduler.remove s.impl.m_events ev
        m_unscheduledEvents := int32 (s.impl.m_unscheduledEvents - 1) }
      removed := ev :: s.removed
      cancelled := ev.impl :: s.cancelled } := by
  have hstored : ev ::ₘ KeyScheduler.stored (KeyScheduler.remove s.impl.m_events ev) = s.stored :=
    KeyScheduler.stored_remove _ _ h.distinctUids hev
  have hle : KeyScheduler.stored (KeyScheduler.remove s.impl.m_events ev) ≤ s.stored := by
    rw [← hstored]
    exact Multiset.le_cons_self _ _
  have hcard : (KeyScheduler.stored (KeyScheduler.remove s.impl.m_events ev)).card + 1 =
      s.stored.card := by
    rw [← hstored, Multiset.card_cons]
  have hc := h.cancelImpl ev.impl
  have hlt := h.card_lt
  constructor
  case pending => exact h.pending
  case partition =>
    rw [h.partition, ← hstored, ← Multiset.cons_coe, Multiset.add_cons, Multiset.cons_add,
      Multiset.cons_add]
    rfl
  case uids => exact h.uids
  case uid_bounds => exact h.uid_bounds
  case currentUid_lt => exact h.currentUid_lt
  case uid_ge => exact h.uid_ge
  case time_lt => exact h.time_lt
  case stored_time => exact fun x hx => h.stored_time x (Multiset.mem_of_le hle hx)
  case ahead => exact fun x hx => h.ahead x (Multiset.mem_of_le hle hx)
  case past => exact h.past
  case sorted => exact h.sorted
  case cancel_iff => exact hc.cancel_iff
  case removed_cancelled =>
    intro x hx
    rcases List.mem_cons.mp hx with rfl | hx
    · exact List.mem_cons_self
    · exact hc.removed_cancelled x hx
  case invoked_sublist => exact h.invoked_sublist
  case invoked_of => exact hc.invoked_of
  case counter =>
    change int32 (s.impl.m_unscheduledEvents - 1) =
      (KeyScheduler.stored (KeyScheduler.remove s.impl.m_events ev)).card
    rw [h.counter, int32_eq (by omega) (by omega)]
    omega
  case card_lt =>
    change (KeyScheduler.stored (KeyScheduler.remove s.impl.m_events ev)).card < 2 ^ 31
    omega

/-- The turn of the next event. -/
theorem Inv.takeEvent (h : Inv s) {next : Event} {impl : DefaultSimulatorImpl σ}
    (hs : s.impl.takeEvent = some (next, impl)) (hne : s.stored ≠ 0) (phase : Phase) :
    Inv { s with
      impl := impl
      phase := phase
      turns := s.turns ++ [next]
      invoked := if !s.impl.m_cancel next.impl then s.invoked ++ [next] else s.invoked } := by
  obtain ⟨ev, m_events, hr, ⟨hmem, hmin⟩, hstored⟩ :=
    KeyScheduler.removeNext_isNext s.impl.m_events h.distinctUids hne
  unfold DefaultSimulatorImpl.takeEvent at hs
  rw [hr] at hs
  cases hs
  have hmem' : next ∈ s.stored := hmem
  have hstored' : next ::ₘ KeyScheduler.stored m_events = s.stored := hstored
  have hle : KeyScheduler.stored m_events ≤ s.stored := by
    rw [← hstored']
    exact Multiset.le_cons_self _ _
  have hcard : (KeyScheduler.stored m_events).card + 1 = s.stored.card := by
    rw [← hstored', Multiset.card_cons]
  have hlt := h.card_lt
  have hnew := h.ahead next hmem'
  constructor
  case pending => exact h.pending
  case partition =>
    change (s.scheduled : Multiset Event) =
      KeyScheduler.stored m_events + ((s.turns ++ [next] : List Event) : Multiset Event) + s.removed
    rw [Multiset.coe_eq_coe.mpr (List.perm_append_singleton next s.turns), h.partition, ← hstored',
      ← Multiset.cons_coe, Multiset.add_cons, Multiset.cons_add]
  case uids => exact h.uids
  case uid_bounds => exact h.uid_bounds
  case currentUid_lt => exact (h.uid_bounds next (h.stored_mem hmem')).2
  case uid_ge => exact h.uid_ge
  case time_lt => exact h.stored_time next hmem'
  case stored_time => exact fun x hx => h.stored_time x (Multiset.mem_of_le hle hx)
  case ahead =>
    intro x hx
    have hxs : x ∈ s.stored := Multiset.mem_of_le hle hx
    have hne : x ≠ next := by
      rintro rfl
      have hd := h.distinctUids
      rw [← hstored'] at hd
      unfold DistinctUids at hd
      rw [Multiset.map_cons, Multiset.nodup_cons] at hd
      exact hd.1 (Multiset.mem_map_of_mem _ hx)
    exact EventKey.less_iff.mp (hmin x hxs hne)
  case past =>
    intro x hx
    rcases List.mem_append.mp hx with hx | hx
    · exact (h.past x hx).trans hnew.le
    · rw [List.mem_singleton.mp hx]
      exact le_rfl
  case sorted =>
    refine List.pairwise_append.mpr ⟨h.sorted, List.pairwise_singleton _ _, ?_⟩
    intro a ha b hb
    rw [List.mem_singleton.mp hb]
    exact (h.past a ha).trans_lt hnew
  case cancel_iff => exact h.cancel_iff
  case removed_cancelled => exact h.removed_cancelled
  case invoked_sublist =>
    dsimp only
    split
    · exact h.invoked_sublist.append (.refl _)
    · exact h.invoked_sublist.trans (List.sublist_append_left _ _)
  case invoked_of =>
    intro x hx hn
    dsimp only at hx hn ⊢
    rcases List.mem_append.mp hx with hx | hx
    · split
      · exact List.mem_append_left _ (h.invoked_of x hx hn)
      · exact h.invoked_of x hx hn
    · have hxn := List.mem_singleton.mp hx
      subst hxn
      rw [← h.cancel_iff, Bool.not_eq_true] at hn
      rw [hn]
      exact List.mem_append_right _ (List.mem_singleton_self x)
  case counter =>
    change int32 (s.impl.m_unscheduledEvents - 1) = (KeyScheduler.stored m_events).card
    rw [h.counter, int32_eq (by omega) (by omega)]
    omega
  case card_lt =>
    change (KeyScheduler.stored m_events).card < 2 ^ 31
    omega

/-- What the invariant does not read, and uids that are not used. -/
theorem Inv.frame (h : Inv s) (stop : Bool) (destroyEvents : List EventId) (phase : Phase) {uid : ℕ}
    (hu : s.impl.m_uid ≤ uid) :
    Inv { s with
      impl := { s.impl with m_stop := stop, m_destroyEvents := destroyEvents, m_uid := uid }
      phase := phase } where
  pending := h.pending
  partition := h.partition
  uids := h.uids
  uid_bounds ev hev := ⟨(h.uid_bounds ev hev).1, (h.uid_bounds ev hev).2.trans_le hu⟩
  currentUid_lt := h.currentUid_lt.trans_le hu
  uid_ge := h.uid_ge.trans hu
  time_lt := h.time_lt
  stored_time := h.stored_time
  ahead := h.ahead
  past := h.past
  sorted := h.sorted
  cancel_iff := h.cancel_iff
  removed_cancelled := h.removed_cancelled
  invoked_sublist := h.invoked_sublist
  invoked_of := h.invoked_of
  counter := h.counter
  card_lt := h.card_lt

/-- Without calls of other threads there is nothing to process. -/
theorem Inv.processEventsWithContext (h : Inv s) : s.impl.processEventsWithContext = s.impl := by
  have hp := h.pending
  unfold DefaultSimulatorImpl.processEventsWithContext
  rw [hp]
  change { s.impl with m_eventsWithContext := [] } = s.impl
  rw [← hp]

omit [KeyScheduler σ] in
theorem isExpired_none {id : EventId} (hid : id.m_eventImpl = none) :
    s.impl.isExpired id = true := by
  unfold DefaultSimulatorImpl.isExpired
  rw [hid]

theorem Inv.cancel (h : Inv s) {id : EventId} (hk : s.Known (.call (.cancel id))) :
    Inv (s.call (.cancel id)) := by
  have hexpired : s.impl.isExpired id = true → s.impl.cancel id = s.impl := fun he => if_pos he
  cases hid : id.m_eventImpl with
  | none =>
    simp only [SimulatorSystem.call, hid]
    rw [hexpired (isExpired_none hid)]
    exact h
  | some impl =>
    have hk' := hk.resolve_left (by rw [hid]; exact Option.some_ne_none impl)
    have hexp := h.isExpired_eq hid hk'
    simp only [SimulatorSystem.call, hid]
    split
    · next ha =>
      have hc : s.impl.cancel id = s.impl.cancelImpl impl := by
        unfold DefaultSimulatorImpl.cancel
        rw [if_neg (fun he => hexp.mp he ha), hid]
      rw [hc]
      exact h.cancelImpl impl
    · next ha =>
      rw [hexpired (hexp.mpr ha)]
      exact h

theorem Inv.remove (h : Inv s) {id : EventId} (hk : s.Known (.call (.remove id))) :
    Inv (s.call (.remove id)) := by
  -- the ids of destroy events leave the scheduler alone
  have hdestroy : id.m_uid = EventId.destroy → Inv { s with impl := s.impl.remove id } := by
    intro hd
    unfold DefaultSimulatorImpl.remove
    rw [if_pos hd]
    exact h.frame _ _ s.phase le_rfl
  have hexpired : s.impl.isExpired id = true → Inv { s with impl := s.impl.remove id } := by
    intro he
    by_cases hd : id.m_uid = EventId.destroy
    · exact hdestroy hd
    · unfold DefaultSimulatorImpl.remove
      rw [if_neg hd, if_pos he]
      exact h
  cases hid : id.m_eventImpl with
  | none =>
    simp only [SimulatorSystem.call, hid]
    exact hexpired (isExpired_none hid)
  | some impl =>
    have hk' := hk.resolve_left (by rw [hid]; exact Option.some_ne_none impl)
    have hexp := h.isExpired_eq hid hk'
    simp only [SimulatorSystem.call, hid]
    split
    · next ha =>
      obtain ⟨hd, ha⟩ := ha
      obtain ⟨ev, hev, rfl⟩ := hk'.resolve_left hd
      cases hid
      have hnot := mt hexp.mp (not_not.mpr ha)
      rw [h.isExpired_iff hev, not_or] at hnot
      have hin : ev ∈ s.stored := by
        rcases h.mem_scheduled_iff.mp hev with hs | ht | hr
        · exact hs
        · exact absurd ht hnot.1
        · exact absurd (h.removed_cancelled ev hr) hnot.2
      unfold DefaultSimulatorImpl.remove
      rw [if_neg hd, if_neg (mt hexp.mp (not_not.mpr ha))]
      exact h.removeStored hin
    · next ha =>
      by_cases hd : id.m_uid = EventId.destroy
      · exact hdestroy hd
      · exact hexpired (hexp.mpr fun hah => ha ⟨hd, hah⟩)

theorem Inv.call (h : Inv s) {a : Action} (hk : s.Known (.call a)) (hQ : s.Fits (.call a)) :
    Inv (s.call a) := by
  cases a with
  | schedule delay event =>
    obtain ⟨hge, hlt⟩ := tAbsolute_eq hQ.2
    exact h.insertEvent hQ.1 hge hlt _ event
  | scheduleNow event =>
    obtain ⟨hge, hlt⟩ := tAbsolute_eq h.inTime_zero
    exact h.insertEvent hQ hge hlt _ event
  | scheduleWithContext context delay event =>
    obtain ⟨hge, hlt⟩ := tAbsolute_eq hQ.2
    exact h.insertEvent hQ.1 hge hlt context event
  | scheduleDestroy event =>
    refine h.frame _ _ s.phase ?_
    rw [Nat.mod_eq_of_lt hQ]
    exact Nat.le_succ _
  | cancel id => exact h.cancel hk
  | remove id => exact h.remove hk
  | stop => exact h.frame true _ s.phase le_rfl

/-- One step that meets the condition keeps the invariant. -/
theorem Inv.step (h : Inv s) {r : SimulatorStep} (hk : s.Known r) (hQ : s.Fits r)
    {s' : SimulatorSystem σ} (hs : s.step r = some s') : Inv s' := by
  cases r with
  | call a =>
    dsimp only [SimulatorSystem.step] at hs
    split at hs
    · cases hs
      exact h.call hk hQ
    · cases hs
  | run =>
    dsimp only [SimulatorSystem.step] at hs
    split at hs
    · cases hs
      rw [h.processEventsWithContext]
      exact h.frame false _ .loop le_rfl
    · cases hs
  | processOneEvent =>
    dsimp only [SimulatorSystem.step] at hs
    split at hs
    · next hc =>
      obtain ⟨⟨next, impl⟩, ht, heq⟩ := Option.bind_eq_some_iff.mp hs
      cases heq
      refine h.takeEvent ht ?_ _
      intro h0
      have hgo := hc.2
      unfold DefaultSimulatorImpl.goesOn at hgo
      rw [(KeyScheduler.isEmpty_iff s.impl.m_events).mpr h0] at hgo
      cases hgo
    · cases hs
  | finishEvent =>
    dsimp only [SimulatorSystem.step] at hs
    split at hs
    · cases hs
      rw [h.processEventsWithContext]
      exact h.frame _ _ .loop le_rfl
    · cases hs
  | leave =>
    dsimp only [SimulatorSystem.step] at hs
    split at hs
    · cases hs
      exact h.frame _ _ .outside le_rfl
    · cases hs

theorem Run.inv (h : Run Fits s) : Inv s := by
  induction h with
  | start => exact .start
  | step h r hk hQ hs ih => exact ih.step hk hQ hs

/-! ## The main result -/

/-- While every step meets the condition: events are invoked in the order of time, and events of one
time in the order in which they were scheduled; once the scheduler is empty, an event that was not
cancelled or removed before its turn has been invoked exactly once; the counter is the number of
stored events; and an event is expired when it was invoked, cancelled or removed. -/
theorem invokes_in_order (h : Run Fits s) :
    s.invoked.Pairwise (fun a b => a.key.m_ts < b.key.m_ts ∨
      a.key.m_ts = b.key.m_ts ∧ [a, b].Sublist s.scheduled) ∧
    (KeyScheduler.isEmpty s.impl.m_events = true →
      ∀ ev ∈ s.scheduled, ev.impl ∉ s.cancelled → s.invoked.count ev = 1) ∧
    s.impl.m_unscheduledEvents = (KeyScheduler.stored s.impl.m_events).card ∧
    ∀ ev ∈ s.scheduled,
      (s.impl.isExpired ev.id = true ↔ ev ∈ s.invoked ∨ ev.impl ∈ s.cancelled) := by
  have hinv := h.inv
  refine ⟨?_, ?_, hinv.counter, ?_⟩
  · apply (hinv.sorted.sublist hinv.invoked_sublist).imp_of_mem
    intro a b ha hb hlt
    rcases EventKey.order_lt_iff.mp hlt with hts | ⟨hts, huid⟩
    · exact Or.inl hts
    · refine Or.inr ⟨hts, sublist_of_pairwise (fun a b => Nat.lt_asymm) hinv.uids ?_ ?_ huid⟩
      · exact hinv.turns_mem (hinv.invoked_sublist.subset ha)
      · exact hinv.turns_mem (hinv.invoked_sublist.subset hb)
  · intro hempty ev hev hn
    have h0 : s.stored = 0 := (KeyScheduler.isEmpty_iff _).mp hempty
    have hturn : ev ∈ s.turns := by
      rcases hinv.mem_scheduled_iff.mp hev with hs | ht | hr
      · rw [h0] at hs
        exact absurd hs (Multiset.notMem_zero ev)
      · exact ht
      · exact absurd (hinv.removed_cancelled ev hr) hn
    have hnodup : s.invoked.Nodup :=
      (hinv.sorted.sublist hinv.invoked_sublist).imp fun hlt heq => by
        rw [heq] at hlt
        exact lt_irrefl _ hlt
    exact List.count_eq_one_of_mem hnodup (hinv.invoked_of ev hturn hn)
  · intro ev hev
    rw [hinv.isExpired_iff hev]
    constructor
    · rintro (ht | hc)
      · by_cases hc : ev.impl ∈ s.cancelled
        · exact Or.inr hc
        · exact Or.inl (hinv.invoked_of ev ht hc)
      · exact Or.inr hc
    · rintro (hi | hc)
      · exact Or.inl (hinv.invoked_sublist.subset hi)
      · exact Or.inr hc

/-! ## Runs on given steps -/

/-- The steps one after the other, while they meet the condition. -/
def steps (Q : SimulatorSystem σ → SimulatorStep → Prop) [∀ s, DecidablePred (Q s)]
    (s : SimulatorSystem σ) : List SimulatorStep → Option (SimulatorSystem σ)
  | [] => some s
  | r :: rs =>
    if s.Known r ∧ Q s r then
      match s.step r with
      | some s' => steps Q s' rs
      | none => none
    else none

theorem Run.steps {Q : SimulatorSystem σ → SimulatorStep → Prop} [∀ s, DecidablePred (Q s)]
    {s' : SimulatorSystem σ} {rs : List SimulatorStep} (h : Run Q s) (hs : s.steps Q rs = some s') :
    Run Q s' := by
  induction rs generalizing s with
  | nil =>
    cases hs
    exact h
  | cons r rs ih =>
    unfold SimulatorSystem.steps at hs
    split at hs
    · next hc =>
      split at hs
      · next hstep => exact ih (h.step r hc.1 hc.2 hstep) hs
      · cases hs
    · cases hs

/-- A new simulator with a list scheduler. -/
def new : SimulatorSystem ListScheduler := { impl := { m_events := KeyScheduler.empty } }

/-- Three events, of which the second schedules a fourth at its own time, and that one cancels the
first before its turn. -/
def cancelling : List SimulatorStep :=
  [.call (.schedule 7 1), .call (.schedule 5 2), .call (.scheduleNow 3), .run, .processOneEvent,
    .finishEvent, .processOneEvent, .call (.scheduleNow 4), .finishEvent, .processOneEvent,
    .call (.cancel ⟨some 1, 7, 0xffffffff, 4⟩), .finishEvent, .processOneEvent, .finishEvent,
    .leave]

theorem invokes_in_order_cancelling :
    ∃ s, new.steps Fits cancelling = some s ∧ s.invoked.map Event.impl = [3, 2, 4] ∧
      ∀ ev ∈ s.scheduled,
        (s.impl.isExpired ev.id = true ↔ ev ∈ s.invoked ∨ ev.impl ∈ s.cancelled) := by
  have hrun : (new.steps Fits cancelling).map (fun s => s.invoked.map Event.impl) =
      some [3, 2, 4] := by
    decide
  obtain ⟨s, hs, hinvoked⟩ := Option.map_eq_some_iff.mp hrun
  exact ⟨s, hs, hinvoked, (invokes_in_order (Run.start.steps hs)).2.2.2⟩

/-- The calls of a program that only promises delays of at least 0 to `Schedule`, and fewer than
`2 ^ 32 - 4` events. -/
def Promised (s : SimulatorSystem σ) : SimulatorStep → Prop
  | .call (.schedule delay _) => 0 ≤ delay ∧ s.impl.m_uid + 1 < 2 ^ 32
  | .call (.scheduleNow _) | .call (.scheduleWithContext _ _ _) | .call (.scheduleDestroy _) =>
    s.impl.m_uid + 1 < 2 ^ 32
  | _ => True

instance (s : SimulatorSystem σ) : DecidablePred s.Promised
  | .call (.schedule _ _) => inferInstanceAs (Decidable (_ ∧ _))
  | .call (.scheduleNow _) | .call (.scheduleWithContext _ _ _) | .call (.scheduleDestroy _) =>
    inferInstanceAs (Decidable (_ < _))
  | .call (.cancel _) | .call (.remove _) | .call .stop | .run | .processOneEvent | .finishEvent
  | .leave => isTrue trivial

/-- An event handler at the time 10 schedules an event with a context and a delay of -5. -/
def backwards : List SimulatorStep :=
  [.call (.schedule 10 1), .run, .processOneEvent, .call (.scheduleWithContext 0 (-5) 2),
    .finishEvent, .processOneEvent]

/-- After `n` calls of `ScheduleNow` before the run. -/
theorem scheduled_many (n : ℕ) (hn : n + 4 < 2 ^ 32) :
    ∃ s : SimulatorSystem ListScheduler, Run Promised s ∧ s.phase = .outside ∧
      s.impl.m_uid = 4 + n ∧ s.stored.card = n ∧ s.impl.m_unscheduledEvents = int32 n ∧
      ∀ ev ∈ s.stored, ev.key.m_uid < s.impl.m_uid := by
  induction n with
  | zero => exact ⟨new, .start, rfl, rfl, rfl, rfl,
    fun ev hev => absurd hev (Multiset.notMem_zero ev)⟩
  | succ n ih =>
    obtain ⟨s, hrun, hphase, huid, hcard, hcount, hlt⟩ := ih (by omega)
    have hfresh : Legal s.stored (.insert ⟨n, ⟨s.impl.tAbsolute 0, s.impl.m_uid,
        s.impl.m_currentContext⟩⟩) := fun x hx => (hlt x hx).ne
    have hstored : (s.call (.scheduleNow n)).stored = _ ::ₘ s.stored :=
      KeyScheduler.stored_insert _ _ hfresh
    have hnext : (s.call (.scheduleNow n)).impl.m_uid = 4 + (n + 1) := by
      change (s.impl.m_uid + 1) % 2 ^ 32 = _
      omega
    refine ⟨s.call (.scheduleNow n), ?_, hphase, hnext, ?_, ?_, ?_⟩
    · have hstep : s.step (.call (.scheduleNow n)) = some (s.call (.scheduleNow n)) := by
        simp [step, hphase, Phase.calls]
      exact hrun.step (.call (.scheduleNow n)) trivial (by change _ < _; omega) hstep
    · rw [hstored, Multiset.card_cons, hcard]
    · change int32 (s.impl.m_unscheduledEvents + 1) = _
      rw [hcount]
      unfold int32
      rw [Int.bmod_add_bmod]
      rfl
    · rw [hstored, hnext, Multiset.forall_mem_cons]
      refine ⟨by dsimp only; omega, ?_⟩
      intro ev hev
      have := hlt ev hev
      omega

/-- Without the condition, an event of an earlier time is invoked after one of a later time; and the
counter of `2 ^ 31` stored events is negative. -/
theorem invokes_backwards :
    (∃ s : SimulatorSystem ListScheduler, Run Promised s ∧
      s.invoked.map (fun ev => ev.key.m_ts) = [10, 5]) ∧
    ∃ s : SimulatorSystem ListScheduler, Run Promised s ∧
      (KeyScheduler.stored s.impl.m_events).card = 2 ^ 31 ∧
      s.impl.m_unscheduledEvents = -2 ^ 31 := by
  constructor
  · have hrun : (new.steps Promised backwards).map (fun s => s.invoked.map fun ev => ev.key.m_ts) =
        some [10, 5] := by
      decide
    obtain ⟨s, hs, hinvoked⟩ := Option.map_eq_some_iff.mp hrun
    exact ⟨s, Run.start.steps hs, hinvoked⟩
  · obtain ⟨s, hrun, -, -, hcard, hcount, -⟩ := scheduled_many (2 ^ 31) (by decide)
    exact ⟨s, hrun, hcard, hcount.trans (by decide)⟩

end SimulatorSystem

end Ns3.Core
