import Ns3.Core.CalendarQueue
import Mathlib.Data.Multiset.Range

/-!
# Runs of the calendar scheduler

Each inserted event is not earlier than the last one taken as the next, and below `2 ^ 63`.
-/

namespace Ns3.Core

open Scheduler Lib.Buckets

namespace CalendarScheduler

/-- What the caller of `Insert` promises besides: the time is not in the past, and the uid is a
valid one of 32 bits. -/
def Timely (last : ℕ) : Request → Prop
  | .insert ev => last ≤ ev.key.m_ts ∧ ev.key.m_ts < 2 ^ 63 ∧ 0 < ev.key.m_uid ∧
      ev.key.m_uid < 2 ^ 32
  | _ => True

instance (last : ℕ) : DecidablePred (Timely last)
  | .insert ev => inferInstanceAs (Decidable (last ≤ ev.key.m_ts ∧ ev.key.m_ts < 2 ^ 63 ∧
      0 < ev.key.m_uid ∧ ev.key.m_uid < 2 ^ 32))
  | .peekNext | .removeNext | .remove _ => isTrue trivial

/-- The time of the last event taken as the next. -/
def lastAfter (last : ℕ) : Request → Option Event → ℕ
  | .removeNext, some ev => ev.key.m_ts
  | _, _ => last

/-- The runs, with the events inserted and not yet removed and the time of the last event taken as
the next. -/
inductive Run (reverse : Bool) : CalendarScheduler → Multiset Event → ℕ → Prop
  | start : Run reverse (start reverse) 0 0
  | step {s s' : CalendarScheduler} {q : Multiset Event} {last : ℕ} {r : Request}
    {ans : Option Event} (h : Run reverse s q last) (hr : Legal q r) (ht : Timely last r)
    (hs : s.step r = some (s', ans)) : Run reverse s' (after q r ans) (lastAfter last r ans)

/-- The uids are distinct and not zero. -/
structure Valid (q : Multiset Event) : Prop where
  distinct : DistinctUids q
  uid : ∀ ev ∈ q, 0 < ev.key.m_uid ∧ ev.key.m_uid < 2 ^ 32

section Run

variable {reverse : Bool} {s s' : CalendarScheduler} {q : Multiset Event} {last : ℕ} {r : Request}
  {ev : Event}

/-- There are fewer events than uids. -/
theorem Valid.card_lt (h : Valid q) : q.card < 2 ^ 32 := by
  have hnodup : (0 ::ₘ q.map fun ev => ev.key.m_uid).Nodup := by
    refine Multiset.nodup_cons.mpr ⟨?_, h.distinct⟩
    intro hmem
    obtain ⟨ev, hev, heq⟩ := Multiset.mem_map.mp hmem
    exact absurd heq (h.uid ev hev).1.ne'
  have hle : (0 ::ₘ q.map fun ev => ev.key.m_uid) ≤ Multiset.range (2 ^ 32) := by
    rw [Multiset.le_iff_subset hnodup]
    intro u hu
    rw [Multiset.mem_range]
    rcases Multiset.mem_cons.mp hu with rfl | hu
    · decide
    · obtain ⟨ev, hev, rfl⟩ := Multiset.mem_map.mp hu
      exact (h.uid ev hev).2
  have hcard := Multiset.card_le_card hle
  rw [Multiset.card_cons, Multiset.card_map, Multiset.card_range] at hcard
  omega

theorem Valid.after (h : Valid q) (hr : Legal q r) (ht : Timely last r) (ans : Option Event) :
    Valid (after q r ans) := by
  refine ⟨h.distinct.after hr ans, ?_⟩
  cases r with
  | insert ev =>
    intro x hx
    rcases Multiset.mem_cons.mp hx with rfl | hx
    · exact ht.2.2
    · exact h.uid x hx
  | peekNext => exact h.uid
  | removeNext =>
    cases ans with
    | none => exact h.uid
    | some ev => exact fun x hx => h.uid x (Multiset.mem_of_mem_erase hx)
  | remove ev => exact fun x hx => h.uid x (Multiset.mem_of_mem_erase hx)

theorem inv_start (reverse : Bool) : (start reverse).Inv 0 0 where
  stores := stores_init _ 0 (by decide) (by decide) (by decide)
  aligned := by
    refine ⟨Nat.two_pow_pos 63, fun x hx => absurd hx (Multiset.notMem_zero x), rfl, ?_⟩
    exact Nat.mod_eq_of_lt (top_lt Nat.one_pos (by decide) (Nat.two_pow_pos 63))
  lastPrio_eq := rfl
  qSize_eq := rfl

theorem Stores.withSize (h : s.Stores q) (ha : s.Aligned q) (hprio : s.m_lastPrio = last) {n : ℕ}
    (hn : n = q.card) : Inv { s with m_qSize := n } q last where
  stores := ⟨h.width_pos, h.width_lt, h.buckets_pos, h.length_eq, h.placed, h.sorted, h.stored,
    h.early⟩
  aligned := ⟨ha.prio_lt, ha.notBefore, ha.lastBucket_eq, ha.bucketTop_eq⟩
  lastPrio_eq := hprio
  qSize_eq := hn

/-- The size does not wrap. -/
theorem Inv.insert (h : s.Inv q last) (hv : Valid (ev ::ₘ q)) (hlast : last ≤ ev.key.m_ts)
    (hts : ev.key.m_ts < 2 ^ 63) : ∃ s', s.insert ev = some s' ∧ s'.Inv (ev ::ₘ q) last := by
  have hcard := hv.card_lt
  rw [Multiset.card_cons] at hcard
  have hins := h.stores.doInsert hts
  have hsize : (s.m_qSize + 1) % 2 ^ 32 = (ev ::ₘ q).card := by
    rw [h.qSize_eq, Multiset.card_cons, Nat.mod_eq_of_lt hcard]
  have haligned : (s.doInsert ev).Aligned (ev ::ₘ q) := by
    refine ⟨h.aligned.prio_lt, ?_, h.aligned.lastBucket_eq, h.aligned.bucketTop_eq⟩
    intro x hx
    rcases Multiset.mem_cons.mp hx with rfl | hx
    · exact h.lastPrio_eq.trans_le hlast
    · exact h.aligned.notBefore x hx
  exact (hins.withSize haligned h.lastPrio_eq hsize).resizeUp

/-- One event less. -/
theorem Inv.shrink (h : s.Inv q last) (hev : ev ∈ q) (hv : Valid q) :
    (s.m_qSize + 2 ^ 32 - 1) % 2 ^ 32 = (q.erase ev).card := by
  have hcard := hv.card_lt
  have herase := Multiset.card_erase_add_one hev
  rw [h.qSize_eq]
  omega

theorem Inv.qSize_ne (h : s.Inv q last) (hq : q ≠ 0) : s.m_qSize ≠ 0 := by
  rw [h.qSize_eq]
  exact fun heq => hq (Multiset.card_eq_zero.mp heq)

theorem Inv.removeNext (h : s.Inv q last) (hv : Valid q) (hq : q ≠ 0) :
    ∃ ev s', s.removeNext = some (ev, s') ∧ IsNext q ev ∧ s'.Inv (q.erase ev) ev.key.m_ts := by
  obtain ⟨ev, s₁, hev, hmem, hle, hs₁, ha₁, hprio, hsize, -⟩ :=
    h.stores.doRemoveNext h.aligned hq (h.qSize_ne hq)
  have hshrink := h.shrink hmem hv
  rw [← hsize] at hshrink
  obtain ⟨s', hs', hinv'⟩ := (hs₁.withSize ha₁ hprio hshrink).resizeDown
  refine ⟨ev, s', ?_, IsNext.of_le hv.distinct hmem hle, hinv'⟩
  unfold CalendarScheduler.removeNext
  rw [hev, Option.bind_eq_bind, Option.bind_some, hs']
  rfl

/-- The first event of a bucket with the uid is the one that is removed. -/
theorem eraseP_perm {b : List Event} (hb : ∀ x ∈ b, x ∈ q) (hd : DistinctUids q) (hev : ev ∈ b) :
    b.find? (fun x => x.key.m_uid == ev.key.m_uid) = some ev ∧
      (ev :: b.eraseP fun x => x.key.m_uid == ev.key.m_uid).Perm b := by
  obtain ⟨a, l₁, l₂, hl₁, ha, hl, herase⟩ :=
    List.exists_of_eraseP (p := fun x : Event => x.key.m_uid == ev.key.m_uid) hev
      (beq_self_eq_true _)
  have hmem : a ∈ b := by
    rw [hl]
    simp
  obtain rfl : a = ev := hd.eq (hb a hmem) (hb ev hev) (beq_iff_eq.mp ha)
  constructor
  · rw [hl, List.find?_append, List.find?_eq_none.mpr fun x hx => by simpa using hl₁ x hx]
    simp
  · rw [herase, hl]
    exact List.perm_middle.symm

theorem Inv.remove (h : s.Inv q last) (hv : Valid q) (hev : ev ∈ q) :
    ∃ s', s.remove ev = some s' ∧ s'.Inv (q.erase ev) last := by
  have hmem := h.stores.mem_iff.mp hev
  have hin : ∀ x ∈ bucket s.m_buckets (s.hash ev.key.m_ts), x ∈ q := by
    intro x hx
    rw [← h.stores.stored]
    exact mem_contents.mpr ⟨_, hx⟩
  obtain ⟨hfind, hperm⟩ := eraseP_perm hin hv.distinct hmem
  let s₁ : CalendarScheduler := { s with
    m_buckets := s.m_buckets.modify (s.hash ev.key.m_ts)
      (List.eraseP fun x => x.key.m_uid == ev.key.m_uid) }
  have hstores : s₁.Stores (q.erase ev) :=
    h.stores.take (h.stores.hash_lt _) hperm List.eraseP_sublist rfl rfl rfl rfl
  have haligned : s₁.Aligned (q.erase ev) :=
    ⟨h.aligned.prio_lt, fun x hx => h.aligned.notBefore x (Multiset.mem_of_mem_erase hx),
      h.aligned.lastBucket_eq, h.aligned.bucketTop_eq⟩
  obtain ⟨s', hs', hinv'⟩ := (hstores.withSize haligned h.lastPrio_eq rfl).resizeDown
  refine ⟨s', ?_, hinv'⟩
  have hne : q ≠ 0 := by
    rintro rfl
    exact absurd hev (Multiset.notMem_zero ev)
  unfold CalendarScheduler.remove
  rw [if_neg (h.qSize_ne hne), h.shrink hev hv]
  simp only [hfind, Option.bind_eq_bind, Option.bind_some]
  rw [guard, if_pos trivial]
  exact hs'

/-- One legal request at its time. -/
theorem Inv.step (h : s.Inv q last) (hv : Valid q) (hr : Legal q r) (ht : Timely last r) :
    ∃ s' ans, s.step r = some (s', ans) ∧ Answers q r ans ∧
      s'.Inv (Scheduler.after q r ans) (lastAfter last r ans) := by
  cases r with
  | insert ev =>
    obtain ⟨s', hs', hinv⟩ := h.insert (hv.after hr ht none) ht.1 ht.2.1
    refine ⟨s', none, ?_, rfl, hinv⟩
    change (s.insert ev).bind _ = _
    rw [hs']
    rfl
  | peekNext =>
    obtain ⟨ev, hev, hmem, hle⟩ := h.stores.peekNext h.aligned hr (h.qSize_ne hr)
    refine ⟨s, some ev, ?_, ⟨ev, rfl, IsNext.of_le hv.distinct hmem hle⟩, h⟩
    change s.peekNext.bind _ = _
    rw [hev]
    rfl
  | removeNext =>
    obtain ⟨ev, s', hev, hnext, hinv⟩ := h.removeNext hv hr
    refine ⟨s', some ev, ?_, ⟨ev, rfl, hnext⟩, hinv⟩
    change s.removeNext.bind _ = _
    rw [hev]
    rfl
  | remove ev =>
    obtain ⟨s', hs', hinv⟩ := h.remove hv hr
    refine ⟨s', none, ?_, rfl, hinv⟩
    change (s.remove ev).bind _ = _
    rw [hs']
    rfl

theorem Run.inv (h : Run reverse s q last) : s.Inv q last ∧ Valid q := by
  induction h with
  | start =>
    exact ⟨inv_start reverse, .zero, fun x hx => absurd hx (Multiset.notMem_zero x)⟩
  | step h hr ht hs ih =>
    obtain ⟨s', ans, heq, -, hinv⟩ := ih.1.step ih.2 hr ht
    rw [hs] at heq
    obtain ⟨rfl, rfl⟩ := Prod.mk.inj (Option.some.inj heq)
    exact ⟨hinv, ih.2.after hr ht _⟩

/-- In both configurations the calendar is a priority queue: every legal request in time is answered
rightly, and the buckets hold the events inserted and not yet removed. -/
theorem queue_of_run (h : Run reverse s q last) :
    contents s.m_buckets = q ∧ s.m_qSize = q.card ∧ 1 ≤ s.m_nBuckets ∧ 1 ≤ s.m_width ∧
      ∀ r, Legal q r → Timely last r → ∃ s' ans, s.step r = some (s', ans) ∧ Answers q r ans := by
  obtain ⟨hinv, hv⟩ := h.inv
  refine ⟨hinv.stores.stored, hinv.qSize_eq, hinv.stores.buckets_pos, hinv.stores.width_pos, ?_⟩
  intro r hr ht
  obtain ⟨s', ans, hs, hans, -⟩ := hinv.step hv hr ht
  exact ⟨s', ans, hs, hans⟩

/-- The requests one after the other, while they are legal and in time. -/
def exec (s : CalendarScheduler) (q : Multiset Event) (last : ℕ) :
    List Request → Option (CalendarScheduler × Multiset Event × ℕ)
  | [] => some (s, q, last)
  | r :: rs =>
    if Legal q r ∧ Timely last r then
      match s.step r with
      | some (s', ans) => exec s' (Scheduler.after q r ans) (lastAfter last r ans) rs
      | none => none
    else none

theorem Run.exec (h : Run reverse s q last) {rs : List Request} {q' : Multiset Event} {last' : ℕ}
    (he : exec s q last rs = some (s', q', last')) : Run reverse s' q' last' := by
  induction rs generalizing s q last with
  | nil =>
    cases he
    exact h
  | cons r rs ih =>
    unfold CalendarScheduler.exec at he
    split at he
    · next hr =>
      split at he
      · next hs => exact ih (.step h hr.1 hr.2 hs) he
      · cases he
    · cases he

end Run

/-- The event with the time stamp `ts` and the uid `uid`. -/
def event (ts uid : ℕ) : Event := ⟨uid, ⟨ts, uid, 0⟩⟩

/-- The fifth event doubles the number of buckets, and the last removal halves it. -/
def sevenEvents : List Request :=
  [.insert (event 3 4), .insert (event 9 5), .insert (event 5 6), .insert (event 9 7),
    .insert (event 12 8), .removeNext, .remove (event 9 7), .removeNext, .insert (event 30 9),
    .insert (event 7 10), .peekNext, .removeNext, .removeNext, .removeNext]

theorem queue_of_run_seven : ∃ s, exec (start true) 0 0 sevenEvents = some (s, {event 30 9}, 12) ∧
    s.m_nBuckets = 2 ∧ contents s.m_buckets = {event 30 9} ∧
    ∃ s' ans, s.step .removeNext = some (s', ans) ∧ Answers {event 30 9} .removeNext ans := by
  have hrun : (exec (start true) 0 0 sevenEvents).map (fun r => (r.1.m_nBuckets, r.2)) =
      some (2, {event 30 9}, 12) := by
    decide
  obtain ⟨⟨s, q, last⟩, hs, heq⟩ := Option.map_eq_some_iff.mp hrun
  obtain ⟨hn, hq⟩ := Prod.mk.inj heq
  obtain ⟨rfl, rfl⟩ := Prod.mk.inj hq
  obtain ⟨hcontents, -, -, -, hstep⟩ := queue_of_run (Run.start.exec hs)
  exact ⟨s, hs, hn, hcontents, hstep .removeNext (by decide) trivial⟩

end CalendarScheduler

end Ns3.Core
