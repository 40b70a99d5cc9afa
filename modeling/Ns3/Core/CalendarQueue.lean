import Ns3.Core.CalendarScheduler
import Mathlib.Data.Nat.ModEq

/-!
# The calendar scheduler is a priority queue

The next event is found in the first bucket of the current year that has an event before its top, or
after an empty year as the least of all. Resizing puts the same events into new buckets.
-/

namespace Ns3.Core

open Scheduler Lib.Buckets

namespace CalendarScheduler

/-! ## One bucket -/

/-- `a` may stand before `b` in a bucket. -/
def InOrder (reverse : Bool) (a b : Event) : Prop :=
  if reverse then b.key.order ≤ a.key.order else a.key.order ≤ b.key.order

section Bucket

variable {reverse : Bool} {b : List Event} {ev x : Event}

theorem InOrder.trans {a b c : Event} (h : InOrder reverse a b) (h' : InOrder reverse b c) :
    InOrder reverse a c := by
  cases reverse with
  | false =>
    change a.key.order ≤ c.key.order
    exact le_trans h h'
  | true =>
    change c.key.order ≤ a.key.order
    exact le_trans h' h

theorem inOrder_of_order {a b : Event} (h : order reverse a.key b.key = true) :
    InOrder reverse a b := by
  cases reverse with
  | false => exact (EventKey.less_iff.mp h).le
  | true =>
    change a.key.greater b.key = true at h
    rw [EventKey.greater_eq_less] at h
    exact (EventKey.less_iff.mp h).le

theorem inOrder_of_not_order {a b : Event} (h : ¬order reverse a.key b.key = true) :
    InOrder reverse b a := by
  rw [Bool.not_eq_true] at h
  cases reverse with
  | false => exact EventKey.less_eq_false_iff.mp h
  | true =>
    change a.key.greater b.key = false at h
    rw [EventKey.greater_eq_less] at h
    exact EventKey.less_eq_false_iff.mp h

theorem perm_insertEvent (reverse : Bool) (ev : Event) (b : List Event) :
    (insertEvent reverse ev b).Perm (ev :: b) := by
  induction b with
  | nil => exact .refl _
  | cons i b ih =>
    unfold insertEvent
    split
    · exact .refl _
    · exact (ih.cons i).trans (.swap ev i b)

theorem sorted_insertEvent (h : b.Pairwise (InOrder reverse)) :
    (insertEvent reverse ev b).Pairwise (InOrder reverse) := by
  induction b with
  | nil => exact List.pairwise_singleton _ _
  | cons i b ih =>
    obtain ⟨hi, hb⟩ := List.pairwise_cons.mp h
    unfold insertEvent
    split
    · next horder =>
      have hev := inOrder_of_order horder
      refine List.pairwise_cons.mpr ⟨?_, h⟩
      intro x hx
      rcases List.mem_cons.mp hx with rfl | hx
      · exact hev
      · exact hev.trans (hi x hx)
    · next horder =>
      have hev := inOrder_of_not_order horder
      refine List.pairwise_cons.mpr ⟨?_, ih hb⟩
      intro x hx
      rcases List.mem_cons.mp ((perm_insertEvent reverse ev b).mem_iff.mp hx) with rfl | hx
      · exact hev
      · exact hi x hx

theorem nextEvent_eq_none (h : nextEvent reverse b = none) : b = [] := by
  cases reverse with
  | false => exact List.head?_eq_none_iff.mp h
  | true => exact List.getLast?_eq_none_iff.mp h

/-- The next event of a bucket and what `Pop` leaves. -/
theorem nextEvent_perm (h : nextEvent reverse b = some ev) : (ev :: pop reverse b).Perm b := by
  cases reverse with
  | false =>
    obtain ⟨l, rfl⟩ := List.head?_eq_some_iff.mp h
    exact .refl _
  | true =>
    obtain ⟨l, rfl⟩ := List.getLast?_eq_some_iff.mp h
    change (ev :: (l ++ [ev]).dropLast).Perm _
    rw [List.dropLast_concat]
    exact (List.perm_append_singleton ev l).symm

theorem pop_sublist : (pop reverse b).Sublist b := by
  cases reverse with
  | false => exact List.tail_sublist b
  | true => exact List.dropLast_sublist b

/-- No event of a sorted bucket is before its next one. -/
theorem nextEvent_le (hs : b.Pairwise (InOrder reverse)) (h : nextEvent reverse b = some ev)
    (hx : x ∈ b) : ev.key.order ≤ x.key.order := by
  cases reverse with
  | false =>
    obtain ⟨l, rfl⟩ := List.head?_eq_some_iff.mp h
    rcases List.mem_cons.mp hx with rfl | hx
    · exact le_rfl
    · exact (List.pairwise_cons.mp hs).1 x hx
  | true =>
    obtain ⟨l, rfl⟩ := List.getLast?_eq_some_iff.mp h
    rcases List.mem_append.mp hx with hx | hx
    · exact (List.pairwise_append.mp hs).2.2 x hx ev (List.mem_singleton_self ev)
    · rw [List.mem_singleton.mp hx]

end Bucket

/-! ## Years -/

/-- The top of the bucket of a time below `2 ^ 63` does not wrap. -/
theorem top_lt {ts w : ℕ} (hw : 0 < w) (hw' : w < 2 ^ 64) (hts : ts < 2 ^ 63) :
    (ts / w + 1) * w < 2 ^ 64 := by
  have hle : ts / w * w ≤ ts := Nat.div_mul_le_self ts w
  rw [Nat.add_mul, Nat.one_mul]
  by_cases hbig : 2 ^ 63 < w
  · rw [Nat.div_eq_of_lt (by omega)]
    omega
  · omega

/-- The events are in the buckets of their times, each bucket in order. -/
structure Stores (s : CalendarScheduler) (q : Multiset Event) : Prop where
  width_pos : 0 < s.m_width
  width_lt : s.m_width < 2 ^ 64
  buckets_pos : 0 < s.m_nBuckets
  length_eq : s.m_buckets.length = s.m_nBuckets
  placed : Placed (fun ev => s.hash ev.key.m_ts) s.m_buckets
  sorted : ∀ i, (bucket s.m_buckets i).Pairwise (InOrder s.m_reverse)
  stored : contents s.m_buckets = q
  early : ∀ ev ∈ q, ev.key.m_ts < 2 ^ 63

/-- The last bucket is that of the last time, and no event is before it. -/
structure Aligned (s : CalendarScheduler) (q : Multiset Event) : Prop where
  prio_lt : s.m_lastPrio < 2 ^ 63
  notBefore : ∀ ev ∈ q, s.m_lastPrio ≤ ev.key.m_ts
  lastBucket_eq : s.m_lastBucket = s.hash s.m_lastPrio
  bucketTop_eq : s.m_bucketTop = (s.m_lastPrio / s.m_width + 1) * s.m_width

section Search

variable {s : CalendarScheduler} {q : Multiset Event} {ev : Event} {minKey : EventKey}

theorem Stores.hash_lt (h : s.Stores q) (ts : ℕ) : s.hash ts < s.m_buckets.length := by
  rw [h.length_eq]
  exact Nat.mod_lt _ h.buckets_pos

theorem Stores.mem_iff (h : s.Stores q) :
    ev ∈ q ↔ ev ∈ bucket s.m_buckets (s.hash ev.key.m_ts) := by
  rw [← h.stored]
  exact h.placed.mem_iff

/-- An event that is not after any other, with the bucket that it is the next one of. -/
structure Finds (s : CalendarScheduler) (q : Multiset Event) (i : ℕ) (ev : Event) : Prop where
  next : nextEvent s.m_reverse (bucket s.m_buckets i) = some ev
  mem : ev ∈ q
  hash_eq : s.hash ev.key.m_ts = i
  le : ∀ x ∈ q, ev.key.order ≤ x.key.order

/-- What is to be found. -/
def Search.Good (s : CalendarScheduler) (q : Multiset Event) : Search → Prop
  | .before i bucketTop ev =>
    Finds s q i ev ∧ bucketTop = (ev.key.m_ts / s.m_width + 1) * s.m_width
  | .least min => ∃ i ev, min = some (i, ev) ∧ Finds s q i ev

/-- The least event seen in the first `k` buckets from the `p`-th of all years on. -/
structure Seen (s : CalendarScheduler) (q : Multiset Event) (minKey : EventKey) (p k : ℕ)
    (min : Option (ℕ × Event)) : Prop where
  next : ∀ i ev, min = some (i, ev) →
    nextEvent s.m_reverse (bucket s.m_buckets i) = some ev ∧ ev ∈ q ∧ s.hash ev.key.m_ts = i
  le : ∀ j < k, ∀ x ∈ bucket s.m_buckets ((p + j) % s.m_nBuckets),
    (keyOf minKey min).order ≤ x.key.order

/-- After a year the loop is back at the first bucket. -/
theorem back_iff {p k n : ℕ} (hk : k < n) : ((p + k) % n + 1) % n = p % n ↔ k + 1 = n := by
  rw [Nat.mod_add_mod, Nat.add_assoc]
  constructor
  · intro h
    have hdvd : n ∣ p + (k + 1) - p := (Nat.modEq_iff_dvd' (by omega)).mp (Eq.symm h)
    rw [Nat.add_sub_cancel_left] at hdvd
    exact le_antisymm hk (Nat.le_of_dvd (by omega) hdvd)
  · rintro rfl
    exact Nat.add_mod_right p (k + 1)

/-- Each bucket has its turn in a year. -/
theorem exists_turn (p : ℕ) {r n : ℕ} (hr : r < n) : ∃ j < n, (p + j) % n = r := by
  refine ⟨(r + (n - p % n)) % n, Nat.mod_lt _ (by omega), ?_⟩
  have hp : p % n < n := Nat.mod_lt _ (by omega)
  rw [Nat.add_mod_mod, ← Nat.mod_add_mod]
  have hsum : p % n + (r + (n - p % n)) = r + n := by omega
  rw [hsum, Nat.add_mod_right, Nat.mod_eq_of_lt hr]

/-- After a year the least event seen is the least of all. -/
theorem Stores.least (h : s.Stores q) (hq : q ≠ 0) (hmin : ∀ ev ∈ q, ev.key.less minKey = true)
    {p : ℕ} {min : Option (ℕ × Event)} (hseen : Seen s q minKey p s.m_nBuckets min) :
    Search.Good s q (.least min) := by
  have hall : ∀ x ∈ q, (keyOf minKey min).order ≤ x.key.order := by
    intro x hx
    obtain ⟨j, hj, hturn⟩ :=
      exists_turn p (Nat.mod_lt (x.key.m_ts / s.m_width) h.buckets_pos)
    apply hseen.le j hj
    rw [hturn]
    exact h.mem_iff.mp hx
  obtain ⟨x, hx⟩ := Multiset.exists_mem_of_ne_zero hq
  cases min with
  | none => exact absurd (EventKey.less_iff.mp (hmin x hx)) (not_lt.mpr (hall x hx))
  | some found =>
    obtain ⟨i, ev⟩ := found
    obtain ⟨hnext, hev, hhash⟩ := hseen.next i ev rfl
    exact ⟨i, ev, rfl, hnext, hev, hhash, hall⟩

/-- An event of the bucket whose turn it is, in the year of the search. -/
theorem Stores.turn (h : s.Stores q) {v : ℕ} (hev : ev ∈ q) (hyear : ev.key.m_ts / s.m_width = v) :
    ev ∈ bucket s.m_buckets (v % s.m_nBuckets) := by
  have hmem := h.mem_iff.mp hev
  unfold hash at hmem
  rwa [hyear] at hmem

/-- The next event of a bucket is before its top: it is in the year of the search, and no event is
before it. -/
theorem Stores.finds (h : s.Stores q) {v : ℕ}
    (hlate : ∀ ev ∈ q, v ≤ ev.key.m_ts / s.m_width)
    (hnext : nextEvent s.m_reverse (bucket s.m_buckets (v % s.m_nBuckets)) = some ev)
    (htop : ev.key.m_ts < (v + 1) * s.m_width % 2 ^ 64) :
    Search.Good s q (.before (v % s.m_nBuckets) ((v + 1) * s.m_width % 2 ^ 64) ev) := by
  have hin := (nextEvent_perm hnext).subset List.mem_cons_self
  have hev : ev ∈ q := by
    rw [← h.stored]
    exact mem_contents.mpr ⟨_, hin⟩
  have hhash := h.placed _ ev hin
  have hts := h.early ev hev
  have hyear : ev.key.m_ts / s.m_width = v := by
    refine le_antisymm ?_ (hlate ev hev)
    by_contra hlt
    have hle : (v + 1) * s.m_width ≤ ev.key.m_ts :=
      (Nat.le_div_iff_mul_le h.width_pos).mp (by omega)
    rw [Nat.mod_eq_of_lt (by omega)] at htop
    omega
  refine ⟨⟨hnext, hev, hhash, ?_⟩, ?_⟩
  · intro x hx
    rcases (hlate x hx).eq_or_lt with heq | hlt
    · exact nextEvent_le (h.sorted _) hnext (h.turn hx heq.symm)
    · rw [← hyear] at hlt
      exact EventKey.order_le_iff.mpr (Or.inl (Nat.lt_of_div_lt_div hlt))
  · rw [hyear, Nat.mod_eq_of_lt]
    rw [← hyear]
    exact top_lt h.width_pos h.width_lt hts

/-- The next event of a bucket, if any, is not before its top: there is no event in the bucket in
the year of the search. -/
theorem Stores.later (h : s.Stores q) {v : ℕ}
    (hlate : ∀ ev ∈ q, v ≤ ev.key.m_ts / s.m_width)
    (hnext : ∀ ev, nextEvent s.m_reverse (bucket s.m_buckets (v % s.m_nBuckets)) = some ev →
      (v + 1) * s.m_width % 2 ^ 64 ≤ ev.key.m_ts) :
    ∀ ev ∈ q, v + 1 ≤ ev.key.m_ts / s.m_width := by
  intro ev hev
  refine Nat.lt_of_le_of_ne (hlate ev hev) ?_
  intro heq
  have hin := h.turn hev heq.symm
  cases hfirst : nextEvent s.m_reverse (bucket s.m_buckets (v % s.m_nBuckets)) with
  | none =>
    rw [nextEvent_eq_none hfirst] at hin
    exact absurd hin List.not_mem_nil
  | some next =>
    have htop := hnext next hfirst
    have hle := nextEvent_le (h.sorted _) hfirst hin
    rw [heq, Nat.mod_eq_of_lt (top_lt h.width_pos h.width_lt (h.early ev hev))] at htop
    have hlt : ev.key.m_ts < (ev.key.m_ts / s.m_width + 1) * s.m_width := by
      rw [Nat.mul_comm]
      exact Nat.lt_mul_div_succ _ h.width_pos
    rcases EventKey.order_le_iff.mp hle with hts | ⟨hts, -⟩
    · omega
    · omega

theorem Seen.empty {p k : ℕ} {min : Option (ℕ × Event)} (h : Seen s q minKey p k min)
    (hempty : nextEvent s.m_reverse (bucket s.m_buckets ((p + k) % s.m_nBuckets)) = none) :
    Seen s q minKey p (k + 1) min := by
  refine ⟨h.next, ?_⟩
  intro j hj x hx
  rcases Nat.lt_succ_iff_lt_or_eq.mp hj with hj | rfl
  · exact h.le j hj x hx
  · rw [nextEvent_eq_none hempty] at hx
    exact absurd hx List.not_mem_nil

theorem Seen.keep (hs : s.Stores q) {p k : ℕ} {min : Option (ℕ × Event)}
    (h : Seen s q minKey p k min)
    (hnext : nextEvent s.m_reverse (bucket s.m_buckets ((p + k) % s.m_nBuckets)) = some ev)
    (hless : ¬ev.key.less (keyOf minKey min) = true) : Seen s q minKey p (k + 1) min := by
  refine ⟨h.next, ?_⟩
  intro j hj x hx
  rcases Nat.lt_succ_iff_lt_or_eq.mp hj with hj | rfl
  · exact h.le j hj x hx
  · rw [Bool.not_eq_true, EventKey.less_eq_false_iff] at hless
    exact hless.trans (nextEvent_le (hs.sorted _) hnext hx)

theorem Seen.improve (hs : s.Stores q) {p k : ℕ} {min : Option (ℕ × Event)}
    (h : Seen s q minKey p k min)
    (hnext : nextEvent s.m_reverse (bucket s.m_buckets ((p + k) % s.m_nBuckets)) = some ev)
    (hless : ev.key.less (keyOf minKey min) = true) :
    Seen s q minKey p (k + 1) (some ((p + k) % s.m_nBuckets, ev)) := by
  have hin := (nextEvent_perm hnext).subset List.mem_cons_self
  constructor
  · intro i ev' heq
    obtain ⟨rfl, rfl⟩ := Prod.mk.inj (Option.some.inj heq)
    refine ⟨hnext, ?_, hs.placed _ ev hin⟩
    rw [← hs.stored]
    exact mem_contents.mpr ⟨_, hin⟩
  · intro j hj x hx
    rcases Nat.lt_succ_iff_lt_or_eq.mp hj with hj | rfl
    · exact (EventKey.less_iff.mp hless).le.trans (h.le j hj x hx)
    · exact nextEvent_le (hs.sorted _) hnext hx

/-- The loop finds the least event, if there is none before the bucket it has come to. -/
theorem Stores.searchLoop (h : s.Stores q) {p : ℕ} (hp : s.m_lastBucket = p % s.m_nBuckets)
    (hq : q ≠ 0) (hmin : ∀ ev ∈ q, ev.key.less minKey = true) {n k : ℕ}
    {min : Option (ℕ × Event)} (hk : k + n = s.m_nBuckets) (hn : 0 < n)
    (hlate : ∀ ev ∈ q, p + k ≤ ev.key.m_ts / s.m_width) (hseen : Seen s q minKey p k min) :
    ∃ found, s.searchLoop minKey n ((p + k) % s.m_nBuckets)
        ((p + k + 1) * s.m_width % 2 ^ 64) min = some found ∧ found.Good s q := by
  induction n generalizing k min with
  | zero => exact absurd hn (lt_irrefl 0)
  | succ n ih =>
    have hturn : ∀ min', Seen s q minKey p (k + 1) min' →
        (∀ ev ∈ q, p + k + 1 ≤ ev.key.m_ts / s.m_width) →
        ∃ found, (if ((p + k) % s.m_nBuckets + 1) % s.m_nBuckets = s.m_lastBucket then
            some (.least min')
          else s.searchLoop minKey n (((p + k) % s.m_nBuckets + 1) % s.m_nBuckets)
            (((p + k + 1) * s.m_width % 2 ^ 64 + s.m_width) % 2 ^ 64) min') = some found ∧
          found.Good s q := by
      intro min' hseen' hlate'
      rw [hp]
      by_cases hback : k + 1 = s.m_nBuckets
      · rw [if_pos ((back_iff (by omega)).mpr hback)]
        rw [hback] at hseen'
        exact ⟨_, rfl, h.least hq hmin hseen'⟩
      · rw [if_neg fun heq => hback ((back_iff (by omega)).mp heq)]
        have hrest := ih (k := k + 1) (by omega) (by omega) hlate' hseen'
        have hnextTop : ((p + k + 1) * s.m_width % 2 ^ 64 + s.m_width) % 2 ^ 64 =
            (p + (k + 1) + 1) * s.m_width % 2 ^ 64 := by
          rw [Nat.mod_add_mod, ← Nat.succ_mul]
          rfl
        rw [hnextTop, Nat.mod_add_mod]
        exact hrest
    unfold CalendarScheduler.searchLoop
    cases hnext : nextEvent s.m_reverse (bucket s.m_buckets ((p + k) % s.m_nBuckets)) with
    | none =>
      refine hturn min (hseen.empty hnext) (h.later hlate ?_)
      intro ev hev
      rw [hnext] at hev
      cases hev
    | some next =>
      dsimp only
      split
      · next htop => exact ⟨_, rfl, h.finds hlate hnext htop⟩
      · next htop =>
        have hlate' := h.later hlate fun ev hev => by
          rw [hnext] at hev
          obtain rfl := Option.some.inj hev
          exact not_lt.mp htop
        split
        · next hless => exact hturn _ (hseen.improve h hnext hless) hlate'
        · next hless => exact hturn _ (hseen.keep h hnext hless) hlate'

/-- The search finds the event with the smallest key. -/
theorem Stores.search (h : s.Stores q) (ha : s.Aligned q) (hq : q ≠ 0)
    (hmin : ∀ ev ∈ q, ev.key.less minKey = true) :
    ∃ found, s.search minKey = some found ∧ found.Good s q := by
  have hlate : ∀ ev ∈ q, s.m_lastPrio / s.m_width + 0 ≤ ev.key.m_ts / s.m_width := by
    intro ev hev
    exact Nat.div_le_div_right (ha.notBefore ev hev)
  have hnone : Seen s q minKey (s.m_lastPrio / s.m_width) 0 none := by
    constructor
    · intro i ev heq
      cases heq
    · intro j hj
      exact absurd hj (Nat.not_lt_zero j)
  have hloop := h.searchLoop ha.lastBucket_eq hq hmin (Nat.zero_add _) h.buckets_pos hlate hnone
  have htop := top_lt h.width_pos h.width_lt ha.prio_lt
  rw [Nat.add_zero, Nat.mod_eq_of_lt htop, ← ha.bucketTop_eq] at hloop
  unfold CalendarScheduler.search
  rw [ha.lastBucket_eq]
  exact hloop

end Search

/-! ## Events that come and go -/

section Events

variable {s s' : CalendarScheduler} {q : Multiset Event} {ev : Event}

theorem Stores.doInsert (h : s.Stores q) (hev : ev.key.m_ts < 2 ^ 63) :
    (s.doInsert ev).Stores (ev ::ₘ q) where
  width_pos := h.width_pos
  width_lt := h.width_lt
  buckets_pos := h.buckets_pos
  length_eq := by
    change (s.m_buckets.modify _ _).length = s.m_nBuckets
    rw [List.length_modify, h.length_eq]
  placed := by
    refine h.placed.modify (h.hash_lt _) ?_
    intro x hx
    rcases List.mem_cons.mp ((perm_insertEvent _ ev _).mem_iff.mp hx) with rfl | hx
    · rfl
    · exact h.placed _ x hx
  sorted := by
    intro i
    change (bucket (s.m_buckets.modify _ _) i).Pairwise (InOrder s.m_reverse)
    rw [bucket_modify (h.hash_lt _)]
    split
    · exact sorted_insertEvent (h.sorted _)
    · exact h.sorted i
  stored := by
    rw [← h.stored]
    exact contents_insert (h.hash_lt _) (perm_insertEvent _ ev _)
  early := by
    intro x hx
    rcases Multiset.mem_cons.mp hx with rfl | hx
    · exact hev
    · exact h.early x hx

/-- A bucket loses an event, and only the last time and what belongs to it change besides. -/
theorem Stores.take (h : s.Stores q) {f : List Event → List Event} {i : ℕ}
    (hi : i < s.m_buckets.length)
    (hperm : (ev :: f (bucket s.m_buckets i)).Perm (bucket s.m_buckets i))
    (hsub : (f (bucket s.m_buckets i)).Sublist (bucket s.m_buckets i))
    (hbuckets : s'.m_buckets = s.m_buckets.modify i f) (hn : s'.m_nBuckets = s.m_nBuckets)
    (hw : s'.m_width = s.m_width) (hr : s'.m_reverse = s.m_reverse) :
    s'.Stores (q.erase ev) := by
  have hstored : ev ::ₘ contents s'.m_buckets = q := by
    rw [hbuckets, ← h.stored]
    exact contents_take hi hperm
  have herase : contents s'.m_buckets = q.erase ev := by
    rw [← hstored, Multiset.erase_cons_head]
  have hhash : ∀ ts, s'.hash ts = s.hash ts := by
    intro ts
    unfold hash
    rw [hn, hw]
  refine ⟨hw ▸ h.width_pos, hw ▸ h.width_lt, hn ▸ h.buckets_pos, ?_, ?_, ?_, herase, ?_⟩
  · rw [hbuckets, hn, List.length_modify, h.length_eq]
  · rw [hbuckets]
    simp only [hhash]
    exact h.placed.modify hi fun y hy => h.placed i y (hsub.subset hy)
  · intro j
    rw [hbuckets, hr, bucket_modify hi]
    split
    · exact (h.sorted i).sublist hsub
    · exact h.sorted j
  · intro x hx
    exact h.early x (Multiset.mem_of_mem_erase hx)

theorem Stores.less_max (h : s.Stores q) (uid context : ℕ) :
    ∀ ev ∈ q, ev.key.less ⟨2 ^ 64 - 1, uid, context⟩ = true := by
  intro ev hev
  have hts := h.early ev hev
  rw [EventKey.less_iff, EventKey.order_lt_iff]
  left
  change ev.key.m_ts < 2 ^ 64 - 1
  omega

/-- The event with the smallest key is taken, and its time is the last one. -/
theorem Stores.doRemoveNext (h : s.Stores q) (ha : s.Aligned q) (hq : q ≠ 0)
    (hsize : s.m_qSize ≠ 0) :
    ∃ ev s', s.doRemoveNext = some (ev, s') ∧ ev ∈ q ∧ (∀ x ∈ q, ev.key.order ≤ x.key.order) ∧
      s'.Stores (q.erase ev) ∧ s'.Aligned (q.erase ev) ∧ s'.m_lastPrio = ev.key.m_ts ∧
      s'.m_qSize = s.m_qSize ∧ s'.m_nBuckets = s.m_nBuckets := by
  obtain ⟨found, hfound, hgood⟩ := h.search ha hq (h.less_max 0 (2 ^ 32 - 1))
  unfold CalendarScheduler.doRemoveNext
  rw [if_neg hsize, hfound, Option.bind_eq_bind, Option.bind_some]
  have haligned : ∀ (s' : CalendarScheduler) (ev : Event), ev ∈ q →
      (∀ x ∈ q, ev.key.order ≤ x.key.order) → s'.m_lastPrio = ev.key.m_ts →
      s'.m_lastBucket = s'.hash ev.key.m_ts →
      s'.m_bucketTop = (ev.key.m_ts / s'.m_width + 1) * s'.m_width → s'.Aligned (q.erase ev) := by
    intro s' ev hev hle hprio hbucket htop
    refine ⟨hprio ▸ h.early ev hev, ?_, hprio ▸ hbucket, hprio ▸ htop⟩
    intro x hx
    rw [hprio]
    rcases EventKey.order_le_iff.mp (hle x (Multiset.mem_of_mem_erase hx)) with hts | ⟨hts, -⟩
    · exact hts.le
    · exact hts.le
  cases found with
  | before i bucketTop ev =>
    obtain ⟨⟨hnext, hev, hhash, hle⟩, htop⟩ := hgood
    have hi : i < s.m_buckets.length := hhash ▸ h.hash_lt _
    refine ⟨ev, _, rfl, hev, hle, ?_, ?_, rfl, rfl, rfl⟩
    · exact h.take hi (nextEvent_perm hnext) pop_sublist rfl rfl rfl rfl
    · exact haligned _ ev hev hle rfl hhash.symm htop
  | least min =>
    obtain ⟨i, ev, rfl, hnext, hev, hhash, hle⟩ := hgood
    have hi : i < s.m_buckets.length := hhash ▸ h.hash_lt _
    have htop := Nat.mod_eq_of_lt (top_lt h.width_pos h.width_lt (h.early ev hev))
    dsimp only
    rw [hnext, Option.bind_eq_bind, Option.bind_some]
    refine ⟨ev, _, rfl, hev, hle, ?_, ?_, rfl, rfl, rfl⟩
    · exact h.take hi (nextEvent_perm hnext) pop_sublist rfl rfl rfl rfl
    · exact haligned _ ev hev hle rfl rfl htop

theorem Stores.peekNext (h : s.Stores q) (ha : s.Aligned q) (hq : q ≠ 0) (hsize : s.m_qSize ≠ 0) :
    ∃ ev, s.peekNext = some ev ∧ ev ∈ q ∧ ∀ x ∈ q, ev.key.order ≤ x.key.order := by
  obtain ⟨found, hfound, hgood⟩ := h.search ha hq (h.less_max (2 ^ 32 - 1) 0)
  unfold CalendarScheduler.peekNext
  rw [if_neg hsize, hfound, Option.bind_eq_bind, Option.bind_some]
  cases found with
  | before i bucketTop ev => exact ⟨ev, rfl, hgood.1.mem, hgood.1.le⟩
  | least min =>
    obtain ⟨i, ev, rfl, hfinds⟩ := hgood
    exact ⟨ev, rfl, hfinds.mem, hfinds.le⟩

/-! ## Resizing -/

theorem stores_init (s : CalendarScheduler) {nBuckets width : ℕ} (startPrio : ℕ) (hn : 0 < nBuckets)
    (hw : 0 < width) (hw' : width < 2 ^ 64) : (s.init nBuckets width startPrio).Stores 0 where
  width_pos := hw
  width_lt := hw'
  buckets_pos := hn
  length_eq := List.length_replicate
  placed := by
    intro i x hx
    change x ∈ bucket (List.replicate nBuckets []) i at hx
    rw [bucket_replicate] at hx
    exact absurd hx List.not_mem_nil
  sorted := by
    intro i
    change (bucket (List.replicate nBuckets []) i).Pairwise _
    rw [bucket_replicate]
    exact .nil
  stored := contents_replicate nBuckets
  early := fun x hx => absurd hx (Multiset.notMem_zero x)

/-- Only the buckets differ. -/
def SameTimes (s s' : CalendarScheduler) : Prop :=
  ∃ buckets, s' = { s with m_buckets := buckets }

theorem SameTimes.trans {t : CalendarScheduler} (h : SameTimes s s') (h' : SameTimes s' t) :
    SameTimes s t := by
  obtain ⟨_, rfl⟩ := h
  obtain ⟨b, rfl⟩ := h'
  exact ⟨b, rfl⟩

theorem Stores.foldl_doInsert (h : s.Stores q) {evs : List Event}
    (hevs : ∀ ev ∈ evs, ev.key.m_ts < 2 ^ 63) :
    (evs.foldl CalendarScheduler.doInsert s).Stores (evs + q) ∧
      SameTimes s (evs.foldl CalendarScheduler.doInsert s) := by
  induction evs generalizing s q with
  | nil =>
    refine ⟨?_, s.m_buckets, rfl⟩
    rw [Multiset.coe_nil, zero_add]
    exact h
  | cons ev evs ih =>
    have hins := h.doInsert (hevs ev List.mem_cons_self)
    obtain ⟨hrest, hsame⟩ := ih hins fun x hx => hevs x (List.mem_cons_of_mem _ hx)
    refine ⟨?_, SameTimes.trans ⟨_, rfl⟩ hsame⟩
    rw [List.foldl_cons, ← Multiset.cons_coe, Multiset.cons_add, ← Multiset.add_cons]
    exact hrest

/-- The samples are taken out. -/
theorem Stores.takeSamples {n : ℕ} (h : s.Stores q) (ha : s.Aligned q) (hn : n ≤ q.card)
    (hsize : s.m_qSize ≠ 0) :
    ∃ samples s' rest, CalendarScheduler.takeSamples n s = some (samples, s') ∧
      samples + rest = q ∧ s'.Stores rest ∧ samples.length = n ∧ s'.m_qSize = s.m_qSize ∧
      s'.m_nBuckets = s.m_nBuckets := by
  induction n generalizing s q with
  | zero => exact ⟨[], s, q, rfl, zero_add q, h, rfl, rfl, rfl⟩
  | succ n ih =>
    have hq : q ≠ 0 := by
      rintro rfl
      simp at hn
    obtain ⟨ev, s₁, hev, hmem, -, hs₁, ha₁, -, hsize₁, hbuckets₁⟩ := h.doRemoveNext ha hq hsize
    have hcard := Multiset.card_erase_add_one hmem
    obtain ⟨samples, s', rest, htake, hsum, hs', hlen, hsize', hbuckets'⟩ :=
      ih hs₁ ha₁ (by omega) (hsize₁ ▸ hsize)
    refine ⟨ev :: samples, s', rest, ?_, ?_, hs', congrArg (· + 1) hlen, hsize'.trans hsize₁,
      hbuckets'.trans hbuckets₁⟩
    · unfold CalendarScheduler.takeSamples
      rw [hev, Option.bind_eq_bind, Option.bind_some, htake]
      rfl
    · rw [← Multiset.cons_coe, Multiset.cons_add, hsum]
      exact Multiset.cons_erase hmem

/-- The samples are put back, and the width is not zero. -/
theorem Stores.calculateNewWidth (h : s.Stores q) (ha : s.Aligned q) (hsize : s.m_qSize = q.card) :
    ∃ w s', s.calculateNewWidth = some (w, s') ∧ 0 < w ∧ w < 2 ^ 64 ∧ s'.Stores q ∧
      s'.m_lastPrio = s.m_lastPrio ∧ s'.m_qSize = s.m_qSize := by
  unfold CalendarScheduler.calculateNewWidth
  split
  · exact ⟨1, s, rfl, Nat.one_pos, by decide, h, rfl, rfl⟩
  · next hlarge =>
    have hn : nSamples s.m_qSize ≤ q.card := by
      unfold nSamples
      rw [← hsize]
      split
      · exact min_le_left _ _
      · exact (min_le_left _ _).trans (by omega)
    obtain ⟨samples, s₁, rest, htake, hsum, hs₁, -, hsize₁, -⟩ :=
      h.takeSamples ha hn (by omega)
    have hearly : ∀ ev ∈ samples, ev.key.m_ts < 2 ^ 63 := by
      intro ev hev
      apply h.early
      rw [← hsum]
      exact Multiset.mem_add.mpr (Or.inl hev)
    obtain ⟨hback, buckets, hsame⟩ := hs₁.foldl_doInsert hearly
    rw [hsum] at hback
    rw [htake, Option.bind_eq_bind, Option.bind_some]
    refine ⟨_, _, rfl, ?_, ?_, ?_, rfl, ?_⟩
    · exact Nat.lt_of_lt_of_le Nat.one_pos (le_max_right _ _)
    · exact max_lt (Nat.mod_lt _ (by decide)) (by decide)
    · exact ⟨hback.width_pos, hback.width_lt, hback.buckets_pos, hback.length_eq, hback.placed,
        hback.sorted, hback.stored, hback.early⟩
    · change (samples.foldl CalendarScheduler.doInsert s₁).m_qSize = s.m_qSize
      rw [hsame]
      exact hsize₁

/-- All events are put into the new buckets. -/
theorem Stores.doResize (h : s.Stores q) (hprio : s.m_lastPrio < 2 ^ 63)
    (hnot : ∀ ev ∈ q, s.m_lastPrio ≤ ev.key.m_ts) {newSize newWidth : ℕ} (hn : 0 < newSize)
    (hw : 0 < newWidth) (hw' : newWidth < 2 ^ 64) :
    (s.doResize newSize newWidth).Stores q ∧ (s.doResize newSize newWidth).Aligned q ∧
      (s.doResize newSize newWidth).m_lastPrio = s.m_lastPrio ∧
      (s.doResize newSize newWidth).m_qSize = s.m_qSize := by
  have hall : (s.m_buckets.flatten : Multiset Event) = q := h.stored
  have hearly : ∀ ev ∈ s.m_buckets.flatten, ev.key.m_ts < 2 ^ 63 := by
    intro ev hev
    apply h.early
    rw [← hall]
    exact hev
  obtain ⟨hstores, buckets, hsame⟩ :=
    (stores_init s s.m_lastPrio hn hw hw').foldl_doInsert hearly
  rw [add_zero, hall] at hstores
  unfold CalendarScheduler.doResize
  refine ⟨hstores, ?_, ?_, ?_⟩
  · rw [hsame]
    exact ⟨hprio, hnot, rfl, Nat.mod_eq_of_lt (top_lt hw hw' hprio)⟩
  · rw [hsame]
    rfl
  · rw [hsame]
    rfl

/-- What holds between the requests; `last` is the time of the last event removed as the next. -/
structure Inv (s : CalendarScheduler) (q : Multiset Event) (last : ℕ) : Prop where
  stores : s.Stores q
  aligned : s.Aligned q
  lastPrio_eq : s.m_lastPrio = last
  qSize_eq : s.m_qSize = q.card

theorem Inv.resize {last : ℕ} (h : s.Inv q last) {newSize : ℕ} (hn : 0 < newSize) :
    ∃ s', s.resize newSize = some s' ∧ s'.Inv q last := by
  obtain ⟨w, s₁, hwidth, hw, hw', hs₁, hprio, hsize⟩ :=
    h.stores.calculateNewWidth h.aligned h.qSize_eq
  have hnot : ∀ ev ∈ q, s₁.m_lastPrio ≤ ev.key.m_ts := hprio ▸ h.aligned.notBefore
  obtain ⟨hstores, haligned, hprio', hsize'⟩ :=
    hs₁.doResize (hprio ▸ h.aligned.prio_lt) hnot hn hw hw'
  refine ⟨_, ?_, hstores, haligned, ?_, ?_⟩
  · unfold CalendarScheduler.resize
    rw [hwidth]
    rfl
  · rw [hprio', hprio, h.lastPrio_eq]
  · rw [hsize', hsize, h.qSize_eq]

theorem Inv.resizeUp {last : ℕ} (h : s.Inv q last) :
    ∃ s', s.resizeUp = some s' ∧ s'.Inv q last := by
  have hn := h.stores.buckets_pos
  unfold CalendarScheduler.resizeUp
  split
  · exact h.resize (by omega)
  · exact ⟨s, rfl, h⟩

/-- A single bucket is not halved. -/
theorem Inv.resizeDown {last : ℕ} (h : s.Inv q last) :
    ∃ s', s.resizeDown = some s' ∧ s'.Inv q last := by
  unfold CalendarScheduler.resizeDown
  split
  · exact h.resize (by omega)
  · exact ⟨s, rfl, h⟩

end Events

end CalendarScheduler

end Ns3.Core
