import Mathlib.Algebra.Order.Ring.Int
import Ns3.Core.Scheduler
import Ns3.Lib.Buckets

/-!
# The calendar scheduler

The scheduler that keeps its events in buckets by their time, as a calendar keeps them by the day of
the year. The times are unsigned integers of 64 bits, the counts are of 32 bits.
-/

namespace Ns3.Core

open Scheduler Lib.Buckets

structure CalendarScheduler where
  m_buckets : List (List Event)
  m_nBuckets : ℕ
  m_width : ℕ
  m_lastBucket : ℕ
  m_bucketTop : ℕ
  m_lastPrio : ℕ
  m_qSize : ℕ
  m_reverse : Bool
deriving DecidableEq, Repr

namespace CalendarScheduler

/-! ## The order in a bucket, as `SetReverse` chooses it -/

def nextEvent (reverse : Bool) (bucket : List Event) : Option Event :=
  if reverse then bucket.getLast? else bucket.head?

def order (reverse : Bool) (a b : EventKey) : Bool :=
  if reverse then a.greater b else a.less b

def pop (reverse : Bool) (bucket : List Event) : List Event :=
  if reverse then bucket.dropLast else bucket.tail

/-! ## Buckets and years -/

def hash (s : CalendarScheduler) (ts : ℕ) : ℕ := ts / s.m_width % s.m_nBuckets

def init (s : CalendarScheduler) (nBuckets width startPrio : ℕ) : CalendarScheduler :=
  { s with
    m_buckets := List.replicate nBuckets []
    m_nBuckets := nBuckets
    m_width := width
    m_lastPrio := startPrio
    m_lastBucket := startPrio / width % nBuckets
    m_bucketTop := (startPrio / width + 1) * width % 2 ^ 64 }

/-- The constructor, and `SetReverse`. -/
def start (reverse : Bool) : CalendarScheduler := init ⟨[], 0, 0, 0, 0, 0, 0, reverse⟩ 2 1 0

/-- The loop of `DoInsert` over a bucket. -/
def insertEvent (reverse : Bool) (ev : Event) : List Event → List Event
  | [] => [ev]
  | i :: bucket =>
    if order reverse ev.key i.key then ev :: i :: bucket else i :: insertEvent reverse ev bucket

def doInsert (s : CalendarScheduler) (ev : Event) : CalendarScheduler :=
  { s with
    m_buckets := s.m_buckets.modify (s.hash ev.key.m_ts) (insertEvent s.m_reverse ev) }

/-- How the loop of `PeekNext` and `DoRemoveNext` ends: with an event before the top of its bucket,
or after a whole year with the least of the events seen and its bucket. -/
inductive Search
  | before (i bucketTop : ℕ) (next : Event)
  | least (min : Option (ℕ × Event))
deriving Repr

def keyOf (minKey : EventKey) : Option (ℕ × Event) → EventKey
  | none => minKey
  | some (_, ev) => ev.key

/-- The loop of `PeekNext` and `DoRemoveNext`; `minKey` is the key to begin with, `none` means more
than `n` turns. -/
def searchLoop (s : CalendarScheduler) (minKey : EventKey) :
    ℕ → ℕ → ℕ → Option (ℕ × Event) → Option Search
  | 0, _, _, _ => none
  | n + 1, i, bucketTop, min =>
    let turn := fun min =>
      let i := (i + 1) % s.m_nBuckets
      if i = s.m_lastBucket then some (.least min)
      else s.searchLoop minKey n i ((bucketTop + s.m_width) % 2 ^ 64) min
    match nextEvent s.m_reverse (bucket s.m_buckets i) with
    | none => turn min
    | some next =>
      if next.key.m_ts < bucketTop then some (.before i bucketTop next)
      else if next.key.less (keyOf minKey min) then turn (some (i, next))
      else turn min

def search (s : CalendarScheduler) (minKey : EventKey) : Option Search :=
  s.searchLoop minKey s.m_nBuckets s.m_lastBucket s.m_bucketTop none

/-- `PeekNext`; `none` is the failed assertion. -/
def peekNext (s : CalendarScheduler) : Option Event :=
  if s.m_qSize = 0 then none
  else do
    let found ← s.search ⟨2 ^ 64 - 1, 2 ^ 32 - 1, 0⟩
    match found with
    | .before _ _ next => some next
    | .least (some (_, minEvent)) => some minEvent
    | .least none => some ⟨0, ⟨2 ^ 64 - 1, 2 ^ 32 - 1, 0⟩⟩

/-- `DoRemoveNext`; `none` is the failed assertion, or an access to the bucket of number -1. -/
def doRemoveNext (s : CalendarScheduler) : Option (Event × CalendarScheduler) :=
  if s.m_qSize = 0 then none
  else do
    let found ← s.search ⟨2 ^ 64 - 1, 0, 2 ^ 32 - 1⟩
    match found with
    | .before i bucketTop next =>
      some (next, { s with
        m_lastBucket := i
        m_lastPrio := next.key.m_ts
        m_bucketTop := bucketTop
        m_buckets := s.m_buckets.modify i (pop s.m_reverse) })
    | .least (some (minBucket, min)) => do
      let next ← nextEvent s.m_reverse (bucket s.m_buckets minBucket)
      some (next, { s with
        m_lastPrio := min.key.m_ts
        m_lastBucket := s.hash min.key.m_ts
        m_bucketTop := (min.key.m_ts / s.m_width + 1) * s.m_width % 2 ^ 64
        m_buckets := s.m_buckets.modify minBucket (pop s.m_reverse) })
    | .least none => none

/-! ## Resizing -/

/-- The first `n` events are taken. -/
def takeSamples : ℕ → CalendarScheduler → Option (List Event × CalendarScheduler)
  | 0, s => some ([], s)
  | n + 1, s => do
    let r ← s.doRemoveNext
    let rest ← takeSamples n r.2
    some (r.1 :: rest.1, rest.2)

def nSamples (qSize : ℕ) : ℕ := min (if qSize ≤ 5 then qSize else 5 + qSize / 10) 25

/-- The times between the samples. -/
def separations (samples : List Event) : List ℕ :=
  samples.zipWith (fun cur next => (next.key.m_ts + 2 ^ 64 - cur.key.m_ts) % 2 ^ 64) samples.tail

/-- The inter-time average over the samples, three times and without the large ones. -/
def widthOf (samples : List Event) : ℕ :=
  let totalSeparation := (separations samples).sum % 2 ^ 64
  let twiceAvg := totalSeparation / (samples.length - 1) * 2 % 2 ^ 64
  let totalSeparation := ((separations samples).filter fun diff => diff ≤ twiceAvg).sum % 2 ^ 64
  max (totalSeparation * 3 % 2 ^ 64) 1

def calculateNewWidth (s : CalendarScheduler) : Option (ℕ × CalendarScheduler) :=
  if s.m_qSize < 2 then some (1, s)
  else do
    let r ← takeSamples (nSamples s.m_qSize) s
    let s' := r.1.foldl doInsert r.2
    some (widthOf r.1, { s' with
      m_lastBucket := s.m_lastBucket
      m_bucketTop := s.m_bucketTop
      m_lastPrio := s.m_lastPrio })

def doResize (s : CalendarScheduler) (newSize newWidth : ℕ) : CalendarScheduler :=
  s.m_buckets.flatten.foldl doInsert (s.init newSize newWidth s.m_lastPrio)

def resize (s : CalendarScheduler) (newSize : ℕ) : Option CalendarScheduler := do
  let r ← s.calculateNewWidth
  some (r.2.doResize newSize r.1)

def resizeUp (s : CalendarScheduler) : Option CalendarScheduler :=
  if s.m_qSize > s.m_nBuckets * 2 ∧ s.m_nBuckets < 32768 then s.resize (s.m_nBuckets * 2)
  else some s

def resizeDown (s : CalendarScheduler) : Option CalendarScheduler :=
  if s.m_qSize < s.m_nBuckets / 2 then s.resize (s.m_nBuckets / 2) else some s

/-! ## The interface -/

def insert (s : CalendarScheduler) (ev : Event) : Option CalendarScheduler :=
  { s.doInsert ev with m_qSize := (s.m_qSize + 1) % 2 ^ 32 }.resizeUp

def removeNext (s : CalendarScheduler) : Option (Event × CalendarScheduler) := do
  let r ← s.doRemoveNext
  let s ← { r.2 with m_qSize := (r.2.m_qSize + 2 ^ 32 - 1) % 2 ^ 32 }.resizeDown
  some (r.1, s)

/-- `Remove`; `none` is a failed assertion. -/
def remove (s : CalendarScheduler) (ev : Event) : Option CalendarScheduler :=
  if s.m_qSize = 0 then none
  else do
    let i := s.hash ev.key.m_ts
    let found ← (bucket s.m_buckets i).find? fun x => x.key.m_uid == ev.key.m_uid
    guard (ev.impl = found.impl)
    { s with
      m_buckets := s.m_buckets.modify i (List.eraseP fun x => x.key.m_uid == ev.key.m_uid)
      m_qSize := (s.m_qSize + 2 ^ 32 - 1) % 2 ^ 32 }.resizeDown

def step (s : CalendarScheduler) : Request → Option (CalendarScheduler × Option Event)
  | .insert ev => do
    let s ← s.insert ev
    some (s, none)
  | .peekNext => do
    let ev ← s.peekNext
    some (s, some ev)
  | .removeNext => do
    let r ← s.removeNext
    some (r.2, some r.1)
  | .remove ev => do
    let s ← s.remove ev
    some (s, none)

end CalendarScheduler

end Ns3.Core
