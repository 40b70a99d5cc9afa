import Ns3.Network.SequenceNumber
import Mathlib.Data.Set.Basic

/-!
# TcpRxBuffer

The receive buffer of a TCP socket. `m_data` is a `std::map` in the order of the sequence numbers.
`none` stands for a failed assertion or an iterator at the end of the map.
-/

namespace Ns3.Internet

open Ns3.Network

/-- `TcpOptionSack::SackBlock`. -/
abbrev SackBlock := SequenceNumber32 × SequenceNumber32

/-- `CreateFragment` of a packet. -/
def createFragment (p : List UInt8) (start length : ℕ) : Option (List UInt8) :=
  if p.length ≥ start + length then some ((p.drop start).take length) else none

structure TcpRxBuffer where
  m_nextRxSeq : SequenceNumber32
  m_gotFin : Bool := false
  m_finSeq : SequenceNumber32 := ⟨0⟩
  m_size : ℕ := 0
  m_maxBuffer : ℕ := 32768
  m_availBytes : ℕ := 0
  m_data : List (SequenceNumber32 × List UInt8) := []
  m_sackList : List SackBlock := []
deriving DecidableEq, Repr

namespace TcpRxBuffer

/-- `TcpRxBuffer (n)`. -/
def create (n : ℕ) : TcpRxBuffer := { m_nextRxSeq := ⟨n⟩ }

/-- `m_data[k] = p`. -/
def assignData (k : SequenceNumber32) (p : List UInt8) :
    List (SequenceNumber32 × List UInt8) → List (SequenceNumber32 × List UInt8)
  | [] => [(k, p)]
  | i :: data =>
    if k.lt i.1 then (k, p) :: i :: data
    else if i.1.lt k then i :: assignData k p data
    else (i.1, p) :: data

def setFinSequence (b : TcpRxBuffer) (s : SequenceNumber32) : TcpRxBuffer :=
  let b := { b with m_gotFin := true, m_finSeq := s }
  if b.m_nextRxSeq = b.m_finSeq then { b with m_nextRxSeq := b.m_nextRxSeq.succ } else b

/-- What the loop over the overlapped packets leaves: the packets, the two ends of the incoming one,
and the bytes of the erased packets. -/
structure Overlap where
  data : List (SequenceNumber32 × List UInt8)
  headSeq : SequenceNumber32
  tailSeq : SequenceNumber32
  erased : ℕ

/-- The loop of `Add` that removes overlapped bytes from the packet. -/
def removeOverlap : List (SequenceNumber32 × List UInt8) → SequenceNumber32 → SequenceNumber32 →
    Overlap
  | [], headSeq, tailSeq => ⟨[], headSeq, tailSeq, 0⟩
  | i :: data, headSeq, tailSeq =>
    if i.1.le tailSeq then
      let lastByteSeq := i.1.add ⟨i.2.length⟩
      if lastByteSeq.gt headSeq then
        if i.1.gt headSeq && lastByteSeq.lt tailSeq then
          -- the existing packet is embedded fully in the new one
          let r := removeOverlap data headSeq tailSeq
          { r with erased := r.erased + i.2.length }
        else
          let r := removeOverlap data (if i.1.le headSeq then lastByteSeq else headSeq)
            (if lastByteSeq.ge tailSeq then i.1 else tailSeq)
          { r with data := i :: r.data }
      else
        let r := removeOverlap data headSeq tailSeq
        { r with data := i :: r.data }
    else ⟨i :: data, headSeq, tailSeq, 0⟩

/-- The loop of `UpdateSackList`: `passed` are the blocks between the first one and the iterator. A
merge starts the loop again. -/
def mergeBlocks (begin_ : SackBlock) (passed : List SackBlock) : List SackBlock →
    Option (List SackBlock)
  | [] => some (begin_ :: passed)
  | current :: rest =>
    if begin_.1 = current.2 then
      if current.1.lt begin_.2 then mergeBlocks (current.1, begin_.2) [] (passed ++ rest) else none
    else if begin_.2 = current.1 then
      if begin_.1.lt current.2 then mergeBlocks (begin_.1, current.2) [] (passed ++ rest) else none
    else mergeBlocks begin_ (passed ++ [current]) rest
termination_by rest => (passed.length + rest.length, rest.length)
decreasing_by
  all_goals
    rw [Prod.lex_def]
    simp
    try omega

def updateSackList (nextRxSeq head tail : SequenceNumber32) (sackList : List SackBlock) :
    Option (List SackBlock) :=
  if head.gt nextRxSeq then do
    let blocks ← mergeBlocks (head, tail) [] sackList
    return if blocks.length > 4 then blocks.dropLast else blocks
  else none

def clearSackList (seq : SequenceNumber32) : List SackBlock → Option (List SackBlock)
  | [] => some []
  | block :: rest =>
    if block.1.lt block.2 then do
      let rest' ← clearSackList seq rest
      return if block.2.le seq then rest' else block :: rest'
    else none

/-- The loop of `Add` that updates `m_nextRxSeq` and `m_availBytes`. -/
def updateNext : List (SequenceNumber32 × List UInt8) → SequenceNumber32 → ℕ → List SackBlock →
    Option (SequenceNumber32 × ℕ × List SackBlock)
  | [], nextRxSeq, availBytes, sackList => some (nextRxSeq, availBytes, sackList)
  | i :: data, nextRxSeq, availBytes, sackList =>
    if i.1.lt nextRxSeq then updateNext data nextRxSeq availBytes sackList
    else if i.1.gt nextRxSeq then some (nextRxSeq, availBytes, sackList)
    else do
      let next := i.1.add ⟨i.2.length⟩
      let sackList ← clearSackList next sackList
      updateNext data next ((availBytes + i.2.length) % 2 ^ 32) sackList

/-- The two ends of the incoming packet, cut to what may be received. -/
def trimToWindow (b : TcpRxBuffer) (headSeq tailSeq : SequenceNumber32) :
    SequenceNumber32 × SequenceNumber32 :=
  let headSeq := if headSeq.lt b.m_nextRxSeq then b.m_nextRxSeq else headSeq
  match b.m_data with
  | [] => (headSeq, tailSeq)
  | i :: _ =>
    let maxSeq := i.1.add ⟨b.m_maxBuffer⟩
    let tailSeq := if maxSeq.lt tailSeq then maxSeq else tailSeq
    (if tailSeq.lt headSeq then tailSeq else headSeq, tailSeq)

/-- The part of `Add` after the trimming: the packet `q` is inserted at `headSeq`. -/
def store (b : TcpRxBuffer) (headSeq tailSeq : SequenceNumber32) (q : List UInt8) :
    Option TcpRxBuffer := do
  let data := assignData headSeq q b.m_data
  let sackList ←
    (if headSeq.gt b.m_nextRxSeq then updateSackList b.m_nextRxSeq headSeq tailSeq b.m_sackList
    else some b.m_sackList)
  let (next, avail, sackList) ← updateNext data b.m_nextRxSeq b.m_availBytes sackList
  return { b with
    m_data := data
    m_size := (b.m_size + q.length) % 2 ^ 32
    m_nextRxSeq := if b.m_gotFin ∧ next = b.m_finSeq then next.succ else next
    m_availBytes := avail
    m_sackList := sackList }

/-- `Add` of the packet `p` with the sequence number `seq`. -/
def add (b : TcpRxBuffer) (seq : SequenceNumber32) (p : List UInt8) :
    Option (TcpRxBuffer × Bool) :=
  let (headSeq, tailSeq) := b.trimToWindow seq (seq.add ⟨p.length⟩)
  let r := removeOverlap b.m_data headSeq tailSeq
  let b := { b with m_data := r.data, m_size := SequenceNumber32.diff b.m_size r.erased }
  if r.headSeq.ge r.tailSeq then some (b, false)
  else do
    let length := SequenceNumber32.toUint32 (r.tailSeq.sub r.headSeq)
    let q ← createFragment p (SequenceNumber32.toUint32 (r.headSeq.sub seq)) length
    if length = q.length ∧ ∀ i ∈ b.m_data, i.1 ≠ r.headSeq then
      let b ← b.store r.headSeq r.tailSeq q
      return (b, true)
    else none

/-- The loop of `Extract`: the packets left and the bytes taken out. -/
def extractLoop (nextRxSeq : SequenceNumber32) : List (SequenceNumber32 × List UInt8) → ℕ →
    Option (List (SequenceNumber32 × List UInt8) × List UInt8)
  | data, 0 => some (data, [])
  | [], _ + 1 => none
  | i :: data, extractSize + 1 =>
    if i.1.le nextRxSeq then
      if i.2.length ≤ extractSize + 1 then do
        let r ← extractLoop nextRxSeq data (extractSize + 1 - i.2.length)
        return (r.1, i.2 ++ r.2)
      else
        some ((assignData (i.1.add ⟨extractSize + 1⟩) (i.2.drop (extractSize + 1))
          (i :: data)).eraseP fun j => j.1 = i.1, i.2.take (extractSize + 1))
    else none

/-- `Extract`; no bytes stand for `nullptr`. -/
def extract (b : TcpRxBuffer) (maxSize : ℕ) : Option (TcpRxBuffer × List UInt8) :=
  let extractSize := min maxSize b.m_availBytes
  if extractSize = 0 then some (b, [])
  else do
    let r ← extractLoop b.m_nextRxSeq b.m_data extractSize
    return ({ b with
      m_data := r.1
      m_size := SequenceNumber32.diff b.m_size r.2.length
      m_availBytes := SequenceNumber32.diff b.m_availBytes r.2.length }, r.2)

end TcpRxBuffer

end Ns3.Internet
