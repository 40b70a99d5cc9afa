import Ns3.Network.Heap

/-!
# Buffers

`Buffer` keeps its bytes in a shared block with a zero area in the middle that takes no memory. Its
offsets are virtual: from the end of the zero area on they are larger than those in the block by
the size of the area.

The offsets are natural numbers, so none overflows. The asserts of the iterator's writes and a
write outside a block are faults. A block is read without a check: `CheckInternalState` keeps
what is read inside it.
-/

namespace Ns3.Network

open Lib

inductive BufferFault
  | writeAssert
  | writeOutOfBounds
  | noSuchBuffer
deriving DecidableEq, Repr

/-- `Buffer`. `data` is the address of the block and `dataEnd` is `m_end`. -/
structure Buffer where
  data : Nat
  maxZeroAreaStart : Nat
  zeroAreaStart : Nat
  zeroAreaEnd : Nat
  start : Nat
  dataEnd : Nat
deriving DecidableEq, Repr

/-- `Buffer::Iterator`. -/
structure Iterator where
  zeroStart : Nat
  zeroEnd : Nat
  dataStart : Nat
  dataEnd : Nat
  current : Nat
  data : Nat
deriving DecidableEq, Repr

/-- A checked copy to the block `a`. -/
def Heap.store (h : Heap) (a pos : Nat) (bs : List UInt8) : Except BufferFault Heap :=
  if bs = [] ∨ pos + bs.length ≤ (h.data a).size then .ok (h.copyTo a pos bs)
  else .error .writeOutOfBounds

namespace Iterator

def next (it : Iterator) (delta : Nat) : Iterator :=
  { it with current := it.current + delta }

def prev (it : Iterator) (delta : Nat) : Iterator :=
  { it with current := it.current - delta }

def checkNoZero (it : Iterator) (start stop : Nat) : Bool :=
  !(start < it.dataStart || stop > it.dataEnd ||
    (stop > it.zeroStart && start < it.zeroEnd && it.zeroEnd != it.zeroStart && start != stop))

/-- `WriteU8 (data, len)`. -/
def writeU8 (h : Heap) (it : Iterator) (data : UInt8) (len : Nat) :
    Except BufferFault (Heap × Iterator) := do
  if !it.checkNoZero it.current (it.current + len) then
    throw .writeAssert
  let pos := if it.current ≤ it.zeroStart then it.current
    else it.current - (it.zeroEnd - it.zeroStart)
  let h ← h.store it.data pos (List.replicate len data)
  return (h, it.next len)

/-- `Write (buffer, size)`. The assert compares `size` itself with the offsets. -/
def write (h : Heap) (it : Iterator) (buffer : List UInt8) :
    Except BufferFault (Heap × Iterator) := do
  if !it.checkNoZero it.current buffer.length then
    throw .writeAssert
  let pos := if it.current ≤ it.zeroStart then it.current
    else it.current - (it.zeroEnd - it.zeroStart)
  let h ← h.store it.data pos buffer
  return (h, it.next buffer.length)

/-- `Write (start, end)`. The target offset is `m_current` itself, also behind a zero area. -/
def writeRange (h : Heap) (it start stop : Iterator) : Except BufferFault (Heap × Iterator) := do
  if start.data ≠ stop.data ∨ stop.current < start.current ∨ start.zeroStart ≠ stop.zeroStart ∨
      start.zeroEnd ≠ stop.zeroEnd ∨ it.data = start.data then
    throw .writeAssert
  let size := stop.current - start.current
  if !it.checkNoZero it.current (it.current + size) then
    throw .writeAssert
  -- the bytes before the zero area
  let toCopy := if start.current ≤ start.zeroStart then min size (start.zeroStart - start.current)
    else 0
  let h ← h.store it.data it.current (window (h.data start.data).bytes start.current toCopy)
  let start := start.next toCopy
  let it := it.next toCopy
  let size := size - toCopy
  -- the zero area
  let toCopy := if start.current ≤ start.zeroEnd then min size (start.zeroEnd - start.current)
    else 0
  let h ← h.store it.data it.current (List.replicate toCopy 0)
  let start := start.next toCopy
  let it := it.next toCopy
  let size := size - toCopy
  -- the bytes after it
  let toCopy := min size (start.dataEnd - start.current)
  let h ← h.store it.data it.current
    (window (h.data start.data).bytes (start.current - (start.zeroEnd - start.zeroStart)) toCopy)
  return (h, it.next toCopy)

end Iterator

namespace Buffer

def getSize (b : Buffer) : Nat := b.dataEnd - b.start

def getInternalSize (b : Buffer) : Nat :=
  b.zeroAreaStart - b.start + b.dataEnd - b.zeroAreaEnd

def getInternalEnd (b : Buffer) : Nat := b.dataEnd - (b.zeroAreaEnd - b.zeroAreaStart)

def begin (b : Buffer) : Iterator where
  zeroStart := b.zeroAreaStart
  zeroEnd := b.zeroAreaEnd
  dataStart := b.start
  dataEnd := b.dataEnd
  current := b.start
  data := b.data

/-- `Buffer::End`. -/
def finish (b : Buffer) : Iterator := { b.begin with current := b.dataEnd }

/-- The offsets of a buffer lie in order, in the dirty area and in the block. -/
structure Fits (d : BufferData) (b : Buffer) : Prop where
  start_le : b.start ≤ b.zeroAreaStart
  zero_le : b.zeroAreaStart ≤ b.zeroAreaEnd
  le_end : b.zeroAreaEnd ≤ b.dataEnd
  dirtyStart : d.dirtyStart ≤ b.start
  dirtyEnd : b.dataEnd ≤ d.dirtyEnd
  internalEnd : b.dataEnd - (b.zeroAreaEnd - b.zeroAreaStart) ≤ d.size
  start_size : b.start ≤ d.size
  zero_size : b.zeroAreaStart ≤ d.size

/-- The condition that `CheckInternalState` tests when it is enabled. -/
def CheckInternalState (h : Heap) (b : Buffer) : Prop :=
  0 < (h.data b.data).count ∧ b.Fits (h.data b.data)

/-- `Initialize`. -/
def initializeZero (h : Heap) (zeroSize : Nat) : Heap × Buffer :=
  let (h, a) := h.create 0
  let start := min (h.data a).size h.recommendedStart
  let b : Buffer :=
    { data := a
      maxZeroAreaStart := start
      zeroAreaStart := start
      zeroAreaEnd := start + zeroSize
      start := start
      dataEnd := start + zeroSize }
  (h.setDirty a b.start b.dataEnd, b)

/-- `Buffer (Buffer const &o)`. -/
def copy (h : Heap) (o : Buffer) : Heap × Buffer :=
  (h.retain o.data, { o with maxZeroAreaStart := o.zeroAreaStart })

/-- `operator =`. Every field of `o` is copied. -/
def assign (h : Heap) (b o : Buffer) : Heap × Buffer :=
  let h := if b.data ≠ o.data then (h.release b.data).retain o.data else h
  ({ h with recommendedStart := max h.recommendedStart b.maxZeroAreaStart }, o)

/-- `~Buffer`. -/
def destroy (h : Heap) (b : Buffer) : Heap :=
  let h := { h with recommendedStart := max h.recommendedStart b.maxZeroAreaStart }
  h.release b.data

def raiseMaxZeroAreaStart (b : Buffer) : Buffer :=
  { b with maxZeroAreaStart := max b.maxZeroAreaStart b.zeroAreaStart }

/-- The part that `AddAtStart` and `AddAtEnd` share when they need a new block: the bytes are
copied to its offset `pos` and the old block is given up. -/
def reallocate (h : Heap) (b : Buffer) (newSize pos : Nat) : Heap × Nat :=
  let (h, newData) := h.create newSize
  let h := h.copyTo newData pos (window (h.data b.data).bytes b.start b.getInternalSize)
  (h.release b.data, newData)

def addAtStart (h : Heap) (b : Buffer) (start : Nat) : Heap × Buffer :=
  let isDirty := (h.data b.data).count > 1 ∧ b.start > (h.data b.data).dirtyStart
  if b.start ≥ start ∧ ¬isDirty then
    let b' := { b with start := b.start - start }
    (h.setDirty b.data b'.start (h.data b.data).dirtyEnd, b'.raiseMaxZeroAreaStart)
  else
    let newSize := b.getInternalSize + start
    let (h, newData) := b.reallocate h newSize start
    -- every offset moves by `start - m_start`
    let b' : Buffer :=
      { b with
        data := newData
        start := 0
        zeroAreaStart := b.zeroAreaStart + start - b.start
        zeroAreaEnd := b.zeroAreaEnd + start - b.start
        dataEnd := b.dataEnd + start - b.start }
    (h.setDirty newData b'.start b'.dataEnd, b'.raiseMaxZeroAreaStart)

/-- `AddAtEnd (uint32_t)`. -/
def addAtEnd (h : Heap) (b : Buffer) (added : Nat) : Heap × Buffer :=
  let isDirty := (h.data b.data).count > 1 ∧ b.dataEnd < (h.data b.data).dirtyEnd
  if b.getInternalEnd + added ≤ (h.data b.data).size ∧ ¬isDirty then
    let b' := { b with dataEnd := b.dataEnd + added }
    (h.setDirty b.data (h.data b.data).dirtyStart b'.dataEnd, b'.raiseMaxZeroAreaStart)
  else
    let newSize := b.getInternalSize + added
    let (h, newData) := b.reallocate h newSize 0
    -- every offset moves by `-m_start`
    let b' : Buffer :=
      { b with
        data := newData
        start := 0
        zeroAreaStart := b.zeroAreaStart - b.start
        zeroAreaEnd := b.zeroAreaEnd - b.start
        dataEnd := b.dataEnd - b.start + added }
    (h.setDirty newData b'.start b'.dataEnd, b'.raiseMaxZeroAreaStart)

def removeAtStart (b : Buffer) (start : Nat) : Buffer :=
  let newStart := b.start + start
  raiseMaxZeroAreaStart <|
    if newStart ≤ b.zeroAreaStart then { b with start := newStart }
    else if newStart ≤ b.zeroAreaEnd then
      let delta := newStart - b.zeroAreaStart
      { b with
        start := b.zeroAreaStart
        zeroAreaEnd := b.zeroAreaEnd - delta
        dataEnd := b.dataEnd - delta }
    else if newStart ≤ b.dataEnd then
      let zeroSize := b.zeroAreaEnd - b.zeroAreaStart
      { b with
        start := newStart - zeroSize
        dataEnd := b.dataEnd - zeroSize
        zeroAreaStart := newStart - zeroSize
        zeroAreaEnd := newStart - zeroSize }
    else
      let last := b.dataEnd - (b.zeroAreaEnd - b.zeroAreaStart)
      { b with
        dataEnd := last
        start := last
        zeroAreaEnd := last
        zeroAreaStart := last }

def removeAtEnd (b : Buffer) (removed : Nat) : Buffer :=
  let newEnd := b.dataEnd - min removed (b.dataEnd - b.start)
  raiseMaxZeroAreaStart <|
    if newEnd > b.zeroAreaEnd then { b with dataEnd := newEnd }
    else if newEnd > b.zeroAreaStart then
      { b with
        dataEnd := newEnd
        zeroAreaEnd := newEnd }
    else if newEnd > b.start then
      { b with
        dataEnd := newEnd
        zeroAreaEnd := newEnd
        zeroAreaStart := newEnd }
    else
      { b with
        dataEnd := b.start
        zeroAreaEnd := b.start
        zeroAreaStart := b.start }

/-- The size to remove is computed in 32 bits. -/
def createFragment (h : Heap) (b : Buffer) (start length : Nat) : Heap × Buffer :=
  let (h, tmp) := copy h b
  let tmp := tmp.removeAtStart start
  (h, tmp.removeAtEnd ((b.getSize + 2 ^ 32 - (start + length) % 2 ^ 32) % 2 ^ 32))

def createFullCopy (h : Heap) (b : Buffer) : Except BufferFault (Heap × Buffer) := do
  if b.zeroAreaEnd - b.zeroAreaStart ≠ 0 then
    let (h, tmp) := initializeZero h 0
    let (h, tmp) := tmp.addAtStart h (b.zeroAreaEnd - b.zeroAreaStart)
    let (h, _) ← tmp.begin.writeU8 h 0 (b.zeroAreaEnd - b.zeroAreaStart)
    let dataStart := b.zeroAreaStart - b.start
    let (h, tmp) := tmp.addAtStart h dataStart
    let (h, _) ← tmp.begin.write h (window (h.data b.data).bytes b.start dataStart)
    let dataEnd := b.dataEnd - b.zeroAreaEnd
    let (h, tmp) := tmp.addAtEnd h dataEnd
    let (h, _) ← (tmp.finish.prev dataEnd).write h
      (window (h.data b.data).bytes b.zeroAreaStart dataEnd)
    return (h, tmp)
  else
    return copy h b

/-- `*this = CreateFullCopy ()`. -/
def transformIntoRealBuffer (h : Heap) (b : Buffer) : Except BufferFault (Heap × Buffer) := do
  let (h, tmp) ← b.createFullCopy h
  let (h, b) := assign h b tmp
  return (tmp.destroy h, b)

/-- `PeekData`: the bytes from the returned pointer on, as many as the buffer has. -/
def peekData (h : Heap) (b : Buffer) : Except BufferFault (Heap × Buffer × List UInt8) := do
  let (h, b) ← b.transformIntoRealBuffer h
  return (h, b, window (h.data b.data).bytes b.start b.getSize)

/-- The test for the fast path of `AddAtEnd (Buffer const &)`. -/
def adjacentZeroAreas (h : Heap) (b o : Buffer) : Prop :=
  (h.data b.data).count = 1 ∧
    (b.dataEnd = b.zeroAreaEnd ∨ b.zeroAreaStart = b.zeroAreaEnd) ∧
    b.dataEnd = (h.data b.data).dirtyEnd ∧ o.start = o.zeroAreaStart ∧
    0 < o.zeroAreaEnd - o.zeroAreaStart

instance (h : Heap) (b o : Buffer) : Decidable (adjacentZeroAreas h b o) :=
  inferInstanceAs (Decidable (_ ∧ (_ ∨ _) ∧ _ ∧ _ ∧ _))

/-- `AddAtEnd (Buffer const &)`. The argument is a reference: `o b` is what it refers to while
this buffer is `b`, so that `o` is the identity when a buffer is appended to itself. -/
def append (h : Heap) (b : Buffer) (o : Buffer → Buffer) : Except BufferFault (Heap × Buffer) := do
  if adjacentZeroAreas h b (o b) then
    let b := if b.zeroAreaStart = b.zeroAreaEnd then { b with zeroAreaStart := b.dataEnd } else b
    let zeroSize := (o b).zeroAreaEnd - (o b).zeroAreaStart
    let b :=
      { b with
        zeroAreaEnd := b.dataEnd + zeroSize
        dataEnd := b.dataEnd + zeroSize }
    let h := h.setDirty b.data (h.data b.data).dirtyStart b.zeroAreaEnd
    let endData := (o b).dataEnd - (o b).zeroAreaEnd
    let (h, b) := b.addAtEnd h endData
    let dst := b.finish.prev endData
    let src := (o b).finish.prev endData
    let (h, _) ← dst.writeRange h src (o b).finish
    return (h, b)
  else
    let (h, b) ← b.transformIntoRealBuffer h
    let (h, b) := b.addAtEnd h (o b).getSize
    let destStart := b.finish.prev (o b).getSize
    let (h, _) ← destStart.writeRange h (o b).begin (o b).finish
    return (h, b)

/-- `CopyData (buffer, size)`: the bytes that are copied out. -/
def copyData (h : Heap) (b : Buffer) (size : Nat) : List UInt8 :=
  let bytes := (h.data b.data).bytes
  let before := min (b.zeroAreaStart - b.start) size
  let size := size - before
  let zeroes := min (b.zeroAreaEnd - b.zeroAreaStart) size
  let size := size - zeroes
  let after := min (b.dataEnd - b.zeroAreaEnd) size
  window bytes b.start before ++ List.replicate zeroes 0 ++ window bytes b.zeroAreaStart after

end Buffer

end Ns3.Network
