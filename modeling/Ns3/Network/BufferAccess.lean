import Ns3.Network.BufferOps

/-!
# The accesses of a buffer iterator

`Wrapped` holds the functions of `Buffer::Iterator` with their 32-bit offsets: a sum of offsets
wraps, and so does a difference. Where no sum wraps, its writes are those of `Iterator`.

A read asserts nothing on its fast path, and takes whatever the memory holds at its place.
-/

namespace Ns3.Network

open Lib

namespace Wrapped

def add32 (a b : Nat) : Nat := (a + b) % 2 ^ 32

def sub32 (a b : Nat) : Nat := (a + 2 ^ 32 - b) % 2 ^ 32

/-- `Check`. -/
def check (it : Iterator) (i : Nat) : Bool :=
  i ≥ it.dataStart && !(i ≥ it.zeroStart && i < it.zeroEnd) && i ≤ it.dataEnd

/-- The place in the block of a position behind the zero area. -/
def behind (it : Iterator) : Nat := sub32 it.current (sub32 it.zeroEnd it.zeroStart)

def advance (it : Iterator) (n : Nat) : Iterator := { it with current := add32 it.current n }

/-! ## Writes -/

/-- The part that the writes share: the assert `ok`, and the bytes that go to the place `pos`. -/
def put (ok : Bool) (h : Heap) (it : Iterator) (pos : Nat) (bs : List UInt8) :
    Except BufferFault (Heap × Iterator) := do
  if !ok then
    throw .writeAssert
  let h ← h.store it.data pos bs
  return (h, advance it bs.length)

def writeU8 (h : Heap) (it : Iterator) (data : UInt8) : Except BufferFault (Heap × Iterator) :=
  put (check it it.current) h it
    (if it.current < it.zeroStart then it.current else behind it) [data]

/-- `WriteU8 (data, len)`. -/
def writeU8s (h : Heap) (it : Iterator) (data : UInt8) (len : Nat) :
    Except BufferFault (Heap × Iterator) :=
  put (it.checkNoZero it.current (add32 it.current len)) h it
    (if it.current ≤ it.zeroStart then it.current else behind it) (List.replicate len data)

def writeHtonU16 (h : Heap) (it : Iterator) (data : UInt16) :
    Except BufferFault (Heap × Iterator) :=
  put (it.checkNoZero it.current (add32 it.current 2)) h it
    (if add32 it.current 2 ≤ it.zeroStart then it.current else behind it)
    [((data >>> 8) &&& 0xff).toUInt8, ((data >>> 0) &&& 0xff).toUInt8]

def writeHtonU32 (h : Heap) (it : Iterator) (data : UInt32) :
    Except BufferFault (Heap × Iterator) :=
  put (it.checkNoZero it.current (add32 it.current 4)) h it
    (if add32 it.current 4 ≤ it.zeroStart then it.current else behind it)
    [((data >>> 24) &&& 0xff).toUInt8, ((data >>> 16) &&& 0xff).toUInt8,
      ((data >>> 8) &&& 0xff).toUInt8, ((data >>> 0) &&& 0xff).toUInt8]

/-- `Write (buffer, size)`. The assert takes `size` for an offset. -/
def write (h : Heap) (it : Iterator) (buffer : List UInt8) :
    Except BufferFault (Heap × Iterator) :=
  put (it.checkNoZero it.current buffer.length) h it
    (if it.current ≤ it.zeroStart then it.current else behind it) buffer

/-- The copies of `Write (start, end)`. Their target is the offset `m_current` of the block,
wherever the zero area is. -/
def copyRange (h : Heap) (it start : Iterator) (size : Nat) :
    Except BufferFault (Heap × Iterator) := do
  -- the bytes before the zero area
  let toCopy := if start.current ≤ start.zeroStart then min size (start.zeroStart - start.current)
    else 0
  let h ← h.store it.data it.current (window (h.data start.data).bytes start.current toCopy)
  let start := advance start toCopy
  let it := advance it toCopy
  let size := size - toCopy
  -- the zero area
  let toCopy := if start.current ≤ start.zeroEnd then min size (start.zeroEnd - start.current)
    else 0
  let h ← h.store it.data it.current (List.replicate toCopy 0)
  let start := advance start toCopy
  let it := advance it toCopy
  let size := size - toCopy
  -- the bytes after it
  let toCopy := min size (sub32 start.dataEnd start.current)
  let h ← h.store it.data it.current (window (h.data start.data).bytes (behind start) toCopy)
  return (h, advance it toCopy)

/-- `Write (start, end)`. -/
def writeRange (h : Heap) (it start stop : Iterator) : Except BufferFault (Heap × Iterator) := do
  if start.data ≠ stop.data ∨ stop.current < start.current ∨ start.zeroStart ≠ stop.zeroStart ∨
      start.zeroEnd ≠ stop.zeroEnd ∨ it.data = start.data then
    throw .writeAssert
  let size := stop.current - start.current
  if !it.checkNoZero it.current (add32 it.current size) then
    throw .writeAssert
  copyRange h it start size

/-- Where no offset wraps, the writes are those of `Iterator`. -/
theorem put_eq {ok : Bool} {h : Heap} {it : Iterator} {pos : Nat} {bs : List UInt8}
    (hlt : it.current + bs.length < 2 ^ 32) : put ok h it pos bs = (do
      if !ok then
        throw .writeAssert
      let h ← h.store it.data pos bs
      return (h, it.next bs.length)) := by
  have hsum : advance it bs.length = it.next bs.length := by
    unfold advance add32
    rw [Nat.mod_eq_of_lt hlt]
    rfl
  unfold put
  rw [hsum]

theorem target_eq {it : Iterator} (hzero : it.zeroStart ≤ it.zeroEnd)
    (hc : it.current < 2 ^ 32) (hle : it.current ≤ it.zeroStart ∨ it.zeroEnd ≤ it.current) :
    (if it.current ≤ it.zeroStart then it.current else behind it) =
      if it.current ≤ it.zeroStart then it.current
      else it.current - (it.zeroEnd - it.zeroStart) := by
  split
  · rfl
  · unfold behind sub32
    omega

theorem writeU8s_eq {h : Heap} {it : Iterator} {data : UInt8} {len : Nat}
    (hzero : it.zeroStart ≤ it.zeroEnd) (hlt : it.current + len < 2 ^ 32)
    (hle : it.current ≤ it.zeroStart ∨ it.zeroEnd ≤ it.current) :
    writeU8s h it data len = it.writeU8 h data len := by
  have hsum : add32 it.current len = it.current + len := Nat.mod_eq_of_lt hlt
  rw [writeU8s, put_eq (by rwa [List.length_replicate]), target_eq hzero (by omega) hle, hsum,
    List.length_replicate]
  rfl

theorem write_eq {h : Heap} {it : Iterator} {buffer : List UInt8}
    (hzero : it.zeroStart ≤ it.zeroEnd) (hlt : it.current + buffer.length < 2 ^ 32)
    (hle : it.current ≤ it.zeroStart ∨ it.zeroEnd ≤ it.current) :
    write h it buffer = it.write h buffer := by
  rw [write, put_eq hlt, target_eq hzero (by omega) hle]
  rfl

/-! ## Reads -/

/-- The bytes that the pointer of an access goes to. -/
def cell (h : Heap) (it : Iterator) (i : Nat) : UInt8 := (h.data it.data).bytes i

/-- `none` when the assert fails. -/
def peekU8 (h : Heap) (it : Iterator) : Option UInt8 :=
  if ¬(it.current ≥ it.dataStart ∧ it.current < it.dataEnd) then none
  else if it.current < it.zeroStart then some (cell h it it.current)
  else if it.current < it.zeroEnd then some 0
  else some (cell h it (behind it))

def readU8 (h : Heap) (it : Iterator) : Option (UInt8 × Iterator) := do
  let ret ← peekU8 h it
  return (ret, advance it 1)

def slowReadNtohU16 (h : Heap) (it : Iterator) : Option (UInt16 × Iterator) := do
  let (b0, it) ← readU8 h it
  let retval := (b0.toUInt16) <<< 8
  let (b1, it) ← readU8 h it
  return (retval ||| b1.toUInt16, it)

def slowReadNtohU32 (h : Heap) (it : Iterator) : Option (UInt32 × Iterator) := do
  let (b0, it) ← readU8 h it
  let retval := b0.toUInt32 <<< 8
  let (b1, it) ← readU8 h it
  let retval := (retval ||| b1.toUInt32) <<< 8
  let (b2, it) ← readU8 h it
  let retval := (retval ||| b2.toUInt32) <<< 8
  let (b3, it) ← readU8 h it
  return (retval ||| b3.toUInt32, it)

/-- The fast path of `ReadNtohU16`, from the place `pos` of the block on. -/
def fastU16 (h : Heap) (it : Iterator) (pos : Nat) : UInt16 × Iterator :=
  let retval := (cell h it pos).toUInt16 <<< 8
  (retval ||| (cell h it (pos + 1)).toUInt16, advance it 2)

/-- The fast path of `ReadNtohU32`. -/
def fastU32 (h : Heap) (it : Iterator) (pos : Nat) : UInt32 × Iterator :=
  let retval := (cell h it pos).toUInt32 <<< 8
  let retval := (retval ||| (cell h it (pos + 1)).toUInt32) <<< 8
  let retval := (retval ||| (cell h it (pos + 2)).toUInt32) <<< 8
  (retval ||| (cell h it (pos + 3)).toUInt32, advance it 4)

def readNtohU16 (h : Heap) (it : Iterator) : Option (UInt16 × Iterator) :=
  if add32 it.current 2 ≤ it.zeroStart then some (fastU16 h it it.current)
  else if it.current ≥ it.zeroEnd then some (fastU16 h it (behind it))
  else slowReadNtohU16 h it

def readNtohU32 (h : Heap) (it : Iterator) : Option (UInt32 × Iterator) :=
  if add32 it.current 4 ≤ it.zeroStart then some (fastU32 h it it.current)
  else if it.current ≥ it.zeroEnd then some (fastU32 h it (behind it))
  else slowReadNtohU32 h it

end Wrapped

end Ns3.Network
