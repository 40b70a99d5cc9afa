import Mathlib.Algebra.Order.Ring.Int
import Ns3.Lib.Leb128

/-!
# The items of the packet metadata

`PacketMetadata` keeps its items one behind the other in a block of bytes that copies of a packet
share. A small item has the place of its neighbours, a type, a size and a chunk number. An item
whose type is odd also has the part of the header that is left and the packet it came from.
-/

namespace Ns3.Network.Metadata

/-- `PacketMetadata::Data`. `bytes` is what has been allocated. -/
structure Data where
  count : Nat
  size : Nat
  dirtyEnd : Nat
  bytes : List UInt8
  size_le : size ≤ bytes.length
deriving DecidableEq, Repr

structure SmallItem where
  next : UInt16
  prev : UInt16
  typeUid : UInt32
  size : UInt32
  chunkUid : UInt16
deriving DecidableEq, Repr

structure ExtraItem where
  fragmentStart : UInt32
  fragmentEnd : UInt32
  packetUid : UInt64
deriving DecidableEq, Repr

/-- The static members, and what uninitialized memory holds. The end of `m_freeList` comes first. -/
structure Pool where
  enable : Bool
  maxSize : Nat
  freeList : List Data
  memory : Nat → UInt8

structure PacketMetadata where
  data : Data
  head : Nat
  tail : Nat
  used : Nat
  packetUid : UInt64
deriving DecidableEq, Repr

/-! ## Bytes -/

namespace Data

/-- A byte behind the block cannot be read. -/
def read (d : Data) (pos : Nat) : Option UInt8 := d.bytes[pos]?

theorem length_overwrite (bytes bs : List UInt8) (pos : Nat)
    (h : pos + bs.length ≤ bytes.length) :
    (bytes.take pos ++ bs ++ bytes.drop (pos + bs.length)).length = bytes.length := by
  simp only [List.length_append, List.length_take, List.length_drop]
  omega

/-- A write behind the block is not possible. -/
def write (d : Data) (pos : Nat) (bs : List UInt8) : Option Data :=
  if h : pos + bs.length ≤ d.bytes.length then
    some { d with
      bytes := d.bytes.take pos ++ bs ++ d.bytes.drop (pos + bs.length)
      size_le := (length_overwrite d.bytes bs pos h).symm ▸ d.size_le }
  else none

/-- `Append16`. -/
def append16 (d : Data) (value : UInt16) (buffer : Nat) : Option Data :=
  d.write buffer [UInt8.ofNat value.toNat, UInt8.ofNat (value.toNat >>> 8)]

/-- `Append32`. -/
def append32 (d : Data) (value : UInt32) (buffer : Nat) : Option Data :=
  d.write buffer [UInt8.ofNat value.toNat, UInt8.ofNat (value.toNat >>> 8),
    UInt8.ofNat (value.toNat >>> 16), UInt8.ofNat (value.toNat >>> 24)]

end Data

/-- `GetUleb128Size`. -/
def getUleb128Size (value : UInt32) : Nat :=
  if value.toNat < 0x80 then 1
  else if value.toNat < 0x4000 then 2
  else if value.toNat < 0x200000 then 3
  else if value.toNat < 0x10000000 then 4
  else 5

/-- An octet that is not the last one: `0x80 | (value & ~0x80)`. -/
def group (value : Nat) : UInt8 := UInt8.ofNat (0x80 + value % 0x80)

/-- The octets that `AppendValueExtra` writes. -/
def appendValueExtra (value : Nat) : List UInt8 :=
  if value < 0x200000 then
    [group value, group (value >>> 7), UInt8.ofNat (value >>> 14)]
  else if value < 0x10000000 then
    [group value, group (value >>> 7), group (value >>> 14), UInt8.ofNat (value >>> 21)]
  else
    [group value, group (value >>> 7), group (value >>> 14), group (value >>> 21),
      UInt8.ofNat (value >>> 28)]

/-- The octets that `AppendValue` writes. -/
def appendValue (value : UInt32) : List UInt8 :=
  if value.toNat < 0x80 then [UInt8.ofNat value.toNat]
  else if value.toNat < 0x4000 then [group value.toNat, UInt8.ofNat (value.toNat >>> 7)]
  else appendValueExtra value.toNat

/-- `ReadUleb128` from `buffer[i]` on, when `n` octets are left. After the fifth octet it returns
zero, and the pointer stays where it was. -/
def readUleb128From (d : Data) (buffer : Nat) : (n i result : Nat) → Option (UInt32 × Nat)
  | 0, _, _ => some (0, buffer)
  | n + 1, i, result => do
    let byte ← d.read (buffer + i)
    let result := result ||| (byte.toNat &&& 0x7f) <<< (7 * i)
    if byte.toNat &&& 0x80 = 0 then some (UInt32.ofNat result, buffer + (i + 1))
    else readUleb128From d buffer n (i + 1) result

/-- `ReadUleb128`, with the pointer behind the number. -/
def readUleb128 (d : Data) (buffer : Nat) : Option (UInt32 × Nat) := readUleb128From d buffer 5 0 0

/-- Two octets, the low one first. -/
def read16 (d : Data) (buffer : Nat) : Option UInt16 := do
  let b0 ← d.read buffer
  let b1 ← d.read (buffer + 1)
  some (UInt16.ofNat (b0.toNat ||| b1.toNat <<< 8))

/-- An `int` with the bits of `v`, made a `uint64_t`. -/
def signExtend (v : Nat) : Nat := if v < 2 ^ 31 then v else v + (2 ^ 64 - 2 ^ 32)

/-- The loads of `packetUid`. The octets are of type `int` when they are shifted. -/
def readPacketUid (d : Data) (buffer : Nat) : Option UInt64 := do
  let b0 ← d.read buffer
  let b1 ← d.read (buffer + 1)
  let b2 ← d.read (buffer + 2)
  let b3 ← d.read (buffer + 3)
  some (UInt64.ofNat (b0.toNat ||| b1.toNat <<< 8 ||| b2.toNat <<< 16 |||
    signExtend (b3.toNat <<< 24)))

/-! ## Blocks -/

namespace Pool

/-- The loop over `m_freeList`: blocks that are too small are given up. -/
def findFree (size : Nat) : List Data → Option Data × List Data
  | [] => (none, [])
  | data :: freeList =>
    if size ≤ data.size then (some { data with count := 1 }, freeList) else findFree size freeList

/-- `Allocate`. `m_size` has 16 bits. -/
def allocate (p : Pool) (n : Nat) : Data where
  count := 1
  size := max n 8 % 2 ^ 16
  dirtyEnd := 0
  bytes := (List.range (max n 8)).map p.memory
  size_le := by
    rw [List.length_map, List.length_range]
    exact Nat.mod_le _ _

/-- `Create`. -/
def create (p : Pool) (size : Nat) : Pool × Data :=
  let p := { p with maxSize := max p.maxSize size }
  match findFree size p.freeList with
  | (some data, freeList) => ({ p with freeList := freeList }, data)
  | (none, freeList) => ({ p with freeList := freeList }, p.allocate p.maxSize)

/-- `Recycle`. -/
def recycle (p : Pool) (data : Data) : Pool :=
  if p.enable = false ∨ p.freeList.length > 1000 ∨ data.size < p.maxSize then p
  else { p with freeList := data :: p.freeList }

/-- A packet lets its block go. A block with a count is still that of other packets. -/
def release (p : Pool) (data : Data) : Pool :=
  if data.count - 1 = 0 then p.recycle { data with count := 0 } else p

end Pool

namespace PacketMetadata

/-- The constructor, for a packet that has no bytes yet. -/
def make (p : Pool) (uid : UInt64) : Option (Pool × PacketMetadata) := do
  let (p, data) := p.create 10
  let data ← data.write 0 [0xff, 0xff, 0xff, 0xff]
  some (p, ⟨data, 0xffff, 0xffff, 0, uid⟩)

/-- `ReserveCopy`. -/
def reserveCopy (p : Pool) (m : PacketMetadata) (size : Nat) : Option (Pool × PacketMetadata) := do
  let (p, newData) := p.create (m.used + size)
  if m.data.bytes.length < m.used then none
  let newData ← newData.write 0 (m.data.bytes.take m.used)
  let newData := { newData with dirtyEnd := m.used }
  let p := p.release m.data
  if m.head ≠ 0xffff then
    let newData ← newData.append16 0xffff m.tail
    let newData ← newData.append16 0xffff (m.head + 2)
    some (p, { m with data := newData })
  else some (p, { m with data := newData })

/-- The test in front of every item. -/
def Reserves (m : PacketMetadata) (n : Nat) : Prop :=
  m.data.size < m.used + n ∨ (m.head ≠ 0xffff ∧ m.data.count ≠ 1 ∧ m.used ≠ m.data.dirtyEnd)

instance (m : PacketMetadata) (n : Nat) : Decidable (m.Reserves n) :=
  inferInstanceAs (Decidable (_ ∨ _))

def reserve (p : Pool) (m : PacketMetadata) (n : Nat) : Option (Pool × PacketMetadata) :=
  if m.Reserves n then m.reserveCopy p n else some (p, m)

/-- `AddSmall`. -/
def addSmall (p : Pool) (m : PacketMetadata) (item : SmallItem) :
    Option (Pool × PacketMetadata × Nat) := do
  -- `NS_ASSERT (m_used != item->prev && m_used != item->next)`
  if m.used = item.prev.toNat ∨ m.used = item.next.toNat then none
  let typeUidSize := getUleb128Size item.typeUid
  let sizeSize := getUleb128Size item.size
  let n := 2 + 2 + typeUidSize + sizeSize + 2
  let (p, m) ← m.reserve p n
  let buffer := m.used
  let data ← m.data.append16 item.next buffer
  let buffer := buffer + 2
  let data ← data.append16 item.prev buffer
  let buffer := buffer + 2
  let data ← data.write buffer (appendValue item.typeUid)
  let buffer := buffer + typeUidSize
  let data ← data.write buffer (appendValue item.size)
  let buffer := buffer + sizeSize
  let data ← data.append16 item.chunkUid buffer
  some (p, { m with data := data }, n)

/-- `AddBig`. -/
def addBig (p : Pool) (m : PacketMetadata) (next prev : UInt32) (item : SmallItem)
    (extraItem : ExtraItem) : Option (Pool × PacketMetadata × Nat) := do
  let typeUid := if item.typeUid &&& 1 = 1 then item.typeUid else item.typeUid + 1
  -- `NS_ASSERT (m_used != prev && m_used != next)`
  if m.used = prev.toNat ∨ m.used = next.toNat then none
  let typeUidSize := getUleb128Size typeUid
  let sizeSize := getUleb128Size item.size
  let fragStartSize := getUleb128Size extraItem.fragmentStart
  let fragEndSize := getUleb128Size extraItem.fragmentEnd
  let n := 2 + 2 + typeUidSize + sizeSize + 2 + fragStartSize + fragEndSize + 4
  let (p, m) ← m.reserve p n
  let buffer := m.used
  let data ← m.data.append16 next.toUInt16 buffer
  let buffer := buffer + 2
  let data ← data.append16 prev.toUInt16 buffer
  let buffer := buffer + 2
  let data ← data.write buffer (appendValue typeUid)
  let buffer := buffer + typeUidSize
  let data ← data.write buffer (appendValue item.size)
  let buffer := buffer + sizeSize
  let data ← data.append16 item.chunkUid buffer
  let buffer := buffer + 2
  let data ← data.write buffer (appendValue extraItem.fragmentStart)
  let buffer := buffer + fragStartSize
  let data ← data.write buffer (appendValue extraItem.fragmentEnd)
  let buffer := buffer + fragEndSize
  let data ← data.append32 extraItem.packetUid.toUInt32 buffer
  some (p, { m with data := data }, n)

/-- `ReadItems`, with the number of bytes that it returns. It asserts that the item starts and ends
in the block. -/
def readItems (m : PacketMetadata) (current : Nat) : Option (SmallItem × ExtraItem × Nat) := do
  if m.data.size < current then none
  let buffer := current
  let next ← read16 m.data buffer
  let prev ← read16 m.data (buffer + 2)
  let buffer := buffer + 4
  let (typeUid, buffer) ← readUleb128 m.data buffer
  let (size, buffer) ← readUleb128 m.data buffer
  let chunkUid ← read16 m.data buffer
  let buffer := buffer + 2
  let item := ⟨next, prev, typeUid, size, chunkUid⟩
  if typeUid &&& 1 = 1 then
    let (fragmentStart, buffer) ← readUleb128 m.data buffer
    let (fragmentEnd, buffer) ← readUleb128 m.data buffer
    let packetUid ← readPacketUid m.data buffer
    let buffer := buffer + 4
    if m.data.size < buffer then none
    some (item, ⟨fragmentStart, fragmentEnd, packetUid⟩, buffer - current)
  else
    if m.data.size < buffer then none
    some (item, ⟨0, size, m.packetUid⟩, buffer - current)

end PacketMetadata

end Ns3.Network.Metadata
