import Ns3.Lib.LimitedWriter
import Ns3.Lib.NetworkOrder
import Ns3.Network.Buffer
import Ns3.Network.NixVector

/-!
# Serialized packets

`Packet::Serialize` puts five parts one behind the other: the nix-vector, the byte tags, the packet
tags, the metadata and the buffer. Each part has a word with its length, its body, and padding to
the next word. The check before a part counts the bodies only.

A writer keeps all writes with their positions from the start of the buffer, those behind
`maxSize` too. The sizes are natural numbers: no packet here takes 2^32 bytes.
-/

namespace Ns3.Network

open Lib

/-- What the byte tag iterator returns. The type is given by its hash. -/
structure ByteTagItem where
  tid : Nat
  start : Int
  stop : Int
  buf : List UInt8
deriving DecidableEq, Repr

/-- The `TagData` of a packet tag, with the hash of its type. -/
structure PacketTagItem where
  tid : Nat
  data : List UInt8
deriving DecidableEq, Repr

/-- The items that `ReadItems` reads. The name is that of the type `typeUid >> 1`. -/
structure MetadataItem where
  typeUid : Nat
  name : List UInt8
  size : Nat
  chunkUid : Nat
  fragmentStart : Nat
  fragmentEnd : Nat
  packetUid : Nat
deriving DecidableEq, Repr

structure PacketMetadata where
  packetUid : Nat
  items : List MetadataItem
deriving DecidableEq, Repr

/-- The bytes of a number in the memory of the host. -/
def rawBytes (n v : Nat) : List UInt8 := (octets n v).reverse

/-- A `uint32_t`. -/
def word (v : Nat) : List UInt8 := rawBytes 4 v

/-- The `uint32_t` of an `int32_t`. -/
def unsigned (v : Int) : Nat := (v % 2 ^ 32).toNat

/-- `(n + 3) & ~3`. -/
def roundUp (n : Nat) : Nat := (n + 3) / 4 * 4

/-! ## Tags -/

/-- Words, and data that is padded to a word. -/
def record (words : List Nat) (data : List UInt8) : List (Nat × List UInt8) :=
  words.map (fun w => (4, word w)) ++ [(roundUp data.length, data)]

/-- The loop over the tags of a list. Each of them increments `*numberOfTags`. -/
def serializeTags {τ : Type} (tag : τ → List (Nat × List UInt8)) (start limit : Nat) :
    Nat → List τ → LimitedWriter UInt8 Unit
  | _, [] => pure ()
  | numberOfTags, item :: rest => do
    LimitedWriter.putAll start limit (tag item)
    LimitedWriter.store start (word (numberOfTags + 1))
    serializeTags tag start limit (numberOfTags + 1) rest

namespace ByteTagList

def record (item : ByteTagItem) : List (Nat × List UInt8) :=
  Network.record [item.tid, item.buf.length, unsigned item.start, unsigned item.stop] item.buf

def getSerializedSize (tags : List ByteTagItem) : Nat :=
  4 + (tags.map fun item => 4 + 3 * 4 + roundUp item.buf.length).sum

def serialize (tags : List ByteTagItem) (buffer maxSize : Nat) : LimitedWriter UInt8 Unit := do
  LimitedWriter.put buffer maxSize 4 (word 0)
  serializeTags record buffer maxSize 0 tags

end ByteTagList

namespace PacketTagList

def record (cur : PacketTagItem) : List (Nat × List UInt8) :=
  Network.record [cur.data.length, cur.tid] cur.data

def getSerializedSize (tags : List PacketTagItem) : Nat :=
  4 + (tags.map fun cur => 4 + 4 + roundUp cur.data.length).sum

def serialize (tags : List PacketTagItem) (buffer maxSize : Nat) : LimitedWriter UInt8 Unit := do
  LimitedWriter.put buffer maxSize 4 (word 0)
  serializeTags record buffer maxSize 0 tags

end PacketTagList

/-! ## Metadata -/

namespace PacketMetadata

/-- `m_enable` is a static variable. -/
def getSerializedSize (enable : Bool) (m : PacketMetadata) : Nat :=
  if !enable then 8
  else 8 + (m.items.map fun item =>
    (if item.typeUid / 2 = 0 then 4 else 4 + item.name.length) + (1 + 4 + 2 + 4 + 4 + 8)).sum

/-- `AddToRaw` of the name, of its size, and of the fields of an item. -/
def record (item : MetadataItem) : List (Nat × List UInt8) :=
  (if item.typeUid / 2 ≠ 0 then
    [(4, word item.name.length), (item.name.length, item.name)]
  else [(4, word 0)]) ++
    [(1, rawBytes 1 (item.typeUid % 2)), (4, word item.size), (2, rawBytes 2 item.chunkUid),
      (4, word item.fragmentStart), (4, word item.fragmentEnd), (8, rawBytes 8 item.packetUid)]

/-- `Serialize`. It does not ask for `m_enable`. -/
def serialize (m : PacketMetadata) (buffer maxSize : Nat) : LimitedWriter UInt8 Unit :=
  LimitedWriter.putAll buffer maxSize ((8, rawBytes 8 m.packetUid) :: m.items.flatMap record)

end PacketMetadata

/-! ## Buffers and nix-vectors -/

namespace Buffer

def getSerializedSize (b : Buffer) : Nat :=
  4 + 4 + roundUp (b.zeroAreaStart - b.start) + 4 + roundUp (b.dataEnd - b.zeroAreaEnd)

def serialize (h : Heap) (b : Buffer) (buffer maxSize : Nat) : LimitedWriter UInt8 Unit :=
  let dataStartLength := b.zeroAreaStart - b.start
  let dataEndLength := b.dataEnd - b.zeroAreaEnd
  LimitedWriter.putAll buffer maxSize
    [(4, word (b.zeroAreaEnd - b.zeroAreaStart)),
      (4, word dataStartLength),
      (roundUp dataStartLength, window (h.data b.data).bytes b.start dataStartLength),
      (4, word dataEndLength),
      (roundUp dataEndLength, window (h.data b.data).bytes b.zeroAreaStart dataEndLength)]

end Buffer

namespace NixVector

/-- `Serialize`, to the buffer. -/
def serializeTo (v : NixVector) (buffer maxSize : Nat) : LimitedWriter UInt8 Unit :=
  match v.serialize maxSize with
  | none => throw ()
  | some words => LimitedWriter.store buffer (words.flatMap word)

end NixVector

/-! ## Packets -/

/-- The parts of a `Packet`. -/
structure PacketParts where
  nixVector : Option NixVector
  byteTagList : List ByteTagItem
  packetTagList : List PacketTagItem
  metadata : PacketMetadata
  buffer : Buffer

namespace PacketParts

def getSerializedSize (enable : Bool) (p : PacketParts) : Nat :=
  (match p.nixVector with
    | some nixVector => roundUp nixVector.getSerializedSize + 4
    | none => 4) +
  (roundUp (PacketTagList.getSerializedSize p.packetTagList) + 4) +
  (roundUp (ByteTagList.getSerializedSize p.byteTagList) + 4) +
  (roundUp (p.metadata.getSerializedSize enable) + 4) +
  (roundUp p.buffer.getSerializedSize + 4)

/-- One part, whose `partSize` is checked against `maxSize`, at the position `p`. The result is the
position of the next part. -/
def serializePart (maxSize p partSize : Nat) (serialize : Nat → Nat → LimitedWriter UInt8 Unit) :
    LimitedWriter UInt8 Nat := do
  let s ← get
  if s.size + partSize ≤ maxSize then
    LimitedWriter.store p (word (partSize + 4))
    modify fun s => { s with size := s.size + partSize }
    LimitedWriter.call (serialize (p + 4) partSize)
    return p + 4 + roundUp partSize
  else throw ()

/-- The part of the nix-vector. Without one, its length is put down as 4. -/
def serializeNixVector (maxSize : Nat) : Option NixVector → LimitedWriter UInt8 Nat
  | some nixVector => serializePart maxSize 0 nixVector.getSerializedSize nixVector.serializeTo
  | none => do
    LimitedWriter.put 0 maxSize 4 (word 4)
    return 4

def serialize (h : Heap) (enable : Bool) (pkt : PacketParts) (maxSize : Nat) :
    LimitedWriter UInt8 Unit := do
  let p ← serializeNixVector maxSize pkt.nixVector
  let p ← serializePart maxSize p (ByteTagList.getSerializedSize pkt.byteTagList)
    (ByteTagList.serialize pkt.byteTagList)
  let p ← serializePart maxSize p (PacketTagList.getSerializedSize pkt.packetTagList)
    (PacketTagList.serialize pkt.packetTagList)
  let p ← serializePart maxSize p (pkt.metadata.getSerializedSize enable) pkt.metadata.serialize
  -- `size` and `p` are not used after the last part
  let _ ← serializePart maxSize p pkt.buffer.getSerializedSize (pkt.buffer.serialize h)

end PacketParts

end Ns3.Network
