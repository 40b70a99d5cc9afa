import Mathlib.Algebra.Order.Ring.Int
import Mathlib.Data.Nat.Notation
import Mathlib.Data.List.Basic

/-!
# Block ack frames

`CtrlBAckResponseHeader` with all its variants. A Multi-STA block ack has an entry for each AID and
TID; the length of a bitmap is not sent, it is coded in the fragment number of the starting sequence
control. A failed assertion and a fatal error are `none`.
-/

namespace Ns3.Wifi.CtrlHeaders

/-! ## Types -/

/-- `BlockAckType::Variant`. -/
inductive Variant where
  | basic
  | compressed
  | extendedCompressed
  | multiTid
  | multiSta
deriving DecidableEq, Repr

structure BlockAckType where
  m_variant : Variant
  m_bitmapLen : List ℕ
deriving DecidableEq, Repr

/-- The constructor `BlockAckType (Variant)`. -/
def BlockAckType.ofVariant : Variant → BlockAckType
  | .basic => ⟨.basic, [128]⟩
  | .compressed => ⟨.compressed, [8]⟩
  | .extendedCompressed => ⟨.extendedCompressed, [8]⟩
  | .multiTid => ⟨.multiTid, []⟩
  | .multiSta => ⟨.multiSta, []⟩

/-- The six octets of an address. -/
structure Mac48Address where
  octets : List UInt8
  length_eq : octets.length = 6
deriving DecidableEq, Repr

def Mac48Address.zero : Mac48Address := ⟨List.replicate 6 0, rfl⟩

structure BaInfoInstance where
  m_aidTidInfo : ℕ
  m_startingSeq : ℕ
  m_bitmap : List UInt8
  m_ra : Mac48Address
deriving DecidableEq, Repr

/-- An instance without a bitmap. -/
def BaInfoInstance.zero : BaInfoInstance := ⟨0, 0, [], .zero⟩

structure CtrlBAckResponseHeader where
  m_baAckPolicy : Bool
  m_baType : BlockAckType
  m_tidInfo : ℕ
  m_baInfo : List BaInfoInstance
deriving DecidableEq, Repr

/-! ## Octets -/

/-- `WriteHtolsbU16`. -/
def writeHtolsbU16 (n : ℕ) : List UInt8 :=
    [UInt8.ofNat (n &&& 0xff), UInt8.ofNat (n >>> 8 &&& 0xff)]

/-- `ReadLsbtohU16`, with what is not read. -/
def readLsbtohU16 : List UInt8 → Option (ℕ × List UInt8)
  | b0 :: b1 :: bytes => some (b1.toNat <<< 8 ||| b0.toNat, bytes)
  | _ => none

/-- `ReadU8` a number of times. -/
def readU8s (n : ℕ) (bytes : List UInt8) : Option (List UInt8 × List UInt8) :=
  if n ≤ bytes.length then some (bytes.take n, bytes.drop n) else none

/-- `ReadFrom` for an address. -/
def readAddress (bytes : List UInt8) : Option (Mac48Address × List UInt8) :=
  if h : 6 ≤ bytes.length then
    some (⟨bytes.take 6, by rw [List.length_take, Nat.min_eq_left h]⟩, bytes.drop 6)
  else none

namespace CtrlBAckResponseHeader

variable (h : CtrlBAckResponseHeader)

/-! ## Fields -/

def setType (type : BlockAckType) : CtrlBAckResponseHeader :=
  { h with
    m_baType := type
    m_baInfo := type.m_bitmapLen.map fun bitmapLen =>
      ⟨0, 0, List.replicate bitmapLen 0, .zero⟩ }

/-- The constructor. -/
def create : CtrlBAckResponseHeader :=
  setType ⟨false, ⟨.basic, []⟩, 0, []⟩ (.ofVariant .basic)

/-- The entry at an index, which is 0 but for Multi-STA. -/
def entry (index : ℕ) : Option BaInfoInstance := do
  guard (h.m_baType.m_variant = .multiSta ∨ index = 0)
  h.m_baInfo[index]?

/-- `GetAid11` of an entry. -/
def aid11 (info : BaInfoInstance) : ℕ := info.m_aidTidInfo &&& 0x07ff

/-- `GetAckType` of an entry. -/
def ackType (info : BaInfoInstance) : Bool := info.m_aidTidInfo >>> 11 &&& 0x0001 != 0

/-- `GetTidInfo` of an entry of a Multi-STA block ack. -/
def tid (info : BaInfoInstance) : ℕ := info.m_aidTidInfo >>> 12 &&& 0x000f

def getTidInfo (index : ℕ) : Option ℕ := do
  let info ← h.entry index
  some (if h.m_baType.m_variant = .multiSta then tid info else h.m_tidInfo)

/-! ## Control fields -/

/-- The variant in `GetBaControl`. -/
def variantBits : Variant → ℕ
  | .basic => 0
  | .compressed => 0x02 <<< 1
  | .extendedCompressed => 0x01 <<< 1
  | .multiTid => 0x03 <<< 1
  | .multiSta => 0x0b <<< 1

def getBaControl : ℕ :=
  let res := (if h.m_baAckPolicy then 0x1 else 0) ||| variantBits h.m_baType.m_variant
  if h.m_baType.m_variant = .multiSta then res
  else res ||| h.m_tidInfo <<< 12 &&& 0xf <<< 12

/-- The type that `SetBaControl` takes. -/
def variantOf (ba : ℕ) : Option Variant :=
  if ba >>> 1 &&& 0x0f = 0x03 then some .multiTid
  else if ba >>> 1 &&& 0x0f = 0x01 then some .extendedCompressed
  else if ba >>> 1 &&& 0x0f = 0x02 then some .compressed
  else if ba >>> 1 &&& 0x0f = 0 then some .basic
  else if ba >>> 1 &&& 0x0f = 0x0b then some .multiSta
  else none

def setBaControl (ba : ℕ) : Option CtrlBAckResponseHeader := do
  let variant ← variantOf ba
  let h := { h with m_baAckPolicy := ba &&& 0x01 = 1 }.setType (.ofVariant variant)
  some (if variant = .multiSta then h else { h with m_tidInfo := ba >>> 12 &&& 0x0f })

/-- The fragment number for the length of a bitmap of a Multi-STA block ack. -/
def fragmentBits (bitmapLen : ℕ) : ℕ :=
  if bitmapLen = 16 then 0x0002
  else if bitmapLen = 32 then 0x0004
  else if bitmapLen = 4 then 0x0006
  else 0

def getStartingSequenceControl (index : ℕ) : Option ℕ := do
  let info ← h.entry index
  let ret := info.m_startingSeq <<< 4 &&& 0xfff0
  match h.m_baType.m_variant with
  | .compressed =>
    let bitmapLen ← h.m_baType.m_bitmapLen[0]?
    some (if bitmapLen = 32 then ret ||| 0x0004 else ret)
  | .multiSta => do
    guard (h.m_baInfo.length = h.m_baType.m_bitmapLen.length)
    guard (info.m_bitmap.length > 0)
    let bitmapLen ← h.m_baType.m_bitmapLen[index]?
    some (ret ||| fragmentBits bitmapLen)
  | _ => some ret

/-- The length of a bitmap of a Multi-STA block ack from the fragment number. -/
def lengthOfFragment (seqControl : ℕ) : Option ℕ :=
  if seqControl &&& 0x0001 = 1 then none
  else if seqControl >>> 3 &&& 0x0001 = 0 ∧ seqControl >>> 1 &&& 0x0003 = 0 then some 8
  else if seqControl >>> 3 &&& 0x0001 = 0 ∧ seqControl >>> 1 &&& 0x0003 = 1 then some 16
  else if seqControl >>> 3 &&& 0x0001 = 0 ∧ seqControl >>> 1 &&& 0x0003 = 2 then some 32
  else if seqControl >>> 3 &&& 0x0001 = 0 ∧ seqControl >>> 1 &&& 0x0003 = 3 then some 4
  else none

/-- The length of the bitmap of a compressed block ack from the fragment number. -/
def compressedLength (seqControl : ℕ) : Option ℕ :=
  if seqControl &&& 0x0001 = 1 then none
  else if seqControl >>> 3 &&& 0x0001 = 0 ∧ seqControl >>> 1 &&& 0x0003 = 0 then some 8
  else if seqControl >>> 3 &&& 0x0001 = 0 ∧ seqControl >>> 1 &&& 0x0003 = 2 then some 32
  else none

def setStartingSequenceControl (seqControl index : ℕ) : Option CtrlBAckResponseHeader := do
  let _ ← h.entry index
  let h ← match h.m_baType.m_variant with
    | .compressed => do
      let bitmapLen ← compressedLength seqControl
      some (h.setType ⟨.compressed, [bitmapLen]⟩)
    | .multiSta => do
      let bitmapLen ← lengthOfFragment seqControl
      some { h with
        m_baType := ⟨.multiSta, h.m_baType.m_bitmapLen.set index bitmapLen⟩
        m_baInfo := h.m_baInfo.modify index fun info =>
          { info with m_bitmap := List.replicate bitmapLen 0 } }
    | _ => some h
  some { h with
    m_baInfo := h.m_baInfo.modify index fun info =>
      { info with m_startingSeq := seqControl >>> 4 &&& 0x0fff } }

/-! ## Bitmaps -/

def isInBitmap (seq index : ℕ) : Option Bool := do
  guard (h.m_baType.m_variant = .multiSta ∨ index = 0)
  let bitmapLen ← h.m_baType.m_bitmapLen[index]?
  let info ← h.m_baInfo[index]?
  let nAckedMpdus := if h.m_baType.m_variant = .basic then bitmapLen * 8 / 16 else bitmapLen * 8
  some (decide ((seq + 4096 - info.m_startingSeq) % 4096 < nAckedMpdus))

def indexInBitmap (seq index : ℕ) : Option ℕ := do
  let bitmapLen ← h.m_baType.m_bitmapLen[index]?
  let info ← h.m_baInfo[index]?
  let i := if seq ≥ info.m_startingSeq then seq - info.m_startingSeq
    else 4096 - info.m_startingSeq + seq
  let nAckedMpdus := if h.m_baType.m_variant = .basic then bitmapLen * 8 / 16 else bitmapLen * 8
  guard (i < nAckedMpdus)
  some i

/-- The octet of a bitmap at a place, and its change. -/
def orOctet (bitmap : List UInt8) (place : ℕ) (mask : UInt8) : Option (List UInt8) :=
  if place < bitmap.length then some (bitmap.modify place (· ||| mask)) else none

def setReceivedPacket (seq index : ℕ) : Option CtrlBAckResponseHeader := do
  let info ← h.entry index
  if !(← h.isInBitmap seq index) then some h
  else
    let bitmap ← match h.m_baType.m_variant with
      | .basic => do
        let i ← h.indexInBitmap seq 0
        orOctet info.m_bitmap (i * 2) 0x01
      | .multiTid => none
      | _ => do
        let i ← h.indexInBitmap seq index
        orOctet info.m_bitmap (i / 8) (0x01 <<< UInt8.ofNat (i % 8))
    some { h with m_baInfo := h.m_baInfo.set index { info with m_bitmap := bitmap } }

def isPacketReceived (seq index : ℕ) : Option Bool := do
  let info ← h.entry index
  if h.m_baType.m_variant = .multiSta ∧ ackType info ∧ tid info = 14 then some true
  else if !(← h.isInBitmap seq index) then some false
  else match h.m_baType.m_variant with
    | .basic => some false
    | .multiTid => none
    | _ => do
      let i ← h.indexInBitmap seq index
      let octet ← info.m_bitmap[i / 8]?
      some (octet &&& 0x01 <<< UInt8.ofNat (i % 8) != 0)

/-! ## The frame -/

def getSerializedSize : Option ℕ :=
  match h.m_baType.m_variant with
  | .multiTid => some (2 + (2 + 2 + 8) * (h.m_tidInfo + 1))
  | .multiSta => some (2 + (h.m_baType.m_bitmapLen.map fun bitmapLen =>
      2 + (if bitmapLen > 0 then 2 else 0) + bitmapLen).sum)
  | _ => do
    let bitmapLen ← h.m_baType.m_bitmapLen[0]?
    some (2 + (2 + bitmapLen))

/-- One turn of the loop of `Serialize`. -/
def serializeEntry (index : ℕ) (info : BaInfoInstance) : Option (List UInt8) :=
  if aid11 info ≠ 2045 then
    if info.m_bitmap.length > 0 then do
      let control ← h.getStartingSequenceControl index
      some (writeHtolsbU16 info.m_aidTidInfo ++ writeHtolsbU16 control ++ info.m_bitmap)
    else some (writeHtolsbU16 info.m_aidTidInfo)
  else some (writeHtolsbU16 info.m_aidTidInfo ++ List.replicate 4 0 ++ info.m_ra.octets)

/-- The loop of `Serialize`, from an index on. -/
def serializeEntries (index : ℕ) : List BaInfoInstance → Option (List UInt8)
  | [] => some []
  | info :: infos => do
    let bytes ← h.serializeEntry index info
    let rest ← serializeEntries (index + 1) infos
    some (bytes ++ rest)

def serialize : Option (List UInt8) := do
  match h.m_baType.m_variant with
  | .multiSta => do
    let entries ← h.serializeEntries 0 h.m_baInfo
    some (writeHtolsbU16 h.getBaControl ++ entries)
  | .multiTid => none
  | _ => do
    let control ← h.getStartingSequenceControl 0
    let info ← h.entry 0
    some (writeHtolsbU16 h.getBaControl ++ writeHtolsbU16 control ++ info.m_bitmap)

def deserializeBitmap (bytes : List UInt8) (index : ℕ) :
    Option (CtrlBAckResponseHeader × List UInt8) := do
  let info ← h.entry index
  let bitmapLen ← h.m_baType.m_bitmapLen[index]?
  guard (bitmapLen ≤ info.m_bitmap.length)
  let (octets, bytes) ← readU8s bitmapLen bytes
  some ({ h with
    m_baInfo := h.m_baInfo.set index
      { info with m_bitmap := octets ++ info.m_bitmap.drop bitmapLen } }, bytes)

/-- One turn of the loop of `Deserialize`. -/
def deserializeEntry (bytes : List UInt8) (index : ℕ) :
    Option (CtrlBAckResponseHeader × List UInt8) := do
  let (aidTidInfo, bytes) ← readLsbtohU16 bytes
  let info := { BaInfoInstance.zero with m_aidTidInfo := aidTidInfo }
  let h := { h with
    m_baType := ⟨h.m_baType.m_variant, h.m_baType.m_bitmapLen ++ [0]⟩
    m_baInfo := h.m_baInfo ++ [info] }
  if aid11 info ≠ 2045 then
    if !ackType info ∧ tid info < 8 then do
      let (control, bytes) ← readLsbtohU16 bytes
      let h ← h.setStartingSequenceControl control index
      h.deserializeBitmap bytes index
    else some (h, bytes)
  else do
    let (_, bytes) ← readU8s 4 bytes
    let (ra, bytes) ← readAddress bytes
    some ({ h with
      m_baType := ⟨h.m_baType.m_variant, h.m_baType.m_bitmapLen.set index 8⟩
      m_baInfo := h.m_baInfo.set index { info with m_ra := ra } }, bytes)

/-- The loop of `Deserialize`. Every turn takes octets, so `fuel` octets take at most `fuel`
turns. -/
def deserializeEntries (fuel : ℕ) (h : CtrlBAckResponseHeader) (bytes : List UInt8) (index : ℕ) :
    Option CtrlBAckResponseHeader :=
  match fuel, bytes with
  | _, [] => some h
  | 0, _ => none
  | fuel + 1, bytes => do
    let (h, bytes) ← h.deserializeEntry bytes index
    deserializeEntries fuel h bytes (index + 1)

/-- `Deserialize`, with the number of octets that were read. -/
def deserialize (bytes : List UInt8) : Option (CtrlBAckResponseHeader × ℕ) := do
  let (ba, rest) ← readLsbtohU16 bytes
  let h ← h.setBaControl ba
  match h.m_baType.m_variant with
  | .multiSta => do
    let h ← deserializeEntries rest.length h rest 0
    some (h, bytes.length)
  | .multiTid => none
  | _ => do
    let (control, rest) ← readLsbtohU16 rest
    let h ← h.setStartingSequenceControl control 0
    let (h, rest) ← h.deserializeBitmap rest 0
    some (h, bytes.length - rest.length)

end CtrlBAckResponseHeader

end Ns3.Wifi.CtrlHeaders
