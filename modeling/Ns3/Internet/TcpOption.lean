import Mathlib
import Ns3.Internet.IpChecksum
import Ns3.Lib.Outcome

/-!
# TCP options

The options of a TCP header, each with its own `Serialize` and `Deserialize`. An option reads what
it has written, whatever follows it.
-/

namespace Ns3.Internet

/-- `TcpOption`, with its subclasses. The content of an unknown option is what its size has read. -/
inductive TcpOption where
  | endOption
  | nop
  | mss (m_mss : UInt16)
  | winScale (m_scale : UInt8)
  | sackPermitted
  | sack (m_sackList : List (UInt32 × UInt32))
  | ts (m_timestamp m_echo : UInt32)
  | unknown (m_kind m_size : UInt8) (m_content : List UInt8)
deriving DecidableEq, Repr

/-- What ends a run of `Deserialize`: octets beyond the end of the buffer, or `NS_ABORT_IF`. -/
inductive TcpFault where
  | outOfRange
  | abort
deriving DecidableEq, Repr

namespace TcpOption

/-! ## Embedding -/

def getKind : TcpOption → UInt8
  | endOption => 0
  | nop => 1
  | mss _ => 2
  | winScale _ => 3
  | sackPermitted => 4
  | sack _ => 5
  | ts _ _ => 8
  | unknown m_kind _ _ => m_kind

/-- `GetSerializedSize`. -/
def getSerializedSize : TcpOption → ℕ
  | endOption => 1
  | nop => 1
  | mss _ => 4
  | winScale _ => 3
  | sackPermitted => 2
  | sack m_sackList => (2 + m_sackList.length % 2 ^ 32 * 8) % 2 ^ 32
  | ts _ _ => 10
  | unknown _ m_size _ => m_size.toNat

def isKindKnown (kind : UInt8) : Bool :=
  kind == 0 || kind == 1 || kind == 2 || kind == 3 || kind == 4 || kind == 5 || kind == 8

/-- The object that the factory makes. -/
def createOption (kind : UInt8) : TcpOption :=
  if kind == 0 then endOption
  else if kind == 2 then mss 1460
  else if kind == 1 then nop
  else if kind == 8 then ts 0 0
  else if kind == 3 then winScale 0
  else if kind == 4 then sackPermitted
  else if kind == 5 then sack []
  else unknown 0xff 0 []

/-- The edges of a block. -/
def writeBlock (s : UInt32 × UInt32) : List UInt8 := writeHtonU32 s.1 ++ writeHtonU32 s.2

/-- The octets that `Serialize` writes. -/
def serialize : TcpOption → List UInt8
  | endOption => [0]
  | nop => [1]
  | mss m_mss => 2 :: 4 :: writeHtonU16 m_mss
  | winScale m_scale => [3, 3, m_scale]
  | sackPermitted => [4, 2]
  | sack m_sackList =>
    5 :: UInt8.ofNat (m_sackList.length * 8 + 2) :: m_sackList.flatMap writeBlock
  | ts m_timestamp m_echo => 8 :: 10 :: (writeHtonU32 m_timestamp ++ writeHtonU32 m_echo)
  | unknown m_kind m_size m_content =>
    if m_size = 0 then [] else m_kind :: m_size :: m_content.take (m_size.toNat - 2)

/-- What is read, or the fault that there is not enough of it. -/
def need {α : Type} : Option α → Except TcpFault α
  | some a => .ok a
  | none => .error .outOfRange

@[simp] theorem need_some {α : Type} (a : α) : need (some a) = .ok a := rfl

/-- The loop over the blocks. -/
def readBlocks : ℕ → List UInt8 → List (UInt32 × UInt32) → Option (List (UInt32 × UInt32))
  | 0, _, sackList => some sackList
  | sackCount + 1, i, sackList => do
    let (leftEdge, i) ← readNtohU32 i
    let (rightEdge, i) ← readNtohU32 i
    readBlocks sackCount i (sackList ++ [(leftEdge, rightEdge)])

/-- `Deserialize` of an option of a known kind, after the octet of its kind. What is not well formed
has the size 0. -/
def readBody : TcpOption → List UInt8 → Except TcpFault (TcpOption × ℕ)
  | endOption, _ => .ok (endOption, 1)
  | nop, _ => .ok (nop, 1)
  | mss _, i => do
    let (size, i) ← need (readU8 i)
    if size ≠ 4 then .error .abort
    else do
      let (m_mss, _) ← need (readNtohU16 i)
      .ok (mss m_mss, 4)
  | winScale m_scale, i => do
    let (size, i) ← need (readU8 i)
    if size ≠ 3 then .ok (winScale m_scale, 0)
    else do
      let (m_scale, _) ← need (readU8 i)
      .ok (winScale m_scale, 3)
  | sackPermitted, i => do
    let (size, _) ← need (readU8 i)
    .ok (sackPermitted, if size ≠ 2 then 0 else 2)
  | sack _, i => do
    let (size, i) ← need (readU8 i)
    let m_sackList ← need (readBlocks ((size.toNat - 2) / 8) i [])
    .ok (sack m_sackList, (sack m_sackList).getSerializedSize)
  | ts m_timestamp m_echo, i => do
    let (size, i) ← need (readU8 i)
    if size ≠ 10 then .ok (ts m_timestamp m_echo, 0)
    else do
      let (m_timestamp, i) ← need (readNtohU32 i)
      let (m_echo, _) ← need (readNtohU32 i)
      .ok (ts m_timestamp m_echo, 10)
  | unknown m_kind _ m_content, i => do
    let (m_size, i) ← need (readU8 i)
    if m_size < 2 ∨ m_size > 40 then .ok (unknown m_kind m_size m_content, 0)
    else do
      let (m_content, _) ← need (read (m_size.toNat - 2) i)
      .ok (unknown m_kind m_size m_content, m_size.toNat)

/-- `Deserialize`: the object afterwards, and the size that is returned. Only an unknown option
takes the kind that it reads. -/
def deserialize (op : TcpOption) (start : List UInt8) : Except TcpFault (TcpOption × ℕ) := do
  let (readKind, i) ← need (readU8 start)
  match op with
  | unknown _ m_size m_content => readBody (unknown readKind m_size m_content) i
  | op => if readKind ≠ op.getKind then .ok (op, 0) else readBody op i

/-! ## Round trip -/

/-- An object of a class of its own, with a list of blocks that has a size. -/
def Proper : TcpOption → Prop
  | sack m_sackList => m_sackList.length < 2 ^ 29
  | unknown _ _ _ => False
  | _ => True

theorem length_flatMap_writeBlock (l : List (UInt32 × UInt32)) :
    (l.flatMap writeBlock).length = l.length * 8 := by
  induction l with
  | nil => rfl
  | cons s l ih =>
    rw [List.flatMap_cons, List.length_append, ih, List.length_cons]
    simp [writeBlock]
    omega

theorem length_serialize {op : TcpOption} (hop : op.Proper) :
    op.serialize.length = op.getSerializedSize := by
  cases op with
  | sack m_sackList =>
    have hlt : m_sackList.length < 2 ^ 29 := hop
    simp only [serialize, List.length_cons, length_flatMap_writeBlock, getSerializedSize]
    omega
  | unknown m_kind m_size m_content => exact hop.elim
  | endOption => rfl
  | nop => rfl
  | mss m_mss => rfl
  | winScale m_scale => rfl
  | sackPermitted => rfl
  | ts m_timestamp m_echo => rfl

theorem readBlocks_flatMap (l acc : List (UInt32 × UInt32)) (rest : List UInt8) :
    readBlocks l.length (l.flatMap writeBlock ++ rest) acc = some (acc ++ l) := by
  induction l generalizing acc with
  | nil => simp [readBlocks]
  | cons s l ih =>
    rw [List.length_cons, List.flatMap_cons, readBlocks, writeBlock, List.append_assoc,
      List.append_assoc]
    refine (bind_of_some (readNtohU32_write _ _) _).trans ?_
    refine (bind_of_some (readNtohU32_write _ _) _).trans ?_
    simp only [ih, List.append_assoc, List.singleton_append]

theorem deserialize_kind {op : TcpOption} (hop : op.Proper) (i : List UInt8) :
    op.deserialize (op.getKind :: i) = readBody op i := by
  cases op with
  | unknown m_kind m_size m_content => exact hop.elim
  | _ => simp [deserialize, Lib.ok_bind]

/-- An option that fits into a header is read back by the object that its kind makes. -/
theorem deserialize_serialize {op : TcpOption} (hop : op.Proper) (hsize : op.getSerializedSize ≤ 40)
    (rest : List UInt8) :
    (createOption op.getKind).deserialize (op.serialize ++ rest) =
    .ok (op, op.getSerializedSize) := by
  cases op with
  | sack m_sackList =>
    have hlt : m_sackList.length < 2 ^ 29 := hop
    have hcount :
        ((UInt8.ofNat (m_sackList.length * 8 + 2)).toNat - 2) / 8 = m_sackList.length := by
      simp only [getSerializedSize] at hsize
      rw [UInt8.toNat_ofNat']
      omega
    have hkind := deserialize_kind (show Proper (sack []) from Nat.two_pow_pos 29)
      (UInt8.ofNat (m_sackList.length * 8 + 2) :: (m_sackList.flatMap writeBlock ++ rest))
    refine hkind.trans ?_
    simp only [readBody, readU8_cons, need_some, Lib.ok_bind, hcount, readBlocks_flatMap,
      List.nil_append]
  | unknown m_kind m_size m_content => exact hop.elim
  | endOption => rfl
  | nop => rfl
  | mss m_mss =>
    refine (deserialize_kind (show Proper (mss 1460) from trivial)
      (4 :: (writeHtonU16 m_mss ++ rest))).trans ?_
    simp only [readBody, readU8_cons, need_some, Lib.ok_bind, ne_eq,
      not_true_eq_false, if_false, readNtohU16_write]
    rfl
  | winScale m_scale => rfl
  | sackPermitted => rfl
  | ts m_timestamp m_echo =>
    refine (deserialize_kind (show Proper (ts 0 0) from trivial)
      (10 :: (writeHtonU32 m_timestamp ++ writeHtonU32 m_echo ++ rest))).trans ?_
    simp only [readBody, readU8_cons, need_some, Lib.ok_bind, ne_eq,
      not_true_eq_false, if_false, List.append_assoc, readNtohU32_write]
    rfl

end TcpOption

end Ns3.Internet
