import Ns3.Network.SequenceNumber
import Ns3.Lib.Outcome
import Ns3.Lib.Words

/-!
# NixVector

Neighbor indices in words of 32 bits. A shift by 32 or more is a fault, as its result is undefined.
-/

namespace Ns3.Network

open SequenceNumber32

inductive NixFault
  | fatal
  | shift
  | outOfRange
deriving DecidableEq, Repr

structure NixVector where
  m_nixVector : List ℕ := []
  m_used : ℕ := 0
  m_totalBitSize : ℕ := 0
  m_epoch : ℕ := 0
deriving DecidableEq, Repr

namespace NixVector

/-- `x << k` of a `uint32_t`. -/
def shl (x k : ℕ) : Except NixFault ℕ := if k < 32 then .ok (x <<< k % 2 ^ 32) else .error .shift

/-- `x >> k` of a `uint32_t`. -/
def shr (x k : ℕ) : Except NixFault ℕ := if k < 32 then .ok (x >>> k) else .error .shift

/-- `m_nixVector.at (i)`. -/
def at_ (words : List ℕ) (i : ℕ) : Except NixFault ℕ :=
  if i < words.length then .ok (words.getD i 0) else .error .outOfRange

/-- `m_nixVector.back ()`. -/
def back (words : List ℕ) : Except NixFault ℕ :=
  match words.getLast? with
  | none => .error .outOfRange
  | some word => .ok word

def addNeighborIndex (v : NixVector) (newBits numberOfBits : ℕ) : Except NixFault NixVector :=
  if numberOfBits > 32 then .error .fatal
  else do
    let currentVectorBitSize := v.m_totalBitSize % 32
    let nixVector := if currentVectorBitSize = 0 then v.m_nixVector ++ [0] else v.m_nixVector
    let last ← back nixVector
    let nixVector ←
      if currentVectorBitSize + numberOfBits > 32 then do
        let tempBits ← shl newBits currentVectorBitSize
        let rest ← shr newBits (32 - currentVectorBitSize)
        pure (nixVector.dropLast ++ [tempBits ||| last] ++ [rest])
      else do
        let newBits ← shl newBits currentVectorBitSize
        pure (nixVector.dropLast ++ [newBits ||| last])
    return { v with
      m_nixVector := nixVector
      m_totalBitSize := (v.m_totalBitSize + numberOfBits) % 2 ^ 32 }

def getRemainingBits (v : NixVector) : ℕ := diff v.m_totalBitSize v.m_used

/-- The bits of `ExtractNeighborIndex`, of which `totalRemainingBits` are not used. -/
def extractBits (words : List ℕ) (totalRemainingBits numberOfBits : ℕ) : Except NixFault ℕ := do
  let vectorIndex := (totalRemainingBits - 1) / 32
  if vectorIndex > 0 ∧ numberOfBits - 1 > (totalRemainingBits - 1) % 32 then
    -- the index spans two entries
    let word ← at_ words vectorIndex
    let extractedBits ← shl word (32 - totalRemainingBits % 32)
    let extractedBits ← shr extractedBits
      ((32 - totalRemainingBits % 32) - (numberOfBits - totalRemainingBits % 32))
    let word ← at_ words (vectorIndex - 1)
    let lowBits ← shr word (32 - (numberOfBits - totalRemainingBits % 32))
    return extractedBits ||| lowBits
  else
    let word ← at_ words vectorIndex
    let extractedBits ← shl word (32 - totalRemainingBits % 32)
    shr extractedBits (32 - numberOfBits)

def extractNeighborIndex (v : NixVector) (numberOfBits : ℕ) : Except NixFault (NixVector × ℕ) :=
  if numberOfBits > 32 ∨ numberOfBits > v.getRemainingBits ∨ numberOfBits = 0 then .error .fatal
  else do
    let extractedBits ← extractBits v.m_nixVector v.getRemainingBits numberOfBits
    return ({ v with m_used := (v.m_used + numberOfBits) % 2 ^ 32 }, extractedBits)

def getSerializedSize (v : NixVector) : ℕ :=
  if v.m_totalBitSize = 0 then 4 else (4 + 4 + 4 * v.m_nixVector.length + 4) % 2 ^ 32

/-- `Serialize`: the words that it writes, or `none` where it returns 0. -/
def serialize (v : NixVector) (maxSize : ℕ) : Option (List ℕ) :=
  if maxSize < v.getSerializedSize then none
  else if v.m_totalBitSize = 0 then some [0]
  else some (v.m_totalBitSize :: v.m_used :: v.m_nixVector ++ [v.m_epoch])

/-- `Deserialize` into `v`, from the words of the buffer; `none` where it returns 0. The packet
passes a size that counts the word before the vector, which says how long it is. -/
def deserialize (v : NixVector) (buffer : List ℕ) (size : ℕ) : Except NixFault (Option NixVector) :=
  if size < 4 then .ok none
  else do
    let totalBitSize ← at_ buffer 0
    if totalBitSize = 0 then return some { v with m_totalBitSize := 0 }
    else
      let used ← at_ buffer 1
      let nixVectorLength := totalBitSize / 32 + if totalBitSize % 32 = 0 then 0 else 1
      if size < (16 + nixVectorLength * 4) % 2 ^ 32 then return none
      else
        let nixVector ← (List.range nixVectorLength).mapM fun j => at_ buffer (2 + j)
        let epoch ← at_ buffer (2 + nixVectorLength)
        return some ⟨nixVector, used, totalBitSize, epoch⟩

/-- The loop of `BitCount`. -/
def bitCountLoop (numberOfNeighbors : ℕ) : ℕ :=
  if numberOfNeighbors = 0 then 0 else bitCountLoop (numberOfNeighbors >>> 1) + 1
decreasing_by
  rw [Nat.shiftRight_eq_div_pow]
  omega

def bitCount (numberOfNeighbors : ℕ) : ℕ :=
  if numberOfNeighbors < 2 then 1 else bitCountLoop (numberOfNeighbors - 1)

/-- `AddNeighborIndex` for each of the fields, which are an index and its width. -/
def addAll (v : NixVector) (fields : List (ℕ × ℕ)) : Except NixFault NixVector :=
  fields.foldlM (fun v field => v.addNeighborIndex field.1 field.2) v

/-- `ExtractNeighborIndex` for each of the widths. -/
def extractAll : NixVector → List ℕ → Except NixFault (NixVector × List ℕ)
  | v, [] => .ok (v, [])
  | v, numberOfBits :: rest => do
    let (v, index) ← v.extractNeighborIndex numberOfBits
    let (v, indices) ← extractAll v rest
    return (v, index :: indices)

end NixVector

end Ns3.Network
