import Mathlib.Data.Nat.Log
import Mathlib.Algebra.Order.Ring.Int
import Ns3.Lib.BitStream

/-!
# Asn1Header

The primitives of the packed encoding. A `std::bitset` is the list of its bits by index. `none`
stands for a failed assertion, `exit`, a read behind the end or an `int` that overflows.
-/

namespace Ns3.Lte

open Ns3.Lib

/-- `std::bitset`, the bit of index 0 first. -/
abbrev Bitset := List Bool

namespace Bitset

/-- `std::bitset<N> (n)`. -/
def ofNat (N n : ℕ) : Bitset := (List.range N).map n.testBit

/-- `to_ulong`. -/
def toUlong : Bitset → ℕ
  | [] => 0
  | b :: bits => b.toNat + 2 * toUlong bits

end Bitset

/-- `Asn1Header`. -/
structure Asn1Header where
  serializationPendingBits : Octet := 0
  numSerializationPendingBits : ℕ := 0
  isDataSerialized : Bool := false
  serializationResult : List Octet := []

/-- The bits that an integer of a range takes, `ceil (log (range) / log (2))`. -/
def requiredBits (range : ℤ) : ℕ := Nat.clog 2 range.toNat

/-- The value fits an `int`. -/
def IsInt (n : ℤ) : Prop := -2 ^ 31 ≤ n ∧ n < 2 ^ 31

instance (n : ℤ) : Decidable (IsInt n) := inferInstanceAs (Decidable (_ ∧ _))

namespace Asn1Header

/-! ## Serialization -/

def writeOctet (h : Asn1Header) (octet : Octet) : Asn1Header :=
  { h with serializationResult := h.serializationResult ++ [octet] }

/-- The loop that completes an octet with the first bits of the data, and the bits it leaves. -/
def completeOctet (data : Bitset) : ℕ → Octet → Asn1Header → ℕ × Asn1Header
  | 0, _, h => (0, h)
  | pendingBits + 1, mask, h =>
    if h.numSerializationPendingBits < 8 then
      completeOctet data pendingBits ((mask >>> 1) &&& ~~~mask)
        { h with
          serializationPendingBits :=
            h.serializationPendingBits ||| if data.getD pendingBits false then mask else 0
          numSerializationPendingBits := h.numSerializationPendingBits + 1 }
    else (pendingBits + 1, h)

/-- The loop that stores fewer than eight bits. -/
def storeBits (data : Bitset) : ℕ → Octet → Octet → Octet
  | 0, _, serializationPendingBits => serializationPendingBits
  | pendingBits + 1, mask, serializationPendingBits =>
    storeBits data pendingBits ((mask >>> 1) &&& ~~~mask)
      (serializationPendingBits ||| if data.getD pendingBits false then mask else 0)

/-- The loop over `j` that fills `octetToWrite` from its low end. -/
def fillOctet (data : Bitset) (pendingBits : ℕ) : ℕ → Octet → Octet → Octet
  | 0, _, octetToWrite => octetToWrite
  | j + 1, mask, octetToWrite =>
    fillOctet data pendingBits j ((mask <<< 1) &&& ~~~mask)
      (octetToWrite ||| if data.getD (pendingBits - (j + 1)) false then mask else 0)

/-- The loop that runs while bits are left. -/
def writeBits (data : Bitset) (pendingBits : ℕ) (h : Asn1Header) : Asn1Header :=
  if pendingBits = 0 then h
  else if pendingBits < 8 then
    { h with
      numSerializationPendingBits := pendingBits
      serializationPendingBits := storeBits data pendingBits 0x80 h.serializationPendingBits }
  else writeBits data (pendingBits - 8) (h.writeOctet (fillOctet data pendingBits 8 1 0))
termination_by pendingBits

/-- `SerializeBitset`. -/
def serializeBitset (h : Asn1Header) (data : Bitset) : Asn1Header :=
  let pendingBits := data.length % 2 ^ 8
  if data.length = 0 then h
  else if data.length ≤ 65536 then
    if 0 < h.numSerializationPendingBits then
      let (pendingBits, h) :=
        completeOctet data pendingBits (0x80#8 >>> h.numSerializationPendingBits) h
      if 8 ≤ h.numSerializationPendingBits then
        writeBits data pendingBits
          { h.writeOctet h.serializationPendingBits with
            numSerializationPendingBits := 0
            serializationPendingBits := 0 }
      else writeBits data pendingBits h
    else writeBits data pendingBits h
  else h

def serializeBitstring (h : Asn1Header) (data : Bitset) : Asn1Header := h.serializeBitset data

def serializeBoolean (h : Asn1Header) (value : Bool) : Asn1Header := h.serializeBitset [value]

def serializeSequence (h : Asn1Header) (optionalOrDefaultMask : Bitset)
    (isExtensionMarkerPresent : Bool) : Asn1Header :=
  let h := if isExtensionMarkerPresent then h.serializeBoolean false else h
  h.serializeBitstring optionalOrDefaultMask

def serializeInteger (h : Asn1Header) (n nmin nmax : ℤ) : Option Asn1Header :=
  if nmin ≤ n ∧ n ≤ nmax then
    let range := nmax - nmin + 1
    if ¬IsInt range then none
    else if range ≤ 1 then some h
    else if 1 ≤ requiredBits range ∧ requiredBits range ≤ 20 then
      some (h.serializeBitset (.ofNat (requiredBits range) (n - nmin).toNat))
    else none
  else none

def serializeSequenceOf (h : Asn1Header) (numElems nMax nMin : ℤ) : Option Asn1Header :=
  h.serializeInteger numElems nMin nMax

def serializeEnum (h : Asn1Header) (numElems selectedElem : ℤ) : Option Asn1Header :=
  h.serializeInteger selectedElem 0 (numElems - 1)

def serializeChoice (h : Asn1Header) (numOptions selectedOption : ℤ)
    (isExtensionMarkerPresent : Bool) : Option Asn1Header :=
  let h := if isExtensionMarkerPresent then h.serializeBoolean false else h
  if numOptions < 2 then some h else h.serializeInteger selectedOption 0 (numOptions - 1)

def finalizeSerialization (h : Asn1Header) : Asn1Header :=
  let h :=
    if 0 < h.numSerializationPendingBits then
      { h with numSerializationPendingBits := 0 }.serializeBitset
        (.ofNat 8 h.serializationPendingBits.toNat)
    else h
  { h with isDataSerialized := true }

/-! ## Deserialization -/

/-- The loop that takes pending bits, and the bits that stay to be read. -/
def readPending : ℕ → Bitset → Asn1Header → ℕ × Bitset × Asn1Header
  | 0, data, h => (0, data, h)
  | bitsToRead + 1, data, h =>
    if 0 < h.numSerializationPendingBits then
      readPending bitsToRead
        (data.set bitsToRead (h.serializationPendingBits &&& 0x80 != 0))
        { h with
          numSerializationPendingBits := h.numSerializationPendingBits - 1
          serializationPendingBits := h.serializationPendingBits <<< 1 }
    else (bitsToRead + 1, data, h)

/-- Both loops that take bits of an octet, a number of steps of them. -/
def takeBits (octet : Octet) : ℕ → ℕ → Octet → Bitset → Bitset
  | 0, _, _, data => data
  | steps + 1, bitsToRead, mask, data =>
    takeBits octet steps (bitsToRead - 1) (mask >>> 1)
      (data.set (bitsToRead - 1) (octet &&& mask != 0))

/-- The loop over the octets of the buffer. -/
def readOctets : List Octet → ℕ → Bitset → Asn1Header →
    Option (Bitset × Asn1Header × List Octet)
  | octets, 0, data, h => some (data, h, octets)
  | [], _ + 1, _, _ => none
  | octet :: octets, bitsToRead, data, h =>
    if 8 ≤ bitsToRead then
      readOctets octets (bitsToRead - 8) (takeBits octet 8 bitsToRead 0x80 data) h
    else
      some (takeBits octet bitsToRead bitsToRead 0x80 data,
        { h with
          numSerializationPendingBits := 8 - bitsToRead
          serializationPendingBits := octet <<< bitsToRead },
        octets)

/-- `DeserializeBitset`, with what `*data` holds before. -/
def deserializeBitset (h : Asn1Header) (data : Bitset) (octets : List Octet) :
    Option (Bitset × Asn1Header × List Octet) :=
  let (bitsToRead, data, h) := readPending data.length data h
  readOctets octets bitsToRead data h

def deserializeBitstring (h : Asn1Header) (data : Bitset) (octets : List Octet) :
    Option (Bitset × Asn1Header × List Octet) :=
  h.deserializeBitset data octets

def deserializeBoolean (h : Asn1Header) (octets : List Octet) :
    Option (Bool × Asn1Header × List Octet) := do
  let (readBit, h, octets) ← h.deserializeBitset [false] octets
  some (readBit.getD 0 false, h, octets)

/-- `DeserializeInteger`, with what `*n` holds before. -/
def deserializeInteger (h : Asn1Header) (n nmin nmax : ℤ) (octets : List Octet) :
    Option (ℤ × Asn1Header × List Octet) :=
  let (nmin, nmax) := if nmax < nmin then (nmax, nmin) else (nmin, nmax)
  let range := nmax - nmin + 1
  if ¬IsInt range then none
  else if range = 1 then some (n, h, octets)
  else if 1 ≤ requiredBits range ∧ requiredBits range ≤ 20 then do
    let (bitsRead, h, octets) ←
      h.deserializeBitset (.replicate (requiredBits range) false) octets
    some (bitsRead.toUlong + nmin, h, octets)
  else none

/-- The extension marker, which is read and dropped. -/
def deserializeMarker (h : Asn1Header) (isExtensionMarkerPresent : Bool) (octets : List Octet) :
    Option (Asn1Header × List Octet) :=
  if isExtensionMarkerPresent then (h.deserializeBoolean octets).map Prod.snd
  else some (h, octets)

def deserializeChoice (h : Asn1Header) (numOptions : ℤ) (isExtensionMarkerPresent : Bool)
    (selectedOption : ℤ) (octets : List Octet) : Option (ℤ × Asn1Header × List Octet) := do
  let (h, octets) ← h.deserializeMarker isExtensionMarkerPresent octets
  h.deserializeInteger selectedOption 0 (numOptions - 1) octets

def deserializeEnum (h : Asn1Header) (numElems selectedElem : ℤ) (octets : List Octet) :
    Option (ℤ × Asn1Header × List Octet) :=
  h.deserializeInteger selectedElem 0 (numElems - 1) octets

def deserializeSequence (h : Asn1Header) (optionalOrDefaultMask : Bitset)
    (isExtensionMarkerPresent : Bool) (octets : List Octet) :
    Option (Bitset × Asn1Header × List Octet) := do
  let (h, octets) ← h.deserializeMarker isExtensionMarkerPresent octets
  h.deserializeBitset optionalOrDefaultMask octets

def deserializeSequenceOf (h : Asn1Header) (numElems nMax nMin : ℤ) (octets : List Octet) :
    Option (ℤ × Asn1Header × List Octet) :=
  h.deserializeInteger numElems nMin nMax octets

end Asn1Header

end Ns3.Lte
