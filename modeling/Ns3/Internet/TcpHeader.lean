import Mathlib
import Ns3.Internet.TcpOption

/-!
# The TCP header

`TcpHeader`, with its options and its checksum over the pseudo header. The buffer is the header and
what follows it.
-/

namespace Ns3.Internet

open Lib

/-! ## Types -/

/-- The sixteen octets of an address. -/
structure Ipv6Address where
  octets : List UInt8
  length_eq : octets.length = 16
deriving DecidableEq, Repr

/-- The addresses that `InitializeChecksum` sets. -/
inductive Endpoints where
  | ipv4 (m_source m_destination : UInt32)
  | ipv6 (m_source m_destination : Ipv6Address)
deriving DecidableEq, Repr

structure TcpHeader where
  m_sourcePort : UInt16 := 0
  m_destinationPort : UInt16 := 0
  m_sequenceNumber : UInt32 := 0
  m_ackNumber : UInt32 := 0
  m_length : ℕ := 5
  m_flags : UInt8 := 0
  m_windowSize : UInt16 := 0xffff
  m_urgentPointer : UInt16 := 0
  m_endpoints : Endpoints
  m_protocol : UInt8
  m_calcChecksum : Bool := false
  m_goodChecksum : Bool := true
  m_options : List TcpOption := []
  m_optionsLen : ℕ := 0
deriving DecidableEq, Repr

namespace TcpHeader

/-! ## Sizes -/

def m_maxOptionsLen : ℕ := 40

/-- The sum of the sizes of the options. -/
def optionsSize (os : List TcpOption) : ℕ := (os.map TcpOption.getSerializedSize).sum

/-- The octets up to the next word. -/
def padding (len : ℕ) : ℕ := if len % 4 = 0 then 0 else 4 - len % 4

def calculateHeaderLength (h : TcpHeader) : ℕ :=
  let len := (20 + optionsSize h.m_options) % 2 ^ 32
  (len + padding len) >>> 2 % 256

def getSerializedSize (h : TcpHeader) : ℕ := h.calculateHeaderLength * 4

/-- `AppendOption`: the answer, and the header afterwards. -/
def appendOption (h : TcpHeader) (option : TcpOption) : Bool × TcpHeader :=
  if h.m_optionsLen + option.getSerializedSize ≤ m_maxOptionsLen then
    if ¬ TcpOption.isKindKnown option.getKind then (false, h)
    else if option.getKind ≠ 0 then
      let m_optionsLen := (h.m_optionsLen + option.getSerializedSize) % 256
      (true, { h with
        m_options := h.m_options ++ [option]
        m_optionsLen := m_optionsLen
        m_length := (20 + 3 + m_optionsLen) >>> 2 })
    else (true, h)
  else (false, h)

/-! ## Checksum -/

/-- The pseudo header for a size of 16 bits. -/
def pseudoHeader (h : TcpHeader) (size : ℕ) : List UInt8 :=
  match h.m_endpoints with
  | .ipv4 source destination =>
    writeHtonU32 source ++ writeHtonU32 destination ++
      [0, h.m_protocol, UInt8.ofNat (size >>> 8), UInt8.ofNat (size &&& 0xff)]
  | .ipv6 source destination =>
    source.octets ++ destination.octets ++
      [0, 0, UInt8.ofNat (size >>> 8), UInt8.ofNat (size &&& 0xff), 0, 0, 0, h.m_protocol]

def calculateHeaderChecksum (h : TcpHeader) (size : ℕ) : Option ℕ := do
  let data := h.pseudoHeader (size % 2 ^ 16)
  let checksum ← calculateIpChecksum data.length 0 data
  some (2 ^ 16 - 1 - checksum)

/-- The checksum of a whole segment. -/
def segmentChecksum (h : TcpHeader) (start : List UInt8) : Option ℕ := do
  let headerChecksum ← h.calculateHeaderChecksum start.length
  calculateIpChecksum start.length headerChecksum start

/-! ## Serialize -/

/-- The octets before the checksum. -/
def upper (h : TcpHeader) : List UInt8 :=
  writeHtonU16 h.m_sourcePort ++ (writeHtonU16 h.m_destinationPort ++
    (writeHtonU32 h.m_sequenceNumber ++ (writeHtonU32 h.m_ackNumber ++
      (writeHtonU16 (UInt16.ofNat (h.m_length <<< 12 ||| h.m_flags.toNat)) ++
        writeHtonU16 h.m_windowSize))))

/-- The options and the padding after them. -/
def optionArea (h : TcpHeader) : List UInt8 :=
  h.m_options.flatMap TcpOption.serialize ++ List.replicate (padding (optionsSize h.m_options)) 0

/-- `Serialize`, before what follows in the buffer. The checksum is written over the `0` at its
place. -/
def serialize (h : TcpHeader) (payload : List UInt8) : Option (List UInt8) := do
  let lower := writeHtonU16 h.m_urgentPointer ++ (h.optionArea ++ payload)
  let start := h.upper ++ word 0 ++ lower
  if h.m_calcChecksum then
    let checksum ← h.segmentChecksum start
    some (h.upper ++ word checksum ++ lower)
  else some start

/-! ## Deserialize -/

/-- The variables of the loop over the options. -/
structure OptionLoop where
  m_options : List TcpOption
  m_optionsLen : ℕ
  optionLen : ℕ
  i : List UInt8
deriving DecidableEq, Repr

/-- `Next`. -/
def next (n : ℕ) (i : List UInt8) : Except TcpFault (List UInt8) := do
  let (_, i) ← TcpOption.need (read n i)
  .ok i

/-- One round: whether there is another one, and the variables afterwards. -/
def optionStep (s : OptionLoop) : Except TcpFault (Bool × OptionLoop) := do
  let (kind, _) ← TcpOption.need (readU8 s.i)
  let (op, optionSize) ← (TcpOption.createOption
    (if TcpOption.isKindKnown kind then kind else 255)).deserialize s.i
  if optionSize ≠ op.getSerializedSize then .ok (false, s)
  else if optionSize ≤ s.optionLen then do
    let i ← next optionSize s.i
    let s : OptionLoop := {
      m_options := s.m_options ++ [op]
      m_optionsLen := (s.m_optionsLen + optionSize) % 256
      optionLen := s.optionLen - optionSize
      i := i }
    if op.getKind = 0 then do
      -- the padding after the end
      let i ← next s.optionLen s.i
      .ok (true, { s with
        optionLen := 0
        m_optionsLen := (s.m_optionsLen + s.optionLen) % 256
        i := i })
    else .ok (true, s)
  else .ok (false, s)

/-- `while (optionLen)`, with a bound on its rounds. -/
def readOptions : ℕ → OptionLoop → Option (Except TcpFault OptionLoop)
  | 0, _ => none
  | rounds + 1, s =>
    if s.optionLen = 0 then some (.ok s)
    else
      match optionStep s with
      | .error e => some (.error e)
      | .ok (true, s) => readOptions rounds s
      | .ok (false, s) => some (.ok s)

/-- The part of fixed size. -/
def readFixed (h : TcpHeader) (start : List UInt8) : Option (TcpHeader × List UInt8) := do
  let (sourcePort, i) ← readNtohU16 start
  let (destinationPort, i) ← readNtohU16 i
  let (sequenceNumber, i) ← readNtohU32 i
  let (ackNumber, i) ← readNtohU32 i
  let (field, i) ← readNtohU16 i
  let (windowSize, i) ← readNtohU16 i
  let (_, i) ← read 2 i
  let (urgentPointer, i) ← readNtohU16 i
  some ({ h with
    m_sourcePort := sourcePort
    m_destinationPort := destinationPort
    m_sequenceNumber := sequenceNumber
    m_ackNumber := ackNumber
    m_length := field.toNat >>> 12
    m_flags := UInt8.ofNat (field.toNat &&& 0xff)
    m_windowSize := windowSize
    m_urgentPointer := urgentPointer
    m_options := []
    m_optionsLen := 0 }, i)

/-- What reading the fixed part leaves as it is. -/
theorem readFixed_keeps {r g : TcpHeader} {start i : List UInt8}
    (h : r.readFixed start = some (g, i)) :
    g.m_endpoints = r.m_endpoints ∧ g.m_protocol = r.m_protocol
      ∧ g.m_calcChecksum = r.m_calcChecksum ∧ g.m_length < 16 := by
  simp only [readFixed, Option.bind_eq_bind, Option.bind_eq_some_iff, Prod.exists,
    Option.some.injEq, Prod.mk.injEq] at h
  obtain ⟨_, _, _, _, _, _, _, _, _, _, _, _, field, _, _, _, _, _, _, _, _, _, _, _, rfl, _⟩ := h
  refine ⟨rfl, rfl, rfl, ?_⟩
  have hfield := field.toNat_lt
  simp only [Nat.shiftRight_eq_div_pow]
  omega

/-- The size of the options by the header, in 32 bits. -/
def optionLen (h : TcpHeader) : ℕ := (h.m_length + 2 ^ 32 - 5) * 4 % 2 ^ 32

/-- The check at the end of `Deserialize`. -/
def check (h : TcpHeader) (start : List UInt8) : Except TcpFault (TcpHeader × ℕ) := do
  if h.m_calcChecksum then
    let checksum ← TcpOption.need (h.segmentChecksum start)
    .ok ({ h with m_goodChecksum := checksum == 0 }, h.getSerializedSize)
  else .ok (h, h.getSerializedSize)

/-- `Deserialize`: the header and the size that is returned, or nothing if the rounds do not
suffice. -/
def deserialize (rounds : ℕ) (h : TcpHeader) (start : List UInt8) :
    Option (Except TcpFault (TcpHeader × ℕ)) :=
  match h.readFixed start with
  | none => some (.error .outOfRange)
  | some (h, i) =>
    if h.optionLen > m_maxOptionsLen then some (.ok (h, 20))
    else
      match readOptions rounds ⟨[], 0, h.optionLen, i⟩ with
      | none => none
      | some (.error e) => some (.error e)
      | some (.ok s) =>
        some (check { h with m_options := s.m_options, m_optionsLen := s.m_optionsLen } start)

end TcpHeader

end Ns3.Internet
