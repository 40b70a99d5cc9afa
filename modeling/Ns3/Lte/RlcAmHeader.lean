import Ns3.Lte.RlcHeader

/-!
# The headers of AMD PDUs and of STATUS PDUs

`LteRlcAmHeader` writes four bytes and the list of an UMD PDU, or the acknowledged number and a list
of numbers that are not acknowledged, of twelve bits each with their extension bits.

What is read from a STATUS PDU is what was written, and so are the fields of an AMD PDU up to the
offset of a segment: `Deserialize` does not shift its upper byte, so an offset comes back only when
it fits in the lower one. The length of a header is an `uint16_t`: headers of `2 ^ 16` bytes and
more have a wrong size (`headers_roundTrip`).
-/

namespace Ns3.Lte

open Ns3.Lib

section Fields

variable {x : Nat}

theorem and_0x40 : x &&& 0x40 = x / 64 % 2 * 64 := and_field x 6 1
theorem and_0x20 : x &&& 0x20 = x / 32 % 2 * 32 := and_field x 5 1
theorem and_0x70 : x &&& 0x70 = x / 16 % 8 * 16 := and_field x 4 3
theorem and_0x0F : x &&& 0x0F = x % 16 := by simpa using and_field x 0 4
theorem and_0xFC : x &&& 0xFC = x / 4 % 64 * 4 := and_field x 2 6
theorem and_0x02 : x &&& 0x02 = x / 2 % 2 * 2 := and_field x 1 1
theorem and_0x01 : x &&& 0x01 = x % 2 := Nat.and_one_is_mod x
theorem and_0x1F : x &&& 0x1F = x % 32 := by simpa using and_field x 0 5
theorem and_0xF8 : x &&& 0xF8 = x / 8 % 32 * 8 := and_field x 3 5

end Fields

/-! ## The list of NACKs -/

/-- The loop of `Serialize`, after the highest bit of the first NACK. -/
def writeNacks : List Nat → List UInt8
  | [] => []
  | [oddNack] => [u8 ((oddNack >>> 1) &&& 0xFF), u8 ((oddNack <<< 7) &&& 0x80)]
  | [oddNack, evenNack] =>
    [u8 ((oddNack >>> 1) &&& 0xFF),
      u8 (((oddNack <<< 7) &&& 0x80) ||| 0x40 ||| ((evenNack >>> 5) &&& 0x1F)),
      u8 ((evenNack <<< 3) &&& 0xF8)]
  | oddNack :: evenNack :: oddNack' :: nacks =>
    u8 ((oddNack >>> 1) &&& 0xFF) ::
    u8 (((oddNack <<< 7) &&& 0x80) ||| 0x40 ||| ((evenNack >>> 5) &&& 0x1F)) ::
    u8 (((evenNack <<< 3) &&& 0xF8) ||| 0x04 ||| ((oddNack' >>> 9) &&& 0x01)) ::
    writeNacks (oddNack' :: nacks)

/-- The loop of `Deserialize`, from a byte with the first bits of an even NACK: the NACKs and what
it adds to the length. -/
def readNacks (byte : UInt8) : List UInt8 → Option (List Nat × Nat)
  | nextByte :: bytes =>
    let evenNack := ((byte.toNat &&& 0x1F) <<< 5) ||| ((nextByte.toNat &&& 0xF8) >>> 3)
    if (nextByte.toNat &&& 0x04) >>> 2 = 1 then
      match bytes with
      | nextByte' :: finalByte :: rest =>
        let oddNack := ((nextByte.toNat &&& 0x01) <<< 9) ||| (nextByte'.toNat <<< 1) |||
          ((finalByte.toNat &&& 0x80) >>> 7)
        if (finalByte.toNat &&& 0x40) >>> 6 = 1 then
          (readNacks finalByte rest).map fun r => (evenNack :: oddNack :: r.1, 3 + r.2)
        else
          some ([evenNack, oddNack], 3)
      | _ => none
    else
      some ([evenNack], 1)
  | [] => none

/-! ## The header -/

/-- `LteRlcAmHeader`. The length is an `uint16_t`. The constructor leaves the last segment flag as
it is in memory. -/
structure LteRlcAmHeader where
  headerLength : Nat := 0
  dataControlBit : Nat := 0xff
  resegmentationFlag : Nat := 0xff
  pollingBit : Nat := 0xff
  framingInfo : Nat := 0xff
  sequenceNumber : SequenceNumber10 := .ofValue 0xfffa
  extensionBits : List Nat := []
  lengthIndicators : List Nat := []
  lastSegmentFlag : Nat
  segmentOffset : Nat := 0xffff
  lastOffset : Nat := 0xffff
  controlPduType : Nat := 0xff
  ackSn : SequenceNumber10 := .ofValue 0xffff
  nackSnList : List Nat := []
deriving DecidableEq, Repr

namespace LteRlcAmHeader

def setDataPdu (h : LteRlcAmHeader) : LteRlcAmHeader :=
  { h with headerLength := 4, dataControlBit := 1 }

def setControlPdu (h : LteRlcAmHeader) (controlPduType : Nat) : LteRlcAmHeader :=
  { h with headerLength := 2, dataControlBit := 0, controlPduType }

def setFramingInfo (h : LteRlcAmHeader) (framingInfo : Nat) : LteRlcAmHeader :=
  { h with framingInfo := framingInfo &&& 0x03 }

def setSequenceNumber (h : LteRlcAmHeader) (sequenceNumber : SequenceNumber10) : LteRlcAmHeader :=
  { h with sequenceNumber }

def pushExtensionBit (h : LteRlcAmHeader) (extensionBit : Nat) : LteRlcAmHeader :=
  { h with
    extensionBits := h.extensionBits ++ [extensionBit]
    headerLength :=
      if h.extensionBits.length + 1 > 1 then
        if (h.extensionBits.length + 1) % 2 = 1 then (h.headerLength + 1) % 2 ^ 16
        else (h.headerLength + 2) % 2 ^ 16
      else h.headerLength }

def pushLengthIndicator (h : LteRlcAmHeader) (lengthIndicator : Nat) : LteRlcAmHeader :=
  { h with lengthIndicators := h.lengthIndicators ++ [lengthIndicator] }

def setResegmentationFlag (h : LteRlcAmHeader) (resegFlag : Nat) : LteRlcAmHeader :=
  { h with resegmentationFlag := resegFlag &&& 0x01 }

def setPollingBit (h : LteRlcAmHeader) (pollingBit : Nat) : LteRlcAmHeader :=
  { h with pollingBit := pollingBit &&& 0x01 }

def setLastSegmentFlag (h : LteRlcAmHeader) (lsf : Nat) : LteRlcAmHeader :=
  { h with lastSegmentFlag := lsf &&& 0x01 }

def setSegmentOffset (h : LteRlcAmHeader) (segmentOffset : Nat) : LteRlcAmHeader :=
  { h with segmentOffset := segmentOffset &&& 0x7FFF }

def setAckSn (h : LteRlcAmHeader) (ackSn : SequenceNumber10) : LteRlcAmHeader := { h with ackSn }

def oneMoreNackWouldFitIn (h : LteRlcAmHeader) (bytes : Nat) : Bool :=
  if h.nackSnList.length % 2 = 0 then decide (h.headerLength < bytes % 2 ^ 16)
  else decide ((h.headerLength : Int) < (bytes % 2 ^ 16 : Nat) - 1)

def pushNack (h : LteRlcAmHeader) (nack : Nat) : LteRlcAmHeader :=
  { h with
    nackSnList := h.nackSnList ++ [nack]
    headerLength :=
      if (h.nackSnList.length + 1) % 2 = 0 then (h.headerLength + 1) % 2 ^ 16
      else (h.headerLength + 2) % 2 ^ 16 }

def serialize (h : LteRlcAmHeader) : List UInt8 :=
  if h.dataControlBit = 1 then
    u8 (((1 <<< 7) &&& 0x80) ||| ((h.resegmentationFlag <<< 6) &&& 0x40) |||
      ((h.pollingBit <<< 5) &&& 0x20) ||| ((h.framingInfo <<< 3) &&& 0x18) |||
      ((h.extensionBits.headD 0 <<< 2) &&& 0x04) ||| ((h.sequenceNumber.value >>> 8) &&& 0x03)) ::
    u8 (h.sequenceNumber.value &&& 0xFF) ::
    u8 (((h.lastSegmentFlag <<< 7) &&& 0x80) ||| ((h.segmentOffset >>> 8) &&& 0x7F)) ::
    u8 (h.segmentOffset &&& 0xFF) :: writeLis h.extensionBits.tail h.lengthIndicators
  else
    u8 (((0 <<< 7) &&& 0x80) ||| ((h.controlPduType <<< 4) &&& 0x70) |||
      ((h.ackSn.value >>> 6) &&& 0x0F)) ::
    match h.nackSnList with
    | [] => [u8 ((h.ackSn.value <<< 2) &&& 0xFC)]
    | nack :: nacks =>
      u8 (((h.ackSn.value <<< 2) &&& 0xFC) ||| 0x02 ||| ((nack >>> 9) &&& 0x01)) ::
      writeNacks (nack :: nacks)

/-- The fields of an AMD PDU. `size` is that of the whole buffer. -/
def deserializeData (h : LteRlcAmHeader) (size : Nat) (byte1 : UInt8) :
    List UInt8 → Option LteRlcAmHeader
  | byte2 :: byte3 :: byte4 :: bytes =>
    let extensionBit := (byte1.toNat &&& 0x04) >>> 2
    let h' := { h with
      headerLength := 4
      dataControlBit := (byte1.toNat &&& 0x80) >>> 7
      resegmentationFlag := (byte1.toNat &&& 0x40) >>> 6
      pollingBit := (byte1.toNat &&& 0x20) >>> 5
      framingInfo := (byte1.toNat &&& 0x18) >>> 3
      sequenceNumber := h.sequenceNumber.assign (((byte1.toNat &&& 0x03) <<< 8) ||| byte2.toNat)
      lastSegmentFlag := (byte3.toNat &&& 0x80) >>> 7
      segmentOffset := (byte3.toNat &&& 0x7F) ||| byte4.toNat
      extensionBits := h.extensionBits ++ [extensionBit] }
    if extensionBit = 0 then some h'
    else
      (readLis bytes).map fun r =>
        { h' with
          headerLength := (4 + r.2.2) % 2 ^ 16
          extensionBits := h'.extensionBits ++ r.1
          lengthIndicators := h'.lengthIndicators ++ r.2.1
          lastOffset :=
            if h'.resegmentationFlag = 1 then
              (h'.segmentOffset + size + 2 ^ 16 - (4 + r.2.2) % 2 ^ 16) % 2 ^ 16
            else h'.lastOffset }
  | _ => none

/-- The fields of a STATUS PDU. -/
def deserializeControl (h : LteRlcAmHeader) (byte1 : UInt8) : List UInt8 → Option LteRlcAmHeader
  | byte2 :: bytes =>
    let h' := { h with
      headerLength := 2
      dataControlBit := (byte1.toNat &&& 0x80) >>> 7
      controlPduType := (byte1.toNat &&& 0x70) >>> 4
      ackSn := h.ackSn.assign
        (((byte1.toNat &&& 0x0F) <<< 6) ||| ((byte2.toNat &&& 0xFC) >>> 2)) }
    if (byte2.toNat &&& 0x02) >>> 1 = 1 then
      match bytes with
      | byte3 :: byte4 :: rest =>
        let nack := ((byte2.toNat &&& 0x01) <<< 9) ||| (byte3.toNat <<< 1) |||
          ((byte4.toNat &&& 0x80) >>> 7)
        if (byte4.toNat &&& 0x40) >>> 6 = 1 then
          (readNacks byte4 rest).map fun r =>
            { h' with
              headerLength := (4 + r.2) % 2 ^ 16
              nackSnList := h'.nackSnList ++ nack :: r.1 }
        else
          some { h' with headerLength := 4, nackSnList := h'.nackSnList ++ [nack] }
      | _ => none
    else
      some h'
  | [] => none

/-- What `Deserialize` makes of `h` with the header at the start of the bytes. -/
def deserialize (h : LteRlcAmHeader) : List UInt8 → Option LteRlcAmHeader
  | byte1 :: bytes =>
    if (byte1.toNat &&& 0x80) >>> 7 = 1 then h.deserializeData (bytes.length + 1) byte1 bytes
    else h.deserializeControl byte1 bytes
  | [] => none

end LteRlcAmHeader

/-! ## NACKs are read as they were written -/

section Nacks

variable {oddNack evenNack nack : Nat} {nacks : List Nat}

theorem length_writeNacks (nacks : List Nat) :
    (writeNacks nacks).length = nacks.length + (nacks.length + 1) / 2 := by
  induction nacks using writeNacks.induct with
  | case1 => rfl
  | case2 => simp [writeNacks]
  | case3 => simp [writeNacks]
  | case4 oddNack evenNack oddNack' nacks ih =>
    simp only [writeNacks, List.length_cons] at ih ⊢
    omega

/-- The byte that ends an odd NACK, with the first bits of the next one. -/
def oddTail (oddNack : Nat) : List Nat → UInt8
  | [] => u8 ((oddNack <<< 7) &&& 0x80)
  | evenNack :: _ => u8 (((oddNack <<< 7) &&& 0x80) ||| 0x40 ||| ((evenNack >>> 5) &&& 0x1F))

/-- The byte that ends an even NACK, with the highest bit of the next one. -/
def evenTail (evenNack : Nat) : List Nat → UInt8
  | [] => u8 ((evenNack <<< 3) &&& 0xF8)
  | oddNack :: _ => u8 (((evenNack <<< 3) &&& 0xF8) ||| 0x04 ||| ((oddNack >>> 9) &&& 0x01))

theorem writeNacks_cons (oddNack : Nat) (nacks : List Nat) :
    writeNacks (oddNack :: nacks) = u8 ((oddNack >>> 1) &&& 0xFF) :: oddTail oddNack nacks ::
      (writeNacks (oddNack :: nacks)).drop 2 := by
  match nacks with
  | [] => rfl
  | [_] => rfl
  | _ :: _ :: _ => rfl

theorem drop_writeNacks (oddNack evenNack : Nat) (nacks : List Nat) :
    (writeNacks (oddNack :: evenNack :: nacks)).drop 2 =
      evenTail evenNack nacks :: writeNacks nacks := by
  match nacks with
  | [] => rfl
  | _ :: _ => rfl

theorem toNat_oddTail_cons (oddNack : Nat) (heven : evenNack < 1024) :
    (oddTail oddNack (evenNack :: nacks)).toNat = oddNack % 2 * 128 + 64 + evenNack / 32 := by
  rw [oddTail]
  simp (disch := omega) only [and_0x80, and_0x1F, Nat.shiftLeft_eq, Nat.shiftRight_eq_div_pow,
    or_field 7, or_field 6, UInt8.toNat_ofNat']
  omega

theorem toNat_evenTail_cons (evenNack : Nat) (hodd : oddNack < 1024) :
    (evenTail evenNack (oddNack :: nacks)).toNat = evenNack % 32 * 8 + 4 + oddNack / 512 := by
  rw [evenTail]
  simp (disch := omega) only [and_0xF8, and_0x01, Nat.shiftLeft_eq, Nat.shiftRight_eq_div_pow,
    or_field 3, or_field 2, UInt8.toNat_ofNat']
  omega

theorem toNat_oddTail_nil (oddNack : Nat) : (oddTail oddNack []).toNat = oddNack % 2 * 128 := by
  simp only [oddTail, and_0x80, Nat.shiftLeft_eq, UInt8.toNat_ofNat']
  omega

theorem toNat_evenTail_nil (evenNack : Nat) :
    (evenTail evenNack []).toNat = evenNack % 32 * 8 := by
  simp only [evenTail, and_0xF8, Nat.shiftLeft_eq, UInt8.toNat_ofNat']
  omega

theorem toNat_oddTail (oddNack : Nat) (hnacks : ∀ n ∈ nacks, n < 1024) :
    (oddTail oddNack nacks).toNat / 128 % 2 = oddNack % 2 ∧
      (oddTail oddNack nacks).toNat / 64 % 2 = if nacks = [] then 0 else 1 := by
  match nacks with
  | [] =>
    rw [toNat_oddTail_nil, if_pos rfl]
    omega
  | evenNack :: nacks =>
    have heven := hnacks evenNack List.mem_cons_self
    rw [toNat_oddTail_cons oddNack heven, if_neg (List.cons_ne_nil _ _)]
    omega

theorem toNat_evenTail (evenNack : Nat) (hnacks : ∀ n ∈ nacks, n < 1024) :
    (evenTail evenNack nacks).toNat / 8 % 32 = evenNack % 32 ∧
      (evenTail evenNack nacks).toNat / 4 % 2 = if nacks = [] then 0 else 1 := by
  match nacks with
  | [] =>
    rw [toNat_evenTail_nil, if_pos rfl]
    omega
  | oddNack :: nacks =>
    have hodd := hnacks oddNack List.mem_cons_self
    rw [toNat_evenTail_cons evenNack hodd, if_neg (List.cons_ne_nil _ _)]
    omega

/-- An odd NACK, from the byte with its highest bit on. -/
theorem read_oddNack {byte : Nat} (hbyte : byte % 2 = oddNack / 512)
    (hnacks : ∀ n ∈ nacks, n < 1024) :
    ((byte &&& 0x01) <<< 9) ||| ((u8 ((oddNack >>> 1) &&& 0xFF)).toNat <<< 1) |||
      (((oddTail oddNack nacks).toNat &&& 0x80) >>> 7) = oddNack := by
  have htail := (toNat_oddTail oddNack hnacks).1
  simp (disch := omega) only [and_0x80, and_0x01, and_0xFF, Nat.shiftLeft_eq,
    Nat.shiftRight_eq_div_pow, UInt8.toNat_ofNat', or_field 9, or_field 1]
  omega

theorem read_evenNack {byte : Nat} (hbyte : byte % 32 = evenNack / 32)
    (hnacks : ∀ n ∈ nacks, n < 1024) :
    ((byte &&& 0x1F) <<< 5) ||| (((evenTail evenNack nacks).toNat &&& 0xF8) >>> 3) =
      evenNack := by
  have htail := (toNat_evenTail evenNack hnacks).1
  simp (disch := omega) only [and_0x1F, and_0xF8, Nat.shiftLeft_eq, Nat.shiftRight_eq_div_pow,
    or_field 5]
  omega

theorem read_moreNacks (oddNack : Nat) (hnacks : ∀ n ∈ nacks, n < 1024) :
    ((oddTail oddNack nacks).toNat &&& 0x40) >>> 6 = if nacks = [] then 0 else 1 := by
  rw [and_0x40, Nat.shiftRight_eq_div_pow, ← (toNat_oddTail oddNack hnacks).2]
  omega

theorem read_moreNacks_even (evenNack : Nat) (hnacks : ∀ n ∈ nacks, n < 1024) :
    ((evenTail evenNack nacks).toNat &&& 0x04) >>> 2 = if nacks = [] then 0 else 1 := by
  rw [and_0x04, Nat.shiftRight_eq_div_pow, ← (toNat_evenTail evenNack hnacks).2]
  omega

/-- The loop of `Deserialize` reads what that of `Serialize` wrote, two NACKs in each round. -/
theorem readNacks_writeNacks (oddNack : Nat) {evenNack : Nat} {nacks : List Nat}
    (heven : evenNack < 1024) (hnacks : ∀ n ∈ nacks, n < 1024) (data : List UInt8) :
    readNacks (oddTail oddNack (evenNack :: nacks))
        (evenTail evenNack nacks :: writeNacks nacks ++ data) =
      some (evenNack :: nacks, 1 + (writeNacks nacks).length) := by
  have hfirst : (oddTail oddNack (evenNack :: nacks)).toNat % 32 = evenNack / 32 := by
    rw [toNat_oddTail_cons oddNack heven]
    omega
  have hread := read_evenNack hfirst hnacks
  have hmore := read_moreNacks_even evenNack hnacks
  rw [List.cons_append]
  unfold readNacks
  simp only [hread, hmore]
  match nacks with
  | [] => simp [writeNacks]
  | oddNack' :: nacks =>
    have hodd := hnacks oddNack' List.mem_cons_self
    have hrest : ∀ n ∈ nacks, n < 1024 := fun n hn => hnacks n (List.mem_cons_of_mem _ hn)
    have hbyte : (evenTail evenNack (oddNack' :: nacks)).toNat % 2 = oddNack' / 512 := by
      rw [toNat_evenTail_cons evenNack hodd]
      omega
    have hreadOdd := read_oddNack hbyte hrest
    rw [writeNacks_cons oddNack' nacks]
    simp only [List.cons_append, hreadOdd, read_moreNacks oddNack' hrest, List.cons_ne_nil,
      if_false, if_true]
    match nacks with
    | [] => simp [writeNacks]
    | evenNack' :: nacks =>
      have ih := readNacks_writeNacks oddNack' (hrest evenNack' List.mem_cons_self)
        (fun n hn => hrest n (List.mem_cons_of_mem _ hn)) data
      rw [drop_writeNacks]
      simp only [List.cons_append, List.cons_ne_nil, if_false, if_true] at ih ⊢
      rw [ih]
      simp only [Option.map_some, List.length_cons]
      congr 2
      omega

end Nacks

/-! ## AMD PDUs -/

namespace LteRlcAmHeader

/-- A new header, with the last segment flag that its memory happens to hold. -/
def fresh (lastSegmentFlag : Nat) : LteRlcAmHeader := { lastSegmentFlag }

/-- The header that the pushes of the extension bits and length indicators give. -/
def push (es lis : List Nat) : LteRlcAmHeader :=
  lis.foldl pushLengthIndicator (es.foldl pushExtensionBit (fresh 0).setDataPdu)

theorem push_eq (es lis : List Nat) :
    ∃ headerLength, push es lis =
      { (fresh 0).setDataPdu with headerLength, extensionBits := es, lengthIndicators := lis } := by
  have hes : ∀ h : LteRlcAmHeader, ∃ headerLength, es.foldl pushExtensionBit h =
      { h with headerLength, extensionBits := h.extensionBits ++ es } := by
    induction es with
    | nil => exact fun h => ⟨h.headerLength, by simp⟩
    | cons e es ih =>
      intro h
      obtain ⟨headerLength, heq⟩ := ih (h.pushExtensionBit e)
      exact ⟨headerLength, by rw [List.foldl_cons, heq]; simp [pushExtensionBit]⟩
  have hlis : ∀ h : LteRlcAmHeader, lis.foldl pushLengthIndicator h =
      { h with lengthIndicators := h.lengthIndicators ++ lis } := by
    induction lis with
    | nil => simp
    | cons li lis ih => simp [ih, pushLengthIndicator]
  obtain ⟨headerLength, heq⟩ := hes (fresh 0).setDataPdu
  exact ⟨headerLength, by rw [push, hlis, heq]; rfl⟩

/-- The header that the pushes of the NACKs give. -/
def pushNacks (nacks : List Nat) : LteRlcAmHeader :=
  nacks.foldl pushNack ((fresh 0).setControlPdu 0)

/-- The header of an AMD PDU, with the length that the pushes have counted. -/
structure AmdPdu (h : LteRlcAmHeader) : Prop where
  dataControlBit : h.dataControlBit = 1
  resegmentationFlag : h.resegmentationFlag < 2
  pollingBit : h.pollingBit < 2
  framingInfo : h.framingInfo < 4
  sequenceNumber : h.sequenceNumber.value < 1024
  lastSegmentFlag : h.lastSegmentFlag < 2
  segmentOffset : h.segmentOffset < 2 ^ 15
  announces : Announces h.extensionBits h.lengthIndicators
  headerLength : h.headerLength = (push h.extensionBits h.lengthIndicators).headerLength

/-- The header of a STATUS PDU. -/
structure StatusPdu (h : LteRlcAmHeader) : Prop where
  dataControlBit : h.dataControlBit = 0
  controlPduType : h.controlPduType < 8
  ackSn : h.ackSn.value < 1024
  nackSnList : ∀ nack ∈ h.nackSnList, nack < 1024
  headerLength : h.headerLength = (pushNacks h.nackSnList).headerLength

section Lengths

variable {h : LteRlcAmHeader} {es lis nacks : List Nat}

theorem headerLength_lengthIndicators :
    (lis.foldl pushLengthIndicator h).headerLength = h.headerLength := by
  induction lis generalizing h with
  | nil => rfl
  | cons li lis ih => rw [List.foldl_cons, ih, pushLengthIndicator]

theorem headerLength_pushExtensionBit {n : Nat} (hn : h.extensionBits.length = n)
    (hpos : 0 < n) (hlen : h.headerLength = (3 + n + n / 2) % 2 ^ 16) (e : Nat) :
    (h.pushExtensionBit e).headerLength = (3 + (n + 1) + (n + 1) / 2) % 2 ^ 16 := by
  subst hn
  simp only [pushExtensionBit]
  rw [if_pos (by omega)]
  split <;> omega

theorem headerLength_extensionBits {n : Nat} (hn : h.extensionBits.length = n) (hpos : 0 < n)
    (hlen : h.headerLength = (3 + n + n / 2) % 2 ^ 16) :
    (es.foldl pushExtensionBit h).headerLength =
      (3 + (n + es.length) + (n + es.length) / 2) % 2 ^ 16 := by
  induction es generalizing h n with
  | nil => exact hlen
  | cons e es ih =>
    have hcount : (h.pushExtensionBit e).extensionBits.length = n + 1 := by
      simp [pushExtensionBit, hn]
    rw [List.foldl_cons,
      ih hcount (Nat.succ_pos n) (headerLength_pushExtensionBit hn hpos hlen e),
      List.length_cons, Nat.add_right_comm n 1, Nat.add_assoc n]

theorem headerLength_push (hes : es ≠ []) :
    (push es lis).headerLength = (3 + es.length + es.length / 2) % 2 ^ 16 := by
  obtain ⟨e, es, rfl⟩ := List.exists_cons_of_ne_nil hes
  have hone : ((fresh 0).setDataPdu.pushExtensionBit e).extensionBits.length = 1 := rfl
  rw [push, headerLength_lengthIndicators, List.foldl_cons,
    headerLength_extensionBits hone Nat.one_pos rfl, List.length_cons, Nat.add_comm 1]

theorem headerLength_pushNack {n : Nat} (hn : h.nackSnList.length = n)
    (hlen : h.headerLength = (2 + n + (n + 1) / 2) % 2 ^ 16) (nack : Nat) :
    (h.pushNack nack).headerLength = (2 + (n + 1) + (n + 1 + 1) / 2) % 2 ^ 16 := by
  subst hn
  simp only [pushNack]
  split <;> omega

theorem headerLength_nacks {n : Nat} (hn : h.nackSnList.length = n)
    (hlen : h.headerLength = (2 + n + (n + 1) / 2) % 2 ^ 16) (nacks : List Nat) :
    (nacks.foldl pushNack h).headerLength =
      (2 + (n + nacks.length) + (n + nacks.length + 1) / 2) % 2 ^ 16 := by
  induction nacks generalizing h n with
  | nil => exact hlen
  | cons nack nacks ih =>
    have hcount : (h.pushNack nack).nackSnList.length = n + 1 := by simp [pushNack, hn]
    rw [List.foldl_cons, ih hcount (headerLength_pushNack hn hlen nack), List.length_cons,
      Nat.add_right_comm n 1, Nat.add_assoc n]

theorem headerLength_pushNacks (nacks : List Nat) :
    (pushNacks nacks).headerLength = (2 + nacks.length + (nacks.length + 1) / 2) % 2 ^ 16 := by
  have hnil : ((fresh 0).setControlPdu 0).nackSnList.length = 0 := rfl
  have hcount := headerLength_nacks hnil rfl nacks
  rwa [Nat.zero_add] at hcount

/-- The bytes of an AMD PDU's header. -/
theorem length_serialize_amd (hdata : h.AmdPdu) : h.serialize.length =
    4 + h.lengthIndicators.length + (h.lengthIndicators.length + 1) / 2 := by
  have hannounces := hdata.announces
  rw [serialize, if_pos hdata.dataControlBit]
  revert hannounces
  generalize h.extensionBits = es
  generalize h.lengthIndicators = lis
  intro hannounces
  cases hannounces with
  | last => rfl
  | @more li es lis hli hrest =>
    simp only [List.tail_cons, List.length_cons, length_writeLis hrest li]
    omega

theorem length_serialize_data (hdata : h.AmdPdu) :
    h.headerLength = h.serialize.length % 2 ^ 16 := by
  have hes : h.extensionBits ≠ [] := by
    intro hnil
    have hlen := hdata.announces.length_eq
    rw [hnil] at hlen
    cases hlen
  rw [hdata.headerLength, headerLength_push hes, length_serialize_amd hdata,
    hdata.announces.length_eq]
  congr 1
  omega

/-- The bytes of a STATUS PDU's header. -/
theorem length_serialize_nacks (hstatus : h.StatusPdu) :
    h.serialize.length = 2 + h.nackSnList.length + (h.nackSnList.length + 1) / 2 := by
  rw [serialize, if_neg (by rw [hstatus.dataControlBit]; decide)]
  cases h.nackSnList with
  | nil => rfl
  | cons nack nacks =>
    simp only [List.length_cons, length_writeNacks]
    omega

theorem length_serialize_status (hstatus : h.StatusPdu) :
    h.headerLength = h.serialize.length % 2 ^ 16 := by
  rw [hstatus.headerLength, headerLength_pushNacks, length_serialize_nacks hstatus]

end Lengths

section Bytes

variable {rf p fi e sn lsf so : Nat}

/-- The fields of the first byte of an AMD PDU. -/
theorem amd_byte1 (hrf : rf < 2) (hp : p < 2) (hfi : fi < 4) (he : e < 2) (hsn : sn < 1024) :
    (u8 (((1 <<< 7) &&& 0x80) ||| ((rf <<< 6) &&& 0x40) ||| ((p <<< 5) &&& 0x20) |||
      ((fi <<< 3) &&& 0x18) ||| ((e <<< 2) &&& 0x04) ||| ((sn >>> 8) &&& 0x03))).toNat =
      128 + rf * 64 + p * 32 + fi * 8 + e * 4 + sn / 256 := by
  simp (disch := omega) only [and_0x80, and_0x40, and_0x20, and_0x18, and_0x04, and_0x03,
    Nat.shiftLeft_eq, Nat.shiftRight_eq_div_pow, or_field 7, or_field 6, or_field 5, or_field 3,
    or_field 2, UInt8.toNat_ofNat']
  omega

theorem amd_byte3 (hlsf : lsf < 2) (hso : so < 2 ^ 15) :
    (u8 (((lsf <<< 7) &&& 0x80) ||| ((so >>> 8) &&& 0x7F))).toNat = lsf * 128 + so / 256 := by
  simp (disch := omega) only [and_0x80, and_0x7F, Nat.shiftLeft_eq, Nat.shiftRight_eq_div_pow,
    or_field 7, UInt8.toNat_ofNat']
  omega

theorem read_sequenceNumber {b : Nat} (hb : b % 4 = sn / 256) :
    ((b &&& 0x03) <<< 8) ||| (u8 (sn &&& 0xFF)).toNat = sn := by
  simp (disch := omega) only [UInt8.toNat_ofNat', and_0x03, and_0xFF, Nat.shiftLeft_eq, or_field 8]
  omega

/-- `Deserialize` joins the bytes of the offset without a shift. -/
theorem read_segmentOffset {b : Nat} (hb : b % 128 = so / 256) :
    (b &&& 0x7F) ||| (u8 (so &&& 0xFF)).toNat = so / 256 ||| so % 256 := by
  rw [and_0x7F, and_0xFF, hb, UInt8.toNat_ofNat', Nat.mod_mod_of_dvd _ (by decide)]

/-- Without the shift just the offsets below 256 come back. -/
theorem segmentOffset_eq_iff (hso : so < 2 ^ 15) : so / 256 ||| so % 256 = so ↔ so < 256 := by
  constructor
  · intro heq
    have hlt : so / 256 ||| so % 256 < 2 ^ 8 := Nat.or_lt_two_pow (by omega) (by omega)
    omega
  · intro hlt
    rw [Nat.div_eq_of_lt hlt, Nat.mod_eq_of_lt hlt, Nat.zero_or]

end Bytes

section RoundTrip

variable {h : LteRlcAmHeader} {lsf : Nat} {payload : List UInt8}

/-- What `Deserialize` reads of an AMD PDU. The offset of the last byte is not sent, it is
computed. -/
theorem deserialize_serialize_data (hdata : h.AmdPdu) (lsf : Nat) (payload : List UInt8) :
    ∃ lastOffset, (fresh lsf).deserialize (h.serialize ++ payload) =
      some { h with
        sequenceNumber := .ofValue h.sequenceNumber.value
        segmentOffset := h.segmentOffset / 256 ||| h.segmentOffset % 256
        lastOffset
        controlPduType := 0xff, ackSn := .ofValue 0xffff, nackSnList := [] } := by
  have hlen := length_serialize_data hdata
  obtain ⟨hdc, hrf, hp, hfi, hsn, hlsf, hso, hannounces, -⟩ := hdata
  obtain ⟨headerLength, dc, rf, p, fi, sn, es, lis, lsf', so, lastOffset, type, ackSn, nacks⟩ := h
  simp only at hdc hrf hp hfi hsn hlsf hso hannounces
  subst hdc
  simp only [serialize, if_true] at hlen ⊢
  rw [hlen]
  have hbyte1 : ∀ e < 2, _ := fun e he => amd_byte1 hrf hp hfi he hsn
  have hbyte3 := amd_byte3 hlsf hso
  have hOffset : ((lsf' * 128 + so / 256) &&& 0x7F) ||| (u8 (so &&& 0xFF)).toNat =
      so / 256 ||| so % 256 := read_segmentOffset (by omega)
  have hLast : ((lsf' * 128 + so / 256) &&& 0x80) >>> 7 = lsf' := by
    rw [and_0x80, Nat.shiftRight_eq_div_pow]
    omega
  have hRead : ∀ e < 2, ∀ b, b = 128 + rf * 64 + p * 32 + fi * 8 + e * 4 + sn.value / 256 →
      (b &&& 0x80) >>> 7 = 1 ∧ (b &&& 0x40) >>> 6 = rf ∧ (b &&& 0x20) >>> 5 = p ∧
      (b &&& 0x18) >>> 3 = fi ∧ (b &&& 0x04) >>> 2 = e ∧
      ((b &&& 0x03) <<< 8) ||| (u8 (sn.value &&& 0xFF)).toNat = sn.value := by
    intro e he b hb
    refine ⟨?_, ?_, ?_, ?_, ?_, read_sequenceNumber (by omega)⟩
    all_goals
      simp only [and_0x80, and_0x40, and_0x20, and_0x18, and_0x04, Nat.shiftRight_eq_div_pow]
      omega
  cases hannounces with
  | last =>
    obtain ⟨hD, hRf, hP, hFi, hE, hSn⟩ := hRead 0 (by omega) _ (hbyte1 0 (by omega))
    refine ⟨0xffff, ?_⟩
    simp only [writeLis, List.headD_cons, List.tail_cons, List.cons_append, deserialize, hD,
      if_true, deserializeData, hE, hRf, hP, hFi, hSn, hbyte3, hOffset, hLast]
    rfl
  | @more li es lis hli hrest =>
    obtain ⟨hD, hRf, hP, hFi, hE, hSn⟩ := hRead 1 (by omega) _ (hbyte1 1 (by omega))
    simp only [List.headD_cons, List.tail_cons, List.cons_append, deserialize, hD, if_true,
      deserializeData, hE, hRf, hP, hFi, hSn, hbyte3, hOffset, hLast, readLis_writeLis hrest hli,
      Nat.one_ne_zero, if_false, Option.map_some, Option.some.injEq]
    simp [fresh, SequenceNumber10.assign, SequenceNumber10.ofValue]
    omega

/-- What `Deserialize` reads of a STATUS PDU. -/
theorem deserialize_serialize_status (hstatus : h.StatusPdu) (lsf : Nat) (payload : List UInt8) :
    (fresh lsf).deserialize (h.serialize ++ payload) =
      some { fresh lsf with
        headerLength := h.headerLength
        dataControlBit := 0
        controlPduType := h.controlPduType
        ackSn := .ofValue h.ackSn.value
        nackSnList := h.nackSnList } := by
  have hlen := length_serialize_status hstatus
  obtain ⟨hdc, htype, hack, hnacks, -⟩ := hstatus
  have hbyte1 : (u8 (((0 <<< 7) &&& 0x80) ||| ((h.controlPduType <<< 4) &&& 0x70) |||
      ((h.ackSn.value >>> 6) &&& 0x0F))).toNat = h.controlPduType * 16 + h.ackSn.value / 64 := by
    simp (disch := omega) only [and_0x80, and_0x70, and_0x0F, Nat.shiftLeft_eq,
      Nat.shiftRight_eq_div_pow, or_field 7, or_field 4, UInt8.toNat_ofNat']
    omega
  have hD : ((h.controlPduType * 16 + h.ackSn.value / 64) &&& 0x80) >>> 7 = 0 := by
    rw [and_0x80, Nat.shiftRight_eq_div_pow]
    omega
  have hType : ((h.controlPduType * 16 + h.ackSn.value / 64) &&& 0x70) >>> 4 =
      h.controlPduType := by
    rw [and_0x70, Nat.shiftRight_eq_div_pow]
    omega
  have hAck : ∀ b, b / 4 % 64 = h.ackSn.value % 64 →
      (((h.controlPduType * 16 + h.ackSn.value / 64) &&& 0x0F) <<< 6) ||| ((b &&& 0xFC) >>> 2) =
        h.ackSn.value := by
    intro b hb
    simp (disch := omega) only [and_0x0F, and_0xFC, Nat.shiftLeft_eq, Nat.shiftRight_eq_div_pow,
      or_field 6]
    omega
  have hassign : (fresh lsf).ackSn.assign h.ackSn.value = .ofValue h.ackSn.value := rfl
  unfold serialize at hlen ⊢
  rw [if_neg (by rw [hdc]; decide)] at hlen ⊢
  cases hlist : h.nackSnList with
  | nil =>
    rw [hlist] at hlen
    have hbyte2 : (u8 ((h.ackSn.value <<< 2) &&& 0xFC)).toNat = h.ackSn.value % 64 * 4 := by
      simp only [and_0xFC, Nat.shiftLeft_eq, UInt8.toNat_ofNat']
      omega
    have hmore : ((h.ackSn.value % 64 * 4) &&& 0x02) >>> 1 = 0 := by
      rw [and_0x02, Nat.shiftRight_eq_div_pow]
      omega
    simp only [List.cons_append, List.nil_append, deserialize, hbyte1, hD, Nat.zero_ne_one,
      if_false, deserializeControl, hType, hbyte2, hmore,
      hAck _ (show h.ackSn.value % 64 * 4 / 4 % 64
        = h.ackSn.value % 64 by omega), hassign]
    rw [hlen]
    rfl
  | cons nack nacks =>
    rw [hlist] at hlen hnacks
    have hnack := hnacks nack List.mem_cons_self
    have hrest : ∀ n ∈ nacks, n < 1024 := fun n hn => hnacks n (List.mem_cons_of_mem _ hn)
    have hbyte2 : (u8 (((h.ackSn.value <<< 2) &&& 0xFC) ||| 0x02 |||
        ((nack >>> 9) &&& 0x01))).toNat = h.ackSn.value % 64 * 4 + 2 + nack / 512 := by
      simp (disch := omega) only [and_0xFC, and_0x01, Nat.shiftLeft_eq, Nat.shiftRight_eq_div_pow,
        or_field 2, or_field 1, UInt8.toNat_ofNat']
      omega
    have hmore : ((h.ackSn.value % 64 * 4 + 2 + nack / 512) &&& 0x02) >>> 1 = 1 := by
      rw [and_0x02, Nat.shiftRight_eq_div_pow]
      omega
    have hreadAck := hAck (h.ackSn.value % 64 * 4 + 2 + nack / 512) (by omega)
    have hbit : (h.ackSn.value % 64 * 4 + 2 + nack / 512) % 2 = nack / 512 := by omega
    have hread := read_oddNack hbit hrest
    dsimp only at hlen ⊢
    rw [writeNacks_cons] at hlen ⊢
    simp only [List.cons_append, deserialize, hbyte1, hD, Nat.zero_ne_one, if_false,
      deserializeControl, hType, hbyte2, hmore, if_true, hreadAck, hassign, hread,
      read_moreNacks nack hrest]
    rw [hlen]
    match nacks with
    | [] => rfl
    | evenNack :: nacks =>
      rw [drop_writeNacks, readNacks_writeNacks nack (hrest evenNack List.mem_cons_self)
        (fun n hn => hrest n (List.mem_cons_of_mem _ hn)), if_neg (List.cons_ne_nil _ _),
        if_pos rfl, Option.map_some]
      simp [fresh]
      omega

end RoundTrip

end LteRlcAmHeader

/-! ## Headers are read as they were written -/

/-- The header of an UMD PDU, with the length that the pushes have counted. -/
structure LteRlcHeader.UmdPdu (h : LteRlcHeader) : Prop where
  framingInfo : h.framingInfo < 4
  sequenceNumber : h.sequenceNumber.value < 1024
  announces : Announces h.extensionBits h.lengthIndicators
  headerLength : h.headerLength = (push h.extensionBits h.lengthIndicators).headerLength

theorem LteRlcHeader.length_serialize_umd {h : LteRlcHeader} (humd : h.UmdPdu) :
    h.headerLength = h.serialize.length % 2 ^ 16 := by
  rw [humd.headerLength, headerLength_push humd.announces, length_serialize, length_serialize,
    extensionBits_push, lengthIndicators_push]

/-- The bytes of an UMD PDU's header. -/
theorem LteRlcHeader.UmdPdu.length_serialize {h : LteRlcHeader} (humd : h.UmdPdu) :
    h.serialize.length =
      2 + h.lengthIndicators.length + (h.lengthIndicators.length + 1) / 2 := by
  have hannounces := humd.announces
  rw [LteRlcHeader.length_serialize]
  revert hannounces
  generalize h.extensionBits = es
  generalize h.lengthIndicators = lis
  intro hannounces
  cases hannounces with
  | last => rfl
  | @more li es lis hli hrest =>
    simp only [List.tail_cons, List.length_cons, length_writeLis hrest li]
    omega

/-- The fields of an UMD PDU in both headers are the same. -/
structure LteRlcHeader.Same (h h' : LteRlcHeader) : Prop where
  headerLength : h'.headerLength = h.headerLength
  framingInfo : h'.framingInfo = h.framingInfo
  sequenceNumber : h'.sequenceNumber.value = h.sequenceNumber.value
  extensionBits : h'.extensionBits = h.extensionBits
  lengthIndicators : h'.lengthIndicators = h.lengthIndicators

/-- The fields of an AMD PDU in both headers are the same. -/
structure LteRlcAmHeader.SameData (h h' : LteRlcAmHeader) : Prop where
  headerLength : h'.headerLength = h.headerLength
  dataControlBit : h'.dataControlBit = h.dataControlBit
  resegmentationFlag : h'.resegmentationFlag = h.resegmentationFlag
  pollingBit : h'.pollingBit = h.pollingBit
  framingInfo : h'.framingInfo = h.framingInfo
  sequenceNumber : h'.sequenceNumber.value = h.sequenceNumber.value
  extensionBits : h'.extensionBits = h.extensionBits
  lengthIndicators : h'.lengthIndicators = h.lengthIndicators
  lastSegmentFlag : h'.lastSegmentFlag = h.lastSegmentFlag
  segmentOffset : h'.segmentOffset = h.segmentOffset

/-- The fields of a STATUS PDU in both headers are the same. -/
structure LteRlcAmHeader.SameStatus (h h' : LteRlcAmHeader) : Prop where
  headerLength : h'.headerLength = h.headerLength
  dataControlBit : h'.dataControlBit = h.dataControlBit
  controlPduType : h'.controlPduType = h.controlPduType
  ackSn : h'.ackSn.value = h.ackSn.value
  nackSnList : h'.nackSnList = h.nackSnList

/-- `Serialize` writes as many bytes as `GetSerializedSize` says, and `Deserialize` of these gives
the same fields. -/
def LteRlcHeader.RoundTrip (h : LteRlcHeader) (payload : List UInt8) : Prop :=
  h.serialize.length = h.headerLength ∧
    ∃ h', deserialize (h.serialize ++ payload) = some h' ∧ h.Same h'

def LteRlcAmHeader.RoundTrip (same : LteRlcAmHeader → LteRlcAmHeader → Prop) (h : LteRlcAmHeader)
    (lsf : Nat) (payload : List UInt8) : Prop :=
  h.serialize.length = h.headerLength ∧
    ∃ h', (fresh lsf).deserialize (h.serialize ++ payload) = some h' ∧ same h h'

/-- An UMD PDU comes back when its length does not wrap. -/
theorem LteRlcHeader.UmdPdu.roundTrip_iff {h : LteRlcHeader} (humd : h.UmdPdu)
    (payload : List UInt8) : h.RoundTrip payload ↔ h.lengthIndicators.length < 43689 := by
  have hlen := LteRlcHeader.length_serialize_umd humd
  have hbytes := humd.length_serialize
  constructor
  · rintro ⟨heq, -⟩
    omega
  · intro hfew
    refine ⟨by omega, _, LteRlcHeader.deserialize_serialize humd.framingInfo
      humd.sequenceNumber humd.announces hlen payload, ?_⟩
    constructor
    · rfl
    · rfl
    · exact Nat.mod_eq_of_lt humd.sequenceNumber
    · rfl
    · rfl

/-- An AMD PDU comes back up to the offset, and the offset just below 256. -/
theorem LteRlcAmHeader.AmdPdu.roundTrip_iff {h : LteRlcAmHeader} (hdata : h.AmdPdu) (lsf : Nat)
    (payload : List UInt8) : h.RoundTrip SameData lsf payload ↔
      h.segmentOffset < 256 ∧ h.lengthIndicators.length < 43688 := by
  have hlen := length_serialize_data hdata
  have hbytes := length_serialize_amd hdata
  obtain ⟨lastOffset, hread⟩ := deserialize_serialize_data hdata lsf payload
  rw [← segmentOffset_eq_iff hdata.segmentOffset]
  constructor
  · rintro ⟨heq, h', hread', hsame⟩
    obtain rfl := Option.some.inj (hread.symm.trans hread')
    exact ⟨hsame.segmentOffset, by omega⟩
  · rintro ⟨hoffset, hfew⟩
    refine ⟨by omega, _, hread, ?_⟩
    constructor
    any_goals rfl
    · exact Nat.mod_eq_of_lt hdata.sequenceNumber
    · exact hoffset

theorem LteRlcAmHeader.StatusPdu.roundTrip_iff {h : LteRlcAmHeader} (hstatus : h.StatusPdu)
    (lsf : Nat) (payload : List UInt8) :
    h.RoundTrip SameStatus lsf payload ↔ h.nackSnList.length < 43689 := by
  have hlen := length_serialize_status hstatus
  have hbytes := length_serialize_nacks hstatus
  constructor
  · rintro ⟨heq, -⟩
    omega
  · intro hfew
    refine ⟨by omega, _, deserialize_serialize_status hstatus lsf payload, ?_⟩
    constructor
    any_goals rfl
    · exact hstatus.dataControlBit.symm
    · exact Nat.mod_eq_of_lt hstatus.ackSn

/-- Headers are read as they were written, with any payload behind them, when they are shorter than
`2 ^ 16` bytes, AMD PDUs with an offset from 256 on excepted. -/
theorem headers_roundTrip (lsf : Nat) (payload : List UInt8) :
    (∀ h : LteRlcHeader, h.UmdPdu →
      (h.RoundTrip payload ↔ h.lengthIndicators.length < 43689)) ∧
    (∀ h : LteRlcAmHeader, h.AmdPdu →
      (h.RoundTrip LteRlcAmHeader.SameData lsf payload ↔
        h.segmentOffset < 256 ∧ h.lengthIndicators.length < 43688)) ∧
    ∀ h : LteRlcAmHeader, h.StatusPdu →
      (h.RoundTrip LteRlcAmHeader.SameStatus lsf payload ↔ h.nackSnList.length < 43689) :=
  ⟨fun _ humd => humd.roundTrip_iff payload, fun _ hdata => hdata.roundTrip_iff lsf payload,
    fun _ hstatus => hstatus.roundTrip_iff lsf payload⟩

/-- An UMD PDU with one length indicator. -/
def oneIndicator : LteRlcHeader :=
  { LteRlcHeader.push [1, 0] [100] with framingInfo := 1, sequenceNumber := .ofValue 1023 }

/-- A STATUS PDU with three NACKs. -/
def threeNacks : LteRlcAmHeader :=
  { LteRlcAmHeader.pushNacks [515, 600, 700] with ackSn := .ofValue 800 }

/-- A segment from the given offset on, with two length indicators. -/
def segmentFrom (offset : Nat) : LteRlcAmHeader :=
  { LteRlcAmHeader.push [1, 1, 0] [100, 2047] with
    resegmentationFlag := 1
    pollingBit := 0
    framingInfo := 3
    sequenceNumber := .ofValue 777
    lastSegmentFlag := 1
    segmentOffset := offset }

theorem segmentFrom_amdPdu {offset : Nat} (hoffset : offset < 2 ^ 15) :
    (segmentFrom offset).AmdPdu where
  dataControlBit := rfl
  resegmentationFlag := Nat.one_lt_two
  pollingBit := Nat.two_pos
  framingInfo := Nat.lt_add_one 3
  sequenceNumber := show 777 < 1024 by decide
  lastSegmentFlag := Nat.one_lt_two
  segmentOffset := hoffset
  announces := .more (by decide) (.more (by decide) .last)
  headerLength := rfl

theorem headers_roundTrip_segment :
    oneIndicator.RoundTrip [7] ∧ (segmentFrom 255).RoundTrip LteRlcAmHeader.SameData 0 [7] ∧
      threeNacks.RoundTrip LteRlcAmHeader.SameStatus 0 [7] := by
  have hall := headers_roundTrip 0 [7]
  exact ⟨(hall.1 oneIndicator ⟨by decide, by decide, .more (by decide) .last, rfl⟩).mpr
      (by decide),
    (hall.2.1 (segmentFrom 255) (segmentFrom_amdPdu (by decide))).mpr (by decide),
    (hall.2.2 threeNacks ⟨rfl, by decide, by decide, by decide, rfl⟩).mpr (by decide)⟩

/-- The offset 256 is read as 1. -/
theorem headers_roundTrip_fails :
    ¬∀ h : LteRlcAmHeader, h.AmdPdu → ∀ lsf payload,
      h.RoundTrip LteRlcAmHeader.SameData lsf payload := by
  intro hclaim
  obtain ⟨-, h', hread, hsame⟩ := hclaim (segmentFrom 256) (segmentFrom_amdPdu (by decide)) 0 []
  have hone : h'.segmentOffset = 1 := by
    have hbytes : ((LteRlcAmHeader.fresh 0).deserialize ((segmentFrom 256).serialize ++ [])).map
        (·.segmentOffset) = some 1 := by decide
    rw [hread] at hbytes
    exact Option.some.inj hbytes
  have h256 := hsame.segmentOffset
  rw [hone] at h256
  cases h256

end Ns3.Lte
