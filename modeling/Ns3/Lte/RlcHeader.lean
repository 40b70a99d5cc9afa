import Ns3.Lib.Bits
import Ns3.Lte.SequenceNumber10

/-!
# The header of an UMD PDU

`LteRlcHeader` has a fixed part of two bytes, then a list of extension bits and length indicators of
twelve bits each, two of them in three bytes. The AMD header has the same list behind its own fixed
part. What is read from a header that was written is what was written (`deserialize_serialize`), up
to the length, which both sides count modulo `2 ^ 16`.
-/

namespace Ns3.Lte

open Ns3.Lib

/-- `WriteU8`. -/
abbrev u8 (x : Nat) : UInt8 := UInt8.ofNat x

/-! ## The list of extension bits and length indicators -/

/-- The loop of `Serialize`, after the first extension bit. -/
def writeLis : List Nat → List Nat → List UInt8
  | oddE :: evenE :: es, oddLi :: evenLi :: lis =>
    u8 (((oddE <<< 7) &&& 0x80) ||| ((oddLi >>> 4) &&& 0x7F)) ::
    u8 (((oddLi <<< 4) &&& 0xF0) ||| ((evenE <<< 3) &&& 0x08) ||| ((evenLi >>> 8) &&& 0x07)) ::
    u8 (evenLi &&& 0xFF) :: writeLis es lis
  | oddE :: _, oddLi :: _ =>
    [u8 (((oddE <<< 7) &&& 0x80) ||| ((oddLi >>> 4) &&& 0x7F)), u8 ((oddLi <<< 4) &&& 0xF0)]
  | _, _ => []

/-- The loop of `Deserialize`: the extension bits, the length indicators and the bytes read. -/
def readLis : List UInt8 → Option (List Nat × List Nat × Nat)
  | byte1 :: byte2 :: bytes =>
    let oddE := (byte1.toNat &&& 0x80) >>> 7
    let oddLi := ((byte1.toNat &&& 0x7F) <<< 4) ||| ((byte2.toNat &&& 0xF0) >>> 4)
    if oddE = 1 then
      match bytes with
      | byte3 :: rest =>
        let evenE := (byte2.toNat &&& 0x08) >>> 3
        let evenLi := ((byte2.toNat &&& 0x07) <<< 8) ||| (byte3.toNat &&& 0xFF)
        if evenE = 1 then
          (readLis rest).map fun r => (oddE :: evenE :: r.1, oddLi :: evenLi :: r.2.1, r.2.2 + 3)
        else
          some ([oddE, evenE], [oddLi, evenLi], 3)
      | [] => none
    else
      some ([oddE], [oddLi], 2)
  | _ => none

/-- Extension bits that announce as many length indicators, each of eleven bits. -/
inductive Announces : List Nat → List Nat → Prop
  | last : Announces [0] []
  | more {li : Nat} {es lis : List Nat} (hli : li < 2048) (h : Announces es lis) :
    Announces (1 :: es) (li :: lis)

theorem Announces.length_eq {es lis : List Nat} (h : Announces es lis) :
    es.length = lis.length + 1 := by
  induction h with
  | last => rfl
  | more hli h ih => rw [List.length_cons, List.length_cons, ih]

section Fields

variable {x : Nat}

theorem and_0x80 : x &&& 0x80 = x / 128 % 2 * 128 := and_field x 7 1
theorem and_0x7F : x &&& 0x7F = x % 128 := by simpa using and_field x 0 7
theorem and_0xF0 : x &&& 0xF0 = x / 16 % 16 * 16 := and_field x 4 4
theorem and_0x08 : x &&& 0x08 = x / 8 % 2 * 8 := and_field x 3 1
theorem and_0x07 : x &&& 0x07 = x % 8 := by simpa using and_field x 0 3
theorem and_0xFF : x &&& 0xFF = x % 256 := by simpa using and_field x 0 8
theorem and_0x18 : x &&& 0x18 = x / 8 % 4 * 8 := and_field x 3 2
theorem and_0x04 : x &&& 0x04 = x / 4 % 2 * 4 := and_field x 2 1
theorem and_0x03 : x &&& 0x03 = x % 4 := by simpa using and_field x 0 2

end Fields

/-- The first byte of an odd pair. -/
theorem odd_byte {e li : Nat} (he : e < 2) (hli : li < 2048) :
    ((e <<< 7) &&& 0x80) ||| ((li >>> 4) &&& 0x7F) = e * 128 + li / 16 := by
  simp (disch := omega) only [and_0x80, and_0x7F, Nat.shiftLeft_eq, Nat.shiftRight_eq_div_pow,
    or_field 7]
  omega

/-- The byte that an odd pair shares with an even one. -/
theorem shared_byte {li e li' : Nat} (he : e < 2) (hli' : li' < 2048) :
    ((li <<< 4) &&& 0xF0) ||| ((e <<< 3) &&& 0x08) ||| ((li' >>> 8) &&& 0x07) =
      li % 16 * 16 + e * 8 + li' / 256 := by
  simp (disch := omega) only [and_0xF0, and_0x08, and_0x07, Nat.shiftLeft_eq,
    Nat.shiftRight_eq_div_pow, or_field 4, or_field 3]
  omega

/-- What the loop reads of the last pair, when it is odd. -/
theorem readLis_odd {li : Nat} (hli : li < 2048) (data : List UInt8) :
    readLis (writeLis [0] [li] ++ data) = some ([0], [li], 2) := by
  have hE : ((u8 (((0 <<< 7) &&& 0x80) ||| ((li >>> 4) &&& 0x7F))).toNat &&& 0x80) >>> 7 = 0 := by
    rw [odd_byte (by omega) hli, and_0x80, Nat.shiftRight_eq_div_pow, UInt8.toNat_ofNat']
    omega
  have hLi : ((u8 (0 * 128 + li / 16)).toNat &&& 0x7F) <<< 4 |||
      ((u8 ((li <<< 4) &&& 0xF0)).toNat &&& 0xF0) >>> 4 = li := by
    simp (disch := omega) only [UInt8.toNat_ofNat', and_0x7F, and_0xF0, Nat.shiftLeft_eq,
      Nat.shiftRight_eq_div_pow, or_field 4]
    omega
  simp only [writeLis, List.cons_append, List.nil_append]
  rw [odd_byte (by omega) hli] at hE ⊢
  unfold readLis
  simp only [hE, hLi]
  rfl

/-- What the loop reads of an odd pair with an even one behind it. -/
theorem readLis_even {e li li' : Nat} {es lis : List Nat} (he : e < 2) (hli : li < 2048)
    (hli' : li' < 2048) (data : List UInt8) :
    readLis (writeLis (1 :: e :: es) (li :: li' :: lis) ++ data) =
      if e = 1 then
        (readLis (writeLis es lis ++ data)).map fun r =>
          (1 :: 1 :: r.1, li :: li' :: r.2.1, r.2.2 + 3)
      else some ([1, e], [li, li'], 3) := by
  have hE : ((u8 (((1 <<< 7) &&& 0x80) ||| ((li >>> 4) &&& 0x7F))).toNat &&& 0x80) >>> 7 = 1 := by
    rw [odd_byte (by omega) hli, and_0x80, Nat.shiftRight_eq_div_pow, UInt8.toNat_ofNat']
    omega
  simp only [writeLis, List.cons_append, readLis, hE, if_true]
  rw [odd_byte (by omega) hli, shared_byte he hli']
  have hE' : ((u8 (li % 16 * 16 + e * 8 + li' / 256)).toNat &&& 0x08) >>> 3 = e := by
    rw [and_0x08, Nat.shiftRight_eq_div_pow, UInt8.toNat_ofNat']
    omega
  have hLi : ((u8 (1 * 128 + li / 16)).toNat &&& 0x7F) <<< 4 |||
      ((u8 (li % 16 * 16 + e * 8 + li' / 256)).toNat &&& 0xF0) >>> 4 = li := by
    simp (disch := omega) only [UInt8.toNat_ofNat', and_0x7F, and_0xF0, Nat.shiftLeft_eq,
      Nat.shiftRight_eq_div_pow, or_field 4]
    omega
  have hLi' : ((u8 (li % 16 * 16 + e * 8 + li' / 256)).toNat &&& 0x07) <<< 8 |||
      ((u8 (li' &&& 0xFF)).toNat &&& 0xFF) = li' := by
    simp (disch := omega) only [UInt8.toNat_ofNat', and_0x07, and_0xFF, Nat.shiftLeft_eq,
      or_field 8]
    omega
  rw [hE', hLi, hLi']
  split
  · next h => rw [h]
  · rfl

/-- The loop of `Deserialize` reads what the loop of `Serialize` wrote, two pairs in each round. -/
theorem readLis_writeLis {es lis : List Nat} (h : Announces es lis) {li : Nat} (hli : li < 2048)
    (data : List UInt8) :
    readLis (writeLis es (li :: lis) ++ data) =
      some (es, li :: lis, (writeLis es (li :: lis)).length) := by
  match h with
  | .last => exact readLis_odd hli data
  | .more hli' .last =>
    rw [readLis_even (by omega) hli hli']
    rfl
  | .more hli' (.more hli'' h) =>
    rw [readLis_even (by omega) hli hli', if_pos rfl, readLis_writeLis h hli'' data]
    rfl

/-! ## The header -/

/-- `LteRlcHeader`. The length is an `uint16_t`. -/
structure LteRlcHeader where
  headerLength : Nat := 0
  framingInfo : Nat := 0xff
  sequenceNumber : SequenceNumber10 := .ofValue 0xfffa
  extensionBits : List Nat := []
  lengthIndicators : List Nat := []
deriving DecidableEq, Repr

theorem length_writeLis {es lis : List Nat} (h : Announces es lis) (li : Nat) :
    (writeLis es (li :: lis)).length = lis.length + 1 + (lis.length + 2) / 2 := by
  match h with
  | .last => rfl
  | .more hli' .last => simp [writeLis]
  | .more hli' (@Announces.more li'' _ _ hli'' h) =>
    simp only [writeLis, List.length_cons, length_writeLis h li'']
    omega

namespace LteRlcHeader

def setFramingInfo (h : LteRlcHeader) (framingInfo : Nat) : LteRlcHeader :=
  { h with framingInfo := framingInfo &&& 0x03 }

def setSequenceNumber (h : LteRlcHeader) (sequenceNumber : SequenceNumber10) : LteRlcHeader :=
  { h with sequenceNumber }

def pushExtensionBit (h : LteRlcHeader) (extensionBit : Nat) : LteRlcHeader :=
  { h with
    extensionBits := h.extensionBits ++ [extensionBit]
    headerLength :=
      if h.extensionBits.length + 1 = 1 then 2
      else if (h.extensionBits.length + 1) % 2 = 1 then (h.headerLength + 1) % 2 ^ 16
      else (h.headerLength + 2) % 2 ^ 16 }

def pushLengthIndicator (h : LteRlcHeader) (lengthIndicator : Nat) : LteRlcHeader :=
  { h with lengthIndicators := h.lengthIndicators ++ [lengthIndicator] }

def serialize (h : LteRlcHeader) : List UInt8 :=
  u8 (((h.framingInfo <<< 3) &&& 0x18) ||| ((h.extensionBits.headD 0 <<< 2) &&& 0x04) |||
    ((h.sequenceNumber.value >>> 8) &&& 0x03)) ::
  u8 (h.sequenceNumber.value &&& 0xFF) :: writeLis h.extensionBits.tail h.lengthIndicators

/-- The header at the start of the bytes. -/
def deserialize : List UInt8 → Option LteRlcHeader
  | byte1 :: byte2 :: bytes =>
    let framingInfo := (byte1.toNat &&& 0x18) >>> 3
    let sequenceNumber :=
      (SequenceNumber10.ofValue 0xfffa).assign (((byte1.toNat &&& 0x03) <<< 8) ||| byte2.toNat)
    let extensionBit := (byte1.toNat &&& 0x04) >>> 2
    if extensionBit = 0 then
      some ⟨2, framingInfo, sequenceNumber, [extensionBit], []⟩
    else
      (readLis bytes).map fun r =>
        ⟨(2 + r.2.2) % 2 ^ 16, framingInfo, sequenceNumber, extensionBit :: r.1, r.2.1⟩
  | _ => none

/-- The header that the pushes of the extension bits and length indicators give. -/
def push (es lis : List Nat) : LteRlcHeader :=
  lis.foldl pushLengthIndicator (es.foldl pushExtensionBit {})

@[simp] theorem extensionBits_push (es lis : List Nat) : (push es lis).extensionBits = es := by
  have hE : ∀ (h : LteRlcHeader), (es.foldl pushExtensionBit h).extensionBits =
      h.extensionBits ++ es := by
    induction es with
    | nil => simp
    | cons e es ih => simp [ih, pushExtensionBit]
  have hL : ∀ (h : LteRlcHeader), (lis.foldl pushLengthIndicator h).extensionBits =
      h.extensionBits := by
    induction lis with
    | nil => simp
    | cons li lis ih => simp [ih, pushLengthIndicator]
  simp [push, hL, hE]

@[simp] theorem lengthIndicators_push (es lis : List Nat) :
    (push es lis).lengthIndicators = lis := by
  have hE : ∀ (h : LteRlcHeader), (es.foldl pushExtensionBit h).lengthIndicators =
      h.lengthIndicators := by
    induction es with
    | nil => simp
    | cons e es ih => simp [ih, pushExtensionBit]
  have hL : ∀ (h : LteRlcHeader), (lis.foldl pushLengthIndicator h).lengthIndicators =
      h.lengthIndicators ++ lis := by
    induction lis with
    | nil => simp
    | cons li lis ih => simp [ih, pushLengthIndicator]
  simp [push, hL, hE]

theorem headerLength_pushExtensionBit {h : LteRlcHeader} {n : Nat}
    (hn : h.extensionBits.length = n) (hlen : h.headerLength = (1 + n + n / 2) % 2 ^ 16)
    (e : Nat) :
    (h.pushExtensionBit e).headerLength = (1 + (n + 1) + (n + 1) / 2) % 2 ^ 16 := by
  subst hn
  simp only [pushExtensionBit]
  split
  · next h1 =>
    have h0 : h.extensionBits.length = 0 := by omega
    simp [h0]
  · split <;> omega

theorem headerLength_foldl {es : List Nat} {h : LteRlcHeader} {n : Nat}
    (hn : h.extensionBits.length = n) (hlen : h.headerLength = (1 + n + n / 2) % 2 ^ 16) :
    (es.foldl pushExtensionBit h).headerLength =
      (1 + (n + es.length) + (n + es.length) / 2) % 2 ^ 16 := by
  induction es generalizing h n with
  | nil => exact hlen
  | cons e es ih =>
    have hcount : (h.pushExtensionBit e).extensionBits.length = n + 1 := by
      simp [pushExtensionBit, hn]
    rw [List.foldl_cons, ih hcount (headerLength_pushExtensionBit hn hlen e), List.length_cons,
      Nat.add_right_comm n 1, Nat.add_assoc n]

theorem headerLength_lengthIndicators {lis : List Nat} {h : LteRlcHeader} :
    (lis.foldl pushLengthIndicator h).headerLength = h.headerLength := by
  induction lis generalizing h with
  | nil => rfl
  | cons li lis ih => rw [List.foldl_cons, ih, pushLengthIndicator]

/-- The length that the pushes count is that of the bytes, as an `uint16_t`. -/
theorem headerLength_push {es lis : List Nat} (h : Announces es lis) :
    (push es lis).headerLength = (push es lis).serialize.length % 2 ^ 16 := by
  obtain ⟨e, es, rfl⟩ := List.exists_cons_of_ne_nil (show es ≠ [] by cases h <;> simp)
  have hfold : (push (e :: es) lis).headerLength =
      (1 + (1 + es.length) + (1 + es.length) / 2) % 2 ^ 16 := by
    rw [push, headerLength_lengthIndicators, List.foldl_cons]
    exact headerLength_foldl rfl rfl
  rw [hfold, serialize, extensionBits_push, lengthIndicators_push]
  cases h with
  | last => rfl
  | @more li es lis hli h =>
    simp only [List.tail_cons, List.length_cons, length_writeLis h li, h.length_eq]
    omega

theorem deserialize_serialize {h : LteRlcHeader} (hfi : h.framingInfo < 4)
    (hsn : h.sequenceNumber.value < 1024) (hann : Announces h.extensionBits h.lengthIndicators)
    (hlen : h.headerLength = h.serialize.length % 2 ^ 16) (data : List UInt8) :
    deserialize (h.serialize ++ data) =
      some { h with sequenceNumber := .ofValue h.sequenceNumber.value } := by
  obtain ⟨headerLength, framingInfo, sn, es, lis⟩ := h
  simp only at hfi hsn hann hlen
  have hbyte : ∀ e < 2, ((framingInfo <<< 3) &&& 0x18) ||| ((e <<< 2) &&& 0x04) |||
      ((sn.value >>> 8) &&& 0x03) = framingInfo * 8 + e * 4 + sn.value / 256 := by
    intro e he
    simp (disch := omega) only [and_0x18, and_0x04, and_0x03, Nat.shiftLeft_eq,
      Nat.shiftRight_eq_div_pow, or_field 3, or_field 2]
    omega
  have hE : ∀ e < 2, ((u8 (framingInfo * 8 + e * 4 + sn.value / 256)).toNat &&& 0x04) >>> 2 =
      e := by
    intro e he
    rw [and_0x04, Nat.shiftRight_eq_div_pow, UInt8.toNat_ofNat']
    omega
  have hFi : ∀ e < 2, ((u8 (framingInfo * 8 + e * 4 + sn.value / 256)).toNat &&& 0x18) >>> 3 =
      framingInfo := by
    intro e he
    rw [and_0x18, Nat.shiftRight_eq_div_pow, UInt8.toNat_ofNat']
    omega
  have hSn : ∀ e < 2, (((u8 (framingInfo * 8 + e * 4 + sn.value / 256)).toNat &&& 0x03) <<< 8) |||
      (u8 (sn.value &&& 0xFF)).toNat = sn.value := by
    intro e he
    simp (disch := omega) only [UInt8.toNat_ofNat', and_0x03, and_0xFF, Nat.shiftLeft_eq,
      or_field 8]
    omega
  cases hann with
  | last =>
    simp only [serialize, writeLis, List.headD_cons, List.tail_cons, List.cons_append, hbyte 0
      (by omega), deserialize, hE 0 (by omega), hFi 0 (by omega), hSn 0 (by omega), if_true]
    rw [hlen]
    rfl
  | @more li es lis hli h =>
    simp only [serialize, List.headD_cons, List.tail_cons, List.cons_append, hbyte 1
      (by omega), deserialize, hE 1 (by omega), hFi 1 (by omega), hSn 1 (by omega),
      readLis_writeLis h hli]
    rw [hlen]
    simp [serialize, SequenceNumber10.assign, SequenceNumber10.ofValue]
    omega

theorem length_serialize (h : LteRlcHeader) :
    h.serialize.length = 2 + (writeLis h.extensionBits.tail h.lengthIndicators).length := by
  simp only [serialize, List.length_cons]
  omega

end LteRlcHeader

/-! ## The header in front of the data -/

/-- `Packet::AddHeader` of a header with this size that serializes to `header`. The room in front of
the data is for `size` bytes; a longer header goes over the data, and `none` past their end. -/
def addHeader (size : Nat) (header data : List UInt8) : Option (List UInt8) :=
  if header.length ≤ size + data.length then
    some (header ++ (List.replicate size 0 ++ data).drop header.length)
  else none

theorem addHeader_eq {size : Nat} {header : List UInt8} (h : size = header.length)
    (data : List UInt8) : addHeader size header data = some (header ++ data) := by
  subst h
  unfold addHeader
  rw [if_pos (Nat.le_add_right _ _), List.drop_left' List.length_replicate]

end Ns3.Lte
