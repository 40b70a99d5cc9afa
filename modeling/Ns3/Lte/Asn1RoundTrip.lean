import Ns3.Lte.Asn1Bits

/-!
# Round trip of the fields of an Asn1Header

A sequence of fields goes through a writer and then, with the same constraints, through a fresh
reader. The writer writes nothing for a number that has just one value, and the reader then leaves
the variable that it was given as it is.
-/

namespace Ns3.Lte.Asn1Header

open Ns3.Lib

variable {h : Asn1Header} {bits rest : List Bool} {octets : List Octet} {n nmin nmax held : ℤ}
  {b : Bool} {data : Bitset}

/-! ## Numbers -/

theorem toUlong_ofNat (N x : ℕ) (hx : x < 2 ^ N) : (Bitset.ofNat N x).toUlong = x := by
  induction N generalizing x with
  | zero =>
    rw [Nat.pow_zero, Nat.lt_one_iff] at hx
    rw [hx]
    rfl
  | succ N ih =>
    have hcons : Bitset.ofNat (N + 1) x = x.testBit 0 :: Bitset.ofNat N (x / 2) := by
      rw [Bitset.ofNat, List.range_succ_eq_map, List.map_cons, List.map_map, Bitset.ofNat]
      congr 1
      apply List.map_congr_left
      intro i _
      exact Nat.testBit_succ x i
    rw [Nat.pow_succ] at hx
    have hbit : (x.testBit 0).toNat = x % 2 := by
      rw [Nat.testBit_zero]
      rcases Nat.mod_two_eq_zero_or_one x with h0 | h1
      · rw [h0]
        rfl
      · rw [h1]
        rfl
    rw [hcons, Bitset.toUlong, ih (x / 2) (by omega), hbit]
    omega

/-- What stands for a number between bounds. -/
def integerBits (n nmin nmax : ℤ) : List Bool :=
  (Bitset.ofNat (requiredBits (nmax - nmin + 1)) (n - nmin).toNat).reverse

theorem length_ofNat (N x : ℕ) : (Bitset.ofNat N x).length = N := by simp [Bitset.ofNat]

theorem length_integerBits (n nmin nmax : ℤ) :
    (integerBits n nmin nmax).length = requiredBits (nmax - nmin + 1) := by
  rw [integerBits, List.length_reverse, length_ofNat]

theorem integerBits_single (n nmin : ℤ) : integerBits n nmin nmin = [] := by
  apply List.eq_nil_of_length_eq_zero
  rw [length_integerBits, Int.sub_self]
  exact Nat.clog_one_right 2

theorem requiredBits_pos {range : ℤ} (hrange : 1 < range) : 1 ≤ requiredBits range :=
  Nat.clog_pos (by decide) (by omega)

theorem requiredBits_le_iff {range : ℤ} : requiredBits range ≤ 20 ↔ range ≤ 2 ^ 20 := by
  rw [requiredBits, Nat.clog_le_iff_le_pow (by decide)]
  omega

theorem lt_requiredBits (hmin : nmin ≤ n) (hmax : n ≤ nmax) :
    (n - nmin).toNat < 2 ^ requiredBits (nmax - nmin + 1) := by
  have hle := Nat.le_pow_clog (b := 2) (by decide) (nmax - nmin + 1).toNat
  unfold requiredBits
  omega

theorem Written.serializeInteger (hw : Written h bits) (hmin : nmin ≤ n) (hmax : n ≤ nmax)
    (hrange : nmax - nmin + 1 ≤ 2 ^ 20) :
    ∃ h', h.serializeInteger n nmin nmax = some h' ∧
      Written h' (bits ++ integerBits n nmin nmax) := by
  have hint : IsInt (nmax - nmin + 1) := ⟨by omega, by omega⟩
  unfold Asn1Header.serializeInteger
  simp only [if_pos (And.intro hmin hmax), not_true_eq_false, hint, if_false]
  by_cases hone : nmax - nmin + 1 ≤ 1
  · have hsingle : nmax = nmin := by omega
    rw [if_pos hone, hsingle, integerBits_single, List.append_nil]
    exact ⟨h, rfl, hw⟩
  · have hle := requiredBits_le_iff.mpr hrange
    rw [if_neg hone, if_pos ⟨requiredBits_pos (by omega), hle⟩]
    refine ⟨_, rfl, hw.serializeBitset ?_⟩
    rw [length_ofNat]
    omega

/-- A range that takes more than 20 bits ends the program. -/
theorem serializeInteger_none (hrange : 2 ^ 20 < nmax - nmin + 1) :
    h.serializeInteger n nmin nmax = none := by
  have hbig : ¬requiredBits (nmax - nmin + 1) ≤ 20 := by
    rw [requiredBits_le_iff]
    omega
  unfold Asn1Header.serializeInteger
  simp only
  split
  · split
    · rfl
    · rw [if_neg (by omega), if_neg fun hreq => hbig hreq.2]
  · rfl

/-- The number comes back, but for a range of one value. -/
theorem Holds.deserializeInteger (hholds : Holds h octets (integerBits n nmin nmax ++ rest))
    (hmin : nmin ≤ n) (hmax : n ≤ nmax) (hrange : nmax - nmin + 1 ≤ 2 ^ 20) (held : ℤ) :
    ∃ h' octets', h.deserializeInteger held nmin nmax octets =
        some (if nmin = nmax then held else n, h', octets') ∧
      Holds h' octets' rest := by
  have hint : IsInt (nmax - nmin + 1) := ⟨by omega, by omega⟩
  unfold Asn1Header.deserializeInteger
  simp only [if_neg (show ¬nmax < nmin by omega), hint, not_true_eq_false, if_false]
  by_cases hone : nmin = nmax
  · subst hone
    rw [integerBits_single] at hholds
    rw [if_pos rfl, if_pos (by omega)]
    exact ⟨h, octets, rfl, hholds⟩
  · have hle := requiredBits_le_iff.mpr hrange
    obtain ⟨h', octets', heq, hrest⟩ := Holds.deserializeBitset
      (.replicate (requiredBits (nmax - nmin + 1)) false) _ hholds
      (by rw [List.length_replicate, length_ofNat])
    rw [if_neg hone, if_neg (by omega), if_pos ⟨requiredBits_pos (by omega), hle⟩, heq]
    refine ⟨h', octets', ?_, hrest⟩
    rw [Option.bind_eq_bind, Option.bind_some, toUlong_ofNat _ _ (lt_requiredBits hmin hmax),
      Int.toNat_of_nonneg (by omega), Int.sub_add_cancel]

theorem Holds.deserializeBoolean (hholds : Holds h octets (b :: rest)) :
    ∃ h' octets', h.deserializeBoolean octets = some (b, h', octets') ∧
      Holds h' octets' rest := by
  obtain ⟨h', octets', heq, hrest⟩ := Holds.deserializeBitset [false] [b] hholds rfl
  refine ⟨h', octets', ?_, hrest⟩
  unfold Asn1Header.deserializeBoolean
  rw [heq]
  rfl

/-! ## Markers -/

/-- What stands for an extension marker. -/
def markerBits (isExtensionMarkerPresent : Bool) : List Bool :=
  if isExtensionMarkerPresent then [false] else []

theorem Written.marker (hw : Written h bits) (marker : Bool) :
    Written (if marker then h.serializeBoolean false else h) (bits ++ markerBits marker) := by
  cases marker with
  | true =>
    have hlen : ([false] : Bitset).length < 2 ^ 8 := by decide
    exact hw.serializeBitset hlen
  | false =>
    rw [markerBits, if_neg (by decide), if_neg (by decide), List.append_nil]
    exact hw

theorem Holds.marker {marker : Bool} (hholds : Holds h octets (markerBits marker ++ rest)) :
    ∃ h' octets', h.deserializeMarker marker octets = some (h', octets') ∧
      Holds h' octets' rest := by
  cases marker with
  | true =>
    obtain ⟨h', octets', heq, hrest⟩ := hholds.deserializeBoolean
    refine ⟨h', octets', ?_, hrest⟩
    unfold deserializeMarker
    rw [if_pos rfl, heq]
    rfl
  | false => exact ⟨h, octets, rfl, hholds⟩

theorem Written.serializeSequence (hw : Written h bits) (hlen : data.length < 2 ^ 8)
    (marker : Bool) :
    Written (h.serializeSequence data marker) (bits ++ (markerBits marker ++ data.reverse)) := by
  rw [← List.append_assoc]
  exact (hw.marker marker).serializeBitset hlen

theorem Written.serializeChoice {num : ℤ} (hw : Written h bits) (hmin : 0 ≤ n)
    (hmax : n ≤ num - 1) (hrange : num ≤ 2 ^ 20) (marker : Bool) :
    ∃ h', h.serializeChoice num n marker = some h' ∧
      Written h' (bits ++ (markerBits marker ++ integerBits n 0 (num - 1))) := by
  have hmark := hw.marker marker
  unfold Asn1Header.serializeChoice
  rw [← List.append_assoc]
  by_cases hone : num < 2
  · have hsingle : num - 1 = 0 := by omega
    simp only [if_pos hone]
    rw [hsingle, integerBits_single, List.append_nil]
    exact ⟨_, rfl, hmark⟩
  · simp only [if_neg hone]
    exact hmark.serializeInteger hmin hmax (by omega)

theorem Holds.deserializeChoice {num : ℤ} {marker : Bool}
    (hholds : Holds h octets (markerBits marker ++ integerBits n 0 (num - 1) ++ rest))
    (hmin : 0 ≤ n) (hmax : n ≤ num - 1) (hrange : num ≤ 2 ^ 20) (held : ℤ) :
    ∃ h' octets', h.deserializeChoice num marker held octets =
        some (if 0 = num - 1 then held else n, h', octets') ∧
      Holds h' octets' rest := by
  rw [List.append_assoc] at hholds
  obtain ⟨h', octets', heq, hrest⟩ := hholds.marker
  unfold Asn1Header.deserializeChoice
  rw [heq]
  exact hrest.deserializeInteger hmin hmax (by omega) held

theorem Holds.deserializeSequence {marker : Bool} {value : Bitset}
    (hholds : Holds h octets (markerBits marker ++ value.reverse ++ rest))
    (hlen : data.length = value.length) :
    ∃ h' octets', h.deserializeSequence data marker octets = some (value, h', octets') ∧
      Holds h' octets' rest := by
  rw [List.append_assoc] at hholds
  obtain ⟨h', octets', heq, hrest⟩ := hholds.marker
  unfold Asn1Header.deserializeSequence
  rw [heq]
  exact Holds.deserializeBitset data value hrest hlen

/-! ## Fields -/

/-- The kinds of fields with their constraints. -/
inductive Format
  | bitstring (N : ℕ)
  | boolean
  | integer (nmin nmax : ℤ)
  | enumeration (numElems : ℤ)
  | choice (numOptions : ℤ) (isExtensionMarkerPresent : Bool)
  | sequence (N : ℕ) (isExtensionMarkerPresent : Bool)
  | sequenceOf (nMax nMin : ℤ)
deriving DecidableEq

/-- What a variable holds. -/
inductive Value
  | bits (data : Bitset)
  | flag (value : Bool)
  | number (n : ℤ)
deriving DecidableEq

namespace Format

/-- An extension marker goes ahead of the value. -/
def marker : Format → Bool
  | choice _ marker | sequence _ marker => marker
  | _ => false

/-- The bounds of a number. -/
def bounds : Format → Option (ℤ × ℤ)
  | integer nmin nmax | sequenceOf nmax nmin => some (nmin, nmax)
  | enumeration num | choice num _ => some (0, num - 1)
  | bitstring _ | boolean | sequence _ _ => none

/-- The number of bits that the value takes. -/
def valueBits : Format → ℕ
  | bitstring N | sequence N _ => N
  | boolean => 1
  | integer nmin nmax | sequenceOf nmax nmin => requiredBits (nmax - nmin + 1)
  | enumeration num | choice num _ => requiredBits num

/-- The number of bits that a field takes. -/
def numBits (format : Format) : ℕ := format.marker.toNat + format.valueBits

/-- The constraints for which the functions are there. -/
def Supported : Format → Prop
  | bitstring N => N ∈ [1, 2, 8, 10, 16, 27, 28, 32]
  | sequence N _ => N ∈ [0, 1, 2, 3, 4, 5, 6, 7, 9, 10, 11]
  | boolean => True
  | integer nmin nmax => IsInt nmin ∧ IsInt nmax ∧ nmin ≤ nmax ∧ nmax - nmin + 1 ≤ 2 ^ 20
  | sequenceOf nMax nMin => IsInt nMin ∧ IsInt nMax ∧ nMin ≤ nMax
  | enumeration num | choice num _ => IsInt num ∧ 1 ≤ num

/-- A variable of the type that the functions take. -/
def Types : Format → Value → Prop
  | bitstring N, .bits data | sequence N _, .bits data => data.length = N
  | boolean, .flag _ => True
  | integer _ _, .number n | enumeration _, .number n | choice _ _, .number n
  | sequenceOf _ _, .number n => IsInt n
  | _, _ => False

/-- A value within the bounds. -/
def Bounds (format : Format) (value : Value) : Prop :=
  ∀ nmin nmax n, format.bounds = some (nmin, nmax) → value = .number n → nmin ≤ n ∧ n ≤ nmax

end Format

/-- A field with its constraint, the value to send and what the variable of the reader holds before
the call. -/
structure Field where
  format : Format
  value : Value
  held : Value
  supported : format.Supported
  value_typed : format.Types value
  held_typed : format.Types held
  value_bounds : format.Bounds value

namespace Field

def serialize (field : Field) (h : Asn1Header) : Option Asn1Header :=
  match field.format, field.value with
  | .bitstring _, .bits data => some (h.serializeBitstring data)
  | .boolean, .flag value => some (h.serializeBoolean value)
  | .integer nmin nmax, .number n => h.serializeInteger n nmin nmax
  | .enumeration numElems, .number n => h.serializeEnum numElems n
  | .choice numOptions marker, .number n => h.serializeChoice numOptions n marker
  | .sequence _ marker, .bits data => some (h.serializeSequence data marker)
  | .sequenceOf nMax nMin, .number n => h.serializeSequenceOf n nMax nMin
  | _, _ => none

def deserialize (field : Field) (h : Asn1Header) (octets : List Octet) :
    Option (Value × Asn1Header × List Octet) :=
  match field.format, field.held with
  | .bitstring _, .bits data => (h.deserializeBitstring data octets).map (Prod.map .bits id)
  | .boolean, .flag _ => (h.deserializeBoolean octets).map (Prod.map .flag id)
  | .integer nmin nmax, .number n =>
    (h.deserializeInteger n nmin nmax octets).map (Prod.map .number id)
  | .enumeration numElems, .number n =>
    (h.deserializeEnum numElems n octets).map (Prod.map .number id)
  | .choice numOptions marker, .number n =>
    (h.deserializeChoice numOptions marker n octets).map (Prod.map .number id)
  | .sequence _ marker, .bits data =>
    (h.deserializeSequence data marker octets).map (Prod.map .bits id)
  | .sequenceOf nMax nMin, .number n =>
    (h.deserializeSequenceOf n nMax nMin octets).map (Prod.map .number id)
  | _, _ => none

/-- The range has at most `2 ^ 20` values, and where it has just one, the variable of the reader
holds it already. -/
def Kept (field : Field) : Prop :=
  ∀ nmin nmax, field.format.bounds = some (nmin, nmax) →
    nmax - nmin + 1 ≤ 2 ^ 20 ∧ (nmin = nmax → field.held = field.value)

end Field

def serializeAll : List Field → Asn1Header → Option Asn1Header
  | [], h => some h
  | field :: fields, h => (field.serialize h).bind (serializeAll fields)

def deserializeAll : List Field → Asn1Header → List Octet → Option (List Value)
  | [], _, _ => some []
  | field :: fields, h, octets => do
    let (value, h, octets) ← field.deserialize h octets
    let values ← deserializeAll fields h octets
    some (value :: values)

/-- The number of bits of a sequence of fields. -/
def totalBits (fields : List Field) : ℕ := (fields.map fun field => field.format.numBits).sum

/-- The fields go through a writer and a reader, in the least number of octets. -/
def RoundTrips (fields : List Field) : Prop :=
  ∃ h, serializeAll fields {} = some h ∧
    h.finalizeSerialization.serializationResult.length = (totalBits fields + 7) / 8 ∧
    deserializeAll fields {} h.finalizeSerialization.serializationResult =
      some (fields.map Field.value)

/-! ## One field -/

namespace Field

variable {field : Field}

/-- What the reader returns: for a range of one value, what the variable held. -/
def returned (field : Field) : Value :=
  match field.format.bounds with
  | some (nmin, nmax) => if nmin = nmax then field.held else field.value
  | none => field.value

/-- The bits of the value, behind the marker. -/
def payload (field : Field) : List Bool :=
  match field.value with
  | .bits data => data.reverse
  | .flag value => [value]
  | .number n =>
    match field.format.bounds with
    | some (nmin, nmax) => integerBits n nmin nmax
    | none => []

def encoding (field : Field) : List Bool := markerBits field.format.marker ++ field.payload

theorem length_encoding (field : Field) : field.encoding.length = field.format.numBits := by
  have hmarker : (markerBits field.format.marker).length = field.format.marker.toNat := by
    cases field.format.marker <;> rfl
  rw [encoding, List.length_append, Format.numBits, hmarker]
  congr 1
  obtain ⟨format, value, held, -, htyped, -, -⟩ := field
  cases format <;> cases value <;>
    first
    | exact htyped.elim
    | exact List.length_reverse.trans htyped
    | rfl
    | exact length_integerBits _ _ _
    | exact (length_integerBits _ _ _).trans (congrArg requiredBits (by omega))

theorem length_lt {N : ℕ} {format : Format} (hsupported : format.Supported)
    (hformat : format = .bitstring N ∨ ∃ marker, format = .sequence N marker) : N < 2 ^ 8 := by
  rcases hformat with rfl | ⟨marker, rfl⟩
  · have hall : ∀ N ∈ [1, 2, 8, 10, 16, 27, 28, 32], N < 2 ^ 8 := by decide
    exact hall N hsupported
  · have hall : ∀ N ∈ [0, 1, 2, 3, 4, 5, 6, 7, 9, 10, 11], N < 2 ^ 8 := by decide
    exact hall N hsupported

/-- The range of a number takes at most 20 bits. -/
def Small (field : Field) : Prop :=
  ∀ nmin nmax, field.format.bounds = some (nmin, nmax) → nmax - nmin + 1 ≤ 2 ^ 20

/-- A field within 20 bits is written as its encoding. -/
theorem serialize_written (hw : Written h bits) (hsmall : field.Small) :
    ∃ h', field.serialize h = some h' ∧ Written h' (bits ++ field.encoding) := by
  revert hsmall
  obtain ⟨format, value, held, hsupported, htyped, -, hbounds⟩ := field
  intro hsmall
  cases format with
  | bitstring N =>
    cases value with
    | bits data =>
      exact ⟨_, rfl, hw.serializeBitset (htyped ▸ length_lt hsupported (.inl rfl))⟩
    | _ => exact htyped.elim
  | boolean =>
    cases value with
    | flag value =>
      have hlen : ([value] : Bitset).length < 2 ^ 8 := by
        rw [List.length_singleton]
        decide
      exact ⟨_, rfl, hw.serializeBitset hlen⟩
    | _ => exact htyped.elim
  | integer nmin nmax =>
    cases value with
    | number n =>
      obtain ⟨hmin, hmax⟩ := hbounds nmin nmax n rfl rfl
      exact hw.serializeInteger hmin hmax (hsmall nmin nmax rfl)
    | _ => exact htyped.elim
  | enumeration num =>
    cases value with
    | number n =>
      obtain ⟨hmin, hmax⟩ := hbounds 0 (num - 1) n rfl rfl
      exact hw.serializeInteger hmin hmax (hsmall 0 (num - 1) rfl)
    | _ => exact htyped.elim
  | choice num marker =>
    cases value with
    | number n =>
      obtain ⟨hmin, hmax⟩ := hbounds 0 (num - 1) n rfl rfl
      have hrange := hsmall 0 (num - 1) rfl
      exact hw.serializeChoice hmin hmax (by omega) marker
    | _ => exact htyped.elim
  | sequence N marker =>
    cases value with
    | bits data =>
      have hlen := htyped ▸ length_lt hsupported (.inr ⟨marker, rfl⟩)
      exact ⟨_, rfl, hw.serializeSequence hlen marker⟩
    | _ => exact htyped.elim
  | sequenceOf nMax nMin =>
    cases value with
    | number n =>
      obtain ⟨hmin, hmax⟩ := hbounds nMin nMax n rfl rfl
      exact hw.serializeInteger hmin hmax (hsmall nMin nMax rfl)
    | _ => exact htyped.elim

/-- A field of more than 20 bits is not written. -/
theorem serialize_none (hbig : ¬field.Small) (h : Asn1Header) : field.serialize h = none := by
  simp only [Small, not_forall, not_le] at hbig
  obtain ⟨nmin, nmax, hformat, hrange⟩ := hbig
  revert hformat
  obtain ⟨format, value, held, -, -, -, -⟩ := field
  intro hformat
  cases format with
  | bitstring | boolean | sequence => cases hformat
  | integer | sequenceOf =>
    cases hformat
    cases value with
    | number n => exact serializeInteger_none hrange
    | _ => rfl
  | enumeration num =>
    cases hformat
    cases value with
    | number n => exact serializeInteger_none hrange
    | _ => rfl
  | choice num marker =>
    cases hformat
    cases value with
    | number n =>
      unfold serialize Asn1Header.serializeChoice
      simp only [if_neg (show ¬num < 2 by omega)]
      exact serializeInteger_none hrange
    | _ => rfl

theorem map_number {read : Option (ℤ × Asn1Header × List Octet)}
    (heq : read = some (if nmin = nmax then held else n, h, octets)) :
    read.map (Prod.map Value.number id) =
      some (if nmin = nmax then .number held else .number n, h, octets) := by
  rw [heq]
  by_cases hone : nmin = nmax
  · rw [if_pos hone, if_pos hone]
    rfl
  · rw [if_neg hone, if_neg hone]
    rfl

/-- The reader takes the encoding. -/
theorem deserialize_reads (hholds : Holds h octets (field.encoding ++ rest))
    (hsmall : field.Small) :
    ∃ h' octets', field.deserialize h octets = some (field.returned, h', octets') ∧
      Holds h' octets' rest := by
  revert hholds hsmall
  obtain ⟨format, value, held, -, htyped, hheld, hbounds⟩ := field
  intro hholds hsmall
  cases format with
  | bitstring N =>
    cases value with
    | bits data =>
      cases held with
      | bits held =>
        obtain ⟨h', octets', heq, hrest⟩ :=
          Holds.deserializeBitset held data hholds (hheld.trans htyped.symm)
        exact ⟨h', octets', congrArg (Option.map (Prod.map Value.bits id)) heq, hrest⟩
      | _ => exact hheld.elim
    | _ => exact htyped.elim
  | boolean =>
    cases value with
    | flag value =>
      cases held with
      | flag held =>
        obtain ⟨h', octets', heq, hrest⟩ := Holds.deserializeBoolean hholds
        exact ⟨h', octets', congrArg (Option.map (Prod.map Value.flag id)) heq, hrest⟩
      | _ => exact hheld.elim
    | _ => exact htyped.elim
  | sequence N marker =>
    cases value with
    | bits data =>
      cases held with
      | bits held =>
        obtain ⟨h', octets', heq, hrest⟩ :=
          Holds.deserializeSequence hholds (hheld.trans htyped.symm)
        exact ⟨h', octets', congrArg (Option.map (Prod.map Value.bits id)) heq, hrest⟩
      | _ => exact hheld.elim
    | _ => exact htyped.elim
  | choice num marker =>
    cases value with
    | number n =>
      cases held with
      | number held =>
        obtain ⟨hmin, hmax⟩ := hbounds 0 (num - 1) n rfl rfl
        have hrange := hsmall 0 (num - 1) rfl
        obtain ⟨h', octets', heq, hrest⟩ :=
          Holds.deserializeChoice hholds hmin hmax (by omega) held
        exact ⟨h', octets', map_number heq, hrest⟩
      | _ => exact hheld.elim
    | _ => exact htyped.elim
  | integer nmin nmax =>
    cases value with
    | number n =>
      cases held with
      | number held =>
        obtain ⟨hmin, hmax⟩ := hbounds nmin nmax n rfl rfl
        obtain ⟨h', octets', heq, hrest⟩ :=
          Holds.deserializeInteger hholds hmin hmax (hsmall nmin nmax rfl) held
        exact ⟨h', octets', map_number heq, hrest⟩
      | _ => exact hheld.elim
    | _ => exact htyped.elim
  | enumeration num =>
    cases value with
    | number n =>
      cases held with
      | number held =>
        obtain ⟨hmin, hmax⟩ := hbounds 0 (num - 1) n rfl rfl
        obtain ⟨h', octets', heq, hrest⟩ :=
          Holds.deserializeInteger hholds hmin hmax (hsmall 0 (num - 1) rfl) held
        exact ⟨h', octets', map_number heq, hrest⟩
      | _ => exact hheld.elim
    | _ => exact htyped.elim
  | sequenceOf nMax nMin =>
    cases value with
    | number n =>
      cases held with
      | number held =>
        obtain ⟨hmin, hmax⟩ := hbounds nMin nMax n rfl rfl
        obtain ⟨h', octets', heq, hrest⟩ :=
          Holds.deserializeInteger hholds hmin hmax (hsmall nMin nMax rfl) held
        exact ⟨h', octets', map_number heq, hrest⟩
      | _ => exact hheld.elim
    | _ => exact htyped.elim

end Field

/-! ## A sequence of fields -/

variable {fields : List Field}

theorem serializeAll_written (hw : Written h bits) (hsmall : ∀ field ∈ fields, field.Small) :
    ∃ h', serializeAll fields h = some h' ∧
      Written h' (bits ++ fields.flatMap Field.encoding) := by
  induction fields generalizing h bits with
  | nil => exact ⟨h, rfl, (List.append_nil bits).symm ▸ hw⟩
  | cons field fields ih =>
    obtain ⟨hfield, hfields⟩ := List.forall_mem_cons.mp hsmall
    obtain ⟨h', heq, hw'⟩ := Field.serialize_written hw hfield
    obtain ⟨h'', hrest, hw''⟩ := ih hw' hfields
    refine ⟨h'', ?_, ?_⟩
    · rw [serializeAll, heq, Option.bind_some, hrest]
    · rwa [List.flatMap_cons, ← List.append_assoc]

theorem small_of_serializeAll {h' : Asn1Header} (heq : serializeAll fields h = some h') :
    ∀ field ∈ fields, field.Small := by
  induction fields generalizing h with
  | nil =>
    intro field hmem
    cases hmem
  | cons field fields ih =>
    rw [serializeAll, Option.bind_eq_some_iff] at heq
    obtain ⟨h₁, hfirst, hrest⟩ := heq
    have hfield : field.Small := by
      by_contra hbig
      rw [Field.serialize_none hbig] at hfirst
      cases hfirst
    exact List.forall_mem_cons.mpr ⟨hfield, ih hrest⟩

theorem deserializeAll_reads (hholds : Holds h octets (fields.flatMap Field.encoding ++ rest))
    (hsmall : ∀ field ∈ fields, field.Small) :
    deserializeAll fields h octets = some (fields.map Field.returned) := by
  induction fields generalizing h octets with
  | nil => rfl
  | cons field fields ih =>
    obtain ⟨hfield, hfields⟩ := List.forall_mem_cons.mp hsmall
    rw [List.flatMap_cons, List.append_assoc] at hholds
    obtain ⟨h', octets', heq, hholds'⟩ := Field.deserialize_reads hholds hfield
    have hvalues := ih hholds' hfields
    rw [deserializeAll, heq, Option.bind_eq_bind, Option.bind_some]
    simp only [hvalues, Option.bind_eq_bind, Option.bind_some, List.map_cons]

theorem length_encodings (fields : List Field) :
    (fields.flatMap Field.encoding).length = totalBits fields := by
  rw [List.length_flatMap, totalBits]
  congr 1
  exact List.map_congr_left fun field _ => field.length_encoding

/-- Within 20 bits each field, the fields are written in the least number of octets, and read back
but for what a range of one value leaves. -/
theorem serializeAll_deserializeAll (hsmall : ∀ field ∈ fields, field.Small) :
    ∃ h, serializeAll fields {} = some h ∧
      h.finalizeSerialization.serializationResult.length = (totalBits fields + 7) / 8 ∧
      deserializeAll fields {} h.finalizeSerialization.serializationResult =
        some (fields.map Field.returned) := by
  obtain ⟨h, heq, hw⟩ := serializeAll_written Written.fresh hsmall
  rw [List.nil_append] at hw
  obtain ⟨clear, hstream, hclear⟩ := hw.finalizeSerialization
  have hlen := congrArg List.length hstream
  rw [length_streamBits, List.length_append, length_encodings] at hlen
  have hholds := Holds.fresh h.finalizeSerialization.serializationResult
  rw [hstream] at hholds
  exact ⟨h, heq, by omega, deserializeAll_reads hholds hsmall⟩

theorem Field.returned_eq_iff (field : Field) :
    field.returned = field.value ↔
      ∀ nmin nmax, field.format.bounds = some (nmin, nmax) → nmin = nmax →
        field.held = field.value := by
  unfold returned
  cases hbounds : field.format.bounds with
  | none => simp
  | some bounds =>
    obtain ⟨nmin, nmax⟩ := bounds
    by_cases hone : nmin = nmax
    · simp [hone]
    · simp [hone]

theorem Field.kept_iff (field : Field) : field.Kept ↔ field.Small ∧
    field.returned = field.value := by
  rw [returned_eq_iff]
  constructor
  · intro hkept
    exact ⟨fun nmin nmax hbounds => (hkept nmin nmax hbounds).1,
      fun nmin nmax hbounds => (hkept nmin nmax hbounds).2⟩
  · rintro ⟨hsmall, hheld⟩ nmin nmax hbounds
    exact ⟨hsmall nmin nmax hbounds, hheld nmin nmax hbounds⟩

/-- A sequence of fields comes back, in the least number of octets, exactly when each range has at
most `2 ^ 20` values and the variable for a number that has just one value holds it already. -/
theorem roundTrips_iff (fields : List Field) :
    RoundTrips fields ↔ ∀ field ∈ fields, field.Kept := by
  constructor
  · rintro ⟨h, heq, -, hread⟩
    have hsmall := small_of_serializeAll heq
    obtain ⟨h', heq', -, hread'⟩ := serializeAll_deserializeAll hsmall
    cases heq.symm.trans heq'
    have hall := Option.some.inj (hread'.symm.trans hread)
    intro field hmem
    exact field.kept_iff.mpr ⟨hsmall field hmem, List.map_eq_map_iff.mp hall field hmem⟩
  · intro hkept
    have hsmall : ∀ field ∈ fields, field.Small :=
      fun field hmem => (field.kept_iff.mp (hkept field hmem)).1
    obtain ⟨h, heq, hlen, hread⟩ := serializeAll_deserializeAll hsmall
    refine ⟨h, heq, hlen, ?_⟩
    rw [hread]
    congr 1
    exact List.map_congr_left fun field hmem => (field.kept_iff.mp (hkept field hmem)).2

/-- An integer between 5 and 5 into a variable that holds 0. -/
def oneValue : Field where
  format := .integer 5 5
  value := .number 5
  held := .number 0
  supported := ⟨by decide, by decide, le_rfl, by decide⟩
  value_typed := by
    show IsInt 5
    decide
  held_typed := by
    show IsInt 0
    decide
  value_bounds := by
    rintro nmin nmax n ⟨⟩ ⟨⟩
    exact ⟨le_rfl, le_rfl⟩

theorem oneValue_lost : ¬RoundTrips [oneValue] := by
  rintro ⟨h, heq, -, hread⟩
  cases heq
  cases hread

end Ns3.Lte.Asn1Header
