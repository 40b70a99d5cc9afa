import Mathlib
import Ns3.Internet.TcpHeader

/-!
# TCP headers are read back

A header whose options were put in by `AppendOption` keeps its length field in step with them. So
its octets are read back, with an END option after the others where there is padding, and the
checksum over the whole segment is found good. A word changed on the way is noticed, unless the
length field itself has become less than the fixed part.
-/

namespace Ns3.Internet.TcpHeader

open Lib TcpOption

variable {h r : TcpHeader} {op : TcpOption} {os : List TcpOption} {payload : List UInt8}

/-! ## Headers that are built -/

/-- What `AppendOption` keeps. -/
structure Built (h : TcpHeader) : Prop where
  proper : ∀ op ∈ h.m_options, op.Proper ∧ op.getKind ≠ 0
  optionsLen : h.m_optionsLen = optionsSize h.m_options
  le : h.m_optionsLen ≤ 40
  length : h.m_length = (20 + 3 + h.m_optionsLen) / 4

@[simp] theorem optionsSize_nil : optionsSize [] = 0 := rfl

@[simp] theorem optionsSize_cons (op : TcpOption) (os : List TcpOption) :
    optionsSize (op :: os) = op.getSerializedSize + optionsSize os := by
  simp [optionsSize]

@[simp] theorem optionsSize_append (os os' : List TcpOption) :
    optionsSize (os ++ os') = optionsSize os + optionsSize os' := by
  simp [optionsSize]

theorem Built.appendOption (hb : h.Built) (hop : op.Proper) : (h.appendOption op).2.Built := by
  rw [TcpHeader.appendOption]
  split
  case isFalse => exact hb
  case isTrue hle =>
    split
    · exact hb
    · split
      case isFalse => exact hb
      case isTrue hkind =>
        rw [m_maxOptionsLen] at hle
        have hmod : (h.m_optionsLen + op.getSerializedSize) % 256
            = h.m_optionsLen + op.getSerializedSize := Nat.mod_eq_of_lt (by omega)
        refine ⟨?_, ?_, ?_, ?_⟩
        · intro o ho
          rcases List.mem_append.mp ho with ho | ho
          · exact hb.proper o ho
          · rw [List.mem_singleton.mp ho]
            exact ⟨hop, hkind⟩
        · simp only [hmod]
          rw [optionsSize_append, ← hb.optionsLen, optionsSize_cons, optionsSize_nil, Nat.add_zero]
        · simp only [hmod]
          exact hle
        · exact Nat.shiftRight_eq_div_pow _ 2

/-- All the calls of `AppendOption`, whatever they answer. -/
def appendAll (h : TcpHeader) (os : List TcpOption) : TcpHeader :=
  os.foldl (fun h op => (h.appendOption op).2) h

theorem Built.appendAll (hb : h.Built) (hos : ∀ op ∈ os, op.Proper) : (h.appendAll os).Built := by
  induction os generalizing h with
  | nil => exact hb
  | cons op os ih =>
    exact ih (hb.appendOption (hos op List.mem_cons_self)) fun o ho =>
      hos o (List.mem_cons_of_mem _ ho)

/-! ## The size -/

theorem padding_add (len : ℕ) : len + padding len = (len + 3) / 4 * 4 := by
  rw [padding]
  split <;> omega

theorem Built.getSerializedSize_eq (hb : h.Built) : h.getSerializedSize = h.m_length * 4 := by
  have hle := hb.le
  have hlen := hb.optionsLen
  have hpad := padding_add (20 + optionsSize h.m_options)
  have hmod : (20 + optionsSize h.m_options) % 2 ^ 32 = 20 + optionsSize h.m_options := by omega
  rw [getSerializedSize, calculateHeaderLength, hmod, hpad, Nat.shiftRight_eq_div_pow, hb.length]
  omega

/-! ## The loop over the options -/

theorem serialize_cons (hop : op.Proper) : ∃ rest, op.serialize = op.getKind :: rest := by
  cases op with
  | unknown m_kind m_size m_content => exact hop.elim
  | _ => exact ⟨_, rfl⟩

theorem isKindKnown_getKind (hop : op.Proper) : isKindKnown op.getKind = true := by
  cases op with
  | unknown m_kind m_size m_content => exact hop.elim
  | _ => rfl

theorem next_append {data : List UInt8} {n : ℕ} (hn : data.length = n) (rest : List UInt8) :
    next n (data ++ rest) = .ok rest := by
  rw [next, read_append hn]
  rfl

/-- A round reads an option that is there. -/
theorem optionStep_serialize (hop : op.Proper) (hkind : op.getKind ≠ 0)
    (hsize : op.getSerializedSize ≤ 40) (acc : List TcpOption) (n : ℕ) {len : ℕ}
    (hlen : op.getSerializedSize ≤ len) (rest : List UInt8) :
    optionStep ⟨acc, n, len, op.serialize ++ rest⟩
      = .ok (true, ⟨acc ++ [op], (n + op.getSerializedSize) % 256, len - op.getSerializedSize,
        rest⟩) := by
  obtain ⟨t, ht⟩ := serialize_cons hop
  have hread : readU8 (op.serialize ++ rest) = some (op.getKind, t ++ rest) := by
    rw [ht, List.cons_append, readU8_cons]
  have hop' := deserialize_serialize hop hsize rest
  have hnext := next_append (length_serialize hop) rest
  rw [optionStep]
  simp only [hread, need_some, ok_bind, isKindKnown_getKind hop, if_true, hop', ne_eq,
    not_true_eq_false, if_false, if_pos hlen, hnext, hkind]

theorem readOptions_append (hos : ∀ op ∈ os, op.Proper ∧ op.getKind ≠ 0)
    (acc : List TcpOption) (n more rounds : ℕ) (hn : n + optionsSize os ≤ 40) (rest : List UInt8) :
    readOptions (rounds + os.length)
        ⟨acc, n, optionsSize os + more, os.flatMap TcpOption.serialize ++ rest⟩
      = readOptions rounds ⟨acc ++ os, n + optionsSize os, more, rest⟩ := by
  induction os generalizing acc n with
  | nil => simp
  | cons op os ih =>
    obtain ⟨hop, hkind⟩ := hos op List.mem_cons_self
    rw [optionsSize_cons] at hn ⊢
    have hpos : 0 < op.getSerializedSize := by
      obtain ⟨t, ht⟩ := serialize_cons hop
      rw [← length_serialize hop, ht]
      exact Nat.succ_pos _
    have hle : op.getSerializedSize ≤ op.getSerializedSize + optionsSize os + more := by omega
    have hstep := optionStep_serialize hop hkind (by omega) acc n hle
      (os.flatMap TcpOption.serialize ++ rest)
    have hmod : (n + op.getSerializedSize) % 256 = n + op.getSerializedSize :=
      Nat.mod_eq_of_lt (by omega)
    have hsub : op.getSerializedSize + optionsSize os + more - op.getSerializedSize
        = optionsSize os + more := by omega
    have hrest := ih (fun o ho => hos o (List.mem_cons_of_mem _ ho)) (acc ++ [op])
      (n + op.getSerializedSize) (by omega)
    rw [List.length_cons, ← Nat.add_assoc, readOptions, if_neg (by simp only; omega),
      List.flatMap_cons, List.append_assoc, hstep]
    simp only [hmod, hsub]
    rw [hrest, List.append_assoc, List.singleton_append, Nat.add_assoc]

/-- The octets of the padding are read as an END option and skipped. -/
theorem optionStep_end (acc : List TcpOption) {n pad : ℕ} (hn : n + pad < 40) (rest : List UInt8) :
    optionStep ⟨acc, n, pad + 1, List.replicate (pad + 1) 0 ++ rest⟩
      = .ok (true, ⟨acc ++ [endOption], n + pad + 1, 0, rest⟩) := by
  have hnext := next_append (List.length_replicate (n := pad) (a := (0 : UInt8))) rest
  have hfirst : next 1 (0 :: (List.replicate pad 0 ++ rest)) = .ok (List.replicate pad 0 ++ rest) :=
    next_append (List.length_singleton (a := (0 : UInt8))) _
  rw [optionStep]
  simp only [List.replicate_succ, List.cons_append, readU8_cons, need_some, ok_bind]
  have hop : (createOption (if isKindKnown 0 = true then 0 else 255)).deserialize
      (0 :: (List.replicate pad 0 ++ rest)) = .ok (endOption, 1) := rfl
  have hsize : endOption.getSerializedSize = 1 := rfl
  have hkind : endOption.getKind = 0 := rfl
  have hmod : ((n + 1) % 256 + pad) % 256 = n + pad + 1 := by omega
  simp only [hop, ok_bind, hsize, ne_eq, not_true_eq_false, if_false, Nat.le_add_left, if_true,
    hfirst, hkind, Nat.add_sub_cancel, hnext, hmod]

/-- The END option that stands for the padding. -/
def ending (h : TcpHeader) : List TcpOption :=
  if padding (optionsSize h.m_options) = 0 then [] else [endOption]

theorem length_le_optionsSize (hos : ∀ op ∈ os, op.Proper) : os.length ≤ optionsSize os := by
  induction os with
  | nil => simp
  | cons op os ih =>
    obtain ⟨t, ht⟩ := serialize_cons (hos op List.mem_cons_self)
    have hop := length_serialize (hos op List.mem_cons_self)
    have hrest := ih fun o ho => hos o (List.mem_cons_of_mem _ ho)
    rw [ht, List.length_cons] at hop
    rw [List.length_cons, optionsSize_cons]
    omega

/-- The loop reads the options of a header that is built, and the padding as one END. -/
theorem readOptions_optionArea (hb : h.Built) {rounds : ℕ} (hrounds : 41 ≤ rounds)
    (payload : List UInt8) :
    readOptions rounds ⟨[], 0, optionsSize h.m_options + padding (optionsSize h.m_options),
        h.optionArea ++ payload⟩
      = some (.ok ⟨h.m_options ++ h.ending,
        optionsSize h.m_options + padding (optionsSize h.m_options), 0, payload⟩) := by
  have hle := hb.le
  have hlen := length_le_optionsSize fun op hop => (hb.proper op hop).1
  have hpad := padding_add (optionsSize h.m_options)
  rw [hb.optionsLen] at hle
  obtain ⟨k, rfl⟩ := Nat.exists_eq_add_of_le' (show h.m_options.length + 1 ≤ rounds by omega)
  rw [← Nat.add_assoc, Nat.add_right_comm, optionArea, List.append_assoc,
    readOptions_append hb.proper [] 0 _ _ (by omega)]
  rw [ending]
  cases hp : padding (optionsSize h.m_options) with
  | zero => simp [readOptions]
  | succ pad =>
    obtain ⟨k, rfl⟩ := Nat.exists_eq_add_of_le' (show 1 ≤ k by omega)
    have hend := optionStep_end h.m_options (show optionsSize h.m_options + pad < 40 by omega)
      payload
    rw [readOptions, if_neg (Nat.succ_ne_zero pad), List.nil_append, Nat.zero_add, hend]
    simp [readOptions, Nat.add_assoc]

/-! ## The fixed part -/

theorem Built.length_lt (hb : h.Built) : h.m_length < 16 := by
  have hle := hb.le
  rw [hb.length]
  omega

theorem field_read {l : ℕ} (hl : l < 16) (f : UInt8) :
    (UInt16.ofNat (l <<< 12 ||| f.toNat)).toNat >>> 12 = l
      ∧ UInt8.ofNat ((UInt16.ofNat (l <<< 12 ||| f.toNat)).toNat &&& 0xff) = f := by
  have hf := f.toNat_lt
  have hor : l <<< 12 ||| f.toNat = l * 4096 + f.toNat := by
    rw [← Nat.shiftLeft_add_eq_or_of_lt (by omega), Nat.shiftLeft_eq]
  have hfield : (UInt16.ofNat (l * 4096 + f.toNat)).toNat = l * 4096 + f.toNat := by
    rw [UInt16.toNat_ofNat']
    omega
  rw [hor, hfield, Nat.shiftRight_eq_div_pow, show 0xff = 2 ^ 8 - 1 from rfl,
    Nat.and_two_pow_sub_one_eq_mod]
  refine ⟨by omega, ?_⟩
  have hmod : (l * 4096 + f.toNat) % 2 ^ 8 = f.toNat := by omega
  rw [hmod, UInt8.ofNat_toNat]

/-- What is sent, with `c` for the checksum. -/
def octetsWith (h : TcpHeader) (c : ℕ) (payload : List UInt8) : List UInt8 :=
  h.upper ++ word c ++ (writeHtonU16 h.m_urgentPointer ++ (h.optionArea ++ payload))

/-- The header that `r` becomes. -/
def received (h r : TcpHeader) : TcpHeader :=
  { h with
    m_endpoints := r.m_endpoints
    m_protocol := r.m_protocol
    m_calcChecksum := r.m_calcChecksum
    m_goodChecksum := r.m_goodChecksum
    m_options := h.m_options ++ h.ending
    m_optionsLen := optionsSize h.m_options + padding (optionsSize h.m_options) }

theorem readFixed_octetsWith (hb : h.Built) (r : TcpHeader) (c : ℕ) (payload : List UInt8) :
    r.readFixed (h.octetsWith c payload)
      = some ({ h.received r with m_options := [], m_optionsLen := 0 },
      h.optionArea ++ payload) := by
  obtain ⟨hlength, hflags⟩ := field_read hb.length_lt h.m_flags
  have hoctets : h.octetsWith c payload = writeHtonU16 h.m_sourcePort ++
      (writeHtonU16 h.m_destinationPort ++ (writeHtonU32 h.m_sequenceNumber ++
        (writeHtonU32 h.m_ackNumber ++
          (writeHtonU16 (UInt16.ofNat (h.m_length <<< 12 ||| h.m_flags.toNat)) ++
            (writeHtonU16 h.m_windowSize ++ (word c ++ (writeHtonU16 h.m_urgentPointer ++
              (h.optionArea ++ payload)))))))) := by
    simp [octetsWith, upper]
  have hword : (word c).length = 2 := rfl
  rw [hoctets, readFixed]
  refine (bind_of_some (readNtohU16_write _ _) _).trans ?_
  refine (bind_of_some (readNtohU16_write _ _) _).trans ?_
  refine (bind_of_some (readNtohU32_write _ _) _).trans ?_
  refine (bind_of_some (readNtohU32_write _ _) _).trans ?_
  refine (bind_of_some (readNtohU16_write _ _) _).trans ?_
  refine (bind_of_some (readNtohU16_write _ _) _).trans ?_
  refine (bind_of_some (read_append hword _) _).trans ?_
  refine (bind_of_some (readNtohU16_write _ _) _).trans ?_
  simp only [hlength, hflags]
  rfl

theorem Built.optionLen_eq (hb : h.Built) :
    h.optionLen = optionsSize h.m_options + padding (optionsSize h.m_options) := by
  have hle := hb.le
  have hpad := padding_add (optionsSize h.m_options)
  have hlen := hb.length
  rw [hb.optionsLen] at hle hlen
  rw [optionLen, hpad, hlen]
  omega

theorem getSerializedSize_received (hb : h.Built) (r : TcpHeader) :
    (h.received r).getSerializedSize = h.getSerializedSize := by
  have hle := hb.le
  rw [hb.optionsLen] at hle
  have hpad := padding_add (20 + optionsSize h.m_options)
  have hpad' := padding_add (20 + (optionsSize h.m_options + 1))
  simp only [getSerializedSize, calculateHeaderLength, received, optionsSize_append, ending,
    Nat.shiftRight_eq_div_pow]
  split
  case isTrue => rfl
  case isFalse hne =>
    have hend : optionsSize [endOption] = 1 := rfl
    rw [hend]
    rw [padding] at hne
    have hmod : (20 + optionsSize h.m_options) % 2 ^ 32 = 20 + optionsSize h.m_options := by omega
    have hmod' : (20 + (optionsSize h.m_options + 1)) % 2 ^ 32
        = 20 + (optionsSize h.m_options + 1) := by omega
    rw [hmod, hmod', hpad, hpad']
    split at hne
    · exact absurd rfl hne
    · omega

/-- What `Serialize` has written goes through `Deserialize` up to the check of the sum. -/
theorem deserialize_octetsWith (hb : h.Built) (r : TcpHeader) (c : ℕ) {rounds : ℕ}
    (hrounds : 41 ≤ rounds) (payload : List UInt8) :
    r.deserialize rounds (h.octetsWith c payload)
      = some (check (h.received r) (h.octetsWith c payload)) := by
  have hle := hb.le
  have hpad := padding_add (optionsSize h.m_options)
  rw [hb.optionsLen] at hle
  have hlen : optionLen { h.received r with m_options := [], m_optionsLen := 0 }
      = optionsSize h.m_options + padding (optionsSize h.m_options) := hb.optionLen_eq
  rw [deserialize, readFixed_octetsWith hb]
  simp only [hlen, readOptions_optionArea hb hrounds]
  rw [if_neg (by rw [m_maxOptionsLen]; omega)]
  rfl

/-! ## The checksum -/

/-- The sum of the pseudo header. -/
def headerSum (h : TcpHeader) (size : ℕ) : ℕ := endAround (0 + wordSum (h.pseudoHeader size))

theorem length_pseudoHeader_lt (h : TcpHeader) (size : ℕ) :
    (h.pseudoHeader size).length < 65536 := by
  rw [pseudoHeader]
  cases h.m_endpoints with
  | ipv4 source destination => simp
  | ipv6 source destination =>
    simp [source.length_eq, destination.length_eq]

theorem calculateHeaderChecksum_eq {size : ℕ} (hsize : size < 65536) :
    h.calculateHeaderChecksum size = some (h.headerSum size) := by
  have hmod : size % 2 ^ 16 = size := Nat.mod_eq_of_lt hsize
  have hlt := endAround_lt (0 + wordSum (h.pseudoHeader size))
  have hsum := calculateIpChecksum_eq (Nat.zero_lt_succ 65535) rfl (h.length_pseudoHeader_lt size)
    []
  rw [List.append_nil] at hsum
  rw [calculateHeaderChecksum, hmod]
  refine (bind_of_some hsum _).trans ?_
  rw [headerSum, Option.some.injEq]
  omega

theorem segmentChecksum_eq {start : List UInt8} (hlen : start.length < 65536) :
    h.segmentChecksum start
      = some (65535 - endAround (h.headerSum start.length + wordSum start)) := by
  have hsum := calculateIpChecksum_eq (endAround_lt (0 + wordSum (h.pseudoHeader start.length)))
    rfl hlen []
  rw [List.append_nil] at hsum
  rw [segmentChecksum]
  exact (bind_of_some (calculateHeaderChecksum_eq hlen) _).trans hsum

theorem segmentChecksum_eq_zero {start : List UInt8} (hlen : start.length < 65536) :
    h.segmentChecksum start = some 0 ↔ InBalance (h.headerSum start.length) start := by
  have hlt := endAround_lt (h.headerSum start.length + wordSum start)
  rw [segmentChecksum_eq hlen, Option.some.injEq, InBalance]
  omega

theorem length_flatMap_serialize (hos : ∀ op ∈ os, op.Proper) :
    (os.flatMap TcpOption.serialize).length = optionsSize os := by
  induction os with
  | nil => rfl
  | cons op os ih =>
    rw [List.flatMap_cons, List.length_append, length_serialize (hos op List.mem_cons_self),
      ih fun o ho => hos o (List.mem_cons_of_mem _ ho), optionsSize_cons]

theorem Built.length_optionArea (hb : h.Built) :
    h.optionArea.length = optionsSize h.m_options + padding (optionsSize h.m_options) := by
  rw [optionArea, List.length_append, length_flatMap_serialize fun op hop => (hb.proper op hop).1,
    List.length_replicate]

/-- The octets of the header alone. -/
def headerWith (h : TcpHeader) (c : ℕ) : List UInt8 :=
  h.upper ++ word c ++ (writeHtonU16 h.m_urgentPointer ++ h.optionArea)

theorem octetsWith_eq (h : TcpHeader) (c : ℕ) (payload : List UInt8) :
    h.octetsWith c payload = h.headerWith c ++ payload := by
  simp [octetsWith, headerWith]

theorem length_upper (h : TcpHeader) : h.upper.length = 16 := by
  simp [upper]

theorem Built.length_headerWith (hb : h.Built) (c : ℕ) :
    (h.headerWith c).length = h.getSerializedSize := by
  have hpad := padding_add (optionsSize h.m_options)
  rw [hb.getSerializedSize_eq, hb.length, hb.optionsLen, headerWith, List.length_append,
    List.length_append, length_upper, List.length_append, length_writeHtonU16,
    hb.length_optionArea]
  simp only [word, List.length_cons, List.length_nil]
  omega

/-- What `Serialize` writes with the checksum on is in balance. -/
theorem serialize_eq (hb : h.Built) (hcalc : h.m_calcChecksum = true)
    (hsize : h.getSerializedSize + payload.length < 65536) :
    ∃ c, h.serialize payload = some (h.octetsWith c payload)
      ∧ InBalance (h.headerSum (h.getSerializedSize + payload.length))
      (h.octetsWith c payload) := by
  have hlen (c : ℕ) : (h.octetsWith c payload).length = h.getSerializedSize + payload.length := by
    rw [octetsWith_eq, List.length_append, hb.length_headerWith]
  have heven : 2 ∣ h.upper.length := by
    rw [length_upper]
    decide
  have hsum : h.segmentChecksum (h.octetsWith 0 payload) = some (65535 - endAround
      (h.headerSum (h.getSerializedSize + payload.length) + wordSum (h.octetsWith 0 payload))) := by
    rw [segmentChecksum_eq (by rw [hlen]; exact hsize), hlen]
  refine ⟨65535 - endAround (h.headerSum (h.getSerializedSize + payload.length)
    + wordSum (h.octetsWith 0 payload)), ?_, inBalance_of_complement heven⟩
  rw [serialize, if_pos hcalc]
  exact bind_of_some hsum _

/-! ## Round trip -/

theorem padding_succ {n : ℕ} (h : padding n ≠ 0) : padding n = padding (n + 1) + 1 := by
  have hn := padding_add n
  have hsucc := padding_add (n + 1)
  omega

theorem optionArea_received (h r : TcpHeader) : (h.received r).optionArea = h.optionArea := by
  have hend : optionsSize [endOption] = 1 := rfl
  have hserialize : [endOption].flatMap TcpOption.serialize = [0] := rfl
  simp only [optionArea, received, ending, optionsSize_append, List.flatMap_append]
  split
  case isTrue hzero => simp
  case isFalse hne =>
    rw [hend, hserialize, padding_succ hne, List.replicate_succ, List.append_assoc,
      List.singleton_append]

/-- What the receiver has to know of the sender. -/
structure Agrees (h r : TcpHeader) : Prop where
  endpoints : r.m_endpoints = h.m_endpoints
  protocol : r.m_protocol = h.m_protocol
  calc_sent : h.m_calcChecksum = true
  calc_received : r.m_calcChecksum = true

theorem Agrees.headerSum_eq (ha : h.Agrees r) (size : ℕ) : r.headerSum size = h.headerSum size := by
  rw [headerSum, headerSum, pseudoHeader, pseudoHeader, ha.endpoints, ha.protocol]

theorem Agrees.segmentChecksum_eq (ha : h.Agrees r) (start : List UInt8) :
    (h.received r).segmentChecksum start = h.segmentChecksum start := by
  have hends : (h.received r).m_endpoints = h.m_endpoints := ha.endpoints
  have hprotocol : (h.received r).m_protocol = h.m_protocol := ha.protocol
  simp only [segmentChecksum, calculateHeaderChecksum, pseudoHeader, hends, hprotocol]

/-- The header that was read is sent as it came. -/
theorem Agrees.serialize_received (ha : h.Agrees r) (good : Bool) (payload : List UInt8) :
    serialize { h.received r with m_goodChecksum := good } payload = h.serialize payload := by
  have harea : optionArea { h.received r with m_goodChecksum := good } = h.optionArea :=
    optionArea_received h r
  have hsum (start : List UInt8) :
      segmentChecksum { h.received r with m_goodChecksum := good } start =
        h.segmentChecksum start :=
    ha.segmentChecksum_eq start
  have hupper : upper { h.received r with m_goodChecksum := good } = h.upper := rfl
  simp only [serialize, harea, hsum, hupper]
  rw [if_pos (show (h.received r).m_calcChecksum = true from ha.calc_received), if_pos ha.calc_sent]
  rfl

theorem appendOption_fixed (h : TcpHeader) (op : TcpOption) :
    (h.appendOption op).2.m_endpoints = h.m_endpoints
      ∧ (h.appendOption op).2.m_protocol = h.m_protocol
      ∧ (h.appendOption op).2.m_calcChecksum = h.m_calcChecksum := by
  rw [appendOption]
  split
  · split
    · exact ⟨rfl, rfl, rfl⟩
    · split <;> exact ⟨rfl, rfl, rfl⟩
  · exact ⟨rfl, rfl, rfl⟩

theorem Agrees.appendAll (ha : h.Agrees r) (os : List TcpOption) : (h.appendAll os).Agrees r := by
  induction os generalizing h with
  | nil => exact ha
  | cons op os ih =>
    obtain ⟨hends, hprotocol, hcalc⟩ := appendOption_fixed h op
    exact ih ⟨ha.endpoints.trans hends.symm, ha.protocol.trans hprotocol.symm,
      hcalc.trans ha.calc_sent, ha.calc_received⟩

/-- The header as the constructor leaves it, with any ports, numbers and flags. -/
structure Fresh (h : TcpHeader) : Prop where
  options : h.m_options = []
  optionsLen : h.m_optionsLen = 0
  length : h.m_length = 5

theorem Fresh.built (hf : h.Fresh) : h.Built where
  proper := by simp [hf.options]
  optionsLen := by rw [hf.optionsLen, hf.options, optionsSize_nil]
  le := by simp [hf.optionsLen]
  length := by rw [hf.length, hf.optionsLen]

/-- A segment whose header has any options is read back, with its checksum good, and what was read
is sent as it came. -/
theorem segment_read_back {h₀ : TcpHeader} (hf : h₀.Fresh) (ha : h₀.Agrees r)
    (hos : ∀ op ∈ os, op.Proper)
    (hsize : (h₀.appendAll os).getSerializedSize + payload.length < 65536) :
    ∃ header, header.length = (h₀.appendAll os).getSerializedSize
      ∧ (h₀.appendAll os).serialize payload = some (header ++ payload)
      ∧ (∀ rounds, 41 ≤ rounds → r.deserialize rounds (header ++ payload)
        = some (.ok ({ (h₀.appendAll os).received r with m_goodChecksum := true }, header.length)))
      ∧ serialize { (h₀.appendAll os).received r with m_goodChecksum := true } payload
        = some (header ++ payload) := by
  have hb := hf.built.appendAll hos
  have ha' := ha.appendAll os
  generalize h₀.appendAll os = h at *
  obtain ⟨c, hserialize, hbalance⟩ := serialize_eq hb ha'.calc_sent hsize
  have hlen := hb.length_headerWith c
  rw [octetsWith_eq] at hserialize hbalance
  have htotal : (h.headerWith c ++ payload).length = h.getSerializedSize + payload.length := by
    rw [List.length_append, hlen]
  refine ⟨h.headerWith c, hlen, hserialize, ?_, ?_⟩
  · intro rounds hrounds
    have hzero : (h.received r).segmentChecksum (h.headerWith c ++ payload) = some 0 := by
      rw [segmentChecksum_eq_zero (by omega), htotal]
      have hsum : (h.received r).headerSum (h.getSerializedSize + payload.length)
          = h.headerSum (h.getSerializedSize + payload.length) := ha'.headerSum_eq _
      rw [hsum]
      exact hbalance
    have hread := deserialize_octetsWith hb r c hrounds payload
    rw [octetsWith_eq] at hread
    rw [hread, check, if_pos (show (h.received r).m_calcChecksum = true from ha'.calc_received),
      hzero, getSerializedSize_received hb, hlen]
    rfl
  · rw [ha'.serialize_received, hserialize]

/-- The header of a segment that opens a connection. -/
def syn : TcpHeader :=
  { m_sourcePort := 49153
    m_destinationPort := 80
    m_sequenceNumber := 1
    m_flags := 2
    m_endpoints := .ipv4 0x0a000001 0x0a000002
    m_protocol := 6
    m_calcChecksum := true }

/-- The header that it is read into. -/
def synReceiver : TcpHeader :=
  { m_endpoints := .ipv4 0x0a000001 0x0a000002
    m_protocol := 6
    m_calcChecksum := true }

theorem segment_read_back_syn :
    ∃ header, header.length = (syn.appendAll [.mss 1460, .winScale 7, .ts 1 0]).getSerializedSize
      ∧ (syn.appendAll [.mss 1460, .winScale 7, .ts 1 0]).serialize [1, 2] = some (header ++ [1, 2])
      ∧ (∀ rounds, 41 ≤ rounds → synReceiver.deserialize rounds (header ++ [1, 2])
        = some (.ok ({ (syn.appendAll [.mss 1460, .winScale 7, .ts 1 0]).received synReceiver with
          m_goodChecksum := true }, header.length)))
      ∧ serialize { (syn.appendAll [.mss 1460, .winScale 7, .ts 1 0]).received synReceiver with
          m_goodChecksum := true } [1, 2] = some (header ++ [1, 2]) :=
  segment_read_back ⟨rfl, rfl, rfl⟩ ⟨rfl, rfl, rfl, rfl⟩ (by simp [Proper]) (by decide)

/-! ## Noticing -/

theorem check_good {g : TcpHeader} {start : List UInt8} {k : ℕ} (h : g.check start = .ok (r, k))
    (hcalc : g.m_calcChecksum = true) :
    ∃ c, g.segmentChecksum start = some c ∧ r.m_goodChecksum = (c == 0) := by
  rw [check, if_pos hcalc] at h
  obtain ⟨c, hneed, hok⟩ := bind_eq_ok.mp h
  cases hsum : g.segmentChecksum start with
  | none =>
    rw [hsum] at hneed
    cases hneed
  | some c' =>
    rw [hsum] at hneed
    cases hneed
    cases hok
    exact ⟨c, rfl, rfl⟩

/-- Whenever `Deserialize` returns, it has checked the sum, unless the length field is too small. -/
theorem deserialize_checks {rounds k : ℕ} {r' : TcpHeader} {start : List UInt8}
    (hcalc : r.m_calcChecksum = true) (hlen : start.length < 65536)
    (h : r.deserialize rounds start = some (.ok (r', k))) (hlength : 5 ≤ r'.m_length) :
    r'.m_goodChecksum = true ↔ InBalance (r.headerSum start.length) start := by
  rw [deserialize] at h
  cases hfixed : r.readFixed start with
  | none =>
    rw [hfixed] at h
    cases h
  | some gi =>
    obtain ⟨g, i⟩ := gi
    obtain ⟨hends, hprotocol, hgcalc, hglen⟩ := readFixed_keeps hfixed
    rw [hfixed] at h
    simp only at h
    split at h
    case isTrue hgt =>
      cases h
      rw [optionLen, m_maxOptionsLen] at hgt
      omega
    case isFalse hle =>
      cases hopts : readOptions rounds ⟨[], 0, g.optionLen, i⟩ with
      | none =>
        rw [hopts] at h
        cases h
      | some res =>
        rw [hopts] at h
        cases res with
        | error e => cases h
        | ok s =>
          simp only [Option.some.injEq] at h
          obtain ⟨c, hsum, hgood⟩ := check_good h (hgcalc.trans hcalc)
          have hsame : r.headerSum start.length
              = headerSum { g with m_options := s.m_options, m_optionsLen := s.m_optionsLen }
                start.length := by
            simp only [headerSum, pseudoHeader, hends, hprotocol]
          rw [hgood, hsame, ← segmentChecksum_eq_zero hlen, hsum, beq_iff_eq, Option.some.injEq]

/-- With one word of a segment changed, the checksum is not found good, unless the length field has
become less than the fixed part. -/
theorem changed_word_noticed {h₀ r' : TcpHeader} {segment segment' pre w w' post : List UInt8}
    {rounds k : ℕ} (hf : h₀.Fresh) (ha : h₀.Agrees r) (hos : ∀ op ∈ os, op.Proper)
    (hsize : (h₀.appendAll os).getSerializedSize + payload.length < 65536)
    (hsent : (h₀.appendAll os).serialize payload = some segment)
    (hchange : OneWordApart segment segment' pre w w' post)
    (hread : r.deserialize rounds segment' = some (.ok (r', k))) (hlength : 5 ≤ r'.m_length) :
    r'.m_goodChecksum = false := by
  have hb := hf.built.appendAll hos
  have ha' := ha.appendAll os
  generalize h₀.appendAll os = h at *
  obtain ⟨c, hserialize, hbalance⟩ := serialize_eq hb ha'.calc_sent hsize
  cases hsent.symm.trans hserialize
  have htotal : segment'.length = h.getSerializedSize + payload.length := by
    rw [hchange.length_eq, octetsWith_eq, List.length_append, hb.length_headerWith]
  rw [← Bool.not_eq_true, deserialize_checks ha'.calc_received (by omega) hread hlength, htotal,
    ha'.headerSum_eq]
  exact hchange.not_inBalance hbalance

theorem changed_word_noticed_syn : ∃ segment segment' r' k,
    (syn.appendAll [.winScale 7]).serialize [1, 2] = some segment
      ∧ synReceiver.deserialize 41 segment' = some (.ok (r', k))
      ∧ segment' ≠ segment ∧ r'.m_goodChecksum = false := by
  -- the window is one less
  have hsent : (syn.appendAll [.winScale 7]).serialize [1, 2]
      = some [192, 1, 0, 80, 0, 0, 0, 1, 0, 0, 0, 0, 96, 2, 255, 255, 192, 130, 0, 0, 3, 3, 7, 0,
        1, 2] := by decide
  have hread : synReceiver.deserialize 41
      [192, 1, 0, 80, 0, 0, 0, 1, 0, 0, 0, 0, 96, 2, 255, 254, 192, 130, 0, 0, 3, 3, 7, 0, 1, 2]
      = some (.ok ({ (syn.appendAll [.winScale 7]).received synReceiver with
          m_windowSize := 65534
          m_goodChecksum := false }, 24)) := by decide
  have hchange : OneWordApart
      [192, 1, 0, 80, 0, 0, 0, 1, 0, 0, 0, 0, 96, 2, 255, 255, 192, 130, 0, 0, 3, 3, 7, 0, 1, 2]
      [192, 1, 0, 80, 0, 0, 0, 1, 0, 0, 0, 0, 96, 2, 255, 254, 192, 130, 0, 0, 3, 3, 7, 0, 1, 2]
      [192, 1, 0, 80, 0, 0, 0, 1, 0, 0, 0, 0, 96, 2] [255, 255] [255, 254]
      [192, 130, 0, 0, 3, 3, 7, 0, 1, 2] :=
    ⟨rfl, rfl, by decide, rfl, rfl, by decide⟩
  have hlength : 5 ≤ (syn.appendAll [.winScale 7]).m_length := by decide
  exact ⟨_, _, _, _, hsent,
    hread, by simp, changed_word_noticed (show syn.Fresh from ⟨rfl, rfl, rfl⟩)
    (show syn.Agrees synReceiver from ⟨rfl, rfl, rfl, rfl⟩) (by simp [Proper]) (by decide) hsent
    hchange hread hlength⟩

end Ns3.Internet.TcpHeader
