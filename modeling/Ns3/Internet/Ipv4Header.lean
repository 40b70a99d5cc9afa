import Mathlib
import Ns3.Internet.IpChecksum

/-!
# The IPv4 header

`Ipv4Header` as octets. What `Serialize` has written is read back, whatever follows it, and with the
checksum on a word that changed on the way is noticed (`Ipv4Header.read_back`). A header that is not
of version 4 or that claims another length is read over other octets, so the first octet has to be
whole.
-/

namespace Ns3.Internet

open Lib

structure Ipv4Header where
  m_calcChecksum : Bool := false
  m_payloadSize : UInt16 := 0
  m_identification : UInt16 := 0
  m_tos : UInt8 := 0
  m_ttl : UInt8 := 0
  m_protocol : UInt8 := 0
  m_flags : BitVec 3 := 0
  m_fragmentOffset : UInt16 := 0
  m_source : UInt32 := 0x66666666
  m_destination : UInt32 := 0x66666666
  m_checksum : ℕ := 0
  m_goodChecksum : Bool := true
  m_headerSize : ℕ := 20
deriving DecidableEq, Repr

namespace Ipv4Header

/-! ## Embedding -/

/-- `DONT_FRAGMENT`. -/
def dontFragment : BitVec 3 := 1

/-- `MORE_FRAGMENTS`. -/
def moreFragments : BitVec 3 := 2

/-- The flags before the high bits of the offset. -/
def flagsFrag (h : Ipv4Header) : ℕ :=
  (h.m_fragmentOffset.toNat / 8) >>> 8 &&& 0x1f
    ||| (if h.m_flags &&& dontFragment ≠ 0 then 1 <<< 6 else 0)
    ||| (if h.m_flags &&& moreFragments ≠ 0 then 1 <<< 5 else 0)

/-- The octets before the checksum. -/
def upper (h : Ipv4Header) : List UInt8 :=
  UInt8.ofNat (4 <<< 4 ||| 5) :: h.m_tos ::
    (writeHtonU16 (UInt16.ofNat (h.m_payloadSize.toNat + 5 * 4)) ++
      (writeHtonU16 h.m_identification ++
        [UInt8.ofNat h.flagsFrag, UInt8.ofNat (h.m_fragmentOffset.toNat / 8 &&& 0xff),
          h.m_ttl, h.m_protocol]))

/-- The octets after the checksum. -/
def lower (h : Ipv4Header) : List UInt8 := writeHtonU32 h.m_source ++ writeHtonU32 h.m_destination

/-- `Serialize`, before what follows in the buffer. The checksum is written over the `0` at its
place. -/
def serialize (h : Ipv4Header) (payload : List UInt8) : Option (List UInt8) := do
  let start := h.upper ++ word 0 ++ h.lower ++ payload
  if h.m_calcChecksum then
    let checksum ← calculateIpChecksum 20 0 start
    some (h.upper ++ word checksum ++ h.lower ++ payload)
  else some start

/-- `ReadU16`. -/
def readU16 (bytes : List UInt8) : Option (ℕ × List UInt8) := do
  let (b₀, bytes) ← readU8 bytes
  let (b₁, bytes) ← readU8 bytes
  some (b₁.toNat <<< 8 ||| b₀.toNat, bytes)

/-- `Deserialize`, with the size that it returns. -/
def deserialize (h : Ipv4Header) (start : List UInt8) : Option (Ipv4Header × ℕ) := do
  let (verIhl, i) ← readU8 start
  let headerSize := (verIhl.toNat &&& 0x0f) * 4
  if verIhl.toNat >>> 4 ≠ 4 then some (h, 0)
  else
    let (tos, i) ← readU8 i
    let (size, i) ← readNtohU16 i
    let (identification, i) ← readNtohU16 i
    let (flags, i) ← readU8 i
    let (frag, i) ← readU8 i
    let (ttl, i) ← readU8 i
    let (protocol, i) ← readU8 i
    let (checksum, i) ← readU16 i
    let (source, i) ← readNtohU32 i
    let (destination, _) ← readNtohU32 i
    let r : Ipv4Header := { h with
      m_tos := tos
      m_payloadSize := size - UInt16.ofNat headerSize
      m_identification := identification
      m_flags := (if flags.toNat &&& 1 <<< 6 ≠ 0 then dontFragment else 0)
        ||| (if flags.toNat &&& 1 <<< 5 ≠ 0 then moreFragments else 0)
      m_fragmentOffset := UInt16.ofNat (((flags.toNat &&& 0x1f) <<< 8 ||| frag.toNat) <<< 3)
      m_ttl := ttl
      m_protocol := protocol
      m_checksum := checksum
      m_source := source
      m_destination := destination
      m_headerSize := headerSize }
    if h.m_calcChecksum then
      let checksum ← calculateIpChecksum headerSize 0 start
      some ({ r with m_goodChecksum := checksum == 0 }, headerSize)
    else some (r, headerSize)

/-! ## Round trip -/

/-- The setters keep the offset a multiple of 8, and there are two flags. -/
structure Valid (h : Ipv4Header) : Prop where
  offset : h.m_fragmentOffset.toNat % 8 = 0
  flags : h.m_flags ≤ 3

/-- The first octet of flags and offset, for the high bits `o` of the offset. -/
def flagBits (o : ℕ) (d m : Bool) : ℕ :=
  o ||| (if d then 1 <<< 6 else 0) ||| (if m then 1 <<< 5 else 0)

theorem flagBits_read : ∀ (o : Fin 32) (d m : Bool),
    let b := (UInt8.ofNat (flagBits o d m)).toNat
    (decide (b &&& 1 <<< 6 ≠ 0) = d ∧ decide (b &&& 1 <<< 5 ≠ 0) = m) ∧ b &&& 0x1f = o := by
  decide

theorem flags_read : ∀ f : BitVec 3, f ≤ 3 →
    (if f &&& dontFragment ≠ 0 then dontFragment else 0)
      ||| (if f &&& moreFragments ≠ 0 then moreFragments else 0) = f := by
  decide

variable {h r : Ipv4Header} {c : ℕ} {payload : List UInt8}

theorem highOffset_lt (h : Ipv4Header) : (h.m_fragmentOffset.toNat / 8) >>> 8 < 32 := by
  have hlt := h.m_fragmentOffset.toNat_lt
  rw [Nat.shiftRight_eq_div_pow]
  omega

theorem flagsFrag_eq (h : Ipv4Header) : h.flagsFrag
    = flagBits ((h.m_fragmentOffset.toNat / 8) >>> 8) (decide (h.m_flags &&& dontFragment ≠ 0))
      (decide (h.m_flags &&& moreFragments ≠ 0)) := by
  have hmask :
      (h.m_fragmentOffset.toNat / 8) >>> 8 &&& 0x1f = (h.m_fragmentOffset.toNat / 8) >>> 8 := by
    have hlt := highOffset_lt h
    rw [show 0x1f = 2 ^ 5 - 1 from rfl, Nat.and_two_pow_sub_one_eq_mod]
    exact Nat.mod_eq_of_lt hlt
  simp only [flagsFrag, flagBits, hmask, decide_eq_true_eq]

theorem readU16_word (hc : c < 65536) (bytes : List UInt8) :
    readU16 (word c ++ bytes) = some (c, bytes) := by
  simp only [readU16, word, List.cons_append, List.nil_append, readU8_cons, Option.bind_eq_bind,
    Option.bind_some, shiftLeft_or_octet, Option.some.injEq, Prod.mk.injEq, and_true,
    UInt8.toNat_ofNat']
  omega

/-- The offset in units of 8 octets, in its two parts. -/
theorem offset_read (hv : h.Valid) :
    UInt16.ofNat (((h.m_fragmentOffset.toNat / 8) >>> 8 <<< 8
      ||| (UInt8.ofNat (h.m_fragmentOffset.toNat / 8 &&& 0xff)).toNat) <<< 3) =
      h.m_fragmentOffset := by
  have hoff := hv.offset
  have hlt := h.m_fragmentOffset.toNat_lt
  have hlow : (UInt8.ofNat (h.m_fragmentOffset.toNat / 8 &&& 0xff)).toNat
      = h.m_fragmentOffset.toNat / 8 % 256 := by
    rw [show 0xff = 2 ^ 8 - 1 from rfl, Nat.and_two_pow_sub_one_eq_mod]
    simp
  have hval : ((h.m_fragmentOffset.toNat / 8) >>> 8 <<< 8
      ||| (UInt8.ofNat (h.m_fragmentOffset.toNat / 8 &&& 0xff)).toNat) <<< 3
      = h.m_fragmentOffset.toNat := by
    rw [shiftLeft_or_octet, hlow, Nat.shiftLeft_eq, Nat.shiftRight_eq_div_pow]
    omega
  rw [hval, UInt16.ofNat_toNat]

/-- What is sent, with `c` for the checksum. -/
def octetsWith (h : Ipv4Header) (c : ℕ) (payload : List UInt8) : List UInt8 :=
  h.upper ++ word c ++ h.lower ++ payload

/-- The header that `r` becomes. -/
def received (h r : Ipv4Header) (c : ℕ) : Ipv4Header :=
  { h with
    m_calcChecksum := r.m_calcChecksum
    m_checksum := c
    m_goodChecksum := r.m_goodChecksum
    m_headerSize := 20 }

theorem deserialize_octetsWith (hv : h.Valid) (r : Ipv4Header) (hc : c < 65536)
    (payload : List UInt8) :
    deserialize r (h.octetsWith c payload)
      = if r.m_calcChecksum then
          (calculateIpChecksum 20 0 (h.octetsWith c payload)).map fun checksum =>
            ({ h.received r c with m_goodChecksum := checksum == 0 }, 20)
        else some (h.received r c, 20) := by
  have hflags := flagBits_read ⟨_, highOffset_lt h⟩ (decide (h.m_flags &&& dontFragment ≠ 0))
    (decide (h.m_flags &&& moreFragments ≠ 0))
  simp only at hflags
  rw [← flagsFrag_eq] at hflags
  obtain ⟨⟨hd, hm⟩, ho⟩ := hflags
  have hread := offset_read hv
  have hsize : ((UInt8.ofNat (4 <<< 4 ||| 5)).toNat &&& 0x0f) * 4 = 20 := rfl
  have hpay : UInt16.ofNat (h.m_payloadSize.toNat + 5 * 4) - UInt16.ofNat 20 = h.m_payloadSize := by
    rw [UInt16.ofNat_add, UInt16.ofNat_toNat]
    exact UInt16.add_sub_cancel _ _
  have hoctets : h.octetsWith c payload = UInt8.ofNat (4 <<< 4 ||| 5) :: h.m_tos ::
      (writeHtonU16 (UInt16.ofNat (h.m_payloadSize.toNat + 5 * 4)) ++
        (writeHtonU16 h.m_identification ++
          (UInt8.ofNat h.flagsFrag :: UInt8.ofNat (h.m_fragmentOffset.toNat / 8 &&& 0xff)
            :: h.m_ttl :: h.m_protocol :: (word c ++ (writeHtonU32 h.m_source ++
              (writeHtonU32 h.m_destination ++ payload)))))) := by
    simp [octetsWith, upper, lower]
  generalize hstart : h.octetsWith c payload = start at *
  rw [deserialize]
  refine (bind_of_some (hoctets ▸ readU8_cons _ _) _).trans ?_
  refine (if_neg (by decide)).trans ?_
  refine (bind_of_some (readU8_cons _ _) _).trans ?_
  refine (bind_of_some (readNtohU16_write _ _) _).trans ?_
  refine (bind_of_some (readNtohU16_write _ _) _).trans ?_
  refine (bind_of_some (readU8_cons _ _) _).trans ?_
  refine (bind_of_some (readU8_cons _ _) _).trans ?_
  refine (bind_of_some (readU8_cons _ _) _).trans ?_
  refine (bind_of_some (readU8_cons _ _) _).trans ?_
  refine (bind_of_some (readU16_word hc _) _).trans ?_
  refine (bind_of_some (readNtohU32_write _ _) _).trans ?_
  refine (bind_of_some (readNtohU32_write _ _) _).trans ?_
  have hfields := flags_read h.m_flags hv.flags
  simp only [decide_eq_decide.mp hd, decide_eq_decide.mp hm, ho, hread, hfields]
  rw [hsize, hpay]
  cases calculateIpChecksum 20 0 start <;> rfl

theorem length_octets_header (h : Ipv4Header) (c : ℕ) :
    (h.upper ++ word c ++ h.lower).length = 20 := by
  simp [upper, lower, word]

theorem length_upper (h : Ipv4Header) : h.upper.length = 10 := by
  simp [upper]

/-- What `Serialize` writes with the checksum on is in balance. -/
theorem serialize_eq (hcalc : h.m_calcChecksum = true) (payload : List UInt8) :
    ∃ c < 65536, h.serialize payload = some (h.octetsWith c payload)
      ∧ InBalance 0 (h.upper ++ word c ++ h.lower) := by
  have heven : 2 ∣ h.upper.length := by
    rw [length_upper]
    decide
  refine ⟨65535 - endAround (0 + wordSum (h.upper ++ word 0 ++ h.lower)), by omega, ?_,
    inBalance_of_complement heven⟩
  rw [serialize, if_pos hcalc,
    calculateIpChecksum_eq (by decide) (length_octets_header h 0) (by decide)]
  rfl

/-! ## Noticing -/

theorem exists_readU16 {bytes : List UInt8} {n : ℕ} (hlen : bytes.length = n + 2) :
    ∃ v rest, readU16 bytes = some (v, rest) ∧ rest.length = n := by
  obtain ⟨b₀, rest₀, hread₀, hlen₀⟩ := exists_readU8 hlen
  obtain ⟨b₁, rest₁, hread₁, hlen₁⟩ := exists_readU8 hlen₀
  exact ⟨_, rest₁, (bind_of_some hread₀ _).trans (bind_of_some hread₁ _), hlen₁⟩

/-- Twenty octets that begin as a header without options does are read, whatever they are. -/
theorem deserialize_twenty (hcalc : r.m_calcChecksum = true) {rest : List UInt8} {n : ℕ}
    (hlen : rest.length = n + 19)
    (hsum : calculateIpChecksum 20 0 (UInt8.ofNat (4 <<< 4 ||| 5) :: rest) = some c) :
    ∃ r', deserialize r (UInt8.ofNat (4 <<< 4 ||| 5) :: rest) = some (r', 20)
      ∧ r'.m_goodChecksum = (c == 0) := by
  obtain ⟨tos, i, htos, hi⟩ := exists_readU8 hlen
  obtain ⟨size, i, hsize, hi⟩ := exists_readNtohU16 hi
  obtain ⟨identification, i, hidentification, hi⟩ := exists_readNtohU16 hi
  obtain ⟨flags, i, hflags, hi⟩ := exists_readU8 hi
  obtain ⟨frag, i, hfrag, hi⟩ := exists_readU8 hi
  obtain ⟨ttl, i, httl, hi⟩ := exists_readU8 hi
  obtain ⟨protocol, i, hprotocol, hi⟩ := exists_readU8 hi
  obtain ⟨checksum, i, hchecksum, hi⟩ := exists_readU16 hi
  obtain ⟨source, i, hsource, hi⟩ := exists_readNtohU32 hi
  obtain ⟨destination, i, hdestination, hi⟩ := exists_readNtohU32 hi
  rw [deserialize]
  apply Exists.intro
  constructor
  · refine (bind_of_some (readU8_cons _ _) _).trans ?_
    refine (if_neg (by decide)).trans ?_
    refine (bind_of_some htos _).trans ?_
    refine (bind_of_some hsize _).trans ?_
    refine (bind_of_some hidentification _).trans ?_
    refine (bind_of_some hflags _).trans ?_
    refine (bind_of_some hfrag _).trans ?_
    refine (bind_of_some httl _).trans ?_
    refine (bind_of_some hprotocol _).trans ?_
    refine (bind_of_some hchecksum _).trans ?_
    refine (bind_of_some hsource _).trans ?_
    refine (bind_of_some hdestination _).trans ?_
    exact (if_pos hcalc).trans (bind_of_some hsum _)
  · rfl

/-- The verdict on a header without options. -/
theorem deserialize_good (hcalc : r.m_calcChecksum = true) {header : List UInt8}
    (hlen : header.length = 20) (hfirst : header.head? = some (UInt8.ofNat (4 <<< 4 ||| 5)))
    (payload : List UInt8) :
    ∃ r', deserialize r (header ++ payload) = some (r', 20)
      ∧ (r'.m_goodChecksum = true ↔ InBalance 0 header) := by
  obtain ⟨b, rest, rfl⟩ := List.exists_cons_of_length_eq_add_one hlen
  rw [List.head?_cons, Option.some.injEq] at hfirst
  subst hfirst
  have hrest : (rest ++ payload).length = payload.length + 19 := by
    simp only [List.length_cons] at hlen
    rw [List.length_append]
    omega
  have hsum := calculateIpChecksum_eq (Nat.zero_lt_succ 65535) hlen (by decide) payload
  have hzero := calculateIpChecksum_eq_zero (Nat.zero_lt_succ 65535) hlen (by decide) payload
  obtain ⟨r', hread, hgood⟩ := deserialize_twenty hcalc hrest hsum
  rw [hsum] at hzero
  refine ⟨r', hread, ?_⟩
  rw [hgood, ← hzero, beq_iff_eq, Option.some.injEq]

/-- A header that is sent with its checksum is read back and found good. With a word of it changed
it is found bad, whatever follows it, unless the first octet changed as well. -/
theorem read_back (hv : h.Valid) (hh : h.m_calcChecksum = true) (hr : r.m_calcChecksum = true)
    (payload : List UInt8) :
    ∃ header c, header.length = 20 ∧ h.serialize payload = some (header ++ payload)
      ∧ deserialize r (header ++ payload)
        = some ({ h.received r c with m_goodChecksum := true }, 20)
      ∧ ∀ header' pre w w' post payload', OneWordApart header header' pre w w' post →
        header'.head? = header.head? →
        ∃ r', deserialize r (header' ++ payload') = some (r', 20) ∧ r'.m_goodChecksum = false := by
  obtain ⟨c, hc, hserialize, hbalance⟩ := serialize_eq hh payload
  have hlen := length_octets_header h c
  refine ⟨h.upper ++ word c ++ h.lower, c, hlen, hserialize, ?_, ?_⟩
  · have hzero := (calculateIpChecksum_eq_zero (Nat.zero_lt_succ 65535) hlen (by decide)
      payload).mpr hbalance
    have hread := deserialize_octetsWith hv r hc payload
    rw [octetsWith, if_pos hr, hzero] at hread
    exact hread
  · intro header' pre w w' post payload' hapart hfirst
    obtain ⟨r', hread, hgood⟩ := deserialize_good hr (hapart.length_eq.trans hlen) hfirst payload'
    refine ⟨r', hread, ?_⟩
    rw [← Bool.not_eq_true, hgood]
    exact hapart.not_inBalance hbalance

/-- A first fragment of a datagram. -/
def firstFragment : Ipv4Header :=
  { m_calcChecksum := true
    m_payloadSize := 24
    m_identification := 7
    m_ttl := 64
    m_protocol := 17
    m_flags := moreFragments
    m_source := 0x0a000001
    m_destination := 0x0a000002 }

theorem read_back_firstFragment :
    ∃ header c, header.length = 20
      ∧ firstFragment.serialize [1, 2, 3] = some (header ++ [1, 2, 3])
      ∧ deserialize { m_calcChecksum := true } (header ++ [1, 2, 3])
        = some ({ firstFragment.received { m_calcChecksum := true } c with m_goodChecksum := true },
            20)
      ∧ ∀ header' pre w w' post payload', OneWordApart header header' pre w w' post →
        header'.head? = header.head? →
        ∃ r', deserialize { m_calcChecksum := true } (header' ++ payload') = some (r', 20)
          ∧ r'.m_goodChecksum = false :=
  read_back ⟨by decide, by decide⟩ rfl rfl [1, 2, 3]

end Ipv4Header

end Ns3.Internet
