import Mathlib
import Ns3.Network.PacketMetadata

/-!
# Reading the items back

`ReadItems` against `AddSmall` and `AddBig`. Where their assertions hold everything comes back but
the packet number: `AddBig` keeps its low 32 bits, and `ReadItems` extends their sign.
-/

namespace Ns3.Network.Metadata

open Lib

/-! ## Bytes -/

/-- The two octets of `Append16`. -/
def word16 (v : UInt16) : List UInt8 := [UInt8.ofNat v.toNat, UInt8.ofNat (v.toNat >>> 8)]

/-- The four octets of `Append32`. -/
def word32 (v : UInt32) : List UInt8 :=
  [UInt8.ofNat v.toNat, UInt8.ofNat (v.toNat >>> 8), UInt8.ofNat (v.toNat >>> 16),
    UInt8.ofNat (v.toNat >>> 24)]

@[simp] theorem length_word16 (v : UInt16) : (word16 v).length = 2 := rfl

@[simp] theorem length_word32 (v : UInt32) : (word32 v).length = 4 := rfl

namespace Data

/-- The octets `bs` are in the block at `pos`. -/
def At (d : Data) (pos : Nat) (bs : List UInt8) : Prop := bs <+: d.bytes.drop pos

variable {d : Data} {pos start : Nat} {b : UInt8} {bs as : List UInt8}

theorem At.read (h : d.At pos (b :: bs)) : d.read pos = some b := by
  obtain ⟨rest, hrest⟩ := h
  rw [Data.read, ← Nat.add_zero pos, ← List.getElem?_drop, ← hrest]
  rfl

theorem At.tail (h : d.At pos (b :: bs)) : d.At (pos + 1) bs := by
  obtain ⟨rest, hrest⟩ := h
  refine ⟨rest, ?_⟩
  rw [← List.drop_drop, ← hrest]
  rfl

theorem At.left (h : d.At pos (as ++ bs)) : d.At pos as := (List.prefix_append as bs).trans h

theorem At.right (h : d.At pos (as ++ bs)) : d.At (pos + as.length) bs := by
  obtain ⟨rest, hrest⟩ := h
  refine ⟨rest, ?_⟩
  rw [← List.drop_drop, ← hrest, List.append_assoc, List.drop_left]

theorem write_room (d : Data) (pos : Nat) (as : List UInt8)
    (hroom : pos + as.length ≤ d.bytes.length) :
    ∃ d' : Data, d.write pos as = some d' ∧ d'.bytes.length = d.bytes.length ∧ d'.size = d.size :=
  ⟨_, dif_pos hroom, length_overwrite d.bytes as pos hroom, rfl⟩

theorem append16_eq (v : UInt16) : d.append16 v pos = d.write pos (word16 v) := rfl

/-- A write behind octets that are there already. -/
theorem At.write (h : d.At start bs) (pos : Nat) (as : List UInt8)
    (hpos : start + bs.length = pos) (hroom : pos + as.length ≤ d.bytes.length) :
    ∃ d' : Data, d.write pos as = some d' ∧ d'.bytes.length = d.bytes.length ∧ d'.size = d.size ∧
      d'.At start (bs ++ as) := by
  refine ⟨_, dif_pos hroom, length_overwrite d.bytes as pos hroom, rfl, ?_⟩
  obtain ⟨rest, hrest⟩ := h
  refine ⟨d.bytes.drop (pos + as.length), ?_⟩
  have hbefore : (d.bytes.take pos).drop start = bs := by
    rw [List.drop_take, ← hrest, ← hpos, Nat.add_sub_cancel_left, List.take_left]
  have hstart : start ≤ (d.bytes.take pos).length := by
    rw [List.length_take]
    omega
  have hafter : (d.bytes.take pos ++ as ++ d.bytes.drop (pos + as.length)).drop start =
      bs ++ as ++ d.bytes.drop (pos + as.length) := by
    rw [List.append_assoc, List.append_assoc, List.drop_append_of_le_length hstart, hbefore]
  exact hafter.symm

end Data

/-! ## Numbers -/

theorem appendValue_eq (v : UInt32) : appendValue v = leb128 4 v.toNat := by
  have hv := v.toNat_lt
  simp only [appendValue, appendValueExtra, group, Nat.shiftRight_eq_div_pow]
  split
  · rw [leb128_last 4 _ (by omega)]
  · split
    · rw [leb128_more 3 _ (by omega), leb128_last 3 _ (by omega)]
      rfl
    · split
      · rw [leb128_more 3 _ (by omega), leb128_more 2 _ (by omega), leb128_last 2 _ (by omega),
          Nat.div_div_eq_div_mul]
        rfl
      · split
        · rw [leb128_more 3 _ (by omega), leb128_more 2 _ (by omega), leb128_more 1 _ (by omega),
            leb128_last 1 _ (by omega), Nat.div_div_eq_div_mul, Nat.div_div_eq_div_mul]
          rfl
        · rw [leb128_more 3 _ (by omega), leb128_more 2 _ (by omega), leb128_more 1 _ (by omega),
            leb128_more 0 _ (by omega), leb128_last 0 _ (by omega), Nat.div_div_eq_div_mul,
            Nat.div_div_eq_div_mul, Nat.div_div_eq_div_mul]
          rfl

/-- `GetUleb128Size` predicts what `AppendValue` writes. -/
@[simp] theorem length_appendValue (v : UInt32) : (appendValue v).length = getUleb128Size v := by
  simp only [appendValue, appendValueExtra, getUleb128Size]
  split
  · rfl
  · split
    · rfl
    · split
      · rfl
      · split <;> rfl

/-- One octet more: the groups so far are the low bits of `v`. -/
theorem readUleb128From_step {d : Data} {buffer n i v : Nat} {byte : UInt8}
    (hread : d.read (buffer + i) = some byte)
    (hbyte : byte.toNat % 2 ^ 7 = v / 2 ^ (7 * i) % 2 ^ 7) :
    readUleb128From d buffer (n + 1) i (v % 2 ^ (7 * i)) =
      if byte.toNat < 2 ^ 7 then some (UInt32.ofNat (v % 2 ^ (7 * (i + 1))), buffer + (i + 1))
      else readUleb128From d buffer n (i + 1) (v % 2 ^ (7 * (i + 1))) := by
  have hmod : v % 2 ^ (7 * i) < 2 ^ (7 * i) := Nat.mod_lt _ (Nat.two_pow_pos _)
  have hnext : v % 2 ^ (7 * i) ||| (byte.toNat &&& 0x7f) <<< (7 * i) = v % 2 ^ (7 * (i + 1)) := by
    rw [or_group _ _ _ hmod, and_lowBits, hbyte, mod_add_group, Nat.mul_succ]
  rw [readUleb128From, hread]
  show (if byte.toNat &&& 0x80 = 0 then _ else _) = _
  rw [hnext]
  exact if_congr (and_highBit _ byte.toNat_lt) rfl rfl

theorem toNat_octet {v : Nat} (hv : v < 2 ^ 8) : (UInt8.ofNat v).toNat = v :=
  UInt8.toNat_ofNat_of_lt' hv

theorem readUleb128From_last {d : Data} {buffer n i v : Nat} (hlow : v / 2 ^ (7 * i) < 2 ^ 7)
    (h : d.At (buffer + i) (leb128 n (v / 2 ^ (7 * i)))) :
    readUleb128From d buffer (n + 1) i (v % 2 ^ (7 * i)) =
      some (UInt32.ofNat v, buffer + i + (leb128 n (v / 2 ^ (7 * i))).length) := by
  rw [leb128_last n _ hlow] at h ⊢
  have hbyte : (UInt8.ofNat (v / 2 ^ (7 * i))).toNat = v / 2 ^ (7 * i) :=
    toNat_octet (by omega)
  have hwhole : v % 2 ^ (7 * (i + 1)) = v := by
    refine Nat.mod_eq_of_lt ?_
    rw [Nat.mul_succ, Nat.pow_add, Nat.mul_comm]
    exact (Nat.div_lt_iff_lt_mul (Nat.two_pow_pos _)).mp hlow
  rw [readUleb128From_step h.read (by rw [hbyte]), if_pos (by rw [hbyte]; exact hlow), hwhole]
  rfl

theorem readUleb128From_leb128 {d : Data} {buffer n i v : Nat}
    (hv : v / 2 ^ (7 * i) < 2 ^ (7 * (n + 1)))
    (h : d.At (buffer + i) (leb128 n (v / 2 ^ (7 * i)))) :
    readUleb128From d buffer (n + 1) i (v % 2 ^ (7 * i)) =
      some (UInt32.ofNat v, buffer + i + (leb128 n (v / 2 ^ (7 * i))).length) := by
  induction n generalizing i with
  | zero => exact readUleb128From_last hv h
  | succ n ih =>
    by_cases hlow : v / 2 ^ (7 * i) < 2 ^ 7
    · exact readUleb128From_last hlow h
    · rw [leb128_more n _ (by omega)] at h ⊢
      have hbyte : (UInt8.ofNat (2 ^ 7 + v / 2 ^ (7 * i) % 2 ^ 7)).toNat =
          2 ^ 7 + v / 2 ^ (7 * i) % 2 ^ 7 := toNat_octet (by omega)
      have hdiv : v / 2 ^ (7 * i) / 2 ^ 7 = v / 2 ^ (7 * (i + 1)) := by
        rw [Nat.div_div_eq_div_mul, ← Nat.pow_add, Nat.mul_succ]
      have hrest : v / 2 ^ (7 * (i + 1)) < 2 ^ (7 * (n + 1)) := by
        rw [← hdiv, Nat.div_lt_iff_lt_mul (by decide), ← Nat.pow_add]
        exact hv
      have htail := h.tail
      rw [hdiv] at htail ⊢
      rw [readUleb128From_step h.read (by rw [hbyte, Nat.add_mod_left, Nat.mod_mod]),
        if_neg (by rw [hbyte]; omega), ih hrest htail, List.length_cons, Nat.add_assoc,
        Nat.add_assoc, Nat.add_assoc, Nat.add_comm 1]

/-- `ReadUleb128` takes back what `AppendValue` wrote. -/
theorem readUleb128_appendValue {d : Data} {buffer : Nat} (v : UInt32)
    (h : d.At buffer (appendValue v)) :
    readUleb128 d buffer = some (v, buffer + getUleb128Size v) := by
  have hv := v.toNat_lt
  have hfirst : v.toNat / 2 ^ (7 * 0) = v.toNat := Nat.div_one _
  rw [appendValue_eq, ← hfirst] at h
  have hread := readUleb128From_leb128 (d := d) (i := 0) (by rw [hfirst]; omega) h
  rw [hfirst, ← appendValue_eq, length_appendValue, UInt32.ofNat_toNat] at hread
  rw [show v.toNat % 2 ^ (7 * 0) = 0 from Nat.mod_one _] at hread
  exact hread

theorem toNat_shifted (v k : Nat) : (UInt8.ofNat (v >>> k)).toNat = v / 2 ^ k % 2 ^ 8 := by
  rw [UInt8.toNat_ofNat', Nat.shiftRight_eq_div_pow]

/-- An octet that is shifted in above the ones read before it. -/
theorem or_octet (v k : Nat) :
    v % 2 ^ k ||| (UInt8.ofNat (v >>> k)).toNat <<< k = v % 2 ^ (k + 8) := by
  rw [or_group _ _ _ (Nat.mod_lt _ (Nat.two_pow_pos _)), toNat_shifted, Nat.pow_add, Nat.mod_mul,
    Nat.mul_comm (2 ^ k)]

theorem read16_word16 {d : Data} {buffer : Nat} {v : UInt16} (h : d.At buffer (word16 v)) :
    read16 d buffer = some v := by
  have hbits : (UInt8.ofNat v.toNat).toNat ||| (UInt8.ofNat (v.toNat >>> 8)).toNat <<< 8 =
      v.toNat := by
    have hv : v.toNat < 2 ^ 16 := v.toNat_lt
    rw [UInt8.toNat_ofNat', or_octet]
    omega
  rw [read16, h.read, h.tail.read]
  show some (UInt16.ofNat (_ ||| _)) = _
  rw [hbits, UInt16.ofNat_toNat]

/-- The high octet is shifted into the sign of an `int`. -/
theorem signExtend_octet (v : Nat) (hv : v < 2 ^ 32) :
    v % 2 ^ 24 ||| signExtend ((UInt8.ofNat (v >>> 24)).toNat <<< 24) = signExtend v := by
  have hlow : v % 2 ^ 24 < 2 ^ 24 := Nat.mod_lt _ (Nat.two_pow_pos _)
  rw [toNat_shifted, Nat.shiftLeft_eq]
  by_cases hsign : v < 2 ^ 31
  · rw [signExtend, if_pos (by omega), signExtend, if_pos hsign, ← Nat.shiftLeft_eq,
      or_group _ _ _ hlow]
    omega
  · have hones : (2 : Nat) ^ 64 - 2 ^ 32 = (2 ^ 40 - 2 ^ 8) * 2 ^ 24 := by decide
    have hsplit : v % 2 ^ 24 + v / 2 ^ 24 % 2 ^ 8 * 2 ^ 24 = v := by omega
    rw [signExtend, if_neg (by omega), signExtend, if_neg hsign, hones, ← Nat.add_mul,
      ← Nat.shiftLeft_eq, or_group _ _ _ hlow, Nat.add_mul, ← Nat.add_assoc, hsplit]

/-- `ReadItems` extends the sign of the low half of the packet number. -/
theorem readPacketUid_word32 {d : Data} {buffer : Nat} {v : UInt32} (h : d.At buffer (word32 v)) :
    readPacketUid d buffer = some (UInt64.ofNat (signExtend v.toNat)) := by
  have hbits : (UInt8.ofNat v.toNat).toNat ||| (UInt8.ofNat (v.toNat >>> 8)).toNat <<< 8 |||
      (UInt8.ofNat (v.toNat >>> 16)).toNat <<< 16 = v.toNat % 2 ^ 24 := by
    rw [UInt8.toNat_ofNat', or_octet, or_octet]
  rw [readPacketUid, h.read, h.tail.read, h.tail.tail.read, h.tail.tail.tail.read]
  show some (UInt64.ofNat (_ ||| _ ||| _ ||| _)) = _
  rw [hbits, signExtend_octet _ v.toNat_lt]

/-! ## Room -/

namespace Pool

theorem findFree_size {size : Nat} {data : Data} {freeList rest : List Data}
    (h : findFree size freeList = (some data, rest)) : size ≤ data.size := by
  induction freeList with
  | nil => cases h
  | cons d freeList ih =>
    rw [findFree] at h
    split at h
    · rename_i hsize
      cases h
      exact hsize
    · exact ih h

theorem findFree_of_lt {size : Nat} {freeList : List Data}
    (h : ∀ data ∈ freeList, data.size < size) : (findFree size freeList).1 = none := by
  induction freeList with
  | nil => rfl
  | cons d freeList ih =>
    obtain ⟨hd, hrest⟩ := List.forall_mem_cons.mp h
    rw [findFree, if_neg (not_le.mpr hd)]
    exact ih hrest

theorem findFree_eq_none {size : Nat} {freeList rest : List Data}
    (h : findFree size freeList = (none, rest)) : ∀ data ∈ freeList, data.size < size := by
  induction freeList with
  | nil => exact fun _ hmem => absurd hmem List.not_mem_nil
  | cons d freeList ih =>
    rw [findFree] at h
    split at h
    · cases h
    · rename_i hsize
      exact List.forall_mem_cons.mpr ⟨not_le.mp hsize, ih h⟩

/-- The block that `Create` gives says that it has the room: an old one does, and a new one when the
16 bits of `m_size` do not wrap below. -/
theorem create_size_iff (p : Pool) (size : Nat) : size ≤ (p.create size).2.size ↔
    (∃ data ∈ p.freeList, size ≤ data.size) ∨ size ≤ max (max p.maxSize size) 8 % 2 ^ 16 := by
  rw [create]
  split
  · rename_i data freeList hfind
    have hsize := findFree_size hfind
    refine iff_of_true hsize (Or.inl ?_)
    by_contra hnone
    push Not at hnone
    replace hfind := congrArg Prod.fst hfind
    rw [findFree_of_lt hnone] at hfind
    cases hfind
  · rename_i freeList hfind
    have hlt := findFree_eq_none hfind
    constructor
    · exact Or.inr
    · rintro (⟨data, hmem, hle⟩ | hle)
      · exact absurd hle (not_le.mpr (hlt data hmem))
      · exact hle

/-- A new block has room for all that was asked for, even when `m_size` cannot say so. -/
theorem create_room (p : Pool) (size : Nat) : size ≤ (p.create size).2.bytes.length := by
  rw [create]
  split
  · rename_i data freeList hfind
    exact (findFree_size hfind).trans data.size_le
  · simp only [allocate, List.length_map, List.length_range]
    omega

end Pool

/-- The part of `IsStateOk` that is about the places of a packet itself, with the assertions on
the two ends of the list. -/
structure PacketMetadata.StateOk (m : PacketMetadata) : Prop where
  used_le : m.used ≤ m.data.size
  head_le : m.head = 0xffff ∨ m.head ≤ m.used
  tail_le : m.tail = 0xffff ∨ m.tail ≤ m.used
  ends : m.head = 0xffff ↔ m.tail = 0xffff

namespace PacketMetadata

variable {p : Pool} {m : PacketMetadata}

/-- Room for `n` octets more: the block has it, or the one that `ReserveCopy` takes says so in the
16 bits of `m_size`. -/
def Room (p : Pool) (m : PacketMetadata) (n : Nat) : Prop :=
  m.Reserves n → (∃ data ∈ p.freeList, m.used + n ≤ data.size) ∨
    m.used + n ≤ max (max p.maxSize (m.used + n)) 8 % 2 ^ 16

theorem reserveCopy_room (hm : m.StateOk) {n : Nat} (hn : 4 ≤ n) :
    ∃ p' m', m.reserveCopy p n = some (p', m') ∧ m'.used = m.used ∧
      m'.packetUid = m.packetUid ∧ m.used + n ≤ m'.data.bytes.length ∧
      m'.data.size = (p.create (m.used + n)).2.size := by
  have hroom := p.create_room (m.used + n)
  have hold : m.used ≤ m.data.bytes.length := hm.used_le.trans m.data.size_le
  have hcopied : (m.data.bytes.take m.used).length = m.used := by
    rw [List.length_take, Nat.min_eq_left hold]
  rcases hcreate : p.create (m.used + n) with ⟨p', newData⟩
  rw [hcreate] at hroom
  replace hroom : m.used + n ≤ newData.bytes.length := hroom
  obtain ⟨d₁, hd₁, hlen₁, hsize₁⟩ :=
    newData.write_room 0 (m.data.bytes.take m.used) (by omega)
  by_cases hempty : m.head = 0xffff
  · refine ⟨p'.release m.data, { m with data := { d₁ with dirtyEnd := m.used } }, ?_, rfl, rfl, ?_,
      hsize₁⟩
    · simp [reserveCopy, hcreate, hold, hd₁, hempty]
    · exact hroom.trans_eq hlen₁.symm
  · have htail : m.tail ≤ m.used := hm.tail_le.resolve_left fun h => hempty (hm.ends.mpr h)
    have hhead : m.head ≤ m.used := hm.head_le.resolve_left hempty
    -- the ends of the list may be cleared: four more octets are there
    obtain ⟨d₂, hd₂, hlen₂, hsize₂⟩ := Data.write_room { d₁ with dirtyEnd := m.used }
      m.tail (word16 0xffff) (show m.tail + 2 ≤ d₁.bytes.length by omega)
    replace hlen₂ : d₂.bytes.length = d₁.bytes.length := hlen₂
    obtain ⟨d₃, hd₃, hlen₃, hsize₃⟩ := d₂.write_room (m.head + 2) (word16 0xffff)
      (show m.head + 2 + 2 ≤ d₂.bytes.length by omega)
    refine ⟨p'.release m.data, { m with data := d₃ }, ?_, rfl, rfl, ?_,
      hsize₃.trans (hsize₂.trans hsize₁)⟩
    · simp [reserveCopy, hcreate, hold, hd₁, hempty, Data.append16_eq, hd₂, hd₃]
    · show m.used + n ≤ d₃.bytes.length
      omega

theorem reserve_room (hm : m.StateOk) {n : Nat} (hn : 4 ≤ n) :
    ∃ p' m', m.reserve p n = some (p', m') ∧ m'.used = m.used ∧
      m'.packetUid = m.packetUid ∧ m.used + n ≤ m'.data.bytes.length ∧
      (m.used + n ≤ m'.data.size ↔ Room p m n) := by
  rw [reserve]
  split
  · rename_i hreserves
    obtain ⟨p', m', hcopy, hused, huid, hlen, hsize⟩ := reserveCopy_room (p := p) hm hn
    refine ⟨p', m', hcopy, hused, huid, hlen, ?_⟩
    rw [hsize, Pool.create_size_iff]
    exact ⟨fun hgives _ => hgives, fun hroom => hroom hreserves⟩
  · rename_i hkeeps
    have hsize := m.data.size_le
    have hfits : m.used + n ≤ m.data.size := not_lt.mp fun hlt => hkeeps (Or.inl hlt)
    refine ⟨p, m, rfl, rfl, rfl, by omega, ?_⟩
    exact iff_of_true hfits fun hreserves => absurd hreserves hkeeps

/-! ## Items -/

/-- Whether an item is an extra one. -/
theorem and_one_iff (typeUid : UInt32) : typeUid &&& 1 = 1 ↔ typeUid.toNat % 2 = 1 := by
  rw [← UInt32.toNat_inj, UInt32.toNat_and]
  exact Eq.congr_left (Nat.and_one_is_mod _)

theorem toNat_or_one (typeUid : UInt32) :
    (typeUid ||| 1).toNat = typeUid.toNat / 2 * 2 + 1 :=
  (UInt32.toNat_or _ _).trans (or_one _)

/-- The low bit of a type is set. -/
theorem typeUid_big (typeUid : UInt32) :
    (if typeUid &&& 1 = 1 then typeUid else typeUid + 1) = typeUid ||| 1 := by
  have hlt := typeUid.toNat_lt
  rw [← UInt32.toNat_inj, toNat_or_one]
  split
  · rename_i hodd
    rw [and_one_iff] at hodd
    omega
  · rename_i heven
    rw [and_one_iff] at heven
    rw [UInt32.toNat_add]
    show (typeUid.toNat + 1) % 2 ^ 32 = _
    omega

/-- The octets of a small item. -/
def smallItem (item : SmallItem) : List UInt8 :=
  word16 item.next ++ word16 item.prev ++ appendValue item.typeUid ++ appendValue item.size ++
    word16 item.chunkUid

/-- The octets of an extra item. -/
def extraItem (item : ExtraItem) : List UInt8 :=
  appendValue item.fragmentStart ++ appendValue item.fragmentEnd ++
    word32 item.packetUid.toUInt32

@[simp] theorem length_smallItem (item : SmallItem) : (smallItem item).length =
    2 + 2 + getUleb128Size item.typeUid + getUleb128Size item.size + 2 := by
  simp only [smallItem, List.length_append, length_word16, length_appendValue]

/-- The five writes of an item one behind the other. -/
theorem write_smallItem {d : Data} {buffer : Nat} (item : SmallItem)
    (hroom : buffer + (smallItem item).length ≤ d.bytes.length) :
    ∃ d₁ d₂ d₃ d₄ d₅, d.append16 item.next buffer = some d₁ ∧
      d₁.append16 item.prev (buffer + 2) = some d₂ ∧
      d₂.write (buffer + 2 + 2) (appendValue item.typeUid) = some d₃ ∧
      d₃.write (buffer + 2 + 2 + getUleb128Size item.typeUid) (appendValue item.size) = some d₄ ∧
      d₄.append16 item.chunkUid
        (buffer + 2 + 2 + getUleb128Size item.typeUid + getUleb128Size item.size) = some d₅ ∧
      d₅.bytes.length = d.bytes.length ∧ d₅.size = d.size ∧ d₅.At buffer (smallItem item) := by
  rw [length_smallItem] at hroom
  have hnil : d.At buffer [] := List.nil_prefix
  obtain ⟨d₁, h₁, hlen₁, hsize₁, hat⟩ := hnil.write buffer (word16 item.next) rfl
    (by simp only [length_word16]; omega)
  obtain ⟨d₂, h₂, hlen₂, hsize₂, hat⟩ := hat.write (buffer + 2) (word16 item.prev) (by simp)
    (by simp only [length_word16]; omega)
  obtain ⟨d₃, h₃, hlen₃, hsize₃, hat⟩ := hat.write (buffer + 2 + 2)
    (appendValue item.typeUid) (by simp) (by simp only [length_appendValue]; omega)
  obtain ⟨d₄, h₄, hlen₄, hsize₄, hat⟩ := hat.write
    (buffer + 2 + 2 + getUleb128Size item.typeUid) (appendValue item.size)
    (by simp; omega) (by simp only [length_appendValue]; omega)
  obtain ⟨d₅, h₅, hlen₅, hsize₅, hat⟩ := hat.write
    (buffer + 2 + 2 + getUleb128Size item.typeUid + getUleb128Size item.size)
    (word16 item.chunkUid) (by simp; omega) (by simp only [length_word16]; omega)
  exact ⟨d₁, d₂, d₃, d₄, d₅, h₁, h₂, h₃, h₄, h₅, by omega, by omega, hat⟩

/-- `AddSmall` leaves its octets at the end of the used part. -/
theorem addSmall_eq (hm : m.StateOk) (item : SmallItem) (hprev : m.used ≠ item.prev.toNat)
    (hnext : m.used ≠ item.next.toNat) :
    ∃ p' m', m.addSmall p item = some (p', m', (smallItem item).length) ∧ m'.used = m.used ∧
      m'.packetUid = m.packetUid ∧ m'.data.At m'.used (smallItem item) ∧
      (m.used + (smallItem item).length ≤ m'.data.size ↔ Room p m (smallItem item).length) := by
  obtain ⟨p', m', hreserve, hused, huid, hlen, hroom⟩ := reserve_room (p := p) hm
    (show 4 ≤ (smallItem item).length by rw [length_smallItem]; omega)
  obtain ⟨d₁, d₂, d₃, d₄, d₅, h₁, h₂, h₃, h₄, h₅, -, hsize, hat⟩ :=
    write_smallItem item (hused ▸ hlen)
  refine ⟨p', { m' with data := d₅ }, ?_, hused, huid, hat, ?_⟩
  · rw [length_smallItem] at hreserve ⊢
    simp [addSmall, hreserve, h₁, h₂, h₃, h₄, h₅, hprev, hnext]
  · rw [← hroom, ← hsize]

theorem addSmall_eq_none {item : SmallItem}
    (h : m.used = item.prev.toNat ∨ m.used = item.next.toNat) : m.addSmall p item = none := by
  simp [addSmall, h]

/-- What `AddBig` writes: a small item with an odd type, and the extra item behind it. -/
def bigItem (next prev : UInt16) (item : SmallItem) (extra : ExtraItem) : List UInt8 :=
  smallItem ⟨next, prev, item.typeUid ||| 1, item.size, item.chunkUid⟩ ++ extraItem extra

@[simp] theorem length_extraItem (extra : ExtraItem) : (extraItem extra).length =
    getUleb128Size extra.fragmentStart + getUleb128Size extra.fragmentEnd + 4 := by
  simp only [extraItem, List.length_append, length_word32, length_appendValue]

theorem length_bigItem (next prev : UInt16) (item : SmallItem) (extra : ExtraItem) :
    (bigItem next prev item extra).length =
      2 + 2 + getUleb128Size (item.typeUid ||| 1) + getUleb128Size item.size + 2 +
        getUleb128Size extra.fragmentStart + getUleb128Size extra.fragmentEnd + 4 := by
  rw [bigItem, List.length_append, length_smallItem, length_extraItem]
  simp only [Nat.add_assoc]

/-- The three writes of an extra item behind octets that are there. -/
theorem write_extraItem {d : Data} {start : Nat} {bs : List UInt8} (extra : ExtraItem)
    (hat : d.At start bs) (buffer : Nat) (hbuffer : start + bs.length = buffer)
    (hroom : buffer + (extraItem extra).length ≤ d.bytes.length) :
    ∃ d₁ d₂ d₃, d.write buffer (appendValue extra.fragmentStart) = some d₁ ∧
      d₁.write (buffer + getUleb128Size extra.fragmentStart) (appendValue extra.fragmentEnd) =
        some d₂ ∧
      d₂.append32 extra.packetUid.toUInt32
        (buffer + getUleb128Size extra.fragmentStart + getUleb128Size extra.fragmentEnd) =
        some d₃ ∧ d₃.size = d.size ∧ d₃.At start (bs ++ extraItem extra) := by
  rw [length_extraItem] at hroom
  obtain ⟨d₁, h₁, hlen₁, hsize₁, hat⟩ := hat.write buffer (appendValue extra.fragmentStart) hbuffer
    (by simp only [length_appendValue]; omega)
  obtain ⟨d₂, h₂, hlen₂, hsize₂, hat⟩ := hat.write
    (buffer + getUleb128Size extra.fragmentStart) (appendValue extra.fragmentEnd)
    (by simp; omega) (by simp only [length_appendValue]; omega)
  obtain ⟨d₃, h₃, hlen₃, hsize₃, hat⟩ := hat.write
    (buffer + getUleb128Size extra.fragmentStart + getUleb128Size extra.fragmentEnd)
    (word32 extra.packetUid.toUInt32) (by simp; omega)
    (by simp only [length_word32]; omega)
  rw [List.append_assoc, List.append_assoc, ← List.append_assoc (appendValue _)] at hat
  exact ⟨d₁, d₂, d₃, h₁, h₂, h₃, by omega, hat⟩

/-- `AddBig` leaves its octets at the end of the used part. -/
theorem addBig_eq (hm : m.StateOk) {next prev : UInt16} (hprev : m.used ≠ prev.toNat)
    (hnext : m.used ≠ next.toNat) (item : SmallItem) (extra : ExtraItem) :
    ∃ p' m', m.addBig p next.toUInt32 prev.toUInt32 item extra =
        some (p', m', (bigItem next prev item extra).length) ∧
      m'.used = m.used ∧ m'.packetUid = m.packetUid ∧
      m'.data.At m'.used (bigItem next prev item extra) ∧
      (m.used + (bigItem next prev item extra).length ≤ m'.data.size ↔
        Room p m (bigItem next prev item extra).length) := by
  have hsizes := length_bigItem next prev item extra
  obtain ⟨p', m', hreserve, hused, huid, hlen, hroom⟩ := reserve_room (p := p) hm
    (show 4 ≤ (bigItem next prev item extra).length by omega)
  rw [← hused, bigItem, List.length_append] at hlen
  obtain ⟨d₁, d₂, d₃, d₄, d₅, h₁, h₂, h₃, h₄, h₅, hkept, hsize₅, hat⟩ :=
    write_smallItem ⟨next, prev, item.typeUid ||| 1, item.size, item.chunkUid⟩
      (show m'.used + _ ≤ m'.data.bytes.length by omega)
  have hbuffer : (smallItem ⟨next, prev, item.typeUid ||| 1, item.size, item.chunkUid⟩).length =
      2 + 2 + getUleb128Size (item.typeUid ||| 1) + getUleb128Size item.size + 2 :=
    length_smallItem _
  obtain ⟨d₆, d₇, d₈, h₆, h₇, h₈, hsize₈, hat⟩ := write_extraItem extra hat
    (m'.used + 2 + 2 + getUleb128Size (item.typeUid ||| 1) +
      getUleb128Size item.size + 2) (by rw [hbuffer]; omega) (by omega)
  refine ⟨p', { m' with data := d₈ }, ?_, hused, huid, hat, ?_⟩
  · rw [hsizes] at hreserve ⊢
    simp [addBig, typeUid_big, hreserve, h₁, h₂, h₃, h₄, h₅, h₆, h₇, h₈, hprev, hnext]
  · rw [← hroom, ← hsize₅, ← hsize₈]

theorem addBig_eq_none {next prev : UInt16} (h : m.used = prev.toNat ∨ m.used = next.toNat)
    (item : SmallItem) (extra : ExtraItem) :
    m.addBig p next.toUInt32 prev.toUInt32 item extra = none := by
  simp [addBig, h]

/-! ## Reading -/

/-- The part of `ReadItems` that all items have. -/
theorem read_smallItem {d : Data} {buffer : Nat} {item : SmallItem} {rest : List UInt8}
    (hat : d.At buffer (smallItem item ++ rest)) :
    read16 d buffer = some item.next ∧ read16 d (buffer + 2) = some item.prev ∧
      readUleb128 d (buffer + 4) =
        some (item.typeUid, buffer + 4 + getUleb128Size item.typeUid) ∧
      readUleb128 d (buffer + 4 + getUleb128Size item.typeUid) =
        some (item.size, buffer + 4 + getUleb128Size item.typeUid + getUleb128Size item.size) ∧
      read16 d (buffer + 4 + getUleb128Size item.typeUid + getUleb128Size item.size) =
        some item.chunkUid ∧
      d.At (buffer + 4 + getUleb128Size item.typeUid + getUleb128Size item.size + 2) rest := by
  have hchunk := hat.left.right
  have hsize := hat.left.left.right
  have htype := hat.left.left.left.right
  have hprev := hat.left.left.left.left.right
  have hrest := hat.right
  rw [length_smallItem] at hrest
  simp only [List.length_append, length_word16, length_appendValue, ← Nat.add_assoc] at *
  exact ⟨read16_word16 hat.left.left.left.left.left, read16_word16 hprev,
    readUleb128_appendValue _ htype, readUleb128_appendValue _ hsize, read16_word16 hchunk, hrest⟩

/-- The packet number that is read for a packet number. -/
def packetUidRead (packetUid : UInt64) : UInt64 :=
  UInt64.ofNat (signExtend packetUid.toUInt32.toNat)

theorem read_extraItem {d : Data} {buffer : Nat} {extra : ExtraItem}
    (hat : d.At buffer (extraItem extra)) :
    readUleb128 d buffer =
        some (extra.fragmentStart, buffer + getUleb128Size extra.fragmentStart) ∧
      readUleb128 d (buffer + getUleb128Size extra.fragmentStart) =
        some (extra.fragmentEnd,
          buffer + getUleb128Size extra.fragmentStart + getUleb128Size extra.fragmentEnd) ∧
      readPacketUid d
          (buffer + getUleb128Size extra.fragmentStart + getUleb128Size extra.fragmentEnd) =
        some (packetUidRead extra.packetUid) := by
  have huid := hat.right
  have hend := hat.left.right
  simp only [List.length_append, length_appendValue, ← Nat.add_assoc] at huid hend
  exact ⟨readUleb128_appendValue _ hat.left.left, readUleb128_appendValue _ hend,
    readPacketUid_word32 huid⟩

theorem packetUidRead_eq_iff (packetUid : UInt64) : packetUidRead packetUid = packetUid ↔
    packetUid.toNat < 2 ^ 31 ∨ 2 ^ 64 - 2 ^ 31 ≤ packetUid.toNat := by
  have hlt := packetUid.toNat_lt
  rw [← UInt64.toNat_inj, packetUidRead, UInt64.toNat_ofNat', UInt64.toNat_toUInt32, signExtend]
  split <;> omega

/-- The item is read when it ends in the block. -/
theorem readItems_smallItem {current : Nat} {item : SmallItem} (heven : item.typeUid &&& 1 ≠ 1)
    (hat : m.data.At current (smallItem item)) :
    m.readItems current = if current + (smallItem item).length ≤ m.data.size then
      some (item, ⟨0, item.size, m.packetUid⟩, (smallItem item).length) else none := by
  rw [← List.append_nil (smallItem item)] at hat
  obtain ⟨hnext, hprev, htype, hsize, hchunk, -⟩ := read_smallItem hat
  have hend : current + 4 + getUleb128Size item.typeUid + getUleb128Size item.size + 2 =
      current + (2 + 2 + getUleb128Size item.typeUid + getUleb128Size item.size + 2) := by omega
  simp only [readItems, hnext, hprev, htype, hsize, hchunk, length_smallItem, if_neg heven,
    Option.bind_eq_bind, Option.bind_some, hend, Nat.add_sub_cancel_left]
  by_cases hin : current + (2 + 2 + getUleb128Size item.typeUid + getUleb128Size item.size + 2) ≤
      m.data.size
  · rw [if_pos hin, if_neg (show ¬m.data.size < current by omega), if_neg (not_lt.mpr hin)]
  · rw [if_neg hin, if_pos (not_le.mp hin)]
    split <;> rfl

theorem readItems_bigItem {current : Nat} {next prev : UInt16} {item : SmallItem}
    {extra : ExtraItem} (hat : m.data.At current (bigItem next prev item extra)) :
    m.readItems current = if current + (bigItem next prev item extra).length ≤ m.data.size then
      some (⟨next, prev, item.typeUid ||| 1, item.size, item.chunkUid⟩,
        { extra with packetUid := packetUidRead extra.packetUid },
        (bigItem next prev item extra).length) else none := by
  obtain ⟨hnext, hprev, htype, hsize, hchunk, hrest⟩ := read_smallItem hat
  obtain ⟨hstart, hend, huid⟩ := read_extraItem hrest
  have hodd : (item.typeUid ||| 1) &&& 1 = 1 := by
    rw [and_one_iff, toNat_or_one]
    omega
  have hlast : current + 4 + getUleb128Size (item.typeUid ||| 1) + getUleb128Size item.size + 2 +
      getUleb128Size extra.fragmentStart + getUleb128Size extra.fragmentEnd + 4 =
      current + (bigItem next prev item extra).length := by
    rw [length_bigItem]
    omega
  simp only [readItems, hnext, hprev, htype, hsize, hchunk, hstart, hend, huid,
    if_pos hodd, Option.bind_eq_bind, Option.bind_some, hlast, Nat.add_sub_cancel_left]
  by_cases hin : current + (bigItem next prev item extra).length ≤ m.data.size
  · rw [if_pos hin, if_neg (show ¬m.data.size < current by omega), if_neg (not_lt.mpr hin)]
  · rw [if_neg hin, if_pos (not_le.mp hin)]
    split <;> rfl

/-- `ReadItems` where `AddBig` wrote. -/
def BigReadsBack (p : Pool) (m : PacketMetadata) (next prev : UInt16) (item : SmallItem)
    (extra : ExtraItem) : Prop :=
  ∃ p' m' n, m.addBig p next.toUInt32 prev.toUInt32 item extra = some (p', m', n) ∧
    m'.readItems m'.used =
      some (⟨next, prev, item.typeUid ||| 1, item.size, item.chunkUid⟩, extra, n)

/-- `ReadItems` where `AddSmall` wrote: the extra part is that of a whole item. -/
def SmallReadsBack (p : Pool) (m : PacketMetadata) (item : SmallItem) : Prop :=
  ∃ p' m' n, m.addSmall p item = some (p', m', n) ∧
    m'.readItems m'.used = some (item, ⟨0, item.size, m.packetUid⟩, n)

theorem StateOk.make {p' : Pool} {uid : UInt64} (h : make p uid = some (p', m)) : m.StateOk := by
  obtain ⟨data, -, hmake⟩ := Option.bind_eq_some_iff.mp h
  cases hmake
  exact ⟨Nat.zero_le _, Or.inl rfl, Or.inl rfl, Iff.rfl⟩

theorem smallReadsBack_iff (hm : m.StateOk) {item : SmallItem} (heven : item.typeUid &&& 1 ≠ 1) :
    SmallReadsBack p m item ↔ m.used ≠ item.prev.toNat ∧ m.used ≠ item.next.toNat ∧
      Room p m (smallItem item).length := by
  by_cases hplaces : m.used = item.prev.toNat ∨ m.used = item.next.toNat
  · constructor
    · rintro ⟨p', m', n, hadd, -⟩
      rw [addSmall_eq_none hplaces] at hadd
      cases hadd
    · rintro ⟨hprev, hnext, -⟩
      exact absurd hplaces (not_or.mpr ⟨hprev, hnext⟩)
  · obtain ⟨hprev, hnext⟩ := not_or.mp hplaces
    obtain ⟨p', m', hadd, hused, huid, hat, hroom⟩ := addSmall_eq (p := p) hm item hprev hnext
    have hread := readItems_smallItem heven hat
    rw [hused, huid] at hread
    constructor
    · rintro ⟨p'', m'', n, hadd', hread'⟩
      rw [hadd] at hadd'
      cases hadd'
      rw [hused, hread] at hread'
      refine ⟨hprev, hnext, hroom.mp ?_⟩
      by_contra hout
      rw [if_neg hout] at hread'
      cases hread'
    · rintro ⟨-, -, hgives⟩
      refine ⟨p', m', _, hadd, ?_⟩
      rw [hused, hread, if_pos (hroom.mpr hgives)]

theorem bigReadsBack_iff (hm : m.StateOk) {next prev : UInt16} {item : SmallItem}
    {extra : ExtraItem} : BigReadsBack p m next prev item extra ↔
      m.used ≠ prev.toNat ∧ m.used ≠ next.toNat ∧ Room p m (bigItem next prev item extra).length ∧
        packetUidRead extra.packetUid = extra.packetUid := by
  by_cases hplaces : m.used = prev.toNat ∨ m.used = next.toNat
  · constructor
    · rintro ⟨p', m', n, hadd, -⟩
      rw [addBig_eq_none hplaces] at hadd
      cases hadd
    · rintro ⟨hprev, hnext, -⟩
      exact absurd hplaces (not_or.mpr ⟨hprev, hnext⟩)
  · obtain ⟨hprev, hnext⟩ := not_or.mp hplaces
    obtain ⟨p', m', hadd, hused, -, hat, hroom⟩ :=
      addBig_eq (p := p) hm hprev hnext item extra
    have hread := readItems_bigItem hat
    rw [hused] at hread
    constructor
    · rintro ⟨p'', m'', n, hadd', hread'⟩
      rw [hadd] at hadd'
      cases hadd'
      rw [hused, hread] at hread'
      split at hread'
      · rename_i hin
        simp only [Option.some.injEq, Prod.mk.injEq, true_and, and_true] at hread'
        exact ⟨hprev, hnext, hroom.mp hin, congrArg ExtraItem.packetUid hread'⟩
      · cases hread'
    · rintro ⟨-, -, hgives, huid⟩
      refine ⟨p', m', _, hadd, ?_⟩
      rw [hused, hread, if_pos (hroom.mpr hgives), huid]

/-- The octets that `AddSmall` and `AddBig` ask for. -/
def smallSize (item : SmallItem) : Nat :=
  2 + 2 + getUleb128Size item.typeUid + getUleb128Size item.size + 2

def bigSize (item : SmallItem) (extra : ExtraItem) : Nat :=
  2 + 2 + getUleb128Size (item.typeUid ||| 1) + getUleb128Size item.size + 2 +
    getUleb128Size extra.fragmentStart + getUleb128Size extra.fragmentEnd + 4

/-- Both kinds of items are read back as they were written exactly when their neighbours are at
other places, the block says that it has the room, and for an extra item the packet number is the
sign extension of its low 32 bits. -/
theorem items_readBack_iff (p : Pool) (m : PacketMetadata) (hm : m.StateOk) (next prev : UInt16)
    (item : SmallItem) (extra : ExtraItem) :
    (BigReadsBack p m next prev item extra ↔ m.used ≠ prev.toNat ∧ m.used ≠ next.toNat ∧
      Room p m (bigSize item extra) ∧
      (extra.packetUid.toNat < 2 ^ 31 ∨ 2 ^ 64 - 2 ^ 31 ≤ extra.packetUid.toNat)) ∧
    (item.typeUid &&& 1 ≠ 1 → (SmallReadsBack p m item ↔ m.used ≠ item.prev.toNat ∧
      m.used ≠ item.next.toNat ∧ Room p m (smallSize item))) := by
  constructor
  · rw [bigReadsBack_iff hm, packetUidRead_eq_iff, length_bigItem]
    exact Iff.rfl
  · intro heven
    rw [smallReadsBack_iff hm heven, length_smallItem]
    exact Iff.rfl

/-- A pool without blocks, and the metadata of an empty packet. -/
def emptyPool : Pool := ⟨true, 0, [], fun _ => 0⟩

def emptyMetadata (uid : UInt64) : PacketMetadata :=
  ⟨⟨1, 10, 0, [0xff, 0xff, 0xff, 0xff, 0, 0, 0, 0, 0, 0], by decide⟩, 0xffff, 0xffff, 0, uid⟩

theorem make_emptyPool (uid : UInt64) : make emptyPool uid =
    some ({ emptyPool with maxSize := 10 }, emptyMetadata uid) := rfl

theorem emptyMetadata_stateOk (uid : UInt64) : (emptyMetadata uid).StateOk :=
  StateOk.make (make_emptyPool uid)

/-- A first item: the block of ten octets is too small for it, and a new one has the room. -/
theorem items_readBack_iff_empty :
    BigReadsBack emptyPool (emptyMetadata 7) 0xffff 3 ⟨0xffff, 3, 300, 2000000, 5⟩
        ⟨20, 70000, 2 ^ 31 - 1⟩ ∧
      SmallReadsBack emptyPool (emptyMetadata 7) ⟨0xffff, 3, 300, 2000000, 5⟩ := by
  have hiff := items_readBack_iff emptyPool (emptyMetadata 7)
    (emptyMetadata_stateOk 7) 0xffff 3 ⟨0xffff, 3, 300, 2000000, 5⟩ ⟨20, 70000, 2 ^ 31 - 1⟩
  refine ⟨hiff.1.mpr ⟨by decide, by decide, ?_, Or.inl (by decide)⟩,
    (hiff.2 (by decide)).mpr ⟨by decide, by decide, ?_⟩⟩
  · exact fun _ => Or.inr (by decide)
  · exact fun _ => Or.inr (by decide)

/-- The packet number 2^31 comes back with its high half set, and the high half of 2^32 is lost. -/
theorem bigItem_not_readBack : (emptyMetadata 0).StateOk ∧
    packetUidRead (2 ^ 31) = 0xffffffff80000000 ∧ packetUidRead (2 ^ 32) = 0 ∧
    ¬BigReadsBack emptyPool (emptyMetadata 0) 0xffff 0xffff ⟨0, 0, 2, 8, 0⟩ ⟨0, 8, 2 ^ 31⟩ ∧
    ¬BigReadsBack emptyPool (emptyMetadata 0) 0xffff 0xffff ⟨0, 0, 2, 8, 0⟩ ⟨0, 8, 2 ^ 32⟩ := by
  have hm := emptyMetadata_stateOk 0
  refine ⟨hm, by decide, by decide, ?_, ?_⟩
  · rw [bigReadsBack_iff hm]
    rintro ⟨-, -, -, huid⟩
    revert huid
    decide
  · rw [bigReadsBack_iff hm]
    rintro ⟨-, -, -, huid⟩
    revert huid
    decide

end PacketMetadata

end Ns3.Network.Metadata
