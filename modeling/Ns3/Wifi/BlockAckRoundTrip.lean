import Ns3.Wifi.CtrlHeaders
import Mathlib.Data.Nat.Bitwise
import Mathlib.Data.List.Forall2
import Mathlib.Tactic.Cases

/-!
# Block ack frames are read back

Every valid block ack is written in `GetSerializedSize` octets and read back with all that is sent:
an entry for an unassociated station has no bitmap in the frame, one for another context than an
acknowledgement neither a starting sequence.
-/

namespace Ns3.Wifi.CtrlHeaders

open CtrlBAckResponseHeader

/-! ## Octets and bits -/

theorem and_mask (n k : ℕ) : n &&& (2 ^ k - 1) = n % 2 ^ k := Nat.and_two_pow_sub_one_eq_mod n k

theorem readLsbtohU16_write {n : ℕ} (hn : n < 65536) (rest : List UInt8) :
    readLsbtohU16 (writeHtolsbU16 n ++ rest) = some (n, rest) := by
  have hlow : (UInt8.ofNat (n &&& 0xff)).toNat = n % 256 := by
    rw [UInt8.toNat_ofNat', show (0xff : ℕ) = 2 ^ 8 - 1 from rfl, and_mask, Nat.mod_mod]
    rfl
  have hhigh : (UInt8.ofNat (n >>> 8 &&& 0xff)).toNat = n / 256 := by
    rw [UInt8.toNat_ofNat', show (0xff : ℕ) = 2 ^ 8 - 1 from rfl, and_mask, Nat.mod_mod,
      Nat.shiftRight_eq_div_pow]
    omega
  have hjoin : (n / 256) <<< 8 ||| n % 256 = n := by
    have hlt : n % 256 < 2 ^ 8 := Nat.mod_lt _ (by decide)
    rw [← Nat.shiftLeft_add_eq_or_of_lt hlt, Nat.shiftLeft_eq]
    omega
  show some (_ <<< 8 ||| _, rest) = _
  rw [hlow, hhigh, hjoin]

theorem length_writeHtolsbU16 (n : ℕ) : (writeHtolsbU16 n).length = 2 := rfl

theorem readU8s_append (octets rest : List UInt8) :
    readU8s octets.length (octets ++ rest) = some (octets, rest) := by
  rw [readU8s, if_pos (by rw [List.length_append]; omega), List.take_left, List.drop_left]

theorem readAddress_append (ra : Mac48Address) (rest : List UInt8) :
    readAddress (ra.octets ++ rest) = some (ra, rest) := by
  obtain ⟨octets, hlen⟩ := ra
  have htake : (octets ++ rest).take 6 = octets := by rw [← hlen, List.take_left]
  have hdrop : (octets ++ rest).drop 6 = rest := by rw [← hlen, List.drop_left]
  have hle : 6 ≤ (octets ++ rest).length := by
    rw [List.length_append]
    omega
  rw [readAddress, dif_pos hle]
  simp only [htake, hdrop]

/-- The starting sequence control, with the fragment number below the starting sequence. -/
theorem sequenceControl_eq {seq bits : ℕ} (hseq : seq < 4096) (hbits : bits < 16) :
    seq <<< 4 &&& 0xfff0 ||| bits = seq * 16 + bits := by
  have hmask : seq <<< 4 &&& 0xfff0 = seq <<< 4 := by
    rw [show (0xfff0 : ℕ) = (2 ^ 12 - 1) <<< 4 from rfl, ← Nat.shiftLeft_and_distrib, and_mask,
      Nat.mod_eq_of_lt (show seq < 2 ^ 12 from hseq)]
  rw [hmask, ← Nat.shiftLeft_add_eq_or_of_lt (show bits < 2 ^ 4 from hbits), Nat.shiftLeft_eq]

theorem startingSeq_sequenceControl {seq bits : ℕ} (hseq : seq < 4096) (hbits : bits < 16) :
    (seq * 16 + bits) >>> 4 &&& 0x0fff = seq := by
  rw [show (0x0fff : ℕ) = 2 ^ 12 - 1 from rfl, and_mask, Nat.shiftRight_eq_div_pow]
  omega

/-- The fragment number of a length is the length that is read. -/
theorem lengthOfFragment_sequenceControl {len : ℕ} (seq : ℕ)
    (hlen : len = 4 ∨ len = 8 ∨ len = 16 ∨ len = 32) :
    lengthOfFragment (seq * 16 + fragmentBits len) = some len := by
  have hlow (n : ℕ) : n &&& 0x0001 = n % 2 := Nat.and_two_pow_sub_one_eq_mod n 1
  have hpair (n : ℕ) : n &&& 0x0003 = n % 4 := Nat.and_two_pow_sub_one_eq_mod n 2
  simp only [lengthOfFragment, hlow, hpair, Nat.shiftRight_eq_div_pow]
  rcases hlen with rfl | rfl | rfl | rfl
  all_goals
    simp only [fragmentBits]
    split_ifs <;> first | rfl | omega

theorem compressedLength_sequenceControl {len : ℕ} (seq : ℕ) (hlen : len = 8 ∨ len = 32) :
    compressedLength (seq * 16 + if len = 32 then 4 else 0) = some len := by
  have hlow (n : ℕ) : n &&& 0x0001 = n % 2 := Nat.and_two_pow_sub_one_eq_mod n 1
  have hpair (n : ℕ) : n &&& 0x0003 = n % 4 := Nat.and_two_pow_sub_one_eq_mod n 2
  simp only [compressedLength, hlow, hpair, Nat.shiftRight_eq_div_pow]
  rcases hlen with rfl | rfl
  all_goals
    split_ifs <;> first | rfl | omega

theorem fragmentBits_lt (len : ℕ) : fragmentBits len < 16 := by
  unfold fragmentBits
  split_ifs <;> decide

/-! ## Valid block acks -/

/-- The entry has a bitmap in the frame. -/
def Acknowledgement (info : BaInfoInstance) : Prop :=
  aid11 info ≠ 2045 ∧ ackType info = false ∧ tid info < 8

instance (info : BaInfoInstance) : Decidable (Acknowledgement info) :=
  inferInstanceAs (Decidable (_ ∧ _))

/-- An entry of a Multi-STA block ack, with the length of its bitmap. -/
inductive EntryValid (info : BaInfoInstance) (bitmapLen : ℕ) : Prop
  | acknowledgement (hack : Acknowledgement info)
      (hlen : bitmapLen = 4 ∨ bitmapLen = 8 ∨ bitmapLen = 16 ∨ bitmapLen = 32)
  | noBitmap (haid : aid11 info ≠ 2045) (hack : ackType info = true ∨ 8 ≤ tid info)
      (hlen : bitmapLen = 0)
  | unassociated (haid : aid11 info = 2045) (hlen : bitmapLen = 8)

/-- What holds of every entry: its fields have their widths and the bitmap its length. -/
structure InfoValid (info : BaInfoInstance) (bitmapLen : ℕ) : Prop where
  aidTidInfo_lt : info.m_aidTidInfo < 65536
  startingSeq_lt : info.m_startingSeq < 4096
  length_eq : info.m_bitmap.length = bitmapLen

/-- The types that are sent, with their entries. -/
structure CtrlBAckResponseHeader.Valid (h : CtrlBAckResponseHeader) : Prop where
  infos : List.Forall₂ InfoValid h.m_baInfo h.m_baType.m_bitmapLen
  lengths : match h.m_baType.m_variant with
    | .basic => h.m_baType.m_bitmapLen = [128] ∧ h.m_tidInfo < 16
    | .compressed =>
      (h.m_baType.m_bitmapLen = [8] ∨ h.m_baType.m_bitmapLen = [32]) ∧ h.m_tidInfo < 16
    | .extendedCompressed => h.m_baType.m_bitmapLen = [8] ∧ h.m_tidInfo < 16
    | .multiTid => False
    | .multiSta => List.Forall₂ EntryValid h.m_baInfo h.m_baType.m_bitmapLen

theorem entry_eq {h : CtrlBAckResponseHeader} {index : ℕ} {info : BaInfoInstance}
    (hindex : h.m_baType.m_variant = .multiSta ∨ index = 0)
    (hget : h.m_baInfo[index]? = some info) : h.entry index = some info := by
  rw [entry, guard, if_pos hindex, hget]
  rfl

theorem guard_bind {α : Type} {p : Prop} [Decidable p] (hp : p) (f : Unit → Option α) :
    (guard p : Option Unit).bind f = f () := by
  rw [guard, if_pos hp]
  rfl

/-! ## The control field -/

theorem getBaControl_bits (policy : Bool) (variant : Variant) (tidInfo : Fin 16) :
    let ba := getBaControl ⟨policy, ⟨variant, []⟩, tidInfo, []⟩
    ba < 65536 ∧ variantOf ba = some variant ∧ decide (ba &&& 0x01 = 1) = policy ∧
      (variant ≠ .multiSta → ba >>> 12 &&& 0x0f = tidInfo) := by
  revert tidInfo
  cases policy <;> cases variant <;> decide

theorem setBaControl_eq (f : CtrlBAckResponseHeader) {ba tidInfo : ℕ} {variant : Variant}
    (hvariant : variantOf ba = some variant)
    (htid : variant ≠ .multiSta → ba >>> 12 &&& 0x0f = tidInfo) :
    f.setBaControl ba = some
      { ({ f with m_baAckPolicy := ba &&& 0x01 = 1 }.setType (.ofVariant variant)) with
        m_tidInfo := if variant = .multiSta then f.m_tidInfo else tidInfo } := by
  rw [setBaControl, hvariant]
  by_cases hsta : variant = .multiSta
  · subst hsta
    rfl
  · simp only [Option.bind_eq_bind, Option.bind_some, if_neg hsta, htid hsta]

/-- The decoder `f` after the control field of `h`. -/
def afterControl (f h : CtrlBAckResponseHeader) : CtrlBAckResponseHeader where
  m_baAckPolicy := h.m_baAckPolicy
  m_baType := .ofVariant h.m_baType.m_variant
  m_tidInfo := if h.m_baType.m_variant = .multiSta then f.m_tidInfo else h.m_tidInfo
  m_baInfo := (BlockAckType.ofVariant h.m_baType.m_variant).m_bitmapLen.map fun bitmapLen =>
    ⟨0, 0, List.replicate bitmapLen 0, .zero⟩

theorem variant_afterControl (f h : CtrlBAckResponseHeader) :
    (afterControl f h).m_baType.m_variant = h.m_baType.m_variant := by
  rw [afterControl]
  cases h.m_baType.m_variant <;> rfl

theorem setBaControl_getBaControl (f h : CtrlBAckResponseHeader)
    (htid : h.m_baType.m_variant ≠ .multiSta → h.m_tidInfo < 16) :
    h.getBaControl < 65536 ∧ f.setBaControl h.getBaControl = some (afterControl f h) := by
  obtain ⟨policy, ⟨variant, lens⟩, tidInfo, infos⟩ := h
  have hbits : ∃ t : Fin 16, (variant ≠ .multiSta → t = tidInfo) ∧
      getBaControl ⟨policy, ⟨variant, lens⟩, tidInfo, infos⟩ =
        getBaControl ⟨policy, ⟨variant, []⟩, t, []⟩ := by
    by_cases hsta : variant = .multiSta
    · subst hsta
      exact ⟨0, fun h => absurd rfl h, rfl⟩
    · exact ⟨⟨tidInfo, htid hsta⟩, fun _ => rfl, rfl⟩
  obtain ⟨t, ht, hba⟩ := hbits
  obtain ⟨hlt, hvariant, hpolicy, htidBits⟩ := getBaControl_bits policy variant t
  rw [hba]
  refine ⟨hlt, ?_⟩
  rw [setBaControl_eq f hvariant fun h => (htidBits h).trans (ht h), hpolicy]
  rfl

/-! ## One bitmap -/

/-- A block ack of another variant than Multi-STA is read back. -/
structure Single (h : CtrlBAckResponseHeader) (info : BaInfoInstance) (bitmapLen : ℕ) : Prop where
  infos : h.m_baInfo = [info]
  lens : h.m_baType.m_bitmapLen = [bitmapLen]
  info : InfoValid info bitmapLen
  tid_lt : h.m_tidInfo < 16
  lengths : (h.m_baType.m_variant = .basic ∧ bitmapLen = 128) ∨
    (h.m_baType.m_variant = .compressed ∧ (bitmapLen = 8 ∨ bitmapLen = 32)) ∨
    (h.m_baType.m_variant = .extendedCompressed ∧ bitmapLen = 8)

/-- The entry that is read where there is a bitmap. -/
def readInfo (info : BaInfoInstance) : BaInfoInstance :=
  ⟨0, info.m_startingSeq, info.m_bitmap, .zero⟩

theorem deserializeBitmap_single (d : CtrlBAckResponseHeader) {info : BaInfoInstance}
    (octets : List UInt8) {bitmapLen : ℕ} (hinfos : d.m_baInfo = [info])
    (hlens : d.m_baType.m_bitmapLen = [bitmapLen]) (hinfo : info.m_bitmap.length = bitmapLen)
    (hoctets : octets.length = bitmapLen) :
    d.deserializeBitmap octets 0 =
      some ({ d with m_baInfo := [{ info with m_bitmap := octets }] }, []) := by
  have hread : readU8s bitmapLen octets = some (octets, []) := by
    have := readU8s_append octets []
    rwa [hoctets, List.append_nil] at this
  have hentry : d.entry 0 = some info := entry_eq (Or.inr rfl) (by rw [hinfos]; rfl)
  rw [deserializeBitmap, hentry, hlens, hinfos]
  simp only [Option.bind_eq_bind, Option.bind_some, List.getElem?_cons_zero,
    guard_bind (Nat.le_of_eq hinfo.symm), hread, List.drop_of_length_le (Nat.le_of_eq hinfo),
    List.append_nil]
  rfl

theorem Single.getStartingSequenceControl {h : CtrlBAckResponseHeader} {info : BaInfoInstance}
    {len : ℕ} (hs : Single h info len) : h.getStartingSequenceControl 0 = some
      (info.m_startingSeq * 16 +
        if h.m_baType.m_variant = .compressed ∧ len = 32 then 4 else 0) := by
  have hentry : h.entry 0 = some info := entry_eq (Or.inr rfl) (by rw [hs.infos]; rfl)
  have hseq := hs.info.startingSeq_lt
  have hplain := sequenceControl_eq hseq (show 0 < 16 by decide)
  have hwide := sequenceControl_eq hseq (show 4 < 16 by decide)
  rw [Nat.or_zero] at hplain
  rw [CtrlBAckResponseHeader.getStartingSequenceControl, hentry, hs.lens]
  rcases hs.lengths with ⟨hv, -⟩ | ⟨hv, -⟩ | ⟨hv, -⟩
  · simp only [hv]
    exact congrArg some hplain
  · simp only [hv, true_and]
    by_cases hlen : len = 32
    · rw [if_pos hlen, ← hwide]
      exact congrArg some (if_pos hlen)
    · rw [if_neg hlen, ← hplain]
      exact congrArg some (if_neg hlen)
  · simp only [hv]
    exact congrArg some hplain

/-- What `SetStartingSequenceControl` makes of a decoder that has read the control field. -/
theorem Single.setStartingSequenceControl {h d : CtrlBAckResponseHeader} {info : BaInfoInstance}
    {len : ℕ} (hs : Single h info len)
    (htype : d.m_baType = .ofVariant h.m_baType.m_variant)
    (hinfos : d.m_baInfo = d.m_baType.m_bitmapLen.map fun n => ⟨0, 0, List.replicate n 0, .zero⟩) :
    d.setStartingSequenceControl (info.m_startingSeq * 16 +
        if h.m_baType.m_variant = .compressed ∧ len = 32 then 4 else 0) 0 = some { d with
      m_baType := ⟨h.m_baType.m_variant, [len]⟩
      m_baInfo := [⟨0, info.m_startingSeq, List.replicate len 0, .zero⟩] } := by
  have hseq := hs.info.startingSeq_lt
  have hplain := startingSeq_sequenceControl hseq (show 0 < 16 by decide)
  have hwide := startingSeq_sequenceControl hseq (show 4 < 16 by decide)
  obtain ⟨policy, type, tidInfo, infos⟩ := d
  dsimp only at htype hinfos
  subst htype hinfos
  rcases hs.lengths with ⟨hv, rfl⟩ | ⟨hv, hlen⟩ | ⟨hv, rfl⟩
  · rw [hv]
    show some (CtrlBAckResponseHeader.mk policy _ tidInfo
      [⟨0, (info.m_startingSeq * 16 + 0) >>> 4 &&& 0x0fff, _, _⟩]) = _
    rw [hplain]
    rfl
  · rw [hv]
    have hread := compressedLength_sequenceControl info.m_startingSeq hlen
    have hseqBits : (info.m_startingSeq * 16 + if len = 32 then 4 else 0) >>> 4 &&& 0x0fff =
        info.m_startingSeq := by
      split
      · exact hwide
      · exact hplain
    simp only [true_and]
    rw [CtrlBAckResponseHeader.setStartingSequenceControl]
    simp only [BlockAckType.ofVariant, hread]
    show some (CtrlBAckResponseHeader.mk policy _ tidInfo [⟨0, _ >>> 4 &&& 0x0fff, _, _⟩]) = _
    rw [hseqBits]
    rfl
  · rw [hv]
    show some (CtrlBAckResponseHeader.mk policy _ tidInfo
      [⟨0, (info.m_startingSeq * 16 + 0) >>> 4 &&& 0x0fff, _, _⟩]) = _
    rw [hplain]
    rfl

/-- A block ack with one bitmap is written in its size and read back. -/
theorem Single.deserialize_serialize {h : CtrlBAckResponseHeader} {info : BaInfoInstance}
    {len : ℕ} (hs : Single h info len) (f : CtrlBAckResponseHeader) :
    ∃ bytes, h.serialize = some bytes ∧ h.getSerializedSize = some bytes.length ∧
      f.deserialize bytes = some (⟨h.m_baAckPolicy, h.m_baType, h.m_tidInfo,
        [⟨0, info.m_startingSeq, info.m_bitmap, .zero⟩]⟩, bytes.length) := by
  have hsta : h.m_baType.m_variant ≠ .multiSta := by
    rcases hs.lengths with ⟨hv, -⟩ | ⟨hv, -⟩ | ⟨hv, -⟩ <;> rw [hv] <;> decide
  have htid : h.m_baType.m_variant ≠ .multiTid := by
    rcases hs.lengths with ⟨hv, -⟩ | ⟨hv, -⟩ | ⟨hv, -⟩ <;> rw [hv] <;> decide
  have hentry : h.entry 0 = some info := entry_eq (Or.inr rfl) (by rw [hs.infos]; rfl)
  have hcontrol := hs.getStartingSequenceControl
  obtain ⟨hba, hset⟩ := setBaControl_getBaControl f h fun _ => hs.tid_lt
  set control := info.m_startingSeq * 16 +
    if h.m_baType.m_variant = .compressed ∧ len = 32 then 4 else 0 with hdef
  have hlt : control < 65536 := by
    have := hs.info.startingSeq_lt
    rw [hdef]
    split <;> omega
  refine ⟨writeHtolsbU16 h.getBaControl ++ writeHtolsbU16 control ++ info.m_bitmap, ?_, ?_, ?_⟩
  · unfold serialize
    split
    · next hv => exact absurd hv hsta
    · next hv => exact absurd hv htid
    · rw [hcontrol, hentry]
      rfl
  · unfold getSerializedSize
    split
    · next hv => exact absurd hv htid
    · next hv => exact absurd hv hsta
    · rw [hs.lens, List.length_append, hs.info.length_eq]
      show some (2 + (2 + len)) = some (4 + len)
      congr 1
      omega
  · have hbitmap := deserializeBitmap_single ⟨h.m_baAckPolicy, ⟨h.m_baType.m_variant, [len]⟩,
        h.m_tidInfo, [⟨0, info.m_startingSeq, List.replicate len 0, .zero⟩]⟩ info.m_bitmap
      rfl rfl List.length_replicate hs.info.length_eq
    have htype : h.m_baType = ⟨h.m_baType.m_variant, [len]⟩ := by rw [← hs.lens]
    unfold deserialize
    rw [List.append_assoc, readLsbtohU16_write hba]
    simp only [Option.bind_eq_bind, Option.bind_some, hset]
    split
    · next hv => exact absurd ((variant_afterControl f h).symm.trans hv) hsta
    · next hv => exact absurd ((variant_afterControl f h).symm.trans hv) htid
    · rw [readLsbtohU16_write hlt, Option.bind_some, hs.setStartingSequenceControl rfl rfl,
        Option.bind_some]
      simp only [afterControl, if_neg hsta]
      rw [hbitmap, ← htype]
      rfl

/-! ## Many entries -/

/-- What is read of an entry: the bitmap and the starting sequence of an acknowledgement, the
address of an unassociated station. -/
def decodedInfo (info : BaInfoInstance) : BaInfoInstance where
  m_aidTidInfo := info.m_aidTidInfo
  m_startingSeq := if Acknowledgement info then info.m_startingSeq else 0
  m_bitmap := if Acknowledgement info then info.m_bitmap else []
  m_ra := if aid11 info = 2045 then info.m_ra else .zero

/-- A decoder with one entry more. -/
def CtrlBAckResponseHeader.push (d : CtrlBAckResponseHeader) (info : BaInfoInstance) (len : ℕ) :
    CtrlBAckResponseHeader :=
  { d with
    m_baType := ⟨d.m_baType.m_variant, d.m_baType.m_bitmapLen ++ [len]⟩
    m_baInfo := d.m_baInfo ++ [info] }

theorem modify_last {α : Type} {xs : List α} {n : ℕ} (hn : xs.length = n) (x : α) (f : α → α) :
    (xs ++ [x]).modify n f = xs ++ [f x] := by
  induction xs generalizing n with
  | nil =>
    subst hn
    rfl
  | cons y xs ih =>
    subst hn
    exact congrArg (y :: ·) (ih rfl)

theorem set_last {α : Type} {xs : List α} {n : ℕ} (hn : xs.length = n) (x y : α) :
    (xs ++ [x]).set n y = xs ++ [y] := by
  subst hn
  rw [List.set_append_right _ _ (Nat.le_refl _), Nat.sub_self]
  rfl

variable {d h : CtrlBAckResponseHeader} {info : BaInfoInstance} {index len : ℕ}

/-- The decoder has a number of entries. -/
structure Counts (d : CtrlBAckResponseHeader) (index : ℕ) : Prop where
  variant : d.m_baType.m_variant = .multiSta
  infos : d.m_baInfo.length = index
  lens : d.m_baType.m_bitmapLen.length = index

theorem Counts.push (hd : Counts d index) (info : BaInfoInstance) (len : ℕ) :
    Counts (d.push info len) (index + 1) where
  variant := hd.variant
  infos := by rw [CtrlBAckResponseHeader.push, List.length_append, hd.infos]; rfl
  lens := by rw [CtrlBAckResponseHeader.push, List.length_append, hd.lens]; rfl

theorem Counts.entry_push (hd : Counts d index) (info : BaInfoInstance) (len : ℕ) :
    (d.push info len).entry index = some info := by
  refine entry_eq (Or.inl hd.variant) ?_
  rw [CtrlBAckResponseHeader.push, ← hd.infos]
  exact List.getElem?_concat_length

/-- The bitmap length and the starting sequence from the starting sequence control. -/
theorem Counts.setStartingSequenceControl (hd : Counts d index) (info : BaInfoInstance)
    {control : ℕ} (hlen : lengthOfFragment control = some len) :
    (d.push info 0).setStartingSequenceControl control index = some (d.push
      { info with
        m_startingSeq := control >>> 4 &&& 0x0fff
        m_bitmap := List.replicate len 0 } len) := by
  rw [CtrlBAckResponseHeader.setStartingSequenceControl, hd.entry_push info 0]
  simp only [hlen, Option.bind_eq_bind, Option.bind_some, CtrlBAckResponseHeader.push,
    set_last hd.lens, modify_last hd.infos]
  rw [hd.variant]

/-- The bitmap of the last entry. -/
theorem Counts.deserializeBitmap (hd : Counts d index) (info : BaInfoInstance)
    (octets rest : List UInt8) (hinfo : info.m_bitmap.length = len)
    (hoctets : octets.length = len) :
    (d.push info len).deserializeBitmap (octets ++ rest) index =
      some (d.push { info with m_bitmap := octets } len, rest) := by
  have hread : readU8s len (octets ++ rest) = some (octets, rest) :=
    hoctets ▸ readU8s_append octets rest
  have hgetLen : (d.push info len).m_baType.m_bitmapLen[index]? = some len := by
    rw [CtrlBAckResponseHeader.push, ← hd.lens]
    exact List.getElem?_concat_length
  rw [CtrlBAckResponseHeader.deserializeBitmap, hd.entry_push info len, hgetLen]
  simp only [Option.bind_eq_bind, Option.bind_some, guard_bind (Nat.le_of_eq hinfo.symm), hread,
    List.drop_of_length_le (Nat.le_of_eq hinfo), List.append_nil]
  simp only [CtrlBAckResponseHeader.push, set_last hd.infos]

theorem not_acknowledgement (hack : ackType info = true ∨ 8 ≤ tid info) :
    ¬Acknowledgement info := by
  rintro ⟨-, hfalse, htid⟩
  rcases hack with hack | hack
  · rw [hfalse] at hack
    cases hack
  · omega

/-- What is written for an entry. -/
def entryBytes (info : BaInfoInstance) (len : ℕ) : List UInt8 :=
  writeHtolsbU16 info.m_aidTidInfo ++
    if aid11 info = 2045 then List.replicate 4 0 ++ info.m_ra.octets
    else if Acknowledgement info then
      writeHtolsbU16 (info.m_startingSeq * 16 + fragmentBits len) ++ info.m_bitmap
    else []

/-- One turn of the loop of `Serialize`. -/
theorem serializeEntry_eq (hvariant : h.m_baType.m_variant = .multiSta)
    (hcount : h.m_baInfo.length = h.m_baType.m_bitmapLen.length)
    (hinfo : h.m_baInfo[index]? = some info) (hlen : h.m_baType.m_bitmapLen[index]? = some len)
    (hv : InfoValid info len) (he : EntryValid info len) :
    h.serializeEntry index info = some (entryBytes info len) := by
  unfold serializeEntry entryBytes
  cases he with
  | acknowledgement hack hlens =>
    have hpos : 0 < info.m_bitmap.length := by
      rw [hv.length_eq]
      omega
    have hcontrol : h.getStartingSequenceControl index =
        some (info.m_startingSeq * 16 + fragmentBits len) := by
      rw [CtrlBAckResponseHeader.getStartingSequenceControl, entry_eq (Or.inl hvariant) hinfo]
      simp only [hvariant, Option.bind_eq_bind, Option.bind_some, guard_bind hcount,
        guard_bind hpos, hlen, sequenceControl_eq hv.startingSeq_lt (fragmentBits_lt len)]
    rw [if_pos hack.1, if_pos hpos, if_neg hack.1, if_pos hack, hcontrol]
    exact congrArg some (List.append_assoc _ _ _)
  | noBitmap haid hack hzero =>
    have hno := not_acknowledgement hack
    rw [if_pos haid, if_neg (by rw [hv.length_eq, hzero]; decide), if_neg haid, if_neg hno,
      List.append_nil]
  | unassociated haid _ =>
    rw [if_neg (not_not_intro haid), if_pos haid]
    exact congrArg some (List.append_assoc _ _ _)

theorem length_entryBytes (hv : InfoValid info len) (he : EntryValid info len) :
    (entryBytes info len).length = 2 + (if len > 0 then 2 else 0) + len := by
  rw [entryBytes, List.length_append, length_writeHtolsbU16]
  cases he with
  | acknowledgement hack hlens =>
    rw [if_neg hack.1, if_pos hack, if_pos (by omega), List.length_append, hv.length_eq,
      length_writeHtolsbU16]
    omega
  | noBitmap haid hack hzero =>
    have hno := not_acknowledgement hack
    rw [if_neg haid, if_neg hno, hzero]
    rfl
  | unassociated haid hlen =>
    rw [if_pos haid, hlen, List.length_append, info.m_ra.length_eq]
    rfl

/-- One turn of the loop of `Deserialize`. -/
theorem Counts.deserializeEntry (hd : Counts d index) (hv : InfoValid info len)
    (he : EntryValid info len) (rest : List UInt8) :
    d.deserializeEntry (entryBytes info len ++ rest) index =
      some (d.push (decodedInfo info) len, rest) := by
  have haidOf (i : BaInfoInstance) (hi : i.m_aidTidInfo = info.m_aidTidInfo) :
      aid11 i = aid11 info ∧ ackType i = ackType info ∧ tid i = tid info := by
    simp only [aid11, ackType, tid, hi]
    exact ⟨trivial, trivial, trivial⟩
  obtain ⟨haid, hack, htid⟩ :=
    haidOf { BaInfoInstance.zero with m_aidTidInfo := info.m_aidTidInfo } rfl
  rw [CtrlBAckResponseHeader.deserializeEntry, entryBytes, List.append_assoc,
    readLsbtohU16_write hv.aidTidInfo_lt]
  simp only [Option.bind_eq_bind, Option.bind_some, haid, hack, htid]
  cases he with
  | acknowledgement h hlens =>
    have hseq := hv.startingSeq_lt
    have hbits := fragmentBits_lt len
    have hcontext : (!ackType info) = true ∧ tid info < 8 := ⟨by rw [h.2.1]; rfl, h.2.2⟩
    have hlength := lengthOfFragment_sequenceControl info.m_startingSeq hlens
    simp only [if_neg h.1, if_pos h.1, if_pos h, if_pos hcontext, List.append_assoc,
      readLsbtohU16_write (show info.m_startingSeq * 16 + fragmentBits len < 65536 by omega),
      Option.bind_some]
    have hset := hd.setStartingSequenceControl
      { BaInfoInstance.zero with m_aidTidInfo := info.m_aidTidInfo } hlength
    rw [CtrlBAckResponseHeader.push] at hset
    rw [hset, Option.bind_some, hd.deserializeBitmap _ _ _ List.length_replicate hv.length_eq,
      startingSeq_sequenceControl hseq hbits]
    simp only [decodedInfo, if_pos h, if_neg h.1]
    rfl
  | noBitmap haid hack hzero =>
    have hno := not_acknowledgement hack
    have hcontext : ¬((!ackType info) = true ∧ tid info < 8) := by
      rintro ⟨hfalse, hlt⟩
      exact hno ⟨haid, by simpa using hfalse, hlt⟩
    simp only [if_neg haid, if_pos haid, if_neg hno, if_neg hcontext, List.nil_append]
    simp only [decodedInfo, if_neg hno, if_neg haid, hzero]
    rfl
  | unassociated haid hlen =>
    have hno : ¬Acknowledgement info := fun h => h.1 haid
    have hreserved := readU8s_append (List.replicate 4 0) (info.m_ra.octets ++ rest)
    rw [List.length_replicate] at hreserved
    simp only [if_pos haid, if_neg (not_not_intro haid), List.append_assoc, hreserved,
      Option.bind_some, readAddress_append]
    simp only [decodedInfo, if_neg hno, if_pos haid, hlen, CtrlBAckResponseHeader.push,
      set_last hd.lens, set_last hd.infos]
    rfl

variable {infos : List BaInfoInstance} {lens : List ℕ}

/-- What is written for all entries. -/
def entriesBytes (infos : List BaInfoInstance) (lens : List ℕ) : List UInt8 :=
  (List.zipWith entryBytes infos lens).flatten

/-- The loop of `Serialize`, after the entries `pre`. -/
theorem serializeEntries_eq (pre : List BaInfoInstance) (preLens : List ℕ) (index : ℕ)
    (hvariant : h.m_baType.m_variant = .multiSta)
    (hinfos : h.m_baInfo = pre ++ infos) (hlens : h.m_baType.m_bitmapLen = preLens ++ lens)
    (hpre : pre.length = index) (hpreLens : preLens.length = index)
    (hv : List.Forall₂ InfoValid infos lens) (he : List.Forall₂ EntryValid infos lens) :
    h.serializeEntries index infos = some (entriesBytes infos lens) := by
  induction hv generalizing pre preLens index with
  | nil => rfl
  | @cons info len infos lens hv _ ih =>
    obtain ⟨he, hes⟩ := List.forall₂_cons.mp he
    have hcount : h.m_baInfo.length = h.m_baType.m_bitmapLen.length := by
      rw [hinfos, hlens, List.length_append, List.length_append, List.length_cons,
        List.length_cons, hes.length_eq, hpre, hpreLens]
    have hinfo : h.m_baInfo[index]? = some info := by
      rw [hinfos, ← hpre, List.getElem?_append_right (Nat.le_refl _), Nat.sub_self]
      rfl
    have hlen : h.m_baType.m_bitmapLen[index]? = some len := by
      rw [hlens, ← hpreLens, List.getElem?_append_right (Nat.le_refl _), Nat.sub_self]
      rfl
    have hrest := ih (pre ++ [info]) (preLens ++ [len]) (index + 1)
      (by rw [hinfos, List.append_assoc]; rfl) (by rw [hlens, List.append_assoc]; rfl)
      (by rw [List.length_append, hpre]; rfl) (by rw [List.length_append, hpreLens]; rfl) hes
    rw [serializeEntries, serializeEntry_eq hvariant hcount hinfo hlen hv he, hrest]
    rfl

theorem length_entriesBytes (hv : List.Forall₂ InfoValid infos lens)
    (he : List.Forall₂ EntryValid infos lens) : (entriesBytes infos lens).length =
      (lens.map fun len => 2 + (if len > 0 then 2 else 0) + len).sum := by
  induction hv with
  | nil => rfl
  | cons hv _ ih =>
    obtain ⟨he, hes⟩ := List.forall₂_cons.mp he
    rw [List.map_cons, List.sum_cons, ← ih hes, ← length_entryBytes hv he]
    exact List.length_append

theorem deserializeEntries_cons {fuel : ℕ} {bytes : List UInt8} (hpos : 0 < bytes.length)
    (hfuel : bytes.length ≤ fuel) : deserializeEntries fuel d bytes index =
      (d.deserializeEntry bytes index).bind fun r =>
        deserializeEntries (fuel - 1) r.1 r.2 (index + 1) := by
  cases bytes with
  | nil => exact absurd hpos (Nat.lt_irrefl 0)
  | cons b bytes =>
    cases fuel with
    | zero => exact absurd hfuel (Nat.not_succ_le_zero _)
    | succ fuel => rfl

/-- The loop of `Deserialize`, after any entries. -/
theorem Counts.deserializeEntries (hd : Counts d index)
    (hv : List.Forall₂ InfoValid infos lens) (he : List.Forall₂ EntryValid infos lens)
    {fuel : ℕ} (hfuel : (entriesBytes infos lens).length ≤ fuel) :
    CtrlBAckResponseHeader.deserializeEntries fuel d (entriesBytes infos lens) index = some { d with
      m_baType := ⟨.multiSta, d.m_baType.m_bitmapLen ++ lens⟩
      m_baInfo := d.m_baInfo ++ infos.map decodedInfo } := by
  induction hv generalizing d index fuel with
  | nil =>
    rw [List.map_nil, List.append_nil, List.append_nil, ← hd.variant]
    cases fuel <;> rfl
  | @cons info len infos lens hv _ ih =>
    obtain ⟨he, hes⟩ := List.forall₂_cons.mp he
    have hbytes : entriesBytes (info :: infos) (len :: lens) =
        entryBytes info len ++ entriesBytes infos lens := rfl
    have hlength := length_entryBytes hv he
    rw [hbytes, List.length_append] at hfuel
    rw [hbytes, deserializeEntries_cons (by rw [List.length_append]; omega)
      (by rw [List.length_append]; exact hfuel), hd.deserializeEntry hv he]
    show CtrlBAckResponseHeader.deserializeEntries _ _ _ _ = _
    rw [ih (hd.push (decodedInfo info) len) hes (by omega)]
    simp only [CtrlBAckResponseHeader.push, List.append_assoc, List.map_cons]
    rfl

/-- A Multi-STA block ack is written in its size and read back. -/
theorem multiSta_deserialize_serialize (hvariant : h.m_baType.m_variant = .multiSta)
    (hv : List.Forall₂ InfoValid h.m_baInfo h.m_baType.m_bitmapLen)
    (he : List.Forall₂ EntryValid h.m_baInfo h.m_baType.m_bitmapLen)
    (f : CtrlBAckResponseHeader) :
    ∃ bytes, h.serialize = some bytes ∧ h.getSerializedSize = some bytes.length ∧
      f.deserialize bytes = some (⟨h.m_baAckPolicy, h.m_baType, f.m_tidInfo,
        h.m_baInfo.map decodedInfo⟩, bytes.length) := by
  obtain ⟨hba, hset⟩ := setBaControl_getBaControl f h fun hne => absurd hvariant hne
  have hentries := serializeEntries_eq [] [] 0 hvariant rfl rfl rfl rfl hv he
  refine ⟨writeHtolsbU16 h.getBaControl ++ entriesBytes h.m_baInfo h.m_baType.m_bitmapLen,
    ?_, ?_, ?_⟩
  · rw [serialize, hvariant, hentries]
    rfl
  · rw [getSerializedSize, hvariant, List.length_append, length_entriesBytes hv he]
    rfl
  · have hcounts : Counts (afterControl f h) 0 := by
      refine ⟨(variant_afterControl f h).trans hvariant, ?_, ?_⟩ <;> rw [afterControl, hvariant] <;>
        rfl
    rw [deserialize, readLsbtohU16_write hba]
    simp only [Option.bind_eq_bind, Option.bind_some, hset, hcounts.variant]
    have htype : h.m_baType = ⟨.multiSta, h.m_baType.m_bitmapLen⟩ := by rw [← hvariant]
    rw [hcounts.deserializeEntries hv he (Nat.le_refl _), Option.bind_some]
    simp only [afterControl, hvariant, ↓reduceIte]
    rw [htype]
    rfl

/-! ## The frame -/

/-- What is the same in a block ack and in the one that is read from its frame: the type with the
lengths of the bitmaps, the TIDs, and the fields of the entries that are sent. -/
structure Decoded (h d : CtrlBAckResponseHeader) : Prop where
  policy : d.m_baAckPolicy = h.m_baAckPolicy
  type : d.m_baType = h.m_baType
  length : d.m_baInfo.length = h.m_baInfo.length
  tid : ∀ index, d.getTidInfo index = h.getTidInfo index
  entry : ∀ (index : ℕ) (info info' : BaInfoInstance), h.m_baType.m_variant = .multiSta →
    h.m_baInfo[index]? = some info → d.m_baInfo[index]? = some info' →
      aid11 info' = aid11 info ∧ ackType info' = ackType info ∧
        CtrlBAckResponseHeader.tid info' = CtrlBAckResponseHeader.tid info ∧
        (aid11 info = 2045 → info'.m_ra = info.m_ra)
  bitmap : ∀ (index : ℕ) (info info' : BaInfoInstance),
    (h.m_baType.m_variant = .multiSta → Acknowledgement info) →
    h.m_baInfo[index]? = some info → d.m_baInfo[index]? = some info' →
      info'.m_startingSeq = info.m_startingSeq ∧ info'.m_bitmap = info.m_bitmap

theorem CtrlBAckResponseHeader.Valid.single (hv : h.Valid)
    (hvariant : h.m_baType.m_variant ≠ .multiSta) : ∃ info len, Single h info len := by
  obtain ⟨hinfos, hlengths⟩ := hv
  have hone (len : ℕ) (hlen : h.m_baType.m_bitmapLen = [len]) :
      ∃ info, h.m_baInfo = [info] ∧ InfoValid info len := by
    rw [hlen] at hinfos
    obtain ⟨info, infos, hinfo, hrest, heq⟩ := List.forall₂_cons_right_iff.mp hinfos
    rw [List.forall₂_nil_right_iff.mp hrest] at heq
    exact ⟨info, heq, hinfo⟩
  cases hv : h.m_baType.m_variant with
  | basic =>
    rw [hv] at hlengths
    obtain ⟨info, heq, hinfo⟩ := hone 128 hlengths.1
    exact ⟨info, 128, heq, hlengths.1, hinfo, hlengths.2, Or.inl ⟨hv, rfl⟩⟩
  | compressed =>
    rw [hv] at hlengths
    rcases hlengths with ⟨hlen | hlen, htid⟩
    · obtain ⟨info, heq, hinfo⟩ := hone 8 hlen
      exact ⟨info, 8, heq, hlen, hinfo, htid, Or.inr (Or.inl ⟨hv, Or.inl rfl⟩)⟩
    · obtain ⟨info, heq, hinfo⟩ := hone 32 hlen
      exact ⟨info, 32, heq, hlen, hinfo, htid, Or.inr (Or.inl ⟨hv, Or.inr rfl⟩)⟩
  | extendedCompressed =>
    rw [hv] at hlengths
    obtain ⟨info, heq, hinfo⟩ := hone 8 hlengths.1
    exact ⟨info, 8, heq, hlengths.1, hinfo, hlengths.2, Or.inr (Or.inr ⟨hv, rfl⟩)⟩
  | multiTid =>
    rw [hv] at hlengths
    exact hlengths.elim
  | multiSta => exact absurd hv hvariant

theorem Single.decoded (hs : Single h info len) (hvariant : h.m_baType.m_variant ≠ .multiSta) :
    Decoded h ⟨h.m_baAckPolicy, h.m_baType, h.m_tidInfo,
      [⟨0, info.m_startingSeq, info.m_bitmap, .zero⟩]⟩ where
  policy := rfl
  type := rfl
  length := by rw [hs.infos]; rfl
  tid := by
    intro index
    simp only [getTidInfo, CtrlBAckResponseHeader.entry, hs.infos, if_neg hvariant, guard]
    cases index with
    | zero => rw [if_pos (Or.inr rfl)]; rfl
    | succ index => rfl
  entry := fun _ _ _ h => absurd h hvariant
  bitmap := by
    intro index i i' _ hi hi'
    rw [hs.infos] at hi
    cases index with
    | zero =>
      cases hi
      cases hi'
      exact ⟨rfl, rfl⟩
    | succ index => cases hi

theorem decoded_multiSta (hvariant : h.m_baType.m_variant = .multiSta) (t : ℕ) :
    Decoded h ⟨h.m_baAckPolicy, h.m_baType, t, h.m_baInfo.map decodedInfo⟩ where
  policy := rfl
  type := rfl
  length := List.length_map _
  tid := by
    intro index
    simp only [getTidInfo, CtrlBAckResponseHeader.entry, hvariant, if_true, List.getElem?_map]
    cases h.m_baInfo[index]? <;> rfl
  entry := by
    intro index i i' _ hi hi'
    rw [List.getElem?_map, hi] at hi'
    cases hi'
    exact ⟨rfl, rfl, rfl, fun haid => if_pos haid⟩
  bitmap := by
    intro index i i' hack hi hi'
    rw [List.getElem?_map, hi] at hi'
    cases hi'
    exact ⟨if_pos (hack hvariant), if_pos (hack hvariant)⟩

/-- A valid block ack is written in its size and read back. -/
theorem CtrlBAckResponseHeader.Valid.decoded (hv : h.Valid) (f : CtrlBAckResponseHeader) :
    ∃ bytes d, h.serialize = some bytes ∧ h.getSerializedSize = some bytes.length ∧
      f.deserialize bytes = some (d, bytes.length) ∧ Decoded h d := by
  by_cases hvariant : h.m_baType.m_variant = .multiSta
  · have hentries := hv.lengths
    rw [hvariant] at hentries
    obtain ⟨bytes, hwrite, hsize, hread⟩ :=
      multiSta_deserialize_serialize hvariant hv.infos hentries f
    exact ⟨bytes, _, hwrite, hsize, hread, decoded_multiSta hvariant _⟩
  · obtain ⟨info, len, hs⟩ := hv.single hvariant
    obtain ⟨bytes, hwrite, hsize, hread⟩ := hs.deserialize_serialize f
    exact ⟨bytes, _, hwrite, hsize, hread, hs.decoded hvariant⟩

end Ns3.Wifi.CtrlHeaders
