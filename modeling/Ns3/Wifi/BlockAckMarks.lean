import Ns3.Wifi.BlockAckRoundTrip

/-!
# The marks of a block ack

`SetReceivedPacket` marks the numbers within a bitmap and leaves the rest of the header as it is.
`IsPacketReceived` finds these marks, before the frame is written and after it is read.
-/

namespace Ns3.Wifi.CtrlHeaders

open CtrlBAckResponseHeader

/-- Mark numbers, each in a bitmap. -/
def CtrlBAckResponseHeader.setReceivedPackets :
    List (ℕ × ℕ) → CtrlBAckResponseHeader → Option CtrlBAckResponseHeader
  | [], h => some h
  | m :: marks, h => do
    let h ← h.setReceivedPacket m.1 m.2
    setReceivedPackets marks h

/-- How far a number is from the starting one. -/
def distance (seq startingSeq : ℕ) : ℕ := (seq + 4096 - startingSeq) % 4096

theorem distance_inj {s t startingSeq : ℕ} (hs : s < 4096) (ht : t < 4096)
    (hstart : startingSeq < 4096) (h : distance s startingSeq = distance t startingSeq) :
    s = t := by
  unfold distance at h
  omega

/-! ## The bits -/

/-- A bit of a bitmap. -/
def mark (bitmap : List UInt8) (i : ℕ) : Bool := (bitmap[i / 8]?.getD 0).toNat.testBit (i % 8)

theorem toNat_mask {k : ℕ} (hk : k < 8) : ((0x01 : UInt8) <<< UInt8.ofNat k).toNat = 2 ^ k := by
  have hall : ∀ i : Fin 8, ((0x01 : UInt8) <<< UInt8.ofNat i).toNat = 2 ^ i.val := by decide
  exact hall ⟨k, hk⟩

theorem and_mask_ne_zero (octet : UInt8) {k : ℕ} (hk : k < 8) :
    (octet &&& 0x01 <<< UInt8.ofNat k != 0) = octet.toNat.testBit k := by
  have hand : (octet &&& 0x01 <<< UInt8.ofNat k).toNat = (octet.toNat.testBit k).toNat * 2 ^ k := by
    rw [UInt8.toNat_and, toNat_mask hk, Nat.and_two_pow]
  have hzero : (octet &&& 0x01 <<< UInt8.ofNat k) = 0 ↔ octet.toNat.testBit k = false := by
    rw [← UInt8.toNat_inj, hand, UInt8.toNat_zero]
    cases octet.toNat.testBit k <;> simp
  cases hbit : octet.toNat.testBit k with
  | false => rw [hzero.mpr hbit]; rfl
  | true =>
    apply bne_iff_ne.mpr
    intro h
    rw [hzero.mp h] at hbit
    cases hbit

theorem testBit_or_mask (octet : UInt8) {k : ℕ} (hk : k < 8) (j : ℕ) :
    (octet ||| 0x01 <<< UInt8.ofNat k).toNat.testBit j =
      (octet.toNat.testBit j || decide (k = j)) := by
  rw [UInt8.toNat_or, toNat_mask hk, Nat.testBit_or, Nat.testBit_two_pow]

/-- One more bit. -/
theorem mark_orOctet {bitmap : List UInt8} {i : ℕ} (hi : i < bitmap.length * 8) :
    ∃ bitmap', orOctet bitmap (i / 8) (0x01 <<< UInt8.ofNat (i % 8)) = some bitmap' ∧
      bitmap'.length = bitmap.length ∧
      ∀ j < bitmap.length * 8, mark bitmap' j = (mark bitmap j || decide (i = j)) := by
  refine ⟨_, if_pos (by omega), List.length_modify .., ?_⟩
  intro j hj
  have hlt : j / 8 < bitmap.length := by omega
  unfold mark
  simp only [List.getElem?_modify, List.getElem?_eq_getElem hlt, Option.map_eq_map,
    Option.map_some, Option.getD_some]
  by_cases hoctet : i / 8 = j / 8
  · rw [if_pos hoctet, testBit_or_mask _ (Nat.mod_lt _ (by decide))]
    congr 1
    apply decide_eq_decide.mpr
    omega
  · have hne : ¬i = j := by
      rintro rfl
      exact hoctet rfl
    rw [if_neg hoctet, decide_eq_false hne, Bool.or_false]

theorem mark_clear {bitmap : List UInt8} (hclear : ∀ octet ∈ bitmap, octet = 0) (j : ℕ) :
    mark bitmap j = false := by
  unfold mark
  cases hget : bitmap[j / 8]? with
  | none => exact Nat.zero_testBit _
  | some octet =>
    rw [hclear octet (List.mem_of_getElem? hget)]
    exact Nat.zero_testBit _

/-! ## One number -/

/-- An entry of a block ack with the length of its bitmap. -/
structure HasEntry (h : CtrlBAckResponseHeader) (index : ℕ) (info : BaInfoInstance) (len : ℕ) :
    Prop where
  getInfo : h.m_baInfo[index]? = some info
  getLen : h.m_baType.m_bitmapLen[index]? = some len
  single : h.m_baType.m_variant = .multiSta ∨ index = 0
  variant : h.m_baType.m_variant ≠ .multiTid
  startingSeq_lt : info.m_startingSeq < 4096
  length_eq : info.m_bitmap.length = len

variable {h : CtrlBAckResponseHeader} {index len seq : ℕ} {info : BaInfoInstance}

/-- The number of MPDUs that a bitmap acknowledges. -/
def ackedMpdus (h : CtrlBAckResponseHeader) (len : ℕ) : ℕ :=
  if h.m_baType.m_variant = .basic then len * 8 / 16 else len * 8

theorem HasEntry.isInBitmap_eq (he : HasEntry h index info len) (seq : ℕ) :
    h.isInBitmap seq index =
      some (decide (distance seq info.m_startingSeq < ackedMpdus h len)) := by
  rw [isInBitmap]
  simp only [Option.bind_eq_bind, guard_bind he.single, he.getLen, he.getInfo, Option.bind_some]
  rfl

theorem HasEntry.indexInBitmap_eq (he : HasEntry h index info len) (hseq : seq < 4096)
    (hin : distance seq info.m_startingSeq < ackedMpdus h len) :
    h.indexInBitmap seq index = some (distance seq info.m_startingSeq) := by
  have hstart := he.startingSeq_lt
  have hplace : (if seq ≥ info.m_startingSeq then seq - info.m_startingSeq
      else 4096 - info.m_startingSeq + seq) = distance seq info.m_startingSeq := by
    unfold distance
    split <;> omega
  rw [indexInBitmap]
  simp only [Option.bind_eq_bind, he.getLen, he.getInfo, Option.bind_some, hplace]
  exact guard_bind hin _

theorem HasEntry.setReceivedPacket (he : HasEntry h index info len) (hseq : seq < 4096) :
    ∃ bitmap, h.setReceivedPacket seq index = some { h with
        m_baInfo := h.m_baInfo.set index { info with m_bitmap := bitmap } } ∧
      bitmap.length = info.m_bitmap.length ∧ (h.m_baType.m_variant ≠ .basic →
        ∀ j < len * 8, mark bitmap j =
          (mark info.m_bitmap j || decide (distance seq info.m_startingSeq = j))) := by
  have hlen := he.length_eq
  have hentry := entry_eq he.single he.getInfo
  rw [CtrlBAckResponseHeader.setReceivedPacket, hentry]
  simp only [Option.bind_eq_bind, Option.bind_some, he.isInBitmap_eq]
  by_cases hin : distance seq info.m_startingSeq < ackedMpdus h len
  · simp only [decide_eq_true hin, Bool.not_true, Bool.false_eq_true, if_false]
    by_cases hbasic : h.m_baType.m_variant = .basic
    · have hindex : index = 0 := he.single.resolve_left (by rw [hbasic]; decide)
      subst hindex
      have hplace : distance seq info.m_startingSeq * 2 < info.m_bitmap.length := by
        rw [ackedMpdus, if_pos hbasic] at hin
        omega
      refine ⟨info.m_bitmap.modify (distance seq info.m_startingSeq * 2) (· ||| 0x01), ?_,
        List.length_modify .., fun hne => absurd hbasic hne⟩
      simp only [hbasic, he.indexInBitmap_eq hseq hin, Option.bind_some, orOctet, if_pos hplace]
    · have hplace := he.indexInBitmap_eq hseq hin
      rw [ackedMpdus, if_neg hbasic] at hin
      obtain ⟨bitmap, hor, hlength, hmark⟩ := mark_orOctet (hlen.symm ▸ hin)
      refine ⟨bitmap, ?_, hlength, fun _ j hj => hmark j (hlen.symm ▸ hj)⟩
      split
      · next hv => exact absurd hv hbasic
      · next hv => exact absurd hv he.variant
      · rw [hplace, Option.bind_some, hor]
        rfl
  · simp only [decide_eq_false hin, Bool.not_false, if_true]
    refine ⟨info.m_bitmap, ?_, rfl, fun hbasic j hj => ?_⟩
    · have hself : h.m_baInfo.set index info = h.m_baInfo := by
        obtain ⟨hlt, hget⟩ := List.getElem?_eq_some_iff.mp he.getInfo
        rw [← hget, List.set_getElem_self]
      show some h = some { h with m_baInfo := h.m_baInfo.set index info }
      rw [hself]
    · rw [ackedMpdus, if_neg hbasic] at hin
      rw [decide_eq_false (by omega), Bool.or_false]

theorem HasEntry.isPacketReceived_eq (he : HasEntry h index info len)
    (hbasic : h.m_baType.m_variant ≠ .basic)
    (hack : h.m_baType.m_variant = .multiSta → Acknowledgement info) (hseq : seq < 4096) :
    h.isPacketReceived seq index =
      some (decide (distance seq info.m_startingSeq < len * 8) &&
        mark info.m_bitmap (distance seq info.m_startingSeq)) := by
  have hlen := he.length_eq
  have hallAck : ¬(h.m_baType.m_variant = .multiSta ∧ ackType info = true ∧ tid info = 14) := by
    rintro ⟨hvariant, -, htid⟩
    have := (hack hvariant).2.2
    omega
  have hacked : ackedMpdus h len = len * 8 := if_neg hbasic
  rw [isPacketReceived, entry_eq he.single he.getInfo]
  simp only [Option.bind_eq_bind, Option.bind_some, if_neg hallAck, he.isInBitmap_eq, hacked]
  by_cases hin : distance seq info.m_startingSeq < len * 8
  · have hplace := he.indexInBitmap_eq hseq (hacked.symm ▸ hin)
    have hoctet : distance seq info.m_startingSeq / 8 < info.m_bitmap.length := by omega
    simp only [decide_eq_true hin, Bool.not_true, Bool.false_eq_true, if_false, Bool.true_and]
    split
    · next hv => exact absurd hv hbasic
    · next hv => exact absurd hv he.variant
    · rw [hplace, Option.bind_some, List.getElem?_eq_getElem hoctet, Option.bind_some,
        and_mask_ne_zero _ (Nat.mod_lt _ (by decide)), mark, List.getElem?_eq_getElem hoctet]
      rfl
  · simp only [decide_eq_false hin, Bool.not_false, if_true, Bool.false_and]

/-! ## Many numbers -/

theorem forall₂_getElem? {α β : Type} {R : α → β → Prop} {xs : List α} {ys : List β}
    (h : List.Forall₂ R xs ys) {i : ℕ} {x : α} (hx : xs[i]? = some x) :
    ∃ y, ys[i]? = some y ∧ R x y := by
  induction h generalizing i with
  | nil => cases hx
  | cons hr _ ih =>
    cases i with
    | zero =>
      cases hx
      exact ⟨_, rfl, hr⟩
    | succ i => exact ih hx

/-- Another first element with the same second one. -/
theorem forall₂_set {α β : Type} {R : α → β → Prop} {xs : List α} {ys : List β}
    (h : List.Forall₂ R xs ys) {i : ℕ} {x x' : α} (hx : xs[i]? = some x)
    (hr : ∀ y, R x y → R x' y) : List.Forall₂ R (xs.set i x') ys := by
  induction h generalizing i with
  | nil => exact List.Forall₂.nil
  | cons hxy hrest ih =>
    cases i with
    | zero =>
      cases hx
      exact List.Forall₂.cons (hr _ hxy) hrest
    | succ i => exact List.Forall₂.cons hxy (ih hx)

theorem CtrlBAckResponseHeader.Valid.hasEntry (hv : h.Valid)
    (hinfo : h.m_baInfo[index]? = some info) : ∃ len, HasEntry h index info len := by
  obtain ⟨len, hlen, hvalid⟩ := forall₂_getElem? hv.infos hinfo
  refine ⟨len, hinfo, hlen, ?_, ?_, hvalid.startingSeq_lt, hvalid.length_eq⟩
  · by_cases hvariant : h.m_baType.m_variant = .multiSta
    · exact Or.inl hvariant
    · obtain ⟨i, n, hs⟩ := hv.single hvariant
      rw [hs.infos] at hinfo
      cases index with
      | zero => exact Or.inr rfl
      | succ index => cases hinfo
  · intro htid
    have hfalse := hv.lengths
    rw [htid] at hfalse
    exact hfalse

/-- The bits of a bitmap do not matter for validity. -/
theorem CtrlBAckResponseHeader.Valid.setBitmap (hv : h.Valid)
    (hinfo : h.m_baInfo[index]? = some info) {bitmap : List UInt8}
    (hlength : bitmap.length = info.m_bitmap.length) :
    ({ h with m_baInfo := h.m_baInfo.set index { info with m_bitmap := bitmap } } :
      CtrlBAckResponseHeader).Valid where
  infos := forall₂_set hv.infos hinfo fun _ h =>
    ⟨h.aidTidInfo_lt, h.startingSeq_lt, hlength.trans h.length_eq⟩
  lengths := by
    have hlengths := hv.lengths
    cases hvariant : h.m_baType.m_variant with
    | multiSta =>
      rw [hvariant] at hlengths
      apply forall₂_set hlengths hinfo
      intro len he
      cases he with
      | acknowledgement hack hlen => exact .acknowledgement hack hlen
      | noBitmap haid hack hlen => exact .noBitmap haid hack hlen
      | unassociated haid hlen => exact .unassociated haid hlen
    | basic | compressed | extendedCompressed | multiTid =>
      rw [hvariant] at hlengths
      exact hlengths

/-- A header `h` with the numbers of `marks` marked. -/
structure Marked (h h' : CtrlBAckResponseHeader) (marks : List (ℕ × ℕ)) : Prop where
  valid : h'.Valid
  type : h'.m_baType = h.m_baType
  tidInfo : h'.m_tidInfo = h.m_tidInfo
  length : h'.m_baInfo.length = h.m_baInfo.length
  entry : ∀ (index : ℕ) (info : BaInfoInstance), h.m_baInfo[index]? = some info →
    ∃ bitmap, h'.m_baInfo[index]? = some { info with m_bitmap := bitmap } ∧
      (h.m_baType.m_variant ≠ .basic → ∀ len, h.m_baType.m_bitmapLen[index]? = some len →
        ∀ j < len * 8, mark bitmap j = true ↔
          ∃ seq, (seq, index) ∈ marks ∧ distance seq info.m_startingSeq = j)

theorem Marked.start (hv : h.Valid)
    (hclear : ∀ info ∈ h.m_baInfo, ∀ octet ∈ info.m_bitmap, octet = 0) : Marked h h [] where
  valid := hv
  type := rfl
  tidInfo := rfl
  length := rfl
  entry := by
    intro index info hinfo
    refine ⟨info.m_bitmap, hinfo, fun _ len _ j _ => ?_⟩
    rw [mark_clear (hclear info (List.mem_of_getElem? hinfo))]
    exact iff_of_false Bool.false_ne_true fun ⟨_, hmem, _⟩ => List.not_mem_nil hmem

variable {h' : CtrlBAckResponseHeader} {marks : List (ℕ × ℕ)}

theorem Marked.step (hm : Marked h h' marks) (hseq : seq < 4096)
    (hindex : index < h.m_baInfo.length) :
    ∃ h'', h'.setReceivedPacket seq index = some h'' ∧ Marked h h'' (marks ++ [(seq, index)]) := by
  obtain ⟨info, hinfo⟩ : ∃ info, h.m_baInfo[index]? = some info :=
    ⟨_, List.getElem?_eq_getElem hindex⟩
  obtain ⟨bitmap, hget, hbits⟩ := hm.entry index info hinfo
  obtain ⟨len, he⟩ := hm.valid.hasEntry hget
  obtain ⟨bitmap', hrun, hlength, hmark⟩ := he.setReceivedPacket hseq
  refine ⟨_, hrun, hm.valid.setBitmap hget hlength, hm.type, hm.tidInfo, ?_, ?_⟩
  · exact List.length_set.trans hm.length
  · intro i info' hinfo'
    by_cases hi : index = i
    · subst hi
      rw [hinfo] at hinfo'
      cases hinfo'
      have hlt : index < h'.m_baInfo.length := hm.length.symm ▸ hindex
      refine ⟨bitmap', List.getElem?_set_self hlt, fun hbasic n hn j hj => ?_⟩
      have hlen : n = len := by
        have hgetLen := he.getLen
        rw [hm.type, hn] at hgetLen
        exact Option.some.inj hgetLen
      subst hlen
      rw [hmark (hm.type ▸ hbasic) j hj, Bool.or_eq_true, decide_eq_true_eq,
        hbits hbasic n hn j hj]
      constructor
      · rintro (⟨s, hs, hdist⟩ | hdist)
        · exact ⟨s, List.mem_append_left _ hs, hdist⟩
        · exact ⟨seq, List.mem_append_right _ (List.mem_singleton_self _), hdist⟩
      · rintro ⟨s, hs, hdist⟩
        rcases List.mem_append.mp hs with hs | hs
        · exact Or.inl ⟨s, hs, hdist⟩
        · cases List.mem_singleton.mp hs
          exact Or.inr hdist
    · obtain ⟨other, hother, hbits'⟩ := hm.entry i info' hinfo'
      refine ⟨other, (List.getElem?_set_ne hi).trans hother, fun hbasic n hn j hj => ?_⟩
      rw [hbits' hbasic n hn j hj]
      constructor
      · rintro ⟨s, hs, hdist⟩
        exact ⟨s, List.mem_append_left _ hs, hdist⟩
      · rintro ⟨s, hs, hdist⟩
        rcases List.mem_append.mp hs with hs | hs
        · exact ⟨s, hs, hdist⟩
        · cases List.mem_singleton.mp hs
          exact absurd rfl hi

theorem Marked.run (hm : Marked h h' marks) {more : List (ℕ × ℕ)}
    (hmore : ∀ m ∈ more, m.1 < 4096 ∧ m.2 < h.m_baInfo.length) :
    ∃ h'', h'.setReceivedPackets more = some h'' ∧ Marked h h'' (marks ++ more) := by
  induction more generalizing h' marks with
  | nil => exact ⟨h', rfl, (List.append_nil marks).symm ▸ hm⟩
  | cons m more ih =>
    obtain ⟨hseq, hindex⟩ := hmore m List.mem_cons_self
    obtain ⟨h₁, hrun, hm₁⟩ := hm.step hseq hindex
    obtain ⟨h₂, hrest, hm₂⟩ := ih hm₁ fun n hn => hmore n (List.mem_cons_of_mem m hn)
    refine ⟨h₂, ?_, ?_⟩
    · rw [CtrlBAckResponseHeader.setReceivedPackets, hrun]
      exact hrest
    · rwa [List.append_assoc] at hm₂

/-- The entry that is read, where there is a bitmap. -/
theorem Decoded.hasEntry {d : CtrlBAckResponseHeader} (hd : Decoded h d)
    (he : HasEntry h index info len)
    (hack : h.m_baType.m_variant = .multiSta → Acknowledgement info) :
    ∃ info', HasEntry d index info' len ∧ info'.m_startingSeq = info.m_startingSeq ∧
      info'.m_bitmap = info.m_bitmap ∧
      (d.m_baType.m_variant = .multiSta → Acknowledgement info') := by
  have hlt : index < d.m_baInfo.length :=
    hd.length.symm ▸ (List.getElem?_eq_some_iff.mp he.getInfo).1
  have hget := List.getElem?_eq_getElem hlt
  obtain ⟨hseq, hbitmap⟩ := hd.bitmap index info _ hack he.getInfo hget
  refine ⟨_, ⟨hget, ?_, ?_, ?_, ?_, ?_⟩, hseq, hbitmap, fun hvariant => ?_⟩
  · rw [hd.type]
    exact he.getLen
  · rw [hd.type]
    exact he.single
  · rw [hd.type]
    exact he.variant
  · rw [hseq]
    exact he.startingSeq_lt
  · rw [hbitmap]
    exact he.length_eq
  · rw [hd.type] at hvariant
    obtain ⟨haid, hackType, htid, -⟩ := hd.entry index info _ hvariant he.getInfo hget
    obtain ⟨h1, h2, h3⟩ := hack hvariant
    exact ⟨haid.trans_ne h1, hackType.trans h2, htid.trans_lt h3⟩

/-- The marks that `IsPacketReceived` finds. -/
theorem Marked.isPacketReceived (hm : Marked h h' marks)
    (hmarks : ∀ m ∈ marks, m.1 < 4096) {d : CtrlBAckResponseHeader} (hd : Decoded h' d)
    (hinfo : h.m_baInfo[index]? = some info) (hlen : h.m_baType.m_bitmapLen[index]? = some len)
    (hbasic : h.m_baType.m_variant ≠ .basic)
    (hack : h.m_baType.m_variant = .multiSta → Acknowledgement info) (hseq : seq < 4096) :
    let received := decide ((seq, index) ∈ marks ∧ distance seq info.m_startingSeq < len * 8)
    h'.isPacketReceived seq index = some received ∧
      d.isPacketReceived seq index = some received := by
  obtain ⟨bitmap, hget, hbits⟩ := hm.entry index info hinfo
  obtain ⟨n, he⟩ := hm.valid.hasEntry hget
  have hn : n = len := by
    have hgetLen := he.getLen
    rw [hm.type, hlen] at hgetLen
    exact (Option.some.inj hgetLen).symm
  subst hn
  have hstart : info.m_startingSeq < 4096 := he.startingSeq_lt
  have hvalue : (decide (distance seq info.m_startingSeq < n * 8) &&
      mark bitmap (distance seq info.m_startingSeq)) =
        decide ((seq, index) ∈ marks ∧ distance seq info.m_startingSeq < n * 8) := by
    by_cases hin : distance seq info.m_startingSeq < n * 8
    · have hfound : (∃ s, (s, index) ∈ marks ∧
          distance s info.m_startingSeq = distance seq info.m_startingSeq) ↔
            (seq, index) ∈ marks := by
        constructor
        · rintro ⟨s, hs, hdist⟩
          have hs4 : s < 4096 := hmarks _ hs
          rwa [distance_inj hs4 hseq hstart hdist] at hs
        · exact fun hs => ⟨seq, hs, rfl⟩
      rw [decide_eq_true hin, Bool.true_and, Bool.eq_iff_iff, hbits hbasic n hlen _ hin, hfound,
        decide_eq_true_eq]
      exact (and_iff_left hin).symm
    · rw [decide_eq_false hin, decide_eq_false fun h => hin h.2, Bool.false_and]
  have hack' : h'.m_baType.m_variant = .multiSta →
      Acknowledgement { info with m_bitmap := bitmap } := fun h => hack (hm.type ▸ h)
  obtain ⟨info', he', hseq', hbitmap', hack''⟩ := hd.hasEntry he hack'
  refine ⟨?_, ?_⟩
  · rw [he.isPacketReceived_eq (hm.type ▸ hbasic) hack' hseq]
    exact congrArg some hvalue
  · have hbasic' : d.m_baType.m_variant ≠ .basic := by
      rw [hd.type, hm.type]
      exact hbasic
    rw [he'.isPacketReceived_eq hbasic' hack'' hseq, hseq', hbitmap']
    exact congrArg some hvalue

/-- **Block ack frames decode what they encode.** A valid header without marks, with any numbers
marked, is written in its size and read back, and `IsPacketReceived` finds exactly the marked
numbers within the bitmap, before and after. -/
theorem blockAck_deserialize_serialize {h : CtrlBAckResponseHeader} (marks : List (ℕ × ℕ))
    (hv : h.Valid)
    (hclear : ∀ info ∈ h.m_baInfo, ∀ octet ∈ info.m_bitmap, octet = 0)
    (hmarks : ∀ m ∈ marks, m.1 < 4096 ∧ m.2 < h.m_baInfo.length) :
    ∃ h' bytes d, h.setReceivedPackets marks = some h' ∧ h'.m_baType = h.m_baType ∧
      h'.serialize = some bytes ∧ h'.getSerializedSize = some bytes.length ∧
      create.deserialize bytes = some (d, bytes.length) ∧ Decoded h' d ∧
      ∀ (index : ℕ) (info : BaInfoInstance) (len : ℕ), h.m_baInfo[index]? = some info →
        h.m_baType.m_bitmapLen[index]? = some len → h.m_baType.m_variant ≠ .basic →
        (h.m_baType.m_variant = .multiSta → Acknowledgement info) → ∀ seq < 4096,
          let received := decide ((seq, index) ∈ marks ∧
            distance seq info.m_startingSeq < len * 8)
          h'.isPacketReceived seq index = some received ∧
            d.isPacketReceived seq index = some received := by
  obtain ⟨h', hrun, hm⟩ := (Marked.start hv hclear).run hmarks
  rw [List.nil_append] at hm
  obtain ⟨bytes, d, hwrite, hsize, hread, hd⟩ := hm.valid.decoded create
  exact ⟨h', bytes, d, hrun, hm.type, hwrite, hsize, hread, hd,
    fun index info len hinfo hlen hbasic hack seq hseq =>
      hm.isPacketReceived (fun m hmem => (hmarks m hmem).1) hd hinfo hlen hbasic hack hseq⟩

/-- An acknowledgement for AID 1 and TID 2 with a bitmap of 4 octets from 4095 on, an entry for an
unassociated station, and an acknowledgement of all for AID 3. -/
def exampleHeader : CtrlBAckResponseHeader where
  m_baAckPolicy := true
  m_baType := ⟨.multiSta, [4, 8, 0]⟩
  m_tidInfo := 0
  m_baInfo :=
    [⟨2 <<< 12 ||| 1, 4095, List.replicate 4 0, .zero⟩,
      ⟨15 <<< 12 ||| 2045, 0, List.replicate 8 0, ⟨[1, 2, 3, 4, 5, 6], rfl⟩⟩,
      ⟨14 <<< 12 ||| 1 <<< 11 ||| 3, 0, [], .zero⟩]

theorem blockAck_exampleHeader :
    ∃ h' bytes d, exampleHeader.setReceivedPackets [(4095, 0), (3, 0), (90, 0)] = some h' ∧
      h'.serialize = some bytes ∧ create.deserialize bytes = some (d, bytes.length) ∧
      d.isPacketReceived 3 0 = some true ∧ d.isPacketReceived 2 0 = some false ∧
      d.isPacketReceived 90 0 = some false := by
  have hinfos : List.Forall₂ InfoValid exampleHeader.m_baInfo [4, 8, 0] :=
    .cons ⟨by decide, by decide, rfl⟩ (.cons ⟨by decide, by decide, rfl⟩
      (.cons ⟨by decide, by decide, rfl⟩ .nil))
  have hentries : List.Forall₂ EntryValid exampleHeader.m_baInfo [4, 8, 0] :=
    .cons (.acknowledgement (by decide) (Or.inl rfl)) (.cons (.unassociated (by decide) rfl)
      (.cons (.noBitmap (by decide) (Or.inl (by decide)) rfl) .nil))
  obtain ⟨h', bytes, d, hrun, -, hwrite, -, hread, -, hmark⟩ :=
    blockAck_deserialize_serialize [(4095, 0), (3, 0), (90, 0)]
      ⟨hinfos, hentries⟩ (by decide +kernel) (by decide)
  have hmark0 := hmark 0 _ 4 rfl rfl (by decide) fun _ => by decide
  exact ⟨h', bytes, d, hrun, hwrite, hread, (hmark0 3 (by decide)).2, (hmark0 2 (by decide)).2,
    (hmark0 90 (by decide)).2⟩

end Ns3.Wifi.CtrlHeaders
