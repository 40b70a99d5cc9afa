import Ns3.Wifi.BlockAckFrame
import Ns3.Wifi.BlockAckMarks

/-!
# The compressed block ack in its octets

The exchange between originator and recipient uses a header with the two fields that the compressed
variant needs. It is the header of all variants with this one: their operations agree, and the
octets of the frame are read as the header that the recipient filled.
-/

namespace Ns3.Wifi

namespace CtrlBAckResponseHeader

/-- The header with all its fields. -/
def frame (b : CtrlBAckResponseHeader) (policy : Bool) (tidInfo : ℕ) :
    CtrlHeaders.CtrlBAckResponseHeader where
  m_baAckPolicy := policy
  m_baType := ⟨.compressed, [b.m_bitmap.length]⟩
  m_tidInfo := tidInfo
  m_baInfo := [⟨0, b.m_startingSeq, b.m_bitmap.map UInt8.ofNat, .zero⟩]

/-- The fields have their widths. -/
structure Fits (b : CtrlBAckResponseHeader) : Prop where
  startingSeq_lt : b.m_startingSeq < 4096
  bitmap_lt : ∀ byte ∈ b.m_bitmap, byte < 256

variable {b : CtrlBAckResponseHeader} (policy : Bool) (tidInfo : ℕ) {x : ℕ}

theorem fits_reset {startingSeq : ℕ} (h : startingSeq < 4096) (len : ℕ) :
    (reset startingSeq len).Fits where
  startingSeq_lt := h
  bitmap_lt byte hbyte := by
    rw [List.eq_of_mem_replicate hbyte]
    decide

theorem Fits.setReceivedPacket (h : b.Fits) (x : ℕ) : (b.setReceivedPacket x).Fits := by
  unfold CtrlBAckResponseHeader.setReceivedPacket
  split
  · exact h
  · refine ⟨h.startingSeq_lt, fun byte hbyte => ?_⟩
    obtain ⟨i, hi, rfl⟩ := List.mem_iff_getElem.mp hbyte
    rw [List.getElem_modify]
    have hlt := h.bitmap_lt _ (List.getElem_mem (by simpa using hi))
    split
    · apply Nat.or_lt_two_pow (n := 8) hlt
      rw [Nat.one_shiftLeft]
      exact Nat.pow_lt_pow_right (by decide) (Nat.mod_lt _ (by decide))
    · exact hlt

theorem hasEntry_frame (h : b.Fits) : CtrlHeaders.HasEntry (b.frame policy tidInfo) 0
    ⟨0, b.m_startingSeq, b.m_bitmap.map UInt8.ofNat, .zero⟩ b.m_bitmap.length where
  getInfo := rfl
  getLen := rfl
  single := Or.inr rfl
  variant := by simp [frame]
  startingSeq_lt := h.startingSeq_lt
  length_eq := List.length_map _

theorem mark_frame (h : b.Fits) (i : ℕ) :
    CtrlHeaders.mark (b.m_bitmap.map UInt8.ofNat) i = b.mark i := by
  unfold CtrlHeaders.mark mark
  rw [List.getElem?_map]
  cases hget : b.m_bitmap[i / 8]? with
  | none => rfl
  | some byte =>
    have hlt := h.bitmap_lt byte (List.mem_of_getElem? hget)
    rw [Option.map_some, Option.getD_some, Option.getD_some, UInt8.toNat_ofNat',
      Nat.mod_eq_of_lt hlt]

theorem isPacketReceived_frame (h : b.Fits) (hx : x < 4096) :
    (b.frame policy tidInfo).isPacketReceived x 0 = some (b.isPacketReceived x) := by
  rw [(hasEntry_frame policy tidInfo h).isPacketReceived_eq (by simp [frame]) (by simp [frame]) hx,
    isPacketReceived_eq h.startingSeq_lt hx, mark_frame h]
  rfl

theorem map_modify_mask (bitmap : List ℕ) (place : ℕ) {k : ℕ} (hk : k < 8) :
    (bitmap.modify place fun byte => byte ||| 1 <<< k).map UInt8.ofNat =
      (bitmap.map UInt8.ofNat).modify place (· ||| 0x01 <<< UInt8.ofNat k) := by
  apply List.ext_getElem?
  intro i
  simp only [List.getElem?_map, List.getElem?_modify]
  cases bitmap[i]? with
  | none => rfl
  | some byte =>
    by_cases hi : place = i
    · simp [hi, UInt8.ofNat_shiftLeft _ _ hk]
    · simp [hi]

/-- One more number is marked in both. -/
theorem setReceivedPacket_frame (h : b.Fits) (hx : x < 4096) :
    (b.frame policy tidInfo).setReceivedPacket x 0 =
      some ((b.setReceivedPacket x).frame policy tidInfo) := by
  have he := hasEntry_frame policy tidInfo h
  have hacked : CtrlHeaders.ackedMpdus (b.frame policy tidInfo) b.m_bitmap.length =
      b.m_bitmap.length * 8 := if_neg (by simp [frame])
  have hin := he.isInBitmap_eq x
  rw [hacked] at hin
  unfold CtrlHeaders.CtrlBAckResponseHeader.setReceivedPacket
    CtrlBAckResponseHeader.setReceivedPacket
  rw [CtrlHeaders.entry_eq he.single he.getInfo]
  simp only [Option.bind_eq_bind, Option.bind_some, hin]
  by_cases hlt : CtrlHeaders.distance x b.m_startingSeq < b.m_bitmap.length * 8
  · have hplace := he.indexInBitmap_eq hx (hacked.symm ▸ hlt)
    have hisIn : b.isInBitmap x = true := decide_eq_true hlt
    have hlen : CtrlHeaders.distance x b.m_startingSeq / 8 <
        (b.m_bitmap.map UInt8.ofNat).length := by
      rw [List.length_map]
      omega
    simp only [decide_eq_true hlt, hisIn, Bool.not_true, Bool.false_eq_true, if_false]
    dsimp only [frame] at hplace ⊢
    rw [hplace]
    simp only [Option.bind_some, CtrlHeaders.CtrlBAckResponseHeader.orOctet, if_pos hlen,
      List.set_cons_zero, indexInBitmap_eq h.startingSeq_lt hx, List.length_modify,
      map_modify_mask _ _ (Nat.mod_lt _ (by decide : 0 < 8))]
    rfl
  · have hisIn : b.isInBitmap x = false := decide_eq_false hlt
    simp only [decide_eq_false hlt, hisIn, Bool.not_false, if_true]

/-- The frame is written and read back as it was. -/
theorem deserialize_serialize_frame (h : b.Fits)
    (hlen : b.m_bitmap.length = 8 ∨ b.m_bitmap.length = 32) {tidInfo : ℕ} (htid : tidInfo < 16)
    (f : CtrlHeaders.CtrlBAckResponseHeader) :
    ∃ bytes, (b.frame policy tidInfo).serialize = some bytes ∧
      f.deserialize bytes = some (b.frame policy tidInfo, bytes.length) := by
  have hs : CtrlHeaders.Single (b.frame policy tidInfo)
      ⟨0, b.m_startingSeq, b.m_bitmap.map UInt8.ofNat, .zero⟩ b.m_bitmap.length :=
    { infos := rfl
      lens := rfl
      info := ⟨by simp, h.startingSeq_lt, List.length_map _⟩
      tid_lt := htid
      lengths := Or.inr (Or.inl ⟨rfl, hlen⟩) }
  obtain ⟨bytes, hwrite, -, hread⟩ := hs.deserialize_serialize f
  exact ⟨bytes, hwrite, hread⟩

end CtrlBAckResponseHeader

open CtrlBAckResponseHeader

theorem fits_fillLoop {board : BlockAckWindow} {b b' : CtrlBAckResponseHeader} (hb : b.Fits) {n : ℕ}
    (h : fillLoop board b n = some b') :
    b'.Fits ∧ b'.m_bitmap.length = b.m_bitmap.length := by
  induction n generalizing b' with
  | zero =>
    cases h
    exact ⟨hb, rfl⟩
  | succ n ih =>
    obtain ⟨c, hc, h⟩ := Option.bind_eq_some_iff.mp h
    obtain ⟨received, -, h⟩ := Option.bind_eq_some_iff.mp h
    obtain ⟨hfits, hlength⟩ := ih hc
    cases h
    split
    · exact ⟨hfits.setReceivedPacket _, setReceivedPacket_length.trans hlength⟩
    · exact ⟨hfits, hlength⟩

/-- The octets of the block ack acknowledge the positions received within the window. -/
theorem Records.blockAck_octets {W len tidInfo : ℕ} {r : ℤ} {S : Set ℤ} {board : BlockAckWindow}
    (h : Records W r S board) (hW : W ≤ len * 8) (hlen : len = 8 ∨ len = 32)
    (htid : tidInfo < 16) (policy : Bool) :
    ∃ b bytes d, Wifi.fillBlockAckBitmap board len = some b ∧
      (b.frame policy tidInfo).serialize = some bytes ∧
      CtrlHeaders.CtrlBAckResponseHeader.create.deserialize bytes = some (d, bytes.length) ∧
      ∀ x < 4096, d.isPacketReceived x 0 = some true ↔ ∃ p ∈ S, r ≤ p ∧ IsSeq x p := by
  obtain ⟨b, hfill, hstart, hreceived⟩ := h.fillBlockAckBitmap hW (by omega)
  obtain ⟨hfits, hlength⟩ := fits_fillLoop (fits_reset h.winStart.lt len) hfill
  have hbitmap : b.m_bitmap.length = len := hlength.trans List.length_replicate
  obtain ⟨bytes, hwrite, hread⟩ := deserialize_serialize_frame policy hfits
    (hbitmap.symm ▸ hlen) htid .create
  refine ⟨b, bytes, _, hfill, hwrite, hread, fun x hx => ?_⟩
  rw [isPacketReceived_frame policy tidInfo hfits hx, Option.some_inj]
  exact hreceived x hx

end Ns3.Wifi
