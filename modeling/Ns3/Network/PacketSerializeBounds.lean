import Ns3.Network.PacketSerialize

/-!
# Where a serialized packet ends

The bodies of the parts go exactly as far as their sizes say, up to the padding of the last tag. The
lengths and the padding between the parts are not in the sum that is checked, so a buffer that
is a few bytes too small is written past its end. `Safe` says for which sizes it is not.
-/

namespace Ns3.Network

open Lib LimitedWriter

theorem le_roundUp (n : Nat) : n ≤ roundUp n := by
  unfold roundUp
  omega

@[simp] theorem length_rawBytes (n v : Nat) : (rawBytes n v).length = n := by
  simp [rawBytes]

@[simp] theorem length_word (v : Nat) : (word v).length = 4 := length_rawBytes 4 v

theorem rawBytes_ne_nil (n v : Nat) : rawBytes (n + 1) v ≠ [] :=
  List.ne_nil_of_length_eq_add_one (length_rawBytes (n + 1) v)

theorem word_ne_nil (v : Nat) : word v ≠ [] := rawBytes_ne_nil 3 v

/-! ## Tags -/

theorem reserved_record (words : List Nat) (data : List UInt8) :
    reserved (record words data) = 4 * words.length + roundUp data.length := by
  simp [reserved, record, Function.comp_def, Nat.mul_comm]

/-- A record goes to the end of its data, or of its words when there is no data. -/
theorem placed_record {words : List Nat} (hne : words ≠ []) (data : List UInt8) (pos : Nat) :
    Within (placed pos (record words data)) (pos + (4 * words.length + data.length)) ∧
      Reaches (placed pos (record words data)) (pos + (4 * words.length + data.length)) := by
  have htight (l : List Nat) : Tight (l.map fun w => (4, word w)) := by
    intro chunk hmem
    obtain ⟨w, -, rfl⟩ := List.mem_map.mp hmem
    exact (length_word w).le
  have hsum (l : List Nat) : reserved (l.map fun w => (4, word w)) = 4 * l.length := by
    simp [reserved, Function.comp_def, Nat.mul_comm]
  unfold record
  by_cases hdata : data = []
  · -- the last word is the last chunk that is not empty
    obtain ⟨init, last, rfl⟩ := List.eq_nil_or_concat' words |>.resolve_left hne
    subst hdata
    have hlast := (htight init).placed_concat (4, word last) (word_ne_nil last) pos
    rw [hsum, length_word] at hlast
    rw [placed_append, List.map_append]
    simp only [List.map_cons, List.map_nil, List.length_append, List.length_singleton,
      List.length_nil]
    have hstop : pos + (4 * (init.length + 1) + 0) = pos + 4 * init.length + 4 := by omega
    rw [hstop]
    refine ⟨within_append.mpr ⟨hlast.1, ?_⟩, hlast.2.append_right⟩
    intro w hw hcells
    rw [placed, placed, List.mem_singleton] at hw
    rw [hw] at hcells
    exact absurd rfl hcells
  · have hlast := (htight words).placed_concat (roundUp data.length, data) hdata pos
    rw [hsum, Nat.add_assoc] at hlast
    exact hlast

section Tags

variable {τ : Type} {tag : τ → List (Nat × List UInt8)} {words : τ → List Nat}
  {data : τ → List UInt8} {start limit : Nat}

/-- The space of the tags of a list. -/
def tagsSize (words : τ → List Nat) (data : τ → List UInt8) (tags : List τ) : Nat :=
  (tags.map fun item => 4 * (words item).length + roundUp (data item).length).sum

/-- The same without the padding of the last tag. -/
def tagsReach (words : τ → List Nat) (data : τ → List UInt8) : List τ → Nat
  | [] => 0
  | [item] => 4 * (words item).length + (data item).length
  | item :: next :: rest =>
    4 * (words item).length + roundUp (data item).length + tagsReach words data (next :: rest)

theorem tagsSize_cons (item : τ) (rest : List τ) : tagsSize words data (item :: rest) =
    4 * (words item).length + roundUp (data item).length + tagsSize words data rest := by
  simp [tagsSize]

/-- The loop puts every tag, and its writes go to the end of the data of the last one. -/
theorem serializeTags_ok (start limit : Nat)
    (htag : ∀ item, tag item = record (words item) (data item))
    (hwords : ∀ item, words item ≠ []) (tags : List τ) (numberOfTags : Nat) {s : Progress UInt8}
    (hsize : 4 ≤ s.size) (hlimit : s.size + tagsSize words data tags ≤ limit) :
    ∃ t, serializeTags tag start limit numberOfTags tags s =
        .ok () ⟨s.size + tagsSize words data tags, s.written ++ t⟩ ∧
      (tags = [] → t = []) ∧ Within t (start + s.size + tagsReach words data tags) ∧
      (tags ≠ [] → Reaches t (start + s.size + tagsReach words data tags)) := by
  induction tags generalizing numberOfTags s with
  | nil =>
    refine ⟨[], ?_, fun _ => rfl, within_nil, fun hne => absurd rfl hne⟩
    simp [serializeTags, tagsSize, pure, EStateM.pure]
  | cons item rest ih =>
    rw [tagsSize_cons] at hlimit
    have hput := putAll_ok start limit (tag item) s (by rw [htag, reserved_record]; omega)
    obtain ⟨hwithin, hreaches⟩ := placed_record (hwords item) (data item) (start + s.size)
    rw [← htag] at hwithin hreaches
    rw [htag, reserved_record, ← htag] at hput
    have hround := le_roundUp (data item).length
    -- the state after the tag is counted
    let s1 : Progress UInt8 :=
      ⟨s.size + (4 * (words item).length + roundUp (data item).length),
        s.written ++ placed (start + s.size) (tag item) ++ [(start, word (numberOfTags + 1))]⟩
    have hs1 : s1.size = s.size + (4 * (words item).length + roundUp (data item).length) := rfl
    obtain ⟨t, hrun, hnil, hw, hr⟩ := ih (numberOfTags + 1) (s := s1) (by omega) (by omega)
    refine ⟨placed (start + s.size) (tag item) ++ ([(start, word (numberOfTags + 1))] ++ t),
      ?_, fun h => absurd h (List.cons_ne_nil _ _), ?_⟩
    · have hstore : store start (word (numberOfTags + 1))
          ⟨s.size + (4 * (words item).length + roundUp (data item).length),
            s.written ++ placed (start + s.size) (tag item)⟩ = .ok () s1 := rfl
      rw [serializeTags, bind_ok hput, bind_ok hstore, hrun, tagsSize_cons]
      simp [s1, Nat.add_assoc]
    · have hcount {stop : Nat} (hle : start + 4 ≤ stop) :
          Within [(start, word (numberOfTags + 1))] stop := by
        apply within_singleton
        rw [length_word]
        exact hle
      cases rest with
      | nil =>
        rw [hnil rfl, List.append_nil, tagsReach]
        refine ⟨within_append.mpr ⟨hwithin, hcount (by omega)⟩, fun _ => ?_⟩
        exact hreaches.append_right
      | cons next rest =>
        have hstop : start + s1.size + tagsReach words data (next :: rest) =
            start + s.size + tagsReach words data (item :: next :: rest) := by
          rw [tagsReach]
          omega
        rw [hstop] at hw hr
        rw [tagsReach] at hw hr ⊢
        refine ⟨?_, fun _ => (hr (List.cons_ne_nil _ _)).append_left.append_left⟩
        apply within_append.mpr
        refine ⟨hwithin.mono (by omega), ?_⟩
        exact within_append.mpr ⟨hcount (by omega), hw⟩

/-- A tag list goes to the end of the data of its last tag, or of the number of tags. -/
theorem tags_endsAt (htag : ∀ item, tag item = record (words item) (data item))
    (hwords : ∀ item, words item ≠ []) (tags : List τ) (start : Nat) :
    EndsAt (do
        put start (4 + tagsSize words data tags) 4 (word 0)
        serializeTags tag start (4 + tagsSize words data tags) 0 tags) true
      (start + 4 + tagsReach words data tags) := by
  intro w
  have hput : put start (4 + tagsSize words data tags) 4 (word 0)
      { size := 0, written := w } = .ok () ⟨4, w ++ [(start, word 0)]⟩ := by
    rw [put_ok (by show 0 + 4 ≤ _; omega)]
    rfl
  obtain ⟨t, hrun, hnil, hw, hr⟩ := serializeTags_ok start (4 + tagsSize words data tags)
    htag hwords tags 0 (s := ⟨4, w ++ [(start, word 0)]⟩) (by rfl) (by rfl)
  refine ⟨[(start, word 0)] ++ t, 4 + tagsSize words data tags, ?_, ?_, ?_⟩
  · rw [bind_ok hput, hrun, if_pos rfl, List.append_assoc]
  · apply within_append.mpr
    refine ⟨within_singleton ?_, hw⟩
    rw [length_word]
    exact Nat.le_add_right _ _
  · by_cases htags : tags = []
    · rw [hnil htags, htags, tagsReach, List.append_nil]
      exact reaches_singleton _ (word_ne_nil 0)
    · exact (hr htags).append_left

end Tags

namespace ByteTagList

/-- The words of a tag. -/
def words (item : ByteTagItem) : List Nat :=
  [item.tid, item.buf.length, unsigned item.start, unsigned item.stop]

theorem getSerializedSize_eq (tags : List ByteTagItem) :
    getSerializedSize tags = 4 + tagsSize words ByteTagItem.buf tags := rfl

theorem endsAt (tags : List ByteTagItem) (start : Nat) :
    EndsAt (serialize tags start (getSerializedSize tags)) true
      (start + 4 + tagsReach words ByteTagItem.buf tags) := by
  rw [getSerializedSize_eq]
  exact tags_endsAt (fun _ => rfl) (fun _ => List.cons_ne_nil _ _) tags start

end ByteTagList

namespace PacketTagList

/-- The words of a tag. -/
def words (cur : PacketTagItem) : List Nat := [cur.data.length, cur.tid]

theorem getSerializedSize_eq (tags : List PacketTagItem) :
    getSerializedSize tags = 4 + tagsSize words PacketTagItem.data tags := rfl

theorem endsAt (tags : List PacketTagItem) (start : Nat) :
    EndsAt (serialize tags start (getSerializedSize tags)) true
      (start + 4 + tagsReach words PacketTagItem.data tags) := by
  rw [getSerializedSize_eq]
  exact tags_endsAt (fun _ => rfl) (fun _ => List.cons_ne_nil _ _) tags start

end PacketTagList

/-! ## The other parts -/

theorem nixVector_endsAt {v : NixVector} (start : Nat) {words : List Nat}
    (hwords : v.serialize v.getSerializedSize = some words) (hne : words ≠ []) :
    EndsAt (v.serializeTo start v.getSerializedSize) true (start + 4 * words.length) := by
  have hlen : (words.flatMap word).length = 4 * words.length := by
    simp [List.length_flatMap, Nat.mul_comm]
  have hcells : words.flatMap word ≠ [] := by
    intro hnil
    rw [hnil, List.length_nil] at hlen
    have hpos := List.length_pos_iff.mpr hne
    omega
  intro w
  refine ⟨[(start, words.flatMap word)], 0, ?_, ?_, ?_⟩
  · rw [NixVector.serializeTo, hwords, if_pos rfl]
    rfl
  · apply within_singleton
    rw [hlen]
  · rw [← hlen]
    exact reaches_singleton _ hcells

namespace PacketMetadata

theorem reserved_record (item : MetadataItem) : reserved (record item) =
    (if item.typeUid / 2 = 0 then 4 else 4 + item.name.length) + (1 + 4 + 2 + 4 + 4 + 8) := by
  unfold record
  by_cases huid : item.typeUid / 2 = 0
  · rw [if_neg (not_not.mpr huid), if_pos huid]
    rfl
  · rw [if_pos huid, if_neg huid]
    simp [reserved]
    omega

theorem getSerializedSize_eq (m : PacketMetadata) : m.getSerializedSize true =
    8 + reserved (m.items.flatMap record) := by
  have hsum (items : List MetadataItem) : (items.map fun item =>
      (if item.typeUid / 2 = 0 then 4 else 4 + item.name.length) + (1 + 4 + 2 + 4 + 4 + 8)).sum =
      reserved (items.flatMap record) := by
    induction items with
    | nil => rfl
    | cons item rest ih =>
      rw [List.map_cons, List.sum_cons, ih, List.flatMap_cons, ← reserved_record]
      simp [reserved]
  rw [getSerializedSize, if_neg (by decide), hsum]

theorem tight_record (item : MetadataItem) : Tight (record item) := by
  intro chunk hmem
  unfold record at hmem
  rcases List.mem_append.mp hmem with hmem | hmem
  · split at hmem
    · rcases List.mem_cons.mp hmem with rfl | hmem
      · exact (length_word _).le
      · rw [List.mem_singleton.mp hmem]
    · rw [List.mem_singleton.mp hmem]
      exact (length_word _).le
  · simp only [List.mem_cons, List.not_mem_nil, or_false] at hmem
    rcases hmem with rfl | rfl | rfl | rfl | rfl | rfl
    all_goals simp

/-- The last field that is put has 8 bytes, of the last item or of the packet. -/
theorem chunks_concat (m : PacketMetadata) : ∃ init last,
    (8, rawBytes 8 m.packetUid) :: m.items.flatMap record = init ++ [(8, rawBytes 8 last)] ∧
      Tight init := by
  have hfirst : Tight [(8, rawBytes 8 m.packetUid)] := by
    intro chunk hmem
    rw [List.mem_singleton.mp hmem]
    exact (length_rawBytes 8 _).le
  rcases List.eq_nil_or_concat' m.items with hnil | ⟨items, last, hitems⟩
  · exact ⟨[], m.packetUid, by rw [hnil]; rfl, fun _ h => by cases h⟩
  · obtain ⟨fields, hfields⟩ : ∃ fields, record last =
        fields ++ [(8, rawBytes 8 last.packetUid)] := by
      unfold record
      exact ⟨_, (List.append_assoc _ [_, _, _, _, _] [_]).symm⟩
    refine ⟨(8, rawBytes 8 m.packetUid) :: items.flatMap record ++ fields, last.packetUid, ?_, ?_⟩
    · rw [hitems, List.flatMap_append, List.flatMap_singleton, hfields]
      simp
    · intro chunk hmem
      rcases List.mem_append.mp hmem with hmem | hmem
      · rcases List.mem_cons.mp hmem with rfl | hmem
        · exact (length_rawBytes 8 _).le
        · obtain ⟨item, -, hitem⟩ := List.mem_flatMap.mp hmem
          exact tight_record item chunk hitem
      · apply tight_record last
        rw [hfields]
        exact List.mem_append_left _ hmem

theorem endsAt_enabled (m : PacketMetadata) (start : Nat) :
    EndsAt (m.serialize start (m.getSerializedSize true)) true
      (start + m.getSerializedSize true) := by
  obtain ⟨init, last, hchunks, htight⟩ := m.chunks_concat
  have hsize : m.getSerializedSize true = reserved (init ++ [(8, rawBytes 8 last)]) := by
    rw [getSerializedSize_eq, ← hchunks, reserved_cons]
  intro w
  have hput := putAll_ok start (m.getSerializedSize true) (init ++ [(8, rawBytes 8 last)]) ⟨0, w⟩
    (by rw [hsize, Nat.zero_add])
  refine ⟨placed start (init ++ [(8, rawBytes 8 last)]),
    0 + reserved (init ++ [(8, rawBytes 8 last)]), ?_, ?_⟩
  · rw [serialize, hchunks, hput, if_pos rfl]
    rfl
  · have hne : rawBytes 8 last ≠ [] := by
      intro hnil
      have hlen := length_rawBytes 8 last
      rw [hnil] at hlen
      cases hlen
    have hplaced := htight.placed_concat (8, rawBytes 8 last) hne start
    have hstop : start + m.getSerializedSize true =
        start + reserved init + (rawBytes 8 last).length := by
      rw [hsize, length_rawBytes]
      simp [reserved, Nat.add_assoc]
    rw [hstop]
    exact hplaced

/-- Items are left from before the metadata was disabled: the first of them is refused. -/
theorem endsAt_disabled {m : PacketMetadata} (hitems : m.items ≠ []) (start : Nat) :
    EndsAt (m.serialize start (m.getSerializedSize false)) false (start + 8) := by
  intro w
  have hfirst : put start 8 8 (rawBytes 8 m.packetUid) { size := 0, written := w } =
      .ok () ⟨8, w ++ [(start, rawBytes 8 m.packetUid)]⟩ := by
    rw [put_ok (by rfl)]
    rfl
  obtain ⟨item, rest, hcons⟩ := List.exists_cons_of_ne_nil hitems
  obtain ⟨v, fields, hrecord⟩ : ∃ v fields, record item = (4, word v) :: fields := by
    unfold record
    split
    · exact ⟨_, _, rfl⟩
    · exact ⟨_, _, rfl⟩
  refine ⟨[(start, rawBytes 8 m.packetUid)], 8, ?_, ?_, ?_⟩
  · have hsize : m.getSerializedSize false = 8 := rfl
    rw [if_neg Bool.false_ne_true, serialize, hsize, putAll, bind_ok hfirst, hcons,
      List.flatMap_cons, hrecord, List.cons_append, putAll]
    apply bind_error
    exact put_refused (by show ¬8 + 4 ≤ 8; omega)
  · apply within_singleton
    rw [length_rawBytes]
  · have hreach := reaches_singleton start (rawBytes_ne_nil 7 m.packetUid)
    rw [length_rawBytes] at hreach
    exact hreach

end PacketMetadata

theorem Buffer.serialize_endsAt (h : Heap) (b : Buffer) (start : Nat) :
    EndsAt (b.serialize h start b.getSerializedSize) true
      (start + (4 + 4 + roundUp (b.zeroAreaStart - b.start)) +
        (4 + (b.dataEnd - b.zeroAreaEnd))) := by
  let front : List (Nat × List UInt8) :=
    [(4, word (b.zeroAreaEnd - b.zeroAreaStart)), (4, word (b.zeroAreaStart - b.start)),
      (roundUp (b.zeroAreaStart - b.start),
        window (h.data b.data).bytes b.start (b.zeroAreaStart - b.start))]
  let back := window (h.data b.data).bytes b.zeroAreaStart (b.dataEnd - b.zeroAreaEnd)
  have hback : back.length = b.dataEnd - b.zeroAreaEnd := length_window
  have hfront : reserved front = 4 + 4 + roundUp (b.zeroAreaStart - b.start) := by
    simp [reserved, front]
    omega
  have htight : Tight front := by
    intro chunk hmem
    simp only [front, List.mem_cons, List.not_mem_nil, or_false] at hmem
    rcases hmem with rfl | rfl | rfl
    · exact (length_word _).le
    · exact (length_word _).le
    · rw [length_window]
      exact le_roundUp _
  have hchunks : b.serialize h start b.getSerializedSize =
      putAll start b.getSerializedSize (front ++ record [back.length] back) := by
    rw [hback]
    simp only [record, hback]
    rfl
  have hsize : b.getSerializedSize = reserved (front ++ record [back.length] back) := by
    rw [reserved, List.map_append, List.sum_append, ← reserved, ← reserved, hfront,
      reserved_record, hback]
    exact Nat.add_assoc _ _ _
  intro w
  have hput := putAll_ok start b.getSerializedSize (front ++ record [back.length] back) ⟨0, w⟩
    (by rw [hsize, Nat.zero_add])
  have hplaced := placed_record (List.cons_ne_nil back.length []) back (start + reserved front)
  rw [hfront, hback] at hplaced
  refine ⟨placed start (front ++ record [back.length] back),
    0 + reserved (front ++ record [back.length] back), ?_, ?_⟩
  · rw [hchunks, hput, if_pos rfl]
    rfl
  · rw [placed_append, hfront, hback]
    refine ⟨within_append.mpr ⟨?_, hplaced.1⟩, hplaced.2.append_left⟩
    apply (htight.within_placed start).mono
    rw [hfront]
    exact Nat.le_add_right _ _

namespace PacketParts

/-! ## The sums that are checked, and the ends of the writes -/

def nixVectorCount (p : PacketParts) : Nat :=
  match p.nixVector with
  | some v => v.getSerializedSize
  | none => 4

def byteTagCount (p : PacketParts) : Nat :=
  p.nixVectorCount + ByteTagList.getSerializedSize p.byteTagList

def packetTagCount (p : PacketParts) : Nat :=
  p.byteTagCount + PacketTagList.getSerializedSize p.packetTagList

def metadataCount (enable : Bool) (p : PacketParts) : Nat :=
  p.packetTagCount + p.metadata.getSerializedSize enable

def bufferCount (enable : Bool) (p : PacketParts) : Nat :=
  p.metadataCount enable + p.buffer.getSerializedSize

/-- The position of the part of the byte tags. -/
def byteTagPos (p : PacketParts) : Nat :=
  match p.nixVector with
  | some v => 4 + roundUp v.getSerializedSize
  | none => 4

def packetTagPos (p : PacketParts) : Nat :=
  p.byteTagPos + 4 + roundUp (ByteTagList.getSerializedSize p.byteTagList)

def metadataPos (p : PacketParts) : Nat :=
  p.packetTagPos + 4 + roundUp (PacketTagList.getSerializedSize p.packetTagList)

def bufferPos (enable : Bool) (p : PacketParts) : Nat :=
  p.metadataPos + 4 + roundUp (p.metadata.getSerializedSize enable)

/-- The end of the words of the nix-vector. -/
def nixVectorStop (p : PacketParts) : Nat :=
  match p.nixVector with
  | some v => 4 + 4 * (if v.m_totalBitSize = 0 then 1 else v.m_nixVector.length + 3)
  | none => 4

def byteTagStop (p : PacketParts) : Nat :=
  p.byteTagPos + 4 + 4 + tagsReach ByteTagList.words ByteTagItem.buf p.byteTagList

def packetTagStop (p : PacketParts) : Nat :=
  p.packetTagPos + 4 + 4 + tagsReach PacketTagList.words PacketTagItem.data p.packetTagList

def metadataStop (enable : Bool) (p : PacketParts) : Nat :=
  p.metadataPos + 4 + p.metadata.getSerializedSize enable

/-- A size that allows a part, by the sum of the bodies up to it, has room for the lengths and the
padding as well. -/
structure Safe (enable : Bool) (p : PacketParts) (maxSize : Nat) : Prop where
  nixVector : p.nixVectorCount ≤ maxSize → p.nixVectorStop ≤ maxSize
  byteTag : p.byteTagCount ≤ maxSize → p.byteTagStop ≤ maxSize
  packetTag : p.packetTagCount ≤ maxSize → p.packetTagStop ≤ maxSize
  metadata : p.metadataCount enable ≤ maxSize → p.metadataStop enable ≤ maxSize
  buffer : enable ∨ p.metadata.items = [] → p.bufferCount enable ≤ maxSize →
    p.getSerializedSize enable ≤ maxSize

/-- All bytes are written before `maxSize`, and a packet that does not fit is refused. -/
def Confined (h : Heap) (enable : Bool) (p : PacketParts) (maxSize : Nat) : Prop :=
  Within (result (p.serialize h enable maxSize)).2 maxSize ∧
    (maxSize < p.getSerializedSize enable → (result (p.serialize h enable maxSize)).1 = false)

/-! ## Parts -/

variable {h : Heap} {enable : Bool} {p : PacketParts} {maxSize pos partSize stop : Nat}
  {body : Nat → Nat → LimitedWriter UInt8 Unit} {s : Progress UInt8}

theorem serializePart_refused (hgt : ¬s.size + partSize ≤ maxSize) :
    serializePart maxSize pos partSize body s = .error () s := by
  show (if s.size + partSize ≤ maxSize then _ else _ : LimitedWriter UInt8 Nat) s = _
  rw [if_neg hgt]
  rfl

/-- The length of a part and its body go as far as the body. -/
theorem word_append (hstop : pos + 4 ≤ stop) {t : List (Nat × List UInt8)} (hw : Within t stop)
    (hr : Reaches t stop) (limit : Nat) :
    Within (s.written ++ ((pos, word (partSize + 4)) :: t)) limit ↔
      Within s.written limit ∧ stop ≤ limit := by
  refine within_append_iff ?_ ?_ limit
  · have hfirst : Within [(pos, word (partSize + 4))] stop := by
      apply within_singleton
      rw [length_word]
      exact hstop
    exact within_append.mpr ⟨hfirst, hw⟩
  · exact hr.append_left (t := [(pos, word (partSize + 4))])

theorem serializePart_done (maxSize pos : Nat) (body : Nat → Nat → LimitedWriter UInt8 Unit)
    (s : Progress UInt8) (hle : s.size + partSize ≤ maxSize)
    (hbody : EndsAt (body (pos + 4) partSize) true stop) (hstop : pos + 4 ≤ stop) :
    ∃ t, serializePart maxSize pos partSize body s =
        .ok (pos + 4 + roundUp partSize) ⟨s.size + partSize, s.written ++ t⟩ ∧
      ∀ limit, Within (s.written ++ t) limit ↔ Within s.written limit ∧ stop ≤ limit := by
  obtain ⟨t, hcall, hw, hr⟩ := hbody.call_ok
    ⟨s.size + partSize, s.written ++ [(pos, word (partSize + 4))]⟩
  refine ⟨(pos, word (partSize + 4)) :: t, ?_, word_append hstop hw hr⟩
  show (if s.size + partSize ≤ maxSize then _ else _ : LimitedWriter UInt8 Nat) s = _
  rw [if_pos hle]
  show (call _ >>= fun _ => pure _) (⟨s.size + partSize, _⟩ : Progress UInt8) = _
  rw [bind_ok hcall, List.append_assoc]
  rfl

theorem serializePart_failed (maxSize pos : Nat) (body : Nat → Nat → LimitedWriter UInt8 Unit)
    (s : Progress UInt8) (hle : s.size + partSize ≤ maxSize)
    (hbody : EndsAt (body (pos + 4) partSize) false stop) (hstop : pos + 4 ≤ stop) :
    ∃ t size, serializePart maxSize pos partSize body s = .error () ⟨size, s.written ++ t⟩ ∧
      ∀ limit, Within (s.written ++ t) limit ↔ Within s.written limit ∧ stop ≤ limit := by
  obtain ⟨t, hcall, hw, hr⟩ := hbody.call_error
    ⟨s.size + partSize, s.written ++ [(pos, word (partSize + 4))]⟩
  refine ⟨(pos, word (partSize + 4)) :: t, s.size + partSize, ?_, word_append hstop hw hr⟩
  show (if s.size + partSize ≤ maxSize then _ else _ : LimitedWriter UInt8 Nat) s = _
  rw [if_pos hle]
  show (call _ >>= fun _ => pure _) (⟨s.size + partSize, _⟩ : Progress UInt8) = _
  rw [bind_error hcall, List.append_assoc]
  rfl

theorem serializeNixVector_refused (hgt : ¬p.nixVectorCount ≤ maxSize) :
    serializeNixVector maxSize p.nixVector {} = .error () {} := by
  unfold nixVectorCount at hgt
  cases hnix : p.nixVector with
  | none =>
    rw [hnix] at hgt
    exact bind_error (put_refused (by rwa [Nat.zero_add]))
  | some v =>
    rw [hnix] at hgt
    exact serializePart_refused (by rwa [Nat.zero_add])

theorem serializeNixVector_done (hle : p.nixVectorCount ≤ maxSize) :
    ∃ t, serializeNixVector maxSize p.nixVector {} = .ok p.byteTagPos ⟨p.nixVectorCount, t⟩ ∧
      ∀ limit, Within t limit ↔ p.nixVectorStop ≤ limit := by
  unfold nixVectorCount byteTagPos nixVectorStop at *
  cases hnix : p.nixVector with
  | none =>
    rw [hnix] at hle
    refine ⟨[(0, word 4)], bind_ok (put_ok (by rwa [Nat.zero_add])), fun limit => ?_⟩
    refine ⟨fun hw => hw _ (List.mem_singleton.mpr rfl) (word_ne_nil 4), fun hlimit => ?_⟩
    exact within_singleton (by rwa [length_word])
  | some v =>
    rw [hnix] at hle
    dsimp only at hle ⊢
    have hwords : ∃ words, v.serialize v.getSerializedSize = some words ∧ words ≠ [] ∧
        words.length = if v.m_totalBitSize = 0 then 1 else v.m_nixVector.length + 3 := by
      unfold NixVector.serialize
      rw [if_neg (lt_irrefl _)]
      split
      · exact ⟨_, rfl, List.cons_ne_nil _ _, rfl⟩
      · exact ⟨_, rfl, List.cons_ne_nil _ _, by simp⟩
    obtain ⟨words, hserialize, hne, hlen⟩ := hwords
    have hends := nixVector_endsAt (0 + 4) hserialize hne
    rw [hlen] at hends
    obtain ⟨t, hrun, hw⟩ := serializePart_done maxSize 0 v.serializeTo {}
      (by rwa [Nat.zero_add]) hends (Nat.le_add_right _ _)
    rw [Nat.zero_add] at hrun
    refine ⟨t, ?_, fun limit => ?_⟩
    · rw [serializeNixVector, hrun, List.nil_append, Nat.zero_add]
    · have hiff := hw limit
      rw [List.nil_append, and_iff_right within_nil, Nat.zero_add] at hiff
      exact hiff

theorem confined_of_error (hrun : p.serialize h enable maxSize {} = .error () s) :
    p.Confined h enable maxSize ↔ Within s.written maxSize := by
  unfold Confined result
  rw [hrun]
  exact and_iff_left fun _ => rfl

theorem confined_of_ok (hrun : p.serialize h enable maxSize {} = .ok () s) :
    p.Confined h enable maxSize ↔
      Within s.written maxSize ∧ p.getSerializedSize enable ≤ maxSize := by
  unfold Confined result
  rw [hrun]
  refine and_congr_right fun _ => ⟨fun hlt => ?_, fun hle hgt => ?_⟩
  · by_contra hgt
    cases hlt (Nat.lt_of_not_le hgt)
  · omega

theorem getSerializedSize_eq : p.getSerializedSize enable =
    p.bufferPos enable + 4 + roundUp p.buffer.getSerializedSize := by
  unfold getSerializedSize bufferPos metadataPos packetTagPos byteTagPos
  cases p.nixVector with
  | none =>
    dsimp only
    omega
  | some v =>
    dsimp only
    omega

/-- The parts are taken one after the other: the first that is refused ends the writes. -/
theorem confined_iff_safe (h : Heap) (enable : Bool) (p : PacketParts) (maxSize : Nat) :
    p.Confined h enable maxSize ↔ p.Safe enable maxSize := by
  have c1 : p.byteTagCount = p.nixVectorCount + _ := rfl
  have c2 : p.packetTagCount = p.byteTagCount + _ := rfl
  have c3 : p.metadataCount enable = p.packetTagCount + _ := rfl
  have c4 : p.bufferCount enable = p.metadataCount enable + _ := rfl
  by_cases h0 : p.nixVectorCount ≤ maxSize
  swap
  · rw [confined_of_error (bind_error (serializeNixVector_refused h0))]
    refine iff_of_true within_nil ⟨?_, ?_, ?_, ?_, fun _ => ?_⟩ <;> intro hle <;> omega
  obtain ⟨t0, e0, w0⟩ := serializeNixVector_done h0
  by_cases h1 : p.byteTagCount ≤ maxSize
  swap
  · have hrun : p.serialize h enable maxSize {} = .error () ⟨p.nixVectorCount, t0⟩ := by
      rw [serialize, bind_ok e0]
      exact bind_error (serializePart_refused h1)
    rw [confined_of_error hrun, w0]
    refine ⟨fun hstop => ⟨fun _ => hstop, ?_, ?_, ?_, fun _ => ?_⟩, fun hsafe => hsafe.nixVector h0⟩
      <;> intro hle <;> omega
  obtain ⟨t1, e1, w1⟩ := serializePart_done maxSize p.byteTagPos
    (ByteTagList.serialize p.byteTagList) ⟨p.nixVectorCount, t0⟩ h1
    (ByteTagList.endsAt p.byteTagList (p.byteTagPos + 4)) (by omega)
  change _ = EStateM.Result.ok p.packetTagPos (⟨p.byteTagCount, t0 ++ t1⟩ : Progress UInt8) at e1
  by_cases h2 : p.packetTagCount ≤ maxSize
  swap
  · have hrun : p.serialize h enable maxSize {} = .error () ⟨p.byteTagCount, t0 ++ t1⟩ := by
      rw [serialize, bind_ok e0, bind_ok e1]
      exact bind_error (serializePart_refused h2)
    rw [confined_of_error hrun, w1, w0]
    refine ⟨fun hstop => ⟨fun _ => hstop.1, fun _ => hstop.2, ?_, ?_, fun _ => ?_⟩,
      fun hsafe => ⟨hsafe.nixVector h0, hsafe.byteTag h1⟩⟩ <;> intro hle <;> omega
  obtain ⟨t2, e2, w2⟩ := serializePart_done maxSize p.packetTagPos
    (PacketTagList.serialize p.packetTagList) ⟨p.byteTagCount, t0 ++ t1⟩ h2
    (PacketTagList.endsAt p.packetTagList (p.packetTagPos + 4)) (by omega)
  change _ = EStateM.Result.ok p.metadataPos
    (⟨p.packetTagCount, t0 ++ t1 ++ t2⟩ : Progress UInt8) at e2
  by_cases h3 : p.metadataCount enable ≤ maxSize
  swap
  · have hrun : p.serialize h enable maxSize {} =
        .error () ⟨p.packetTagCount, t0 ++ t1 ++ t2⟩ := by
      rw [serialize, bind_ok e0, bind_ok e1, bind_ok e2]
      exact bind_error (serializePart_refused h3)
    rw [confined_of_error hrun, w2, w1, w0]
    refine ⟨fun hstop => ⟨fun _ => hstop.1.1, fun _ => hstop.1.2, fun _ => hstop.2, ?_,
      fun _ => ?_⟩, fun hsafe => ⟨⟨hsafe.nixVector h0, hsafe.byteTag h1⟩, hsafe.packetTag h2⟩⟩
      <;> intro hle <;> omega
  by_cases hmeta : enable ∨ p.metadata.items = []
  swap
  · -- the metadata does not fit in the size that it has announced
    obtain ⟨hdisabled, hitems⟩ := not_or.mp hmeta
    rw [Bool.not_eq_true] at hdisabled
    subst hdisabled
    obtain ⟨t3, size, e3, w3⟩ := serializePart_failed maxSize p.metadataPos
      p.metadata.serialize ⟨p.packetTagCount, t0 ++ t1 ++ t2⟩ h3
      (PacketMetadata.endsAt_disabled hitems (p.metadataPos + 4)) (by omega)
    have hrun : p.serialize h false maxSize {} = .error () ⟨size, t0 ++ t1 ++ t2 ++ t3⟩ := by
      rw [serialize, bind_ok e0, bind_ok e1, bind_ok e2]
      exact bind_error e3
    rw [confined_of_error hrun, w3, w2, w1, w0]
    exact ⟨fun hstop => ⟨fun _ => hstop.1.1.1, fun _ => hstop.1.1.2, fun _ => hstop.1.2,
      fun _ => hstop.2, fun hcomplete => absurd hcomplete hmeta⟩, fun hsafe =>
      ⟨⟨⟨hsafe.nixVector h0, hsafe.byteTag h1⟩, hsafe.packetTag h2⟩, hsafe.metadata h3⟩⟩
  have hends : EndsAt (p.metadata.serialize (p.metadataPos + 4)
      (p.metadata.getSerializedSize enable)) true (p.metadataStop enable) := by
    cases enable with
    | true => exact PacketMetadata.endsAt_enabled p.metadata (p.metadataPos + 4)
    | false =>
      have hitems := hmeta.resolve_left Bool.false_ne_true
      have hsize : p.metadata.getSerializedSize false = p.metadata.getSerializedSize true := by
        rw [PacketMetadata.getSerializedSize_eq, hitems]
        rfl
      unfold metadataStop
      rw [hsize]
      exact PacketMetadata.endsAt_enabled p.metadata (p.metadataPos + 4)
  obtain ⟨t3, e3, w3⟩ := serializePart_done maxSize p.metadataPos p.metadata.serialize
    ⟨p.packetTagCount, t0 ++ t1 ++ t2⟩ h3 hends (by unfold metadataStop; omega)
  change _ = EStateM.Result.ok (p.bufferPos enable)
    (⟨p.metadataCount enable, t0 ++ t1 ++ t2 ++ t3⟩ : Progress UInt8) at e3
  by_cases h4 : p.bufferCount enable ≤ maxSize
  swap
  · have hrun : p.serialize h enable maxSize {} =
        .error () ⟨p.metadataCount enable, t0 ++ t1 ++ t2 ++ t3⟩ := by
      rw [serialize, bind_ok e0, bind_ok e1, bind_ok e2, bind_ok e3]
      exact bind_error (serializePart_refused h4)
    rw [confined_of_error hrun, w3, w2, w1, w0]
    exact ⟨fun hstop => ⟨fun _ => hstop.1.1.1, fun _ => hstop.1.1.2, fun _ => hstop.1.2,
      fun _ => hstop.2, fun _ hle => absurd hle h4⟩, fun hsafe =>
      ⟨⟨⟨hsafe.nixVector h0, hsafe.byteTag h1⟩, hsafe.packetTag h2⟩, hsafe.metadata h3⟩⟩
  obtain ⟨t4, e4, w4⟩ := serializePart_done maxSize (p.bufferPos enable) (p.buffer.serialize h)
    ⟨p.metadataCount enable, t0 ++ t1 ++ t2 ++ t3⟩ h4
    (Buffer.serialize_endsAt h p.buffer (p.bufferPos enable + 4)) (by omega)
  have hrun : p.serialize h enable maxSize {} =
      .ok () ⟨p.bufferCount enable, t0 ++ t1 ++ t2 ++ t3 ++ t4⟩ := by
    rw [serialize, bind_ok e0, bind_ok e1, bind_ok e2, bind_ok e3]
    exact bind_ok e4
  rw [confined_of_ok hrun, w4, w3, w2, w1, w0]
  constructor
  · intro hstop
    exact ⟨fun _ => hstop.1.1.1.1.1, fun _ => hstop.1.1.1.1.2, fun _ => hstop.1.1.1.2,
      fun _ => hstop.1.1.2, fun _ _ => hstop.2⟩
  · intro hsafe
    have hfull := hsafe.buffer hmeta h4
    refine ⟨⟨⟨⟨⟨hsafe.nixVector h0, hsafe.byteTag h1⟩, hsafe.packetTag h2⟩, hsafe.metadata h3⟩,
      ?_⟩, hfull⟩
    -- the end of the buffer is the end of the packet, up to the padding
    rw [getSerializedSize_eq] at hfull
    have hround := le_roundUp (p.buffer.dataEnd - p.buffer.zeroAreaEnd)
    have hsize := le_roundUp p.buffer.getSerializedSize
    have hbuffer : p.buffer.getSerializedSize = 4 + 4 + _ + 4 + _ := rfl
    omega

/-- A packet without tags, metadata and bytes takes 48 bytes, of which 32 are counted. -/
def emptyParts : PacketParts where
  nixVector := none
  byteTagList := []
  packetTagList := []
  metadata := ⟨0, []⟩
  buffer := ⟨0, 0, 0, 0, 0, 0⟩

def zeroHeap : Heap where
  data _ := ⟨1, 0, 0, 0, fun _ => 0⟩

theorem emptyParts_overrun : emptyParts.getSerializedSize false = 48 ∧
    (result (emptyParts.serialize zeroHeap false 32)).1 = true ∧
    (44, word 0) ∈ (result (emptyParts.serialize zeroHeap false 32)).2 ∧
    ¬emptyParts.Confined zeroHeap false 32 := by
  refine ⟨rfl, by decide, by decide, fun hconf => ?_⟩
  exact absurd (hconf.2 (by decide)) (by decide)

end PacketParts

end Ns3.Network
