import Ns3.Network.NixVector
import Mathlib.Data.List.Induction

/-!
# NixVector as a stack

The fields that were added make a number, the first one at its lowest bits, and the words hold this
number. An extraction reads the highest field that is left. Where the bits that are left fill whole
words, `ExtractNeighborIndex` shifts by 32.
-/

namespace Ns3.Network

open SequenceNumber32 Lib

/-- The bits of the fields. -/
def width (fields : List (ℕ × ℕ)) : ℕ := (fields.map Prod.snd).sum

/-- The number that the fields make. -/
def pack : List (ℕ × ℕ) → ℕ
  | [] => 0
  | field :: fields => field.1 ||| pack fields <<< field.2

/-- An index with its width. -/
def ValidField (field : ℕ × ℕ) : Prop := 1 ≤ field.2 ∧ field.2 ≤ 32 ∧ field.1 < 2 ^ field.2

instance (field : ℕ × ℕ) : Decidable (ValidField field) :=
  inferInstanceAs (Decidable (1 ≤ field.2 ∧ field.2 ≤ 32 ∧ field.1 < 2 ^ field.2))

variable {fields kept taken : List (ℕ × ℕ)} {field : ℕ × ℕ} {b n r : ℕ}

@[simp] theorem width_nil : width [] = 0 := rfl

@[simp] theorem width_cons : width (field :: fields) = field.2 + width fields := by
  rw [width, List.map_cons, List.sum_cons]
  rfl

@[simp] theorem width_append : width (kept ++ taken) = width kept + width taken := by
  rw [width, List.map_append, List.sum_append]
  rfl

theorem pack_append : pack (kept ++ taken) = pack kept ||| pack taken <<< width kept := by
  induction kept with
  | nil => rw [List.nil_append, pack, Nat.zero_or, width_nil, Nat.shiftLeft_zero]
  | cons field kept ih =>
    rw [List.cons_append, pack, ih, pack, Nat.shiftLeft_or_distrib, ← Nat.shiftLeft_add,
      Nat.or_assoc, width_cons, Nat.add_comm field.2]

theorem pack_singleton : pack [field] = field.1 := by
  rw [pack, pack, Nat.zero_shiftLeft, Nat.or_zero]

theorem pack_lt (h : ∀ f ∈ fields, ValidField f) : pack fields < 2 ^ width fields := by
  induction fields with
  | nil => exact Nat.one_pos
  | cons field fields ih =>
    obtain ⟨hfield, hfields⟩ := List.forall_mem_cons.mp h
    rw [pack, width_cons]
    apply Nat.or_lt_two_pow
    · exact hfield.2.2.trans_le (Nat.pow_le_pow_right (by decide) (Nat.le_add_right _ _))
    · rw [Nat.shiftLeft_eq, Nat.add_comm, Nat.pow_add]
      exact (Nat.mul_lt_mul_right (Nat.two_pow_pos _)).mpr (ih hfields)

/-- The highest field. -/
theorem pack_shiftRight (h : ∀ f ∈ kept, ValidField f) :
    pack (kept ++ [field]) >>> width kept = field.1 := by
  rw [pack_append, pack_singleton, Nat.shiftRight_or_distrib, Nat.shiftLeft_shiftRight,
    Nat.shiftRight_eq_div_pow, Nat.div_eq_of_lt (pack_lt h), Nat.zero_or]

/-- The fields below the highest one. -/
theorem pack_mod (h : ∀ f ∈ kept, ValidField f) :
    pack (kept ++ taken) % 2 ^ width kept = pack kept := by
  rw [pack_append, Nat.or_mod_two_pow, Nat.shiftLeft_eq, Nat.mul_mod_left, Nat.or_zero,
    Nat.mod_eq_of_lt (pack_lt h)]

namespace NixVector

variable {v v' : NixVector} {words : List ℕ} {N epoch : ℕ}

theorem shl_of_lt {x k : ℕ} (hk : k < 32) : shl x k = .ok (x <<< k % 2 ^ 32) := if_pos hk

theorem shr_of_lt {x k : ℕ} (hk : k < 32) : shr x k = .ok (x >>> k) := if_pos hk

theorem at_of_lt {i : ℕ} (hi : i < words.length) : at_ words i = .ok (words.getD i 0) := if_pos hi

theorem back_append {init : List ℕ} {last : ℕ} : back (init ++ [last]) = .ok last := by
  rw [back, List.getLast?_concat]

/-- The words hold the fields. -/
structure Holds (v : NixVector) (fields : List (ℕ × ℕ)) : Prop where
  words : Words 32 v.m_nixVector (pack fields)
  length : v.m_nixVector.length = (width fields + 31) / 32
  total : v.m_totalBitSize = width fields % 2 ^ 32

theorem holds_nil (epoch : ℕ) : Holds { m_epoch := epoch } [] := ⟨words_nil, rfl, rfl⟩

/-- The last word is the one that the next index begins in. -/
theorem Holds.exists_last (h : v.Holds fields) (hlt : pack fields < 2 ^ width fields) :
    ∃ init last, (if v.m_totalBitSize % 32 = 0 then v.m_nixVector ++ [0] else v.m_nixVector) =
        init ++ [last] ∧ init.length = width fields / 32 ∧
        Words 32 (init ++ [last]) (pack fields) := by
  have hlength := h.length
  have htotal := h.total
  split
  · refine ⟨v.m_nixVector, 0, rfl, by omega, h.words.append_zero (hlt.trans_le ?_)⟩
    exact Nat.pow_le_pow_right (by decide) (by omega)
  · rcases List.eq_nil_or_concat v.m_nixVector with hnil | ⟨init, last, heq⟩
    · rw [hnil, List.length_nil] at hlength
      omega
    · rw [List.concat_eq_append] at heq
      rw [heq, List.length_append, List.length_singleton] at hlength
      exact ⟨init, last, heq, by omega, heq ▸ h.words⟩

theorem addNeighborIndex_holds (h : v.Holds fields) (hlt : pack fields < 2 ^ width fields)
    (hfield : ValidField field) : ∃ v', v.addNeighborIndex field.1 field.2 = .ok v' ∧
      v'.Holds (fields ++ [field]) ∧ v'.m_used = v.m_used ∧ v'.m_epoch = v.m_epoch := by
  obtain ⟨hn, hn', hb⟩ := hfield
  obtain ⟨init, last, hlast, hinit, hwords⟩ := h.exists_last hlt
  have hmod : v.m_totalBitSize % 32 = width fields % 32 := by
    rw [h.total]
    omega
  have hwidth : 32 * init.length + width fields % 32 = width fields := by omega
  have htotal : (v.m_totalBitSize + field.2) % 2 ^ 32 = (width fields + field.2) % 2 ^ 32 := by
    rw [h.total]
    omega
  rw [addNeighborIndex, if_neg (by omega)]
  dsimp only
  rw [hlast, hmod, bind_of_eq back_append]
  split
  · -- the rest of the index is in a new word
    rw [bind_of_eq (shl_of_lt (by omega)), bind_of_eq (shr_of_lt (by omega)), List.dropLast_concat]
    refine ⟨_, rfl, ⟨?_, ?_, ?_⟩, rfl, rfl⟩
    · have hx : field.1 <<< (width fields % 32) % 2 ^ 32 < 2 ^ 32 := Nat.mod_lt _ (by decide)
      have hrest : field.1 >>> (32 - width fields % 32) < 2 ^ 32 := by
        refine (Nat.shiftRight_le _ _).trans_lt (hb.trans_le ?_)
        exact Nat.pow_le_pow_right (by decide) hn'
      have hor := hwords.or_back hx
      have hlt' :
          pack fields ||| (field.1 <<< (width fields % 32) % 2 ^ 32) <<< (32 * init.length) <
          2 ^ (32 * (init ++ [field.1 <<< (width fields % 32) % 2 ^ 32 ||| last]).length) := by
        rw [List.length_append, List.length_singleton]
        apply Nat.or_lt_two_pow
        · exact hlt.trans_le (Nat.pow_le_pow_right (by decide) (by omega))
        · rw [Nat.shiftLeft_eq, Nat.mul_succ, Nat.pow_add, Nat.mul_comm]
          exact (Nat.mul_lt_mul_left (Nat.two_pow_pos _)).mpr hx
      have hnew := hor.append hlt' hrest
      rw [List.length_append, List.length_singleton, Nat.mul_succ, Nat.or_assoc,
        shiftLeft_split (by omega), hwidth] at hnew
      rw [pack_append, pack_singleton]
      exact hnew
    · rw [List.length_append, List.length_append, List.length_singleton, List.length_singleton,
        width_append, width_cons, width_nil, hinit]
      omega
    · rw [width_append, width_cons, width_nil, Nat.add_zero]
      exact htotal
  · rw [bind_of_eq (shl_of_lt (by omega)), List.dropLast_concat]
    refine ⟨_, rfl, ⟨?_, ?_, ?_⟩, rfl, rfl⟩
    · have hx : field.1 <<< (width fields % 32) < 2 ^ 32 := by
        rw [Nat.shiftLeft_eq]
        calc field.1 * 2 ^ (width fields % 32) < 2 ^ field.2 * 2 ^ (width fields % 32) :=
              (Nat.mul_lt_mul_right (Nat.two_pow_pos _)).mpr hb
          _ = 2 ^ (field.2 + width fields % 32) := (Nat.pow_add _ _ _).symm
          _ ≤ 2 ^ 32 := Nat.pow_le_pow_right (by decide) (by omega)
      have hnew := hwords.or_back hx
      rw [← Nat.shiftLeft_add, Nat.add_comm (width fields % 32), hwidth] at hnew
      rw [Nat.mod_eq_of_lt hx, pack_append, pack_singleton]
      exact hnew
    · rw [List.length_append, List.length_singleton, width_append, width_cons, width_nil, hinit]
      omega
    · rw [width_append, width_cons, width_nil, Nat.add_zero]
      exact htotal

/-! ### Extraction -/

theorem extractBits_eq (h : Words 32 words N) (hr : r ≤ 32 * words.length) (hmod : r % 32 ≠ 0)
    (hn : 0 < n) (hn' : n ≤ 32) (hnr : n ≤ r) :
    extractBits words r n = .ok (N >>> (r - n) % 2 ^ n) := by
  have hindex : (r - 1) / 32 = r / 32 := by omega
  have hlast : (r - 1) % 32 = r % 32 - 1 := by omega
  rw [extractBits, hindex, hlast]
  split
  · obtain ⟨i, hi⟩ : ∃ i, r / 32 = i + 1 := Nat.exists_eq_add_one.mpr (by omega)
    have hshift : 32 - r % 32 - (n - r % 32) = 32 - n := by omega
    have hwidth : 32 * (i + 1) + r % 32 - n = r - n := by omega
    have hspan : (words.getD (i + 1) 0 <<< (32 - r % 32) % 2 ^ 32) >>> (32 - n) |||
        words.getD i 0 >>> (32 - (n - r % 32)) = _ := h.field_span (by omega) hn'
    rw [hi, bind_of_eq (at_of_lt (by omega)), bind_of_eq (shl_of_lt (by omega)), hshift,
      bind_of_eq (shr_of_lt (by omega)), Nat.add_sub_cancel, bind_of_eq (at_of_lt (by omega)),
      bind_of_eq (shr_of_lt (by omega)), hspan, hwidth]
    rfl
  · have hwidth : 32 * (r / 32) + (r % 32 - n) = r - n := by omega
    rw [bind_of_eq (at_of_lt (by omega)), bind_of_eq (shl_of_lt (by omega)), shr_of_lt (by omega),
      h.field (by omega) (by omega), hwidth]

/-- Where the bits fill whole words, the shift is undefined. -/
theorem extractBits_full (hmod : r % 32 = 0) (hn' : n ≤ 32) {index : ℕ} :
    extractBits words r n ≠ .ok index := by
  intro hok
  rw [extractBits, if_neg (by omega), hmod] at hok
  obtain ⟨word, -, hok⟩ := bind_eq_ok.mp hok
  obtain ⟨bits, hshift, -⟩ := bind_eq_ok.mp hok
  cases hshift

theorem extractNeighborIndex_eq (hw : Words 32 v.m_nixVector N)
    (hlength : v.getRemainingBits ≤ 32 * v.m_nixVector.length) (hmod : v.getRemainingBits % 32 ≠ 0)
    (hn : 0 < n) (hn' : n ≤ 32) (hnr : n ≤ v.getRemainingBits) : v.extractNeighborIndex n =
      .ok ({ v with m_used := (v.m_used + n) % 2 ^ 32 },
      N >>> (v.getRemainingBits - n) % 2 ^ n) := by
  rw [extractNeighborIndex, if_neg (by omega), extractBits_eq hw hlength hmod hn hn' hnr]
  rfl

/-- The bits of the first fields never fill whole words. -/
def NoFullWord (fields : List (ℕ × ℕ)) : Prop :=
  ∀ k < fields.length, width (fields.take (k + 1)) % 32 ≠ 0

instance (fields : List (ℕ × ℕ)) : Decidable (NoFullWord fields) :=
  inferInstanceAs (Decidable (∀ k < fields.length, width (fields.take (k + 1)) % 32 ≠ 0))

theorem noFullWord_iff :
    NoFullWord fields ↔ ∀ kept field taken, fields = kept ++ field :: taken →
      width (kept ++ [field]) % 32 ≠ 0 := by
  constructor
  · rintro h kept field taken rfl
    have hk := h kept.length (by simp)
    rwa [List.append_cons, List.take_left' (by simp)] at hk
  · intro h k hk
    rw [List.take_succ_eq_append_getElem hk]
    apply h (fields.take k) _ (fields.drop (k + 1))
    rw [List.getElem_cons_drop, List.take_append_drop]

/-- The state after some of the fields were extracted, and the others are left. -/
structure Left (v : NixVector) (N : ℕ) (kept : List (ℕ × ℕ)) : Prop where
  words : Words 32 v.m_nixVector N
  low : N % 2 ^ width kept = pack kept
  length : width kept ≤ 32 * v.m_nixVector.length
  total : v.m_totalBitSize = v.m_used + width kept
  total_lt : v.m_totalBitSize < 2 ^ 32

theorem Left.remaining (h : v.Left N kept) : v.getRemainingBits = width kept := by
  have htotal := h.total
  have hlt := h.total_lt
  rw [getRemainingBits, diff]
  omega

/-- The highest field that is left is extracted. -/
theorem Left.extract (h : v.Left N (kept ++ [field])) (hkept : ∀ f ∈ kept, ValidField f)
    (hfield : ValidField field) (hmod : width (kept ++ [field]) % 32 ≠ 0) :
    ∃ v', v.extractNeighborIndex field.2 = .ok (v', field.1) ∧ v'.Left N kept ∧
      v' = { v with m_used := v.m_used + field.2 } := by
  obtain ⟨hn, hn', hb⟩ := hfield
  have htotal := h.total
  have hlt := h.total_lt
  have hlength := h.length
  have hpack := h.low
  have hwidth : width (kept ++ [field]) = width kept + field.2 := by
    rw [width_append, width_cons, width_nil, Nat.add_zero]
  have hindex : N >>> width kept % 2 ^ field.2 = field.1 := by
    calc N >>> width kept % 2 ^ field.2
        = N % (2 ^ width kept * 2 ^ field.2) / 2 ^ width kept := by
          rw [Nat.mod_mul_right_div_self, Nat.shiftRight_eq_div_pow]
      _ = pack (kept ++ [field]) >>> width kept := by
          rw [← Nat.pow_add, ← hwidth, hpack, Nat.shiftRight_eq_div_pow]
      _ = field.1 := pack_shiftRight hkept
  have hremaining := h.remaining
  rw [hwidth] at htotal hlength hmod hpack
  rw [hwidth] at hremaining
  refine ⟨{ v with m_used := v.m_used + field.2 }, ?_, ⟨h.words, ?_, ?_, ?_, hlt⟩, rfl⟩
  · rw [extractNeighborIndex_eq h.words (by omega) (by omega) hn hn' (by omega), hremaining,
      Nat.add_sub_cancel, hindex, Nat.mod_eq_of_lt (by omega)]
  · have hmod' := congrArg (· % 2 ^ width kept) hpack
    simp only [Nat.pow_add, Nat.mod_mul_right_mod] at hmod'
    rw [hmod', pack_mod hkept]
  · show width kept ≤ 32 * v.m_nixVector.length
    omega
  · show v.m_totalBitSize = v.m_used + field.2 + width kept
    omega

theorem extractAll_cons {rest : List ℕ} : v.extractAll (n :: rest) =
    v.extractNeighborIndex n >>= fun r => r.1.extractAll rest >>= fun r' =>
      .ok (r'.1, r.2 :: r'.2) := rfl

/-- All fields above some are extracted, the last one first. -/
theorem Left.extractAll (h : v.Left N (kept ++ taken)) (hvalid : ∀ f ∈ kept ++ taken, ValidField f)
    (hfull : NoFullWord (kept ++ taken)) :
    ∃ v', v.extractAll (taken.reverse.map Prod.snd) = .ok (v', taken.reverse.map Prod.fst) ∧
      v'.Left N kept ∧ v' = { v with m_used := v.m_used + width taken } := by
  induction taken using List.reverseRecOn generalizing v with
  | nil =>
    rw [List.append_nil] at h
    exact ⟨v, rfl, h, rfl⟩
  | append_singleton taken field ih =>
    rw [← List.append_assoc] at h hvalid hfull
    obtain ⟨hrest, hfield⟩ := List.forall_mem_append.mp hvalid
    have hmod := noFullWord_iff.mp hfull (kept ++ taken) field [] rfl
    have hfull' : NoFullWord (kept ++ taken) := by
      apply noFullWord_iff.mpr
      intro before f after heq
      apply noFullWord_iff.mp hfull before f (after ++ [field])
      rw [heq, List.append_assoc]
      rfl
    obtain ⟨v1, hextract, hleft, rfl⟩ := h.extract hrest (hfield field (by simp)) hmod
    obtain ⟨v2, hall, hleft2, rfl⟩ := ih hleft hrest hfull'
    refine ⟨_, ?_, hleft2, ?_⟩
    · rw [List.reverse_append, List.reverse_singleton, List.singleton_append, List.map_cons,
        List.map_cons, extractAll_cons, bind_of_eq hextract]
      dsimp only
      rw [bind_of_eq hall]
    · rw [width_append, width_cons, width_nil, Nat.add_zero]
      dsimp only
      rw [Nat.add_assoc, Nat.add_comm field.2]

theorem extractAll_append {first rest : List ℕ} : v.extractAll (first ++ rest) =
    v.extractAll first >>= fun r => r.1.extractAll rest >>= fun r' => .ok (r'.1, r.2 ++ r'.2) := by
  induction first generalizing v with
  | nil =>
    rw [List.nil_append, NixVector.extractAll, ok_bind]
    cases v.extractAll rest with
    | error e => rfl
    | ok r => rfl
  | cons n first ih =>
    rw [List.cons_append, extractAll_cons, extractAll_cons]
    cases v.extractNeighborIndex n with
    | error e => rfl
    | ok r =>
      rw [ok_bind, ok_bind, ih]
      cases r.1.extractAll first with
      | error e => rfl
      | ok r1 =>
        rw [ok_bind, ok_bind, ok_bind]
        cases r1.1.extractAll rest with
        | error e => rfl
        | ok r2 => rfl

/-! ### Serialization -/

/-- `Deserialize` gets back what `Serialize` wrote. -/
def RoundTrips (v : NixVector) : Prop :=
  ∃ buffer, v.serialize v.getSerializedSize = some buffer ∧
    ({} : NixVector).deserialize buffer (v.getSerializedSize + 4) = .ok (some v)

theorem mapM_of_ok {α β : Type} {l : List α} {f : α → Except NixFault β} {g : α → β}
    (h : ∀ a ∈ l, f a = .ok (g a)) : l.mapM f = .ok (l.map g) := by
  induction l with
  | nil => rfl
  | cons a l ih =>
    obtain ⟨ha, hl⟩ := List.forall_mem_cons.mp h
    rw [List.mapM_cons, bind_of_eq ha, bind_of_eq (ih hl)]
    rfl

/-- The words in the middle of a buffer. -/
theorem mapM_at (first rest : List ℕ) : (List.range words.length).mapM
    (fun j => at_ (first ++ (words ++ rest)) (first.length + j)) = .ok words := by
  rw [mapM_of_ok (g := fun j => words.getD j 0)]
  · apply congrArg
    apply List.ext_getElem
    · rw [List.length_map, List.length_range]
    · intro i hi hi'
      rw [List.getElem_map, List.getElem_range, List.getD_eq_getElem _ _ hi']
  · intro j hj
    rw [List.mem_range] at hj
    rw [at_of_lt (by simp only [List.length_append]; omega),
      List.getD_append_right _ _ _ _ (by omega), Nat.add_sub_cancel_left,
      List.getD_append _ _ _ _ hj]

theorem roundTrips_of_pos (hpos : v.m_totalBitSize ≠ 0) (hlt : v.m_totalBitSize < 2 ^ 32)
    (hlength : v.m_nixVector.length = (v.m_totalBitSize + 31) / 32) : v.RoundTrips := by
  have hsize : v.getSerializedSize = 12 + 4 * v.m_nixVector.length := by
    rw [getSerializedSize, if_neg hpos]
    omega
  have hwords : (v.m_totalBitSize / 32 + if v.m_totalBitSize % 32 = 0 then 0 else 1) =
      v.m_nixVector.length := by
    split
    · omega
    · omega
  refine ⟨v.m_totalBitSize :: v.m_used :: v.m_nixVector ++ [v.m_epoch], ?_, ?_⟩
  · rw [serialize, if_neg (lt_irrefl _), if_neg hpos]
  · have hlast : at_ (v.m_totalBitSize :: v.m_used :: v.m_nixVector ++ [v.m_epoch])
        (2 + v.m_nixVector.length) = .ok v.m_epoch := by
      have hget : (v.m_totalBitSize :: v.m_used :: v.m_nixVector ++ [v.m_epoch]).getD
          (v.m_totalBitSize :: v.m_used :: v.m_nixVector).length 0 = v.m_epoch := getD_append_length
      rw [List.length_cons, List.length_cons, Nat.add_assoc, Nat.add_comm] at hget
      rw [at_of_lt (by simp; omega), hget]
    have hmiddle : (List.range v.m_nixVector.length).mapM
        (fun j => at_ (v.m_totalBitSize :: v.m_used :: v.m_nixVector ++ [v.m_epoch]) (2 + j)) =
          .ok v.m_nixVector :=
      mapM_at [v.m_totalBitSize, v.m_used] [v.m_epoch]
    have hfirst : at_ (v.m_totalBitSize :: v.m_used :: v.m_nixVector ++ [v.m_epoch]) 0 =
        .ok v.m_totalBitSize := rfl
    have hsecond : at_ (v.m_totalBitSize :: v.m_used :: v.m_nixVector ++ [v.m_epoch]) 1 =
        .ok v.m_used := if_pos (by simp)
    rw [deserialize, if_neg (by omega), bind_of_eq hfirst, if_neg hpos, bind_of_eq hsecond]
    dsimp only
    rw [hwords, if_neg (by rw [hsize]; omega), bind_of_eq hmiddle, bind_of_eq hlast]
    rfl

theorem roundTrips_empty {epoch : ℕ} : RoundTrips { m_epoch := epoch } ↔ epoch = 0 := by
  constructor
  · rintro ⟨buffer, hwrite, hread⟩
    cases hwrite
    have hepoch := congrArg NixVector.m_epoch (Option.some.inj (Except.ok.inj hread))
    exact hepoch.symm
  · rintro rfl
    exact ⟨[0], rfl, rfl⟩

/-! ### BitCount -/

theorem lt_two_pow_bitCountLoop (m : ℕ) : m < 2 ^ bitCountLoop m := by
  induction m using bitCountLoop.induct with
  | case1 =>
    rw [bitCountLoop, if_pos rfl]
    exact Nat.one_pos
  | case2 m hm ih =>
    rw [bitCountLoop, if_neg hm, Nat.pow_succ]
    rw [Nat.shiftRight_eq_div_pow] at ih
    rw [Nat.shiftRight_eq_div_pow]
    omega

theorem lt_two_pow_bitCount {b m : ℕ} (h : b < m) : b < 2 ^ bitCount m := by
  rw [bitCount]
  split
  · omega
  · have hlt := lt_two_pow_bitCountLoop (m - 1)
    omega

/-! ### The stack -/

theorem addAll_append :
    v.addAll (kept ++ taken) = v.addAll kept >>= fun v => v.addAll taken := List.foldlM_append

theorem addAll_holds (hvalid : ∀ f ∈ fields, ValidField f) (epoch : ℕ) :
    ∃ v, ({ m_epoch := epoch } : NixVector).addAll fields = .ok v ∧ v.Holds fields ∧ v.m_used = 0 ∧
      v.m_epoch = epoch := by
  induction fields using List.reverseRecOn with
  | nil => exact ⟨_, rfl, holds_nil epoch, rfl, rfl⟩
  | append_singleton fields field ih =>
    obtain ⟨hfields, hfield⟩ := List.forall_mem_append.mp hvalid
    obtain ⟨v, hadd, hholds, hused, hepoch⟩ := ih hfields
    obtain ⟨v', hnext, hholds', hused', hepoch'⟩ :=
      addNeighborIndex_holds hholds (pack_lt hfields) (hfield field (by simp))
    refine ⟨v', ?_, hholds', hused'.trans hused, hepoch'.trans hepoch⟩
    rw [addAll_append, bind_of_eq hadd, addAll, List.foldlM_cons, bind_of_eq hnext]
    rfl

/-- After the fields are added, any number of them is extracted, the last one first; the number of
bits left is right, and the vector can be written and read. -/
structure Stacks (epoch : ℕ) (fields : List (ℕ × ℕ)) : Prop where
  extracts : ∀ kept taken, fields = kept ++ taken → ∃ v,
    (({ m_epoch := epoch } : NixVector).addAll fields >>= fun v =>
      v.extractAll (taken.reverse.map Prod.snd)) = .ok (v, taken.reverse.map Prod.fst) ∧
    v.getRemainingBits = width kept ∧ v.RoundTrips
  bitCount : ∀ b m, m < 2 ^ 32 → b < m → b < 2 ^ bitCount m

theorem Holds.left (h : v.Holds fields) (hvalid : ∀ f ∈ fields, ValidField f)
    (hused : v.m_used = 0) (hlt : width fields < 2 ^ 32) : v.Left (Network.pack fields) fields where
  words := h.words
  low := Nat.mod_eq_of_lt (pack_lt hvalid)
  length := by
    rw [h.length]
    omega
  total := by
    rw [h.total, hused, Nat.mod_eq_of_lt hlt, Nat.zero_add]
  total_lt := by
    rw [h.total]
    exact Nat.mod_lt _ (by decide)

theorem Stacks.width_lt (h : Stacks epoch fields) (hvalid : ∀ f ∈ fields, ValidField f) :
    width fields < 2 ^ 32 := by
  obtain ⟨v, hadd, hholds, hused, -⟩ := addAll_holds hvalid epoch
  obtain ⟨v', hrun, hremaining, -⟩ := h.extracts fields [] (List.append_nil fields).symm
  rw [bind_of_eq hadd] at hrun
  cases hrun
  rw [getRemainingBits, hholds.total, hused, diff] at hremaining
  omega

theorem Stacks.noFullWord (h : Stacks epoch fields) (hvalid : ∀ f ∈ fields, ValidField f) :
    NoFullWord fields := by
  rw [noFullWord_iff]
  rintro kept field taken rfl hfull
  obtain ⟨v, hadd, -, -, -⟩ := addAll_holds hvalid epoch
  obtain ⟨v1, hrun1, hremaining, -⟩ := h.extracts (kept ++ [field]) taken (List.append_cons _ _ _)
  obtain ⟨v2, hrun2, -, -⟩ := h.extracts kept (field :: taken) rfl
  rw [bind_of_eq hadd] at hrun1 hrun2
  rw [List.reverse_cons, List.map_append, extractAll_append, bind_of_eq hrun1] at hrun2
  obtain ⟨⟨v3, indices⟩, hlast, -⟩ := bind_eq_ok.mp hrun2
  obtain ⟨⟨v4, index⟩, hextract, -⟩ := bind_eq_ok.mp hlast
  obtain ⟨-, hn', -⟩ := hvalid field (by simp)
  rw [extractNeighborIndex, hremaining] at hextract
  split at hextract
  · cases hextract
  · obtain ⟨bits, hbits, -⟩ := bind_eq_ok.mp hextract
    exact extractBits_full hfull hn' hbits

/-- A vector of one word with 32 bits cannot be extracted. -/
theorem stack_full : ¬∀ epoch fields, (∀ f ∈ fields, ValidField f) → Stacks epoch fields := by
  intro h
  obtain ⟨v, hrun, -⟩ := (h 0 [(5, 32)] (by decide)).extracts [] [(5, 32)] rfl
  cases hrun

/-- The vector is a stack if and only if the first fields never fill whole words, all bits can be
counted, and no empty vector has an epoch. -/
theorem stacks_iff (epoch : ℕ) (fields : List (ℕ × ℕ)) (hvalid : ∀ f ∈ fields, ValidField f) :
    Stacks epoch fields ↔
      width fields < 2 ^ 32 ∧ NoFullWord fields ∧ (fields = [] → epoch = 0) := by
  constructor
  · intro h
    refine ⟨h.width_lt hvalid, h.noFullWord hvalid, ?_⟩
    rintro rfl
    obtain ⟨v, hrun, -, hround⟩ := h.extracts [] [] rfl
    cases hrun
    exact roundTrips_empty.mp hround
  · rintro ⟨hlt, hfull, hepoch⟩
    refine ⟨?_, fun b m _ hb => lt_two_pow_bitCount hb⟩
    rintro kept taken rfl
    obtain ⟨v, hadd, hholds, hused, rfl⟩ := addAll_holds hvalid epoch
    obtain ⟨v', hrun, hleft, rfl⟩ := (hholds.left hvalid hused hlt).extractAll hvalid hfull
    refine ⟨_, by rw [bind_of_eq hadd]; exact hrun, hleft.remaining, ?_⟩
    by_cases hempty : kept ++ taken = []
    · obtain ⟨rfl, rfl⟩ := List.append_eq_nil_iff.mp hempty
      rw [← Except.ok.inj hadd] at hepoch ⊢
      rw [hepoch rfl]
      exact roundTrips_empty.mpr rfl
    · have htotal := hholds.total
      rw [Nat.mod_eq_of_lt hlt] at htotal
      have hpos : width (kept ++ taken) ≠ 0 := by
        obtain ⟨f, rest, heq⟩ := List.exists_cons_of_ne_nil hempty
        have hf := (hvalid f (by rw [heq]; exact List.mem_cons_self)).1
        rw [heq, width_cons]
        omega
      apply roundTrips_of_pos
      · exact htotal.trans_ne hpos
      · exact htotal.trans_lt hlt
      · exact hholds.length.trans (by rw [htotal])

theorem stacks_iff_two : Stacks 7 [(2, 20), (5, 13)] ↔ width [(2, 20), (5, 13)] < 2 ^ 32 ∧
    NoFullWord [(2, 20), (5, 13)] ∧ (([(2, 20), (5, 13)] : List (ℕ × ℕ)) = [] → 7 = 0) :=
  stacks_iff 7 [(2, 20), (5, 13)] (by decide)

end NixVector

end Ns3.Network
