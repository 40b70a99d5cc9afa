import Ns3.Lib.Bits
import Mathlib.Tactic.Linarith

/-!
# Frame, subframe and slot numbers

`SfnSf` counts slots as (frame, subframe, slot) for a fixed numerology. The frame
number is a `uint16_t`, so it wraps after 65536 frames, and sums of slots are taken in
`uint32_t`. The file embeds the counter arithmetic (`add`, `normalize`) and the three
packed encodings that the scheduler and the PHY use as map keys, and shows

* `faithful_counter`: adding slots is addition of slot numbers modulo 65536 frames, and both
  encodings determine the counter;
* `normalize_add`: below frame 65536, adding slots is addition of slot numbers;
* `slotAt_normalize`, `add_slotAt`: the `t`-th slot of a run that starts at slot 0 of
  frame 0, and what `add` does to it;
* `encForStreamWithSymStart_inj`: the key that carries slot, symbol and stream
  determines all three; `encodingWithSymStart_eq_encForStream_iff`: the key without a
  stream is the key of a stream only in slot 0 of frame 0, symbol 0, stream 0.
-/

namespace Ns3.Nr

/-- `SfnSf`. The members are unsigned machine words of 16, 8 and 16 bits. -/
@[ext] structure SfnSf where
  frameNum : Nat
  subframeNum : Nat
  slotNum : Nat
  numerology : Nat
deriving DecidableEq, Repr

namespace SfnSf

def subframesPerFrame : Nat := 10

/-- `GetSlotPerSubframe`: `1 << m_numerology`. -/
def slotPerSubframe (s : SfnSf) : Nat := 1 <<< s.numerology

/-- `GetEncoding`. -/
def encoding (s : SfnSf) : Nat :=
  (s.numerology <<< 48) ||| (s.frameNum <<< 32) ||| (s.subframeNum <<< 24) ||| (s.slotNum <<< 8)

/-- `GetEncodingWithSymStart`. -/
def encodingWithSymStart (s : SfnSf) (symStart : Nat) : Nat :=
  (s.numerology <<< 48) ||| (s.frameNum <<< 32) ||| (s.subframeNum <<< 24) |||
    (s.slotNum <<< 8) ||| symStart

/-- `GetEncForStreamWithSymStart`. -/
def encForStreamWithSymStart (s : SfnSf) (streamId symStart : Nat) : Nat :=
  (s.numerology <<< 56) ||| (s.frameNum <<< 40) ||| (s.subframeNum <<< 32) |||
    (s.slotNum <<< 16) ||| (symStart <<< 8) ||| streamId

/-- `Normalize`: the slot number. The products are taken in `uint32_t`. -/
def normalize (s : SfnSf) : Nat :=
  s.slotNum + (s.subframeNum * s.slotPerSubframe) % 2 ^ 32 +
    (s.frameNum * subframesPerFrame * s.slotPerSubframe) % 2 ^ 32

/-- `Add`: advance by `slotN` slots. -/
def add (s : SfnSf) (slotN : Nat) : SfnSf :=
  let slots := (s.slotNum + slotN) % 2 ^ 32
  let subframes := (s.subframeNum + slots / s.slotPerSubframe) % 2 ^ 32
  { s with
    frameNum := (s.frameNum + subframes / subframesPerFrame) % 2 ^ 16
    subframeNum := subframes % subframesPerFrame
    slotNum := slots % s.slotPerSubframe % 2 ^ 16 }

/-- `operator <` on frame, subframe and slot. -/
def lt (a b : SfnSf) : Bool :=
  if a.frameNum < b.frameNum then true
  else if a.frameNum = b.frameNum ∧ a.subframeNum < b.subframeNum then true
  else if (a.frameNum = b.frameNum ∧ a.subframeNum = b.subframeNum) ∧
    a.slotNum < b.slotNum then true
  else false

/-- `operator ==` on frame, subframe and slot. -/
def sameSlot (a b : SfnSf) : Bool :=
  decide (a.frameNum = b.frameNum ∧ a.subframeNum = b.subframeNum ∧ a.slotNum = b.slotNum)

/-! ## Normalized counters -/

/-- A counter whose members are in their ranges. For numerologies up to 11 the slot
numbers of all 65536 frames fit in a 32-bit signed word; the implemented numerologies
are 0 to 5. -/
structure Valid (s : SfnSf) : Prop where
  frame : s.frameNum < 2 ^ 16
  subframe : s.subframeNum < 10
  slot : s.slotNum < 2 ^ s.numerology
  numerology : s.numerology ≤ 11

/-- The number of slots before the frame number wraps. -/
def totalSlots (mu : Nat) : Nat := 2 ^ 16 * 10 * 2 ^ mu

theorem slotPerSubframe_eq (s : SfnSf) : s.slotPerSubframe = 2 ^ s.numerology := by
  simp [slotPerSubframe, Nat.shiftLeft_eq]

theorem two_pow_le_2048 {mu : Nat} (h : mu ≤ 11) : 2 ^ mu ≤ 2048 :=
  (Nat.pow_le_pow_right (by norm_num) h).trans (by norm_num)

theorem totalSlots_lt {mu : Nat} (h : mu ≤ 11) : totalSlots mu < 2 ^ 31 := by
  have := two_pow_le_2048 h
  unfold totalSlots
  omega

theorem Valid.normalize_eq {s : SfnSf} (h : s.Valid) :
    s.normalize = s.slotNum + (s.subframeNum + s.frameNum * 10) * 2 ^ s.numerology := by
  have hp := two_pow_le_2048 h.numerology
  have hf := h.frame
  have hs := h.subframe
  have h1 : s.subframeNum * 2 ^ s.numerology ≤ 10 * 2048 := Nat.mul_le_mul hs.le hp
  have h2 : s.frameNum * 10 * 2 ^ s.numerology ≤ 2 ^ 16 * 10 * 2048 :=
    Nat.mul_le_mul (Nat.mul_le_mul_right _ hf.le) hp
  simp only [normalize, slotPerSubframe_eq, subframesPerFrame]
  rw [Nat.mod_eq_of_lt (by omega), Nat.mod_eq_of_lt (by omega)]
  ring

theorem Valid.normalize_lt {s : SfnSf} (h : s.Valid) : s.normalize < totalSlots s.numerology := by
  rw [h.normalize_eq, totalSlots]
  have hf := h.frame
  have hs := h.subframe
  have hl := h.slot
  have : (s.subframeNum + s.frameNum * 10 + 1) * 2 ^ s.numerology ≤
      2 ^ 16 * 10 * 2 ^ s.numerology := Nat.mul_le_mul_right _ (by omega)
  rw [Nat.add_mul, Nat.one_mul] at this
  omega

theorem numerology_add (s : SfnSf) (n : Nat) : (s.add n).numerology = s.numerology := rfl

theorem Valid.add {s : SfnSf} (h : s.Valid) (n : Nat) : (s.add n).Valid where
  frame := Nat.mod_lt _ (by norm_num)
  subframe := Nat.mod_lt _ (by norm_num [subframesPerFrame])
  slot := by
    refine (Nat.mod_le _ _).trans_lt ?_
    rw [slotPerSubframe_eq]
    exact Nat.mod_lt _ (by positivity)
  numerology := h.numerology

/-- No sum of `Add` wraps in 32 bits. -/
structure NoWrap (s : SfnSf) (n : Nat) : Prop where
  slots : s.slotNum + n < 2 ^ 32
  subframes : s.subframeNum + (s.slotNum + n) / s.slotPerSubframe < 2 ^ 32

/-- The counter adds slot numbers modulo the 65536 frames: only the frame number
wraps, as long as the sums fit in 32 bits. -/
theorem Valid.normalize_add_noWrap {s : SfnSf} (h : s.Valid) {n : Nat} (hn : s.NoWrap n) :
    (s.add n).normalize = (s.normalize + n) % totalSlots s.numerology := by
  have hp := two_pow_le_2048 h.numerology
  have hpos : 0 < 2 ^ s.numerology := by positivity
  have hslot := h.slot
  have hsub := h.subframe
  have hslots := hn.slots
  have hframes := hn.subframes
  rw [slotPerSubframe_eq] at hframes
  have hlt := (h.add n).normalize_lt
  rw [numerology_add, (h.add n).normalize_eq] at hlt
  rw [(h.add n).normalize_eq, h.normalize_eq]
  have hsum : (s.slotNum + n) % 2 ^ 32 = s.slotNum + n := Nat.mod_eq_of_lt (by omega)
  have hq := Nat.div_add_mod (s.slotNum + n) (2 ^ s.numerology)
  have hqle := Nat.div_le_self (s.slotNum + n) (2 ^ s.numerology)
  have hr := Nat.mod_lt (s.slotNum + n) hpos
  simp only [SfnSf.add, slotPerSubframe_eq, subframesPerFrame, hsum] at hlt ⊢
  generalize (s.slotNum + n) / 2 ^ s.numerology = q at *
  generalize (s.slotNum + n) % 2 ^ s.numerology = r at *
  have hsubs : (s.subframeNum + q) % 2 ^ 32 = s.subframeNum + q := Nat.mod_eq_of_lt (by omega)
  have hr16 : r % 2 ^ 16 = r := Nat.mod_eq_of_lt (by omega)
  rw [hsubs, hr16] at hlt ⊢
  have hw := Nat.div_add_mod (s.frameNum + (s.subframeNum + q) / 10) (2 ^ 16)
  generalize (s.frameNum + (s.subframeNum + q) / 10) / 2 ^ 16 = w at *
  generalize (s.frameNum + (s.subframeNum + q) / 10) % 2 ^ 16 = v at *
  -- the frames beyond 65536 are `w` full turns of the counter
  have hturn : s.slotNum + (s.subframeNum + s.frameNum * 10) * 2 ^ s.numerology + n =
      r + ((s.subframeNum + q) % 10 + v * 10) * 2 ^ s.numerology +
        totalSlots s.numerology * w := by
    have hcount : s.subframeNum + q + s.frameNum * 10 =
        (s.subframeNum + q) % 10 + v * 10 + 2 ^ 16 * 10 * w := by omega
    have hmul := congrArg (· * 2 ^ s.numerology) hcount
    simp only [Nat.add_mul] at hmul ⊢
    rw [totalSlots]
    nlinarith [hmul, hq]
  rw [hturn, Nat.add_mul_mod_self_left, Nat.mod_eq_of_lt hlt]

theorem Valid.noWrap {s : SfnSf} (h : s.Valid) {n : Nat} (hn : n < 2 ^ 31) : s.NoWrap n := by
  have hp := two_pow_le_2048 h.numerology
  have hslot := h.slot
  have hsub := h.subframe
  have hq := Nat.div_le_self (s.slotNum + n) s.slotPerSubframe
  constructor <;> omega

theorem Valid.normalize_add_mod {s : SfnSf} (h : s.Valid) {n : Nat} (hn : n < 2 ^ 31) :
    (s.add n).normalize = (s.normalize + n) % totalSlots s.numerology :=
  h.normalize_add_noWrap (h.noWrap hn)

/-- Below frame 65536 the counter adds slot numbers: no member wraps. -/
theorem Valid.normalize_add {s : SfnSf} (h : s.Valid) {n : Nat}
    (hn : s.normalize + n < totalSlots s.numerology) : (s.add n).normalize = s.normalize + n := by
  have hT := totalSlots_lt h.numerology
  rw [h.normalize_add_mod (by omega), Nat.mod_eq_of_lt hn]

theorem Valid.eq_of_normalize {a b : SfnSf} (ha : a.Valid) (hb : b.Valid)
    (hmu : a.numerology = b.numerology) (h : a.normalize = b.normalize) : a = b := by
  rw [ha.normalize_eq, hb.normalize_eq, ← hmu] at h
  have hpos : 0 < 2 ^ a.numerology := by positivity
  have hsa := ha.slot
  have hsb := hb.slot
  rw [← hmu] at hsb
  have hslot : a.slotNum = b.slotNum := by
    have := congrArg (· % 2 ^ a.numerology) h
    simpa [Nat.add_mul_mod_self_right, Nat.mod_eq_of_lt hsa, Nat.mod_eq_of_lt hsb] using this
  have hsub : a.subframeNum + a.frameNum * 10 = b.subframeNum + b.frameNum * 10 := by
    rw [hslot] at h
    exact Nat.eq_of_mul_eq_mul_right hpos (Nat.add_left_cancel h)
  have h1 := ha.subframe
  have h2 := hb.subframe
  cases a
  cases b
  simp only at *
  simp only [SfnSf.mk.injEq]
  omega

/-- The sums of two steps do not wrap if those of one long step do not. -/
theorem NoWrap.split {s : SfnSf} {a b : Nat} (h : s.NoWrap (a + b)) :
    s.NoWrap a ∧ (s.add a).NoWrap b := by
  have hslots := h.slots
  have hframes := h.subframes
  have hpos : 0 < s.slotPerSubframe := by
    rw [slotPerSubframe_eq]
    positivity
  have hdiv : (s.slotNum + (a + b)) / s.slotPerSubframe =
      (s.slotNum + a) / s.slotPerSubframe +
        ((s.slotNum + a) % s.slotPerSubframe + b) / s.slotPerSubframe := by
    have hsum : s.slotNum + (a + b) = (s.slotNum + a) % s.slotPerSubframe + b +
        s.slotPerSubframe * ((s.slotNum + a) / s.slotPerSubframe) := by
      have hq := Nat.mod_add_div (s.slotNum + a) s.slotPerSubframe
      omega
    rw [hsum, Nat.add_mul_div_left _ _ hpos, Nat.add_comm]
  rw [hdiv] at hframes
  have hslot : (s.add a).slotNum ≤ (s.slotNum + a) % s.slotPerSubframe := by
    change (s.slotNum + a) % 2 ^ 32 % s.slotPerSubframe % 2 ^ 16 ≤ _
    rw [Nat.mod_eq_of_lt (show s.slotNum + a < 2 ^ 32 by omega)]
    exact Nat.mod_le _ _
  have hsub : (s.add a).subframeNum ≤ s.subframeNum + (s.slotNum + a) / s.slotPerSubframe := by
    change (s.subframeNum + (s.slotNum + a) % 2 ^ 32 / s.slotPerSubframe) % 2 ^ 32 % 10 ≤ _
    rw [Nat.mod_eq_of_lt (show s.slotNum + a < 2 ^ 32 by omega)]
    exact (Nat.mod_le _ _).trans (Nat.mod_le _ _)
  have hmod := Nat.mod_le (s.slotNum + a) s.slotPerSubframe
  have hquot : ((s.add a).slotNum + b) / s.slotPerSubframe ≤
      ((s.slotNum + a) % s.slotPerSubframe + b) / s.slotPerSubframe :=
    Nat.div_le_div_right (Nat.add_le_add_right hslot b)
  have hfirst : (s.slotNum + a) / s.slotPerSubframe ≤ (s.slotNum + (a + b)) / s.slotPerSubframe :=
    Nat.div_le_div_right (by omega)
  refine ⟨⟨by omega, ?_⟩, ⟨by omega, ?_⟩⟩
  · exact (Nat.add_le_add_left hfirst _).trans_lt h.subframes
  · change (s.add a).subframeNum + ((s.add a).slotNum + b) / s.slotPerSubframe < 2 ^ 32
    omega

theorem Valid.add_add {s : SfnSf} (h : s.Valid) {a b : Nat} (hab : s.NoWrap (a + b)) :
    (s.add a).add b = s.add (a + b) := by
  obtain ⟨ha, hb⟩ := hab.split
  apply ((h.add a).add b).eq_of_normalize (h.add (a + b)) rfl
  rw [(h.add a).normalize_add_noWrap hb, h.normalize_add_noWrap ha, h.normalize_add_noWrap hab,
    numerology_add, Nat.mod_add_mod, Nat.add_assoc]

/-! ## Runs from slot 0 of frame 0 -/

/-- The slot on air after `t` slots, as the slot loop of the PHY counts it. -/
def slotAt (mu : Nat) : Nat → SfnSf
  | 0 => ⟨0, 0, 0, mu⟩
  | t + 1 => (slotAt mu t).add 1

theorem numerology_slotAt (mu t : Nat) : (slotAt mu t).numerology = mu := by
  induction t with
  | zero => rfl
  | succ t ih => exact ih

theorem valid_slotAt {mu : Nat} (hmu : mu ≤ 11) (t : Nat) : (slotAt mu t).Valid := by
  induction t with
  | zero => exact ⟨by norm_num [slotAt], by norm_num [slotAt], by simp [slotAt], hmu⟩
  | succ t ih => exact ih.add 1

theorem slotAt_normalize {mu : Nat} (hmu : mu ≤ 11) {t : Nat} (ht : t < totalSlots mu) :
    (slotAt mu t).normalize = t := by
  induction t with
  | zero => simp [slotAt, normalize]
  | succ t ih =>
    have ih' := ih (by omega)
    rw [slotAt, (valid_slotAt hmu t).normalize_add, ih']
    rw [ih', numerology_slotAt]
    exact ht

theorem add_slotAt {mu : Nat} (hmu : mu ≤ 11) {t n : Nat} (h : t + n < totalSlots mu) :
    (slotAt mu t).add n = slotAt mu (t + n) := by
  have ht := slotAt_normalize hmu (t := t) (by omega)
  apply ((valid_slotAt hmu t).add n).eq_of_normalize (valid_slotAt hmu (t + n))
  · rw [numerology_add, numerology_slotAt, numerology_slotAt]
  · rw [(valid_slotAt hmu t).normalize_add, ht, slotAt_normalize hmu h]
    rw [ht, numerology_slotAt]
    exact h

theorem slotAt_inj {mu : Nat} (hmu : mu ≤ 11) {s t : Nat} (hs : s < totalSlots mu)
    (ht : t < totalSlots mu) (h : slotAt mu s = slotAt mu t) : s = t := by
  rw [← slotAt_normalize hmu hs, ← slotAt_normalize hmu ht, h]

/-! ## Runs across a wrap of the frame number -/

theorem slotAt_normalize_mod {mu : Nat} (hmu : mu ≤ 11) (t : Nat) :
    (slotAt mu t).normalize = t % totalSlots mu := by
  induction t with
  | zero => simp [slotAt, normalize]
  | succ t ih =>
    rw [slotAt, (valid_slotAt hmu t).normalize_add_mod (by norm_num), ih, numerology_slotAt,
      Nat.mod_add_mod]

theorem add_slotAt_mod {mu : Nat} (hmu : mu ≤ 11) (t : Nat) {n : Nat} (hn : n < 2 ^ 31) :
    (slotAt mu t).add n = slotAt mu (t + n) := by
  apply ((valid_slotAt hmu t).add n).eq_of_normalize (valid_slotAt hmu (t + n))
  · rw [numerology_add, numerology_slotAt, numerology_slotAt]
  · rw [(valid_slotAt hmu t).normalize_add_mod hn, slotAt_normalize_mod hmu,
      slotAt_normalize_mod hmu, numerology_slotAt, Nat.mod_add_mod]

/-- Two slots that are less than a turn of the counter apart. -/
theorem slotAt_inj_of_lt {mu : Nat} (hmu : mu ≤ 11) {s t : Nat} (hle : s ≤ t)
    (hlt : t < s + totalSlots mu) (h : slotAt mu s = slotAt mu t) : s = t := by
  have hmod := congrArg normalize h
  rw [slotAt_normalize_mod hmu, slotAt_normalize_mod hmu] at hmod
  have hzero := Nat.sub_mod_eq_zero_of_mod_eq hmod.symm
  rw [Nat.mod_eq_of_lt (by omega)] at hzero
  omega

theorem Valid.sameSlot_iff {a b : SfnSf} (ha : a.Valid) (hb : b.Valid)
    (hmu : a.numerology = b.numerology) : a.sameSlot b = true ↔ a.normalize = b.normalize := by
  rw [sameSlot, decide_eq_true_eq]
  constructor
  · rintro ⟨h1, h2, h3⟩
    simp only [normalize, slotPerSubframe, h1, h2, h3, hmu]
  · intro h
    rw [ha.eq_of_normalize hb hmu h]
    exact ⟨rfl, rfl, rfl⟩

theorem sameSlot_slotAt {mu : Nat} (hmu : mu ≤ 11) {s t : Nat} (hs : s < totalSlots mu)
    (ht : t < totalSlots mu) : (slotAt mu s).sameSlot (slotAt mu t) = true ↔ s = t := by
  rw [(valid_slotAt hmu s).sameSlot_iff (valid_slotAt hmu t), slotAt_normalize hmu hs,
    slotAt_normalize hmu ht]
  rw [numerology_slotAt, numerology_slotAt]

/-- A number in mixed radix is compared by its high part first. -/
theorem add_mul_lt_add_mul_iff {a b A B m : Nat} (ha : a < m) (hb : b < m) :
    a + A * m < b + B * m ↔ A < B ∨ (A = B ∧ a < b) := by
  rcases lt_trichotomy A B with hlt | rfl | hgt
  · have := Nat.mul_le_mul_right m (Nat.succ_le_of_lt hlt)
    rw [Nat.succ_mul] at this
    omega
  · omega
  · have := Nat.mul_le_mul_right m (Nat.succ_le_of_lt hgt)
    rw [Nat.succ_mul] at this
    omega

theorem Valid.lt_iff {a b : SfnSf} (ha : a.Valid) (hb : b.Valid)
    (hmu : a.numerology = b.numerology) : a.lt b = true ↔ a.normalize < b.normalize := by
  have ha2 := ha.subframe
  have hb2 := hb.subframe
  rw [ha.normalize_eq, hb.normalize_eq, ← hmu,
    add_mul_lt_add_mul_iff ha.slot (by rw [hmu]; exact hb.slot)]
  unfold lt
  split
  · simp only [true_iff]
    omega
  · split
    · simp only [true_iff]
      omega
    · split
      · simp only [true_iff]
        omega
      · simp only [Bool.false_eq_true, false_iff]
        omega

theorem lt_slotAt {mu : Nat} (hmu : mu ≤ 11) {s t : Nat} (hs : s < totalSlots mu)
    (ht : t < totalSlots mu) : (slotAt mu s).lt (slotAt mu t) = true ↔ s < t := by
  rw [(valid_slotAt hmu s).lt_iff (valid_slotAt hmu t), slotAt_normalize hmu hs,
    slotAt_normalize hmu ht]
  rw [numerology_slotAt, numerology_slotAt]

/-! ## Encodings -/

theorem encodingWithSymStart_eq {s : SfnSf} {sym : Nat} (h : s.Valid) (hsym : sym < 256) :
    s.encodingWithSymStart sym =
      s.numerology * 2 ^ 48 + s.frameNum * 2 ^ 32 + s.subframeNum * 2 ^ 24 + s.slotNum * 2 ^ 8 +
        sym := by
  have hp := two_pow_le_2048 h.numerology
  have hf := h.frame
  have hs := h.subframe
  have hl := h.slot
  have h8 : s.slotNum <<< 8 ||| sym = s.slotNum * 2 ^ 8 + sym := by
    rw [← Nat.shiftLeft_add_eq_or_of_lt hsym, Nat.shiftLeft_eq]
  have h24 : s.subframeNum <<< 24 ||| (s.slotNum * 2 ^ 8 + sym) =
      s.subframeNum * 2 ^ 24 + (s.slotNum * 2 ^ 8 + sym) := by
    rw [← Nat.shiftLeft_add_eq_or_of_lt (by omega), Nat.shiftLeft_eq]
  have h32 : s.frameNum <<< 32 ||| (s.subframeNum * 2 ^ 24 + (s.slotNum * 2 ^ 8 + sym)) =
      s.frameNum * 2 ^ 32 + (s.subframeNum * 2 ^ 24 + (s.slotNum * 2 ^ 8 + sym)) := by
    rw [← Nat.shiftLeft_add_eq_or_of_lt (by omega), Nat.shiftLeft_eq]
  rw [encodingWithSymStart, Nat.or_assoc, Nat.or_assoc, Nat.or_assoc, h8, h24, h32,
    ← Nat.shiftLeft_add_eq_or_of_lt (by omega), Nat.shiftLeft_eq]
  omega

/-- The stream key is the slot-and-symbol key shifted by one byte, with the stream in
the byte that becomes free. -/
theorem encForStreamWithSymStart_eq (s : SfnSf) {stream : Nat} (sym : Nat) (hk : stream < 256) :
    s.encForStreamWithSymStart stream sym = s.encodingWithSymStart sym * 256 + stream := by
  have hshift : s.encForStreamWithSymStart stream sym =
      (s.encodingWithSymStart sym) <<< 8 ||| stream := by
    simp only [encForStreamWithSymStart, encodingWithSymStart, Nat.shiftLeft_or_distrib,
      ← Nat.shiftLeft_add]
  rw [hshift, ← Nat.shiftLeft_add_eq_or_of_lt hk, Nat.shiftLeft_eq]

theorem encForStreamWithSymStart_inj {a b : SfnSf} {j k x y : Nat} (ha : a.Valid) (hb : b.Valid)
    (hj : j < 256) (hk : k < 256) (hx : x < 256) (hy : y < 256)
    (h : a.encForStreamWithSymStart j x = b.encForStreamWithSymStart k y) :
    a = b ∧ x = y ∧ j = k := by
  rw [encForStreamWithSymStart_eq a x hj, encForStreamWithSymStart_eq b y hk,
    encodingWithSymStart_eq ha hx, encodingWithSymStart_eq hb hy] at h
  have ha1 := two_pow_le_2048 ha.numerology
  have hb1 := two_pow_le_2048 hb.numerology
  have ha2 := ha.slot
  have hb2 := hb.slot
  have ha3 := ha.subframe
  have hb3 := hb.subframe
  have ha4 := ha.frame
  have hb4 := hb.frame
  cases a
  cases b
  simp only [SfnSf.mk.injEq] at *
  omega

/-- The key without a stream coincides with a stream key of the same slot and symbol
only when both are zero. -/
theorem encodingWithSymStart_eq_encForStream_iff {s : SfnSf} {k y : Nat} (h : s.Valid)
    (hk : k < 256) (hy : y < 256) :
    s.encodingWithSymStart y = s.encForStreamWithSymStart k y ↔
      s = ⟨0, 0, 0, 0⟩ ∧ y = 0 ∧ k = 0 := by
  rw [encForStreamWithSymStart_eq s y hk]
  constructor
  · intro he
    rw [encodingWithSymStart_eq h hy] at he
    cases s
    simp only [SfnSf.mk.injEq] at *
    omega
  · rintro ⟨rfl, rfl, rfl⟩
    rfl

/-- `FromEncoding`. -/
def fromEncoding (sfn : Nat) : SfnSf where
  numerology := (sfn &&& 0x00FF000000000000) >>> 48
  frameNum := (sfn &&& 0x0000FFFF00000000) >>> 32
  subframeNum := (sfn &&& 0x00000000FF000000) >>> 24
  slotNum := (sfn &&& 0x0000000000FFFF00) >>> 8

/-- `Encode`. -/
def encode (p : SfnSf) : Nat := p.encoding

/-- `Decode`. -/
def decode (sfn : Nat) : SfnSf := fromEncoding sfn

/-- A field of the encoding. -/
theorem field_eq (x k w : Nat) : (x &&& ((2 ^ w - 1) <<< k)) >>> k = x / 2 ^ k % 2 ^ w := by
  rw [Lib.and_field, Nat.shiftRight_eq_div_pow, Nat.mul_div_cancel _ (Nat.two_pow_pos k)]

/-- A field between the fields above and below it. -/
theorem field_of_sum {high x low k w : Nat} (hx : x < 2 ^ w) (hlow : low < 2 ^ k) :
    ((high * 2 ^ w + x) * 2 ^ k + low) / 2 ^ k % 2 ^ w = x := by
  rw [Nat.add_comm, Nat.add_mul_div_right _ _ (Nat.two_pow_pos k), Nat.div_eq_of_lt hlow,
    Nat.zero_add, Nat.mul_add_mod_of_lt hx]

theorem Valid.decode_encode {s : SfnSf} (h : s.Valid) : decode (encode s) = s := by
  have hcode : encode s = s.numerology * 2 ^ 48 + s.frameNum * 2 ^ 32 + s.subframeNum * 2 ^ 24 +
      s.slotNum * 2 ^ 8 := by
    rw [← Nat.add_zero (_ + _), ← encodingWithSymStart_eq h (by norm_num), encodingWithSymStart,
      Nat.or_zero]
    rfl
  have hp := two_pow_le_2048 h.numerology
  have hf := h.frame
  have hs := h.subframe
  have hl := h.slot
  have hmu := h.numerology
  -- The code, seen from each field.
  have h48 : encode s = (0 * 2 ^ 8 + s.numerology) * 2 ^ 48 +
      (s.frameNum * 2 ^ 32 + s.subframeNum * 2 ^ 24 + s.slotNum * 2 ^ 8) := by rw [hcode]; omega
  have h32 : encode s = (s.numerology * 2 ^ 16 + s.frameNum) * 2 ^ 32 +
      (s.subframeNum * 2 ^ 24 + s.slotNum * 2 ^ 8) := by rw [hcode]; omega
  have h24 : encode s = ((s.numerology * 2 ^ 16 + s.frameNum) * 2 ^ 8 + s.subframeNum) * 2 ^ 24 +
      s.slotNum * 2 ^ 8 := by rw [hcode]; omega
  have h8 : encode s = (((s.numerology * 2 ^ 16 + s.frameNum) * 2 ^ 8 + s.subframeNum) * 2 ^ 16 +
      s.slotNum) * 2 ^ 8 + 0 := by rw [hcode]; omega
  ext
  · exact (field_eq (encode s) 32 16).trans (h32 ▸ field_of_sum (by omega) (by omega))
  · exact (field_eq (encode s) 24 8).trans (h24 ▸ field_of_sum (by omega) (by omega))
  · exact (field_eq (encode s) 8 16).trans (h8 ▸ field_of_sum (by omega) (by omega))
  · exact (field_eq (encode s) 48 8).trans (h48 ▸ field_of_sum (by omega) (by omega))

/-- The counter is faithful: it counts slots modulo the 65536 frames, two counters of one numerology
are compared as the slots are, and both keys determine what they are made of. -/
theorem faithful_counter {s : SfnSf} (h : s.Valid) :
    (∀ a, (s.add a).Valid) ∧
    (∀ a, s.NoWrap a → (s.add a).normalize = (s.normalize + a) % totalSlots s.numerology) ∧
    (∀ a b, s.NoWrap (a + b) → (s.add a).add b = s.add (a + b)) ∧
    (∀ t : SfnSf, t.Valid → s.numerology = t.numerology →
      (s.lt t = true ↔ s.normalize < t.normalize) ∧
      (s.sameSlot t = true ↔ s.normalize = t.normalize)) ∧
    decode (encode s) = s ∧
    ∀ t : SfnSf, t.Valid → ∀ j < 256, ∀ k < 256, ∀ x < 256, ∀ y < 256,
      s.encForStreamWithSymStart j x = t.encForStreamWithSymStart k y → s = t ∧ x = y ∧ j = k := by
  refine ⟨h.add, fun a ha => h.normalize_add_noWrap ha, fun a b hab => h.add_add hab, ?_,
    h.decode_encode, ?_⟩
  · intro t ht hmu
    exact ⟨h.lt_iff ht hmu, h.sameSlot_iff ht hmu⟩
  · intro t ht j hj k hk x hx y hy heq
    exact encForStreamWithSymStart_inj h ht hj hk hx hy heq

/-- The last slot of the last frame. -/
theorem faithful_counter_last :
    ((⟨65535, 9, 3, 2⟩ : SfnSf).add 1).Valid ∧
      decode (encode ⟨65535, 9, 3, 2⟩) = ⟨65535, 9, 3, 2⟩ := by
  have h : (⟨65535, 9, 3, 2⟩ : SfnSf).Valid := ⟨by decide, by decide, by decide, by decide⟩
  obtain ⟨hadd, -, -, -, hdecode, -⟩ := faithful_counter h
  exact ⟨hadd 1, hdecode⟩

end SfnSf

end Ns3.Nr
