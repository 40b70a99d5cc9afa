import Mathlib
import Ns3.Internet.TcpHeader

/-!
# The loop over TCP options

The loop of `TcpHeader::Deserialize` on octets that nobody has checked. Each round takes at least an
octet, but for an unknown option that says that it has none: its size is the size that was read, so
the loop takes it for well formed and stays where it is. On all other octets it ends.
-/

namespace Ns3.Internet.TcpHeader

open Lib TcpOption

variable {s s' : OptionLoop} {r : TcpHeader} {start i : List UInt8}

/-! ## Sizes -/

theorem need_eq_ok {α : Type} {x : Option α} {a : α} (h : need x = .ok a) : x = some a := by
  cases x with
  | none => cases h
  | some b =>
    cases h
    rfl

/-- An object of a class of its own. -/
def Known : TcpOption → Prop
  | unknown _ _ _ => False
  | _ => True

theorem Known.size_pos {op : TcpOption} (hop : Known op) : 0 < op.getSerializedSize := by
  cases op with
  | unknown m_kind m_size m_content => exact hop.elim
  | sack m_sackList =>
    simp only [TcpOption.getSerializedSize]
    omega
  | _ => exact Nat.succ_pos _

/-- The class stays what it is. -/
theorem Known.readBody {op op' : TcpOption} {n : ℕ} (hop : Known op)
    (h : TcpOption.readBody op i = .ok (op', n)) : Known op' := by
  cases op with
  | unknown m_kind m_size m_content => exact hop.elim
  | endOption => cases h; trivial
  | nop => cases h; trivial
  | mss m_mss =>
    obtain ⟨⟨size, i⟩, -, h⟩ := bind_eq_ok.mp h
    simp only at h
    split at h
    · cases h
    · obtain ⟨_, -, h⟩ := bind_eq_ok.mp h
      cases h
      trivial
  | winScale m_scale =>
    obtain ⟨⟨size, i⟩, -, h⟩ := bind_eq_ok.mp h
    simp only at h
    split at h
    · cases h
      trivial
    · obtain ⟨_, -, h⟩ := bind_eq_ok.mp h
      cases h
      trivial
  | sackPermitted =>
    obtain ⟨⟨size, i⟩, -, h⟩ := bind_eq_ok.mp h
    cases h
    trivial
  | sack m_sackList =>
    obtain ⟨⟨size, i⟩, -, h⟩ := bind_eq_ok.mp h
    obtain ⟨_, -, h⟩ := bind_eq_ok.mp h
    cases h
    trivial
  | ts m_timestamp m_echo =>
    obtain ⟨⟨size, i⟩, -, h⟩ := bind_eq_ok.mp h
    simp only at h
    split at h
    · cases h
      trivial
    · obtain ⟨⟨_, i⟩, -, h⟩ := bind_eq_ok.mp h
      obtain ⟨_, -, h⟩ := bind_eq_ok.mp h
      cases h
      trivial

theorem Known.deserialize {op op' : TcpOption} {n : ℕ} (hop : Known op)
    (h : op.deserialize i = .ok (op', n)) : Known op' := by
  cases op with
  | unknown m_kind m_size m_content => exact hop.elim
  | _ =>
    obtain ⟨⟨kind, i⟩, -, h⟩ := bind_eq_ok.mp h
    simp only at h
    split at h
    · cases h
      trivial
    · exact Known.readBody hop h

theorem known_createOption {kind : UInt8} (h : isKindKnown kind = true) :
    Known (createOption kind) := by
  simp only [isKindKnown, Bool.or_eq_true, beq_iff_eq] at h
  rcases h with (((((rfl | rfl) | rfl) | rfl) | rfl) | rfl) | rfl <;> exact trivial

/-- An unknown option takes the kind and the size that it reads. -/
theorem deserialize_unknown {kind m_size : UInt8} {content : List UInt8} {op' : TcpOption} {n : ℕ}
    (h : (unknown kind m_size content).deserialize i = .ok (op', n)) :
    ∃ readKind size rest, i = readKind :: size :: rest ∧ op'.getKind = readKind
      ∧ op'.getSerializedSize = size.toNat := by
  obtain ⟨⟨readKind, i₁⟩, hkind, hbody⟩ := bind_eq_ok.mp h
  obtain ⟨⟨size, i₂⟩, hsize, hrest⟩ := bind_eq_ok.mp hbody
  have hi := need_eq_ok hkind
  have hi₁ := need_eq_ok hsize
  cases i with
  | nil => cases hi
  | cons b i =>
    cases hi
    cases i₁ with
    | nil => cases hi₁
    | cons b₁ i₁ =>
      cases hi₁
      refine ⟨readKind, size, i₂, rfl, ?_⟩
      simp only at hrest
      split at hrest
      · cases hrest
        exact ⟨rfl, rfl⟩
      · obtain ⟨_, -, hok⟩ := bind_eq_ok.mp hrest
        cases hok
        exact ⟨rfl, rfl⟩

/-! ## Rounds -/

/-- The loop is at an unknown option that says that it has no octets. -/
def Stuck (s : OptionLoop) : Prop :=
  s.optionLen ≠ 0 ∧ ∃ kind rest, s.i = kind :: 0 :: rest ∧ isKindKnown kind = false

/-- A round that another one follows. -/
def Goes (s s' : OptionLoop) : Prop := s.optionLen ≠ 0 ∧ optionStep s = .ok (true, s')

/-- What a round that goes on has done. -/
theorem optionStep_goes (h : optionStep s = .ok (true, s')) :
    ∃ kind rest op, s.i = kind :: rest
      ∧ (createOption (if isKindKnown kind then kind else 255)).deserialize s.i
        = .ok (op, op.getSerializedSize)
      ∧ op.getSerializedSize ≤ s.optionLen
      ∧ s'.optionLen ≤ s.optionLen - op.getSerializedSize
      ∧ s'.m_options = s.m_options ++ [op] := by
  obtain ⟨⟨kind, rest⟩, hkind, h⟩ := bind_eq_ok.mp h
  have hi := need_eq_ok hkind
  obtain ⟨⟨op, n⟩, hop, h⟩ := bind_eq_ok.mp h
  simp only at h
  split at h
  case isTrue hne => cases h
  case isFalse heq =>
    rw [not_not] at heq
    subst heq
    split at h
    case isFalse hgt => cases h
    case isTrue hle =>
      refine ⟨kind, rest, op, ?_, hop, hle, ?_⟩
      · cases hs : s.i with
        | nil =>
          rw [hs] at hi
          cases hi
        | cons b i =>
          rw [hs] at hi
          cases hi
          rfl
      · obtain ⟨i, -, h⟩ := bind_eq_ok.mp h
        split at h
        · obtain ⟨i, -, h⟩ := bind_eq_ok.mp h
          cases h
          exact ⟨Nat.zero_le _, rfl⟩
        · cases h
          exact ⟨le_refl _, rfl⟩

theorem optionStep_break (h : optionStep s = .ok (false, s')) : s' = s := by
  obtain ⟨⟨kind, rest⟩, -, h⟩ := bind_eq_ok.mp h
  obtain ⟨⟨op, n⟩, -, h⟩ := bind_eq_ok.mp h
  simp only at h
  split at h
  · cases h
    rfl
  · split at h
    · obtain ⟨i, -, h⟩ := bind_eq_ok.mp h
      split at h
      · obtain ⟨i, -, h⟩ := bind_eq_ok.mp h
        cases h
      · cases h
    · cases h
      rfl

/-- A round takes an octet, unless the loop is stuck. -/
theorem Goes.progress (h : Goes s s') : s'.optionLen < s.optionLen ∨ Stuck s := by
  obtain ⟨hpos, hstep⟩ := h
  obtain ⟨kind, rest, op, hi, hop, hle, hlt, -⟩ := optionStep_goes hstep
  by_cases hkind : isKindKnown kind = true
  · rw [if_pos hkind] at hop
    have hsize := ((known_createOption hkind).deserialize hop).size_pos
    left
    omega
  · rw [if_neg hkind] at hop
    obtain ⟨readKind, size, rest', hi', hkind', hsize⟩ := deserialize_unknown hop
    rcases Nat.eq_zero_or_pos size.toNat with hzero | hsizepos
    · right
      have hz : size = 0 := UInt8.toNat_inj.mp hzero
      rw [hi, List.cons.injEq] at hi'
      refine ⟨hpos, kind, rest', ?_, by simpa using hkind⟩
      rw [hi, hi'.2, hz]
    · left
      omega

/-- A loop that is stuck stays so. -/
theorem Stuck.goes (h : Stuck s) : ∃ s', Goes s s' ∧ Stuck s' := by
  obtain ⟨hpos, kind, rest, hi, hkind⟩ := h
  have hne : kind ≠ 0 := by
    rintro rfl
    cases hkind
  have hop : (createOption 255).deserialize (kind :: 0 :: rest) = .ok (unknown kind 0 [], 0) := rfl
  have hnext : next 0 (kind :: 0 :: rest) = .ok (kind :: 0 :: rest) := rfl
  have hstep : optionStep s = .ok (true, ⟨s.m_options ++ [unknown kind 0 []],
      (s.m_optionsLen + 0) % 256, s.optionLen - 0, s.i⟩) := by
    rw [optionStep, hi]
    simp only [readU8_cons, need_some, ok_bind, hkind, Bool.false_eq_true, if_false, hop, hnext,
      getKind, hne]
    rfl
  exact ⟨_, ⟨hpos, hstep⟩, hpos, kind, rest, hi, hkind⟩

/-! ## The whole loop -/

theorem readOptions_goes (h : Goes s s') (rounds : ℕ) :
    readOptions (rounds + 1) s = readOptions rounds s' := by
  rw [readOptions, if_neg h.1, h.2]

theorem Stuck.readOptions_eq (h : Stuck s) (rounds : ℕ) : readOptions rounds s = none := by
  induction rounds generalizing s with
  | zero => rfl
  | succ rounds ih =>
    obtain ⟨s', hgoes, hstuck⟩ := h.goes
    rw [readOptions_goes hgoes, ih hstuck]

/-- The loop comes to a place where it is stuck. -/
def Hangs (s : OptionLoop) : Prop := ∃ s', Relation.ReflTransGen Goes s s' ∧ Stuck s'

theorem Hangs.readOptions_eq (h : Hangs s) (rounds : ℕ) : readOptions rounds s = none := by
  obtain ⟨s', hpath, hstuck⟩ := h
  induction hpath using Relation.ReflTransGen.head_induction_on generalizing rounds with
  | refl => exact hstuck.readOptions_eq rounds
  | head hgoes _ ih =>
    cases rounds with
    | zero => rfl
    | succ rounds => rw [readOptions_goes hgoes, ih]

/-- What the rounds keep: the options that were read and what is left are no more than there was. -/
structure Within (size : ℕ) (s : OptionLoop) : Prop where
  le : optionsSize s.m_options + s.optionLen ≤ size

theorem Within.goes {size : ℕ} (hw : Within size s) (h : Goes s s') : Within size s' := by
  obtain ⟨kind, rest, op, -, -, hle, hlt, hopts⟩ := optionStep_goes h.2
  have hsum := hw.le
  refine ⟨?_⟩
  rw [hopts]
  simp only [optionsSize, List.map_append, List.sum_append, List.map_cons, List.map_nil,
    List.sum_cons, List.sum_nil] at hsum ⊢
  omega

/-- A loop that does not hang ends, within a round for each octet and one more. -/
theorem readOptions_ends (h : ¬ Hangs s) {rounds : ℕ} (hrounds : s.optionLen < rounds) :
    ∃ res, readOptions rounds s = some res := by
  induction rounds generalizing s with
  | zero => exact absurd hrounds (Nat.not_lt_zero _)
  | succ rounds ih =>
    rw [readOptions]
    split
    case isTrue => exact ⟨_, rfl⟩
    case isFalse hpos =>
      cases hstep : optionStep s with
      | error e => exact ⟨_, rfl⟩
      | ok next =>
        obtain ⟨more, s'⟩ := next
        cases more with
        | false => exact ⟨_, rfl⟩
        | true =>
          have hgoes : Goes s s' := ⟨hpos, hstep⟩
          have hrest : ¬ Hangs s' := by
            rintro ⟨t, hpath, hstuck⟩
            exact h ⟨t, hpath.head hgoes, hstuck⟩
          rcases hgoes.progress with hlt | hstuck
          · exact ih hrest (by omega)
          · exact absurd ⟨s, Relation.ReflTransGen.refl, hstuck⟩ h

theorem readOptions_mono {n m : ℕ} {res : Except TcpFault OptionLoop}
    (h : readOptions n s = some res) (hle : n ≤ m) : readOptions m s = some res := by
  induction n generalizing s m with
  | zero => cases h
  | succ n ih =>
    obtain ⟨m, rfl⟩ := Nat.exists_eq_add_of_le' hle
    rw [← Nat.add_assoc]
    rw [readOptions] at h ⊢
    split at h
    case isTrue hzero => rw [if_pos hzero, h]
    case isFalse hpos =>
      rw [if_neg hpos]
      cases hstep : optionStep s with
      | error e =>
        rw [hstep] at h
        exact h
      | ok next =>
        obtain ⟨more, s'⟩ := next
        rw [hstep] at h
        cases more with
        | false => exact h
        | true => exact ih h (Nat.le_add_left n m)

theorem readOptions_within {size rounds : ℕ} (hw : Within size s)
    (h : readOptions rounds s = some (.ok s')) : Within size s' := by
  induction rounds generalizing s with
  | zero => cases h
  | succ rounds ih =>
    rw [readOptions] at h
    split at h
    case isTrue hzero =>
      cases h
      exact hw
    case isFalse hpos =>
      cases hstep : optionStep s with
      | error e =>
        rw [hstep] at h
        cases h
      | ok next =>
        obtain ⟨more, t⟩ := next
        rw [hstep] at h
        cases more with
        | false =>
          cases h
          rw [optionStep_break hstep]
          exact hw
        | true => exact ih (hw.goes ⟨hpos, hstep⟩) h

/-! ## Any octets -/

/-- The octets have a length field that is in order, and the loop comes to an unknown option without
octets. -/
def HangsOn (r : TcpHeader) (start : List UInt8) : Prop :=
  ∃ g i, r.readFixed start = some (g, i) ∧ g.optionLen ≤ m_maxOptionsLen
    ∧ Hangs ⟨[], 0, g.optionLen, i⟩

theorem HangsOn.deserialize_eq (h : HangsOn r start) (rounds : ℕ) :
    r.deserialize rounds start = none := by
  obtain ⟨g, i, hfixed, hle, hhangs⟩ := h
  rw [TcpHeader.deserialize, hfixed]
  simp only [if_neg (Nat.not_lt.mpr hle), hhangs.readOptions_eq]

theorem deserialize_ends (h : ¬ HangsOn r start) :
    ∃ res, ∀ rounds, 41 ≤ rounds → r.deserialize rounds start = some res := by
  cases hfixed : r.readFixed start with
  | none => exact ⟨.error .outOfRange, fun rounds _ => by rw [TcpHeader.deserialize, hfixed]⟩
  | some gi =>
    obtain ⟨g, i⟩ := gi
    by_cases hgt : g.optionLen > m_maxOptionsLen
    · refine ⟨.ok (g, 20), fun rounds _ => ?_⟩
      rw [TcpHeader.deserialize, hfixed]
      exact if_pos hgt
    · have hloop : ¬ Hangs ⟨[], 0, g.optionLen, i⟩ := fun hhangs =>
        h ⟨g, i, hfixed, Nat.le_of_not_gt hgt, hhangs⟩
      obtain ⟨res, hres⟩ := readOptions_ends hloop (Nat.lt_succ_of_le (Nat.le_of_not_gt hgt))
      cases res with
      | error e =>
        refine ⟨.error e, fun rounds hrounds => ?_⟩
        rw [TcpHeader.deserialize, hfixed]
        simp only [if_neg hgt, readOptions_mono hres hrounds]
      | ok s =>
        refine ⟨check { g with m_options := s.m_options, m_optionsLen := s.m_optionsLen } start,
          fun rounds hrounds => ?_⟩
        rw [TcpHeader.deserialize, hfixed]
        simp only [if_neg hgt, readOptions_mono hres hrounds]

theorem getSerializedSize_bounds {g : TcpHeader} {n : ℕ} (h : optionsSize g.m_options ≤ n * 4)
    (hn : n ≤ 10) : 20 ≤ g.getSerializedSize ∧ g.getSerializedSize ≤ 20 + n * 4 := by
  have hpad : padding (20 + optionsSize g.m_options) + (20 + optionsSize g.m_options)
      = (optionsSize g.m_options + 23) / 4 * 4 := by
    rw [padding]
    split <;> omega
  have hmod : (20 + optionsSize g.m_options) % 2 ^ 32 = 20 + optionsSize g.m_options := by omega
  rw [getSerializedSize, calculateHeaderLength, hmod, Nat.shiftRight_eq_div_pow,
    Nat.add_comm _ (padding _), hpad]
  omega

/-- The size that is returned is that of a header, and no more than the length field says. -/
theorem deserialize_size {rounds k : ℕ} {r' : TcpHeader}
    (h : r.deserialize rounds start = some (.ok (r', k))) :
    r'.m_length < 16 ∧ 20 ≤ k ∧ k ≤ max 20 (r'.m_length * 4) := by
  rw [TcpHeader.deserialize] at h
  cases hfixed : r.readFixed start with
  | none =>
    rw [hfixed] at h
    cases h
  | some gi =>
    obtain ⟨g, i⟩ := gi
    obtain ⟨-, -, -, hlength⟩ := readFixed_keeps hfixed
    rw [hfixed] at h
    simp only at h
    split at h
    case isTrue =>
      cases h
      exact ⟨hlength, le_refl _, le_max_left _ _⟩
    case isFalse hle =>
      rw [m_maxOptionsLen, optionLen] at hle
      cases hopts : readOptions rounds ⟨[], 0, g.optionLen, i⟩ with
      | none =>
        rw [hopts] at h
        cases h
      | some res =>
        rw [hopts] at h
        cases res with
        | error e => cases h
        | ok s =>
          have hwithin := (readOptions_within (Within.mk (le_of_eq (Nat.zero_add _))) hopts).le
          have hsize : optionsSize s.m_options ≤ (g.m_length - 5) * 4 := by
            simp only [optionLen] at hwithin
            omega
          have hbounds := getSerializedSize_bounds
            (g := { g with m_options := s.m_options, m_optionsLen := s.m_optionsLen }) hsize
            (by omega)
          simp only [Option.some.injEq, check] at h
          split at h
          · obtain ⟨c, -, hok⟩ := bind_eq_ok.mp h
            cases hok
            exact ⟨hlength, hbounds.1, by simp only; omega⟩
          · cases h
            exact ⟨hlength, hbounds.1, by simp only; omega⟩

/-- On octets of any kind `Deserialize` ends within 41 rounds, just not where the loop comes to an
unknown option without octets. What it returns is the size of a header that the length field
allows. -/
theorem deserialize_any (r : TcpHeader) (start : List UInt8) :
    ((∀ rounds, r.deserialize rounds start = none) ↔ HangsOn r start)
      ∧ (¬ HangsOn r start →
        ∃ res, ∀ rounds, 41 ≤ rounds → r.deserialize rounds start = some res)
      ∧ ∀ rounds r' k, r.deserialize rounds start = some (.ok (r', k)) →
        r'.m_length < 16 ∧ 20 ≤ k ∧ k ≤ max 20 (r'.m_length * 4) := by
  refine ⟨⟨?_, fun h rounds => h.deserialize_eq rounds⟩, deserialize_ends,
    fun rounds r' k h => deserialize_size h⟩
  intro hnone
  by_contra hends
  obtain ⟨res, hres⟩ := deserialize_ends hends
  have hsome := hres 41 (le_refl 41)
  rw [hnone 41] at hsome
  cases hsome

/-- An option of the kind 30 without octets, after a header that claims one word of options. -/
example : HangsOn { m_endpoints := .ipv4 1 2, m_protocol := 6 }
    (List.replicate 12 0 ++ [0x60] ++ List.replicate 7 0 ++ [30, 0, 0, 0]) :=
  ⟨_, _, rfl, by decide, _, Relation.ReflTransGen.refl, by decide, _, _, rfl, rfl⟩

end Ns3.Internet.TcpHeader
