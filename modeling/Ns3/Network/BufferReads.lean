import Ns3.Network.BufferConfined

/-!
# Reads of a buffer iterator

`PeekU8` checks its position, and the slow path of a number reads its octets with it. The fast path
checks nothing, so it is confined where it leads into the data; there the two paths agree.
-/

namespace Ns3.Network

open Lib

namespace Wrapped

variable {h : Heap} {b : Buffer} {d : BufferData} {c n : Nat}

theorem toNat_two (b0 b1 : UInt8) :
    (b0.toUInt16 <<< 8 ||| b1.toUInt16).toNat = networkOrder [b0, b1] := by
  have h0 := b0.toNat_lt
  have hshift : (b0.toUInt16 <<< 8).toNat = b0.toNat <<< 8 := by
    rw [UInt16.toNat_shiftLeft, UInt8.toNat_toUInt16]
    apply Nat.mod_eq_of_lt
    rw [Nat.shiftLeft_eq]
    show b0.toNat * 256 < 65536
    omega
  rw [UInt16.toNat_or, hshift, UInt8.toNat_toUInt16, shiftLeft_or_octet]
  simp [networkOrder]

/-- One more octet of a 32-bit number. -/
theorem toNat_shiftLeft_or {v : UInt32} (hv : v.toNat < 2 ^ 24) (b : UInt8) :
    (v <<< 8 ||| b.toUInt32).toNat = v.toNat * 256 + b.toNat := by
  have hshift : (v <<< 8).toNat = v.toNat <<< 8 := by
    rw [UInt32.toNat_shiftLeft]
    apply Nat.mod_eq_of_lt
    rw [Nat.shiftLeft_eq]
    show v.toNat * 256 < 4294967296
    omega
  rw [UInt32.toNat_or, hshift, UInt8.toNat_toUInt32, shiftLeft_or_octet]

theorem toNat_four (b0 b1 b2 b3 : UInt8) :
    (((b0.toUInt32 <<< 8 ||| b1.toUInt32) <<< 8 ||| b2.toUInt32) <<< 8 ||| b3.toUInt32).toNat =
      networkOrder [b0, b1, b2, b3] := by
  have h0 := b0.toNat_lt
  have h1 := b1.toNat_lt
  have h2 := b2.toNat_lt
  have e0 : b0.toUInt32.toNat = b0.toNat := UInt8.toNat_toUInt32 b0
  have e1 := toNat_shiftLeft_or (v := b0.toUInt32) (by omega) b1
  have e2 := toNat_shiftLeft_or (v := b0.toUInt32 <<< 8 ||| b1.toUInt32) (by omega) b2
  rw [toNat_shiftLeft_or (by omega), e2, e1, e0]
  simp [networkOrder]

theorem peekU8_eq (hf : b.Fits d) (hend : b.dataEnd < 2 ^ 32) :
    peekU8 h (b.iteratorAt c) =
      if b.Within c 1 then some (b.byteAt (h.data b.data).bytes c) else none := by
  have h2 := hf.zero_le
  unfold peekU8
  by_cases hw : b.Within c 1
  · have hw' := hw
    unfold Buffer.Within at hw'
    rw [if_pos hw, if_neg (not_not.mpr ⟨hw'.1, hw'.2⟩)]
    unfold Buffer.byteAt
    show (if c < b.zeroAreaStart then _ else if c < b.zeroAreaEnd then _ else _) = _
    split
    · rfl
    · split
      · rfl
      · rw [behind_eq h2 (by show b.zeroAreaEnd ≤ c; omega) (by show c < _; omega)]
        rfl
  · rw [if_neg hw]
    exact if_pos hw

theorem readU8_of_within (hf : b.Fits d) (hend : b.dataEnd < 2 ^ 32) (hw : b.Within c 1) :
    readU8 h (b.iteratorAt c) =
      some (b.byteAt (h.data b.data).bytes c, b.iteratorAt (c + 1)) := by
  have hlt := hw.2
  rw [readU8, peekU8_eq hf hend, if_pos hw, advance_iteratorAt (by omega)]
  rfl

theorem readU8_of_not_within (hf : b.Fits d) (hend : b.dataEnd < 2 ^ 32) (hw : ¬b.Within c 1) :
    readU8 h (b.iteratorAt c) = none := by
  rw [readU8, peekU8_eq hf hend, if_neg hw]
  rfl

theorem slowReadNtohU16_of_within (hf : b.Fits d) (hend : b.dataEnd < 2 ^ 32)
    (hw : b.Within c 2) : slowReadNtohU16 h (b.iteratorAt c) =
      some ((b.byteAt (h.data b.data).bytes c).toUInt16 <<< 8 |||
        (b.byteAt (h.data b.data).bytes (c + 1)).toUInt16, b.iteratorAt (c + 2)) := by
  obtain ⟨hstart, hle⟩ := hw
  rw [slowReadNtohU16, readU8_of_within hf hend ⟨hstart, by omega⟩]
  simp only [bind, Option.bind]
  rw [readU8_of_within hf hend ⟨by omega, by omega⟩]
  rfl

theorem slowReadNtohU16_of_not_within (hf : b.Fits d) (hend : b.dataEnd < 2 ^ 32)
    (hw : ¬b.Within c 2) : slowReadNtohU16 h (b.iteratorAt c) = none := by
  unfold slowReadNtohU16
  by_cases h0 : b.Within c 1
  · have h1 : ¬b.Within (c + 1) 1 := fun h1 => hw ⟨h0.1, h1.2⟩
    rw [readU8_of_within hf hend h0]
    simp only [bind, Option.bind]
    rw [readU8_of_not_within hf hend h1]
  · rw [readU8_of_not_within hf hend h0]
    rfl

theorem slowReadNtohU32_of_within (hf : b.Fits d) (hend : b.dataEnd < 2 ^ 32)
    (hw : b.Within c 4) : slowReadNtohU32 h (b.iteratorAt c) =
      some ((((b.byteAt (h.data b.data).bytes c).toUInt32 <<< 8 |||
        (b.byteAt (h.data b.data).bytes (c + 1)).toUInt32) <<< 8 |||
        (b.byteAt (h.data b.data).bytes (c + 2)).toUInt32) <<< 8 |||
        (b.byteAt (h.data b.data).bytes (c + 3)).toUInt32, b.iteratorAt (c + 4)) := by
  obtain ⟨hstart, hle⟩ := hw
  rw [slowReadNtohU32, readU8_of_within hf hend ⟨hstart, by omega⟩]
  simp only [bind, Option.bind]
  rw [readU8_of_within hf hend ⟨by omega, by omega⟩]
  simp only []
  rw [readU8_of_within hf hend ⟨by omega, by omega⟩]
  simp only []
  rw [readU8_of_within hf hend ⟨by omega, by omega⟩]
  rfl

/-- One of the four reads is the first that finds no byte. -/
theorem slowReadNtohU32_of_not_within (hf : b.Fits d) (hend : b.dataEnd < 2 ^ 32)
    (hw : ¬b.Within c 4) : slowReadNtohU32 h (b.iteratorAt c) = none := by
  unfold slowReadNtohU32
  by_cases h0 : b.Within c 1
  · rw [readU8_of_within hf hend h0]
    simp only [bind, Option.bind]
    by_cases h1 : b.Within (c + 1) 1
    · rw [readU8_of_within hf hend h1]
      simp only []
      by_cases h2 : b.Within (c + 1 + 1) 1
      · rw [readU8_of_within hf hend h2]
        simp only []
        have h3 : ¬b.Within (c + 1 + 1 + 1) 1 := fun h3 => hw ⟨h0.1, h3.2⟩
        rw [readU8_of_not_within hf hend h3]
      · rw [readU8_of_not_within hf hend h2]
    · rw [readU8_of_not_within hf hend h1]
  · rw [readU8_of_not_within hf hend h0]
    rfl

/-- The fast path reads the bytes of a range that lies in the data. -/
theorem cell_fast (hf : b.Fits d) (hend : b.dataEnd < 2 ^ 32) (hw : b.Within c n)
    (hfast : b.FastPath c n) {k : Nat} (hk : k < n) :
    cell h (b.iteratorAt c)
      ((if add32 c n ≤ b.zeroAreaStart then c else behind (b.iteratorAt c)) + k) =
        b.byteAt (h.data b.data).bytes (c + k) := by
  have hle := hw.2
  have hwrite : b.Writable c n := by
    apply Buffer.writable_iff.mpr
    refine ⟨hw.1, hw.2, ?_⟩
    rcases hfast with hzero | hzero
    · rw [Nat.mod_eq_of_lt (by omega)] at hzero
      exact Or.inr (Or.inr (Or.inl hzero))
    · exact Or.inr (Or.inl hzero)
  have hr := Buffer.writable_iff.mp hwrite
  rw [target_of_end hf hend hwrite (by omega), Buffer.byteAt_eq _ (by omega),
    Buffer.offset_add hwrite hk]
  rfl

theorem readNtohU16_of_fastPath (hfast : b.FastPath c 2) :
    readNtohU16 h (b.iteratorAt c) = some (fastU16 h (b.iteratorAt c)
      (if add32 c 2 ≤ b.zeroAreaStart then c else behind (b.iteratorAt c))) := by
  show (if add32 c 2 ≤ b.zeroAreaStart then _ else if c ≥ b.zeroAreaEnd then _ else _) = _
  split
  · rfl
  · rename_i hzero
    rw [if_pos (hfast.resolve_left hzero)]

theorem readNtohU32_of_fastPath (hfast : b.FastPath c 4) :
    readNtohU32 h (b.iteratorAt c) = some (fastU32 h (b.iteratorAt c)
      (if add32 c 4 ≤ b.zeroAreaStart then c else behind (b.iteratorAt c))) := by
  show (if add32 c 4 ≤ b.zeroAreaStart then _ else if c ≥ b.zeroAreaEnd then _ else _) = _
  split
  · rfl
  · rename_i hzero
    rw [if_pos (hfast.resolve_left hzero)]

/-- The fast and the slow path agree on a range that lies in the data. -/
theorem readNtohU16_eq_slow (hf : b.Fits d) (hend : b.dataEnd < 2 ^ 32)
    (hsafe : b.FastPath c 2 → b.Within c 2) :
    readNtohU16 h (b.iteratorAt c) = slowReadNtohU16 h (b.iteratorAt c) := by
  by_cases hfast : b.FastPath c 2
  · have hw := hsafe hfast
    have hle := hw.2
    have hcell : cell h (b.iteratorAt c)
        (if add32 c 2 ≤ b.zeroAreaStart then c else behind (b.iteratorAt c)) =
          b.byteAt (h.data b.data).bytes c := cell_fast hf hend hw hfast (k := 0) (by decide)
    rw [readNtohU16_of_fastPath hfast, slowReadNtohU16_of_within hf hend hw, fastU16,
      advance_iteratorAt (by omega), hcell, cell_fast hf hend hw hfast (by decide)]
  · have hpath := not_or.mp hfast
    show (if add32 c 2 ≤ b.zeroAreaStart then _ else if c ≥ b.zeroAreaEnd then _ else _) = _
    exact (if_neg hpath.1).trans (if_neg hpath.2)

theorem readNtohU32_eq_slow (hf : b.Fits d) (hend : b.dataEnd < 2 ^ 32)
    (hsafe : b.FastPath c 4 → b.Within c 4) :
    readNtohU32 h (b.iteratorAt c) = slowReadNtohU32 h (b.iteratorAt c) := by
  by_cases hfast : b.FastPath c 4
  · have hw := hsafe hfast
    have hle := hw.2
    have hcell : cell h (b.iteratorAt c)
        (if add32 c 4 ≤ b.zeroAreaStart then c else behind (b.iteratorAt c)) =
          b.byteAt (h.data b.data).bytes c := cell_fast hf hend hw hfast (k := 0) (by decide)
    rw [readNtohU32_of_fastPath hfast, slowReadNtohU32_of_within hf hend hw, fastU32,
      advance_iteratorAt (by omega), hcell,
      cell_fast hf hend hw hfast (k := 1) (by decide),
      cell_fast hf hend hw hfast (k := 2) (by decide), cell_fast hf hend hw hfast (by decide)]
  · have hpath := not_or.mp hfast
    show (if add32 c 4 ≤ b.zeroAreaStart then _ else if c ≥ b.zeroAreaEnd then _ else _) = _
    exact (if_neg hpath.1).trans (if_neg hpath.2)

/-- A read finds its bytes. -/
theorem readConfined_some {α : Type} {toNat : α → Nat} {x : α} (hw : b.Within c n)
    (hx : toNat x = networkOrder (window (b.byteAt (h.data b.data).bytes) c n)) :
    ReadConfined h b c n toNat (some x) := by
  refine ⟨⟨fun _ => hw, fun _ => rfl⟩, fun y hy => ?_⟩
  cases hy
  exact hx

/-- A read stops at its assert. -/
theorem readConfined_none {α : Type} {toNat : α → Nat} (hw : ¬b.Within c n) :
    ReadConfined h b c n toNat none := by
  refine ⟨⟨fun hsome => ?_, fun hw' => absurd hw' hw⟩, fun y hy => ?_⟩
  · cases hsome
  · cases hy

theorem peekU8_confined (hf : b.Fits d) (hend : b.dataEnd < 2 ^ 32) :
    ReadConfined h b c 1 UInt8.toNat (peekU8 h (b.iteratorAt c)) := by
  rw [peekU8_eq hf hend]
  split
  · rename_i hw
    apply readConfined_some hw
    simp [window, networkOrder]
  · rename_i hw
    exact readConfined_none hw

theorem readU8_confined (hf : b.Fits d) (hend : b.dataEnd < 2 ^ 32) :
    ReadConfined h b c 1 (fun x => x.1.toNat) (readU8 h (b.iteratorAt c)) := by
  by_cases hw : b.Within c 1
  · rw [readU8_of_within hf hend hw]
    apply readConfined_some hw
    simp [window, networkOrder]
  · rw [readU8_of_not_within hf hend hw]
    exact readConfined_none hw

theorem slowReadNtohU16_confined (hf : b.Fits d) (hend : b.dataEnd < 2 ^ 32) :
    ReadConfined h b c 2 (fun x => x.1.toNat) (slowReadNtohU16 h (b.iteratorAt c)) := by
  by_cases hw : b.Within c 2
  · rw [slowReadNtohU16_of_within hf hend hw]
    exact readConfined_some hw (toNat_two _ _)
  · rw [slowReadNtohU16_of_not_within hf hend hw]
    exact readConfined_none hw

theorem slowReadNtohU32_confined (hf : b.Fits d) (hend : b.dataEnd < 2 ^ 32) :
    ReadConfined h b c 4 (fun x => x.1.toNat) (slowReadNtohU32 h (b.iteratorAt c)) := by
  by_cases hw : b.Within c 4
  · rw [slowReadNtohU32_of_within hf hend hw]
    exact readConfined_some hw (toNat_four _ _ _ _)
  · rw [slowReadNtohU32_of_not_within hf hend hw]
    exact readConfined_none hw

/-- The fast path asserts nothing: it must lead into the data. -/
theorem readNtohU16_confined_iff (hf : b.Fits d) (hend : b.dataEnd < 2 ^ 32) :
    Access.Confined h b c .readNtohU16 ↔ (b.FastPath c 2 → b.Within c 2) := by
  constructor
  · intro hconf hfast
    apply hconf.1.1.mp
    rw [readNtohU16_of_fastPath hfast]
    rfl
  · intro hsafe
    show ReadConfined h b c 2 _ (readNtohU16 h (b.iteratorAt c)) ∧ _
    rw [readNtohU16_eq_slow hf hend hsafe]
    exact ⟨slowReadNtohU16_confined hf hend, fun x hx => hx⟩

theorem readNtohU32_confined_iff (hf : b.Fits d) (hend : b.dataEnd < 2 ^ 32) :
    Access.Confined h b c .readNtohU32 ↔ (b.FastPath c 4 → b.Within c 4) := by
  constructor
  · intro hconf hfast
    apply hconf.1.1.mp
    rw [readNtohU32_of_fastPath hfast]
    rfl
  · intro hsafe
    show ReadConfined h b c 4 _ (readNtohU32 h (b.iteratorAt c)) ∧ _
    rw [readNtohU32_eq_slow hf hend hsafe]
    exact ⟨slowReadNtohU32_confined hf hend, fun x hx => hx⟩

end Wrapped

end Ns3.Network
