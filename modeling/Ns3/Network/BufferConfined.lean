import Ns3.Network.BufferAccess
import Ns3.Lib.NetworkOrder

/-!
# Confined accesses

An access of the iterator is confined when it passes its assert exactly for a range that lies in the
data and, if it writes, outside of the zero area, and then touches the bytes of that range and no
others. `Safe` says for which positions each access is confined.
-/

namespace Ns3.Network

open Lib

namespace Buffer

/-- An iterator over `b` at the position `c`. -/
def iteratorAt (b : Buffer) (c : Nat) : Iterator := { b.begin with current := c }

/-- The place in the block of a position outside of the zero area. -/
def offset (b : Buffer) (v : Nat) : Nat :=
  if v < b.zeroAreaStart then v else v - (b.zeroAreaEnd - b.zeroAreaStart)

/-- The `n` bytes from `c` on lie in the data. -/
def Within (b : Buffer) (c n : Nat) : Prop := b.start ≤ c ∧ c + n ≤ b.dataEnd

def MeetsZeroArea (b : Buffer) (c n : Nat) : Prop :=
  ∃ v, (c ≤ v ∧ v < c + n) ∧ b.zeroAreaStart ≤ v ∧ v < b.zeroAreaEnd

def Writable (b : Buffer) (c n : Nat) : Prop := b.Within c n ∧ ¬b.MeetsZeroArea c n

instance (b : Buffer) (c n : Nat) : Decidable (b.Within c n) :=
  inferInstanceAs (Decidable (_ ∧ _))

theorem meetsZeroArea_iff {b : Buffer} {c n : Nat} : b.MeetsZeroArea c n ↔
    0 < n ∧ c < b.zeroAreaEnd ∧ b.zeroAreaStart < c + n ∧ b.zeroAreaStart < b.zeroAreaEnd := by
  constructor
  · rintro ⟨v, hv, hzero⟩
    omega
  · rintro ⟨hn, hc, hz, hne⟩
    refine ⟨max c b.zeroAreaStart, ?_, ?_⟩ <;> omega

instance (b : Buffer) (c n : Nat) : Decidable (b.MeetsZeroArea c n) :=
  decidable_of_iff' _ meetsZeroArea_iff

instance (b : Buffer) (c n : Nat) : Decidable (b.Writable c n) :=
  inferInstanceAs (Decidable (_ ∧ _))

/-! ## The conditions -/

/-- The end of the range wraps, to an offset that the assert accepts. -/
def Wraps (b : Buffer) (c n : Nat) : Prop :=
  2 ^ 32 ≤ c + n ∧ b.start ≤ c ∧ c + n - 2 ^ 32 ≤ b.dataEnd ∧
    (c + n - 2 ^ 32 ≤ b.zeroAreaStart ∨ b.zeroAreaEnd ≤ c ∨ b.zeroAreaStart = b.zeroAreaEnd)

/-- The size `n`, taken for an offset, is accepted as the end of a range that ends behind the data
or meets the zero area. -/
def TakesSizeForEnd (b : Buffer) (c n : Nat) : Prop :=
  (b.start ≤ c ∧ n ≤ b.dataEnd ∧
    (n ≤ b.zeroAreaStart ∨ b.zeroAreaEnd ≤ c ∨ b.zeroAreaStart = b.zeroAreaEnd ∨ c = n)) ∧
      (b.dataEnd < c + n ∨ b.MeetsZeroArea c n)

/-- A read of `n` bytes takes its fast path. -/
def FastPath (b : Buffer) (c n : Nat) : Prop :=
  (c + n) % 2 ^ 32 ≤ b.zeroAreaStart ∨ b.zeroAreaEnd ≤ c

end Buffer

/-- The calls of the iterator. A range is given by its buffer and its two positions. -/
inductive Access
  | writeU8 (data : UInt8)
  | writeU8s (data : UInt8) (len : Nat)
  | writeHtonU16 (data : UInt16)
  | writeHtonU32 (data : UInt32)
  | write (buffer : List UInt8)
  | writeRange (o : Buffer) (start stop : Nat)
  | peekU8
  | readU8
  | readNtohU16
  | readNtohU32

/-- The bytes `bs` are in the range from `c` on, and nothing else has changed. -/
structure Written (h : Heap) (b : Buffer) (c : Nat) (bs : List UInt8) (h' : Heap) : Prop where
  inside : ∀ (k : Nat) (hk : k < bs.length), b.byteAt (h'.data b.data).bytes (c + k) = bs[k]
  outside : ∀ i, (∀ k < bs.length, i ≠ b.offset (c + k)) →
    (h'.data b.data).bytes i = (h.data b.data).bytes i
  rest : h' = h.setData b.data { h.data b.data with bytes := (h'.data b.data).bytes }

/-- A write of `bs` passes its assert where it is allowed, and then it writes them. -/
def WriteConfined (h : Heap) (b : Buffer) (c : Nat) (bs : List UInt8) (allowed : Prop)
    (r : Except BufferFault (Heap × Iterator)) : Prop :=
  (r ≠ .error .writeAssert ↔ allowed) ∧
    (r ≠ .error .writeAssert →
      ∃ h', r = .ok (h', b.iteratorAt (c + bs.length)) ∧ Written h b c bs h')

/-- A read of `n` bytes passes its assert where they lie in the data, and then it returns them. -/
def ReadConfined {α : Type} (h : Heap) (b : Buffer) (c n : Nat) (toNat : α → Nat)
    (r : Option α) : Prop :=
  (r.isSome ↔ b.Within c n) ∧
    ∀ x, r = some x → toNat x = networkOrder (window (b.byteAt (h.data b.data).bytes) c n)

namespace Access

/-- What the arguments of a call are: a size is a 32-bit number, and the source of a copy is a range
of a buffer in another block. -/
def Proper (h : Heap) (b : Buffer) : Access → Prop
  | .writeU8s _ len => len < 2 ^ 32
  | .write bs => bs.length < 2 ^ 32
  | .writeRange o s e => (o.Fits (h.data o.data) ∧ o.dataEnd < 2 ^ 32) ∧ b.data ≠ o.data ∧ s ≤ e ∧
      e < 2 ^ 32
  | _ => True

def Confined (h : Heap) (b : Buffer) (c : Nat) : Access → Prop
  | .writeU8 data =>
    WriteConfined h b c [data] (b.Writable c 1) (Wrapped.writeU8 h (b.iteratorAt c) data)
  | .writeU8s data len =>
    WriteConfined h b c (List.replicate len data) (b.Writable c len)
      (Wrapped.writeU8s h (b.iteratorAt c) data len)
  | .writeHtonU16 data =>
    WriteConfined h b c (octets 2 data.toNat) (b.Writable c 2)
      (Wrapped.writeHtonU16 h (b.iteratorAt c) data)
  | .writeHtonU32 data =>
    WriteConfined h b c (octets 4 data.toNat) (b.Writable c 4)
      (Wrapped.writeHtonU32 h (b.iteratorAt c) data)
  | .write bs =>
    WriteConfined h b c bs (b.Writable c bs.length) (Wrapped.write h (b.iteratorAt c) bs)
  | .writeRange o s e =>
    WriteConfined h b c (window (o.byteAt (h.data o.data).bytes) s (e - s))
      (b.Writable c (e - s) ∧ o.Within s (e - s))
      (Wrapped.writeRange h (b.iteratorAt c) (o.iteratorAt s) (o.iteratorAt e))
  | .peekU8 => ReadConfined h b c 1 UInt8.toNat (Wrapped.peekU8 h (b.iteratorAt c))
  | .readU8 => ReadConfined h b c 1 (fun x => x.1.toNat) (Wrapped.readU8 h (b.iteratorAt c))
  | .readNtohU16 =>
    ReadConfined h b c 2 (fun x => x.1.toNat) (Wrapped.readNtohU16 h (b.iteratorAt c)) ∧
      ∀ x, Wrapped.readNtohU16 h (b.iteratorAt c) = some x →
        Wrapped.slowReadNtohU16 h (b.iteratorAt c) = some x
  | .readNtohU32 =>
    ReadConfined h b c 4 (fun x => x.1.toNat) (Wrapped.readNtohU32 h (b.iteratorAt c)) ∧
      ∀ x, Wrapped.readNtohU32 h (b.iteratorAt c) = some x →
        Wrapped.slowReadNtohU32 h (b.iteratorAt c) = some x

/-- The positions at which an access is confined. -/
def Safe (b : Buffer) (c : Nat) : Access → Prop
  | .writeU8 _ => c ≠ b.dataEnd
  | .writeU8s _ len => ¬b.Wraps c len
  | .writeHtonU16 _ => ¬b.Wraps c 2
  | .writeHtonU32 _ => ¬b.Wraps c 4
  | .write bs => ¬b.TakesSizeForEnd c bs.length
  | .writeRange o s e => ¬b.Wraps c (e - s) ∧ (b.Writable c (e - s) → o.Within s (e - s) ∧
      (c + (e - s) ≤ b.zeroAreaStart ∨ b.zeroAreaStart = b.zeroAreaEnd ∨ s = e))
  | .peekU8 => True
  | .readU8 => True
  | .readNtohU16 => b.FastPath c 2 → b.Within c 2
  | .readNtohU32 => b.FastPath c 4 → b.Within c 4

end Access

/-! ## Positions and places -/

variable {h h' : Heap} {b o : Buffer} {d : BufferData} {c n : Nat} {bs : List UInt8}

theorem Buffer.writable_iff : b.Writable c n ↔ b.start ≤ c ∧ c + n ≤ b.dataEnd ∧
    (n = 0 ∨ b.zeroAreaEnd ≤ c ∨ c + n ≤ b.zeroAreaStart ∨ b.zeroAreaEnd ≤ b.zeroAreaStart) := by
  unfold Buffer.Writable Buffer.Within
  rw [Buffer.meetsZeroArea_iff]
  omega

theorem Buffer.byteAt_eq (m : Nat → UInt8) {v : Nat}
    (hv : ¬(b.zeroAreaStart ≤ v ∧ v < b.zeroAreaEnd)) : b.byteAt m v = m (b.offset v) := by
  unfold Buffer.byteAt Buffer.offset
  by_cases h1 : v < b.zeroAreaStart
  · rw [if_pos h1, if_pos h1]
  · rw [if_neg h1, if_neg h1, if_neg (by omega)]

/-- A range outside of the zero area is in one piece. -/
theorem Buffer.offset_add (hw : b.Writable c n) {k : Nat} (hk : k < n) :
    b.offset (c + k) = b.offset c + k := by
  have hr := Buffer.writable_iff.mp hw
  unfold Buffer.offset
  split <;> split <;> omega

theorem Buffer.Fits.offset_le (hf : b.Fits d) (hw : b.Writable c n) (hn : 0 < n) :
    b.offset c + n ≤ d.size := by
  have hr := Buffer.writable_iff.mp hw
  have h1 := hf.zero_le
  have h2 := hf.le_end
  have h3 := hf.internalEnd
  have h4 := hf.zero_size
  unfold Buffer.offset
  split <;> omega

theorem Written.copyTo (hw : b.Writable c bs.length) :
    Written h b c bs (h.copyTo b.data (b.offset c) bs) where
  inside k hk := by
    have hr := Buffer.writable_iff.mp hw
    rw [Buffer.byteAt_eq _ (by omega), Buffer.offset_add hw hk]
    simp only [Heap.copyTo, Heap.setData_data_self]
    exact poke_add hk
  outside i hi := by
    simp only [Heap.copyTo, Heap.setData_data_self]
    by_cases hlt : i < b.offset c
    · exact poke_of_lt hlt
    · apply poke_of_le
      by_contra hle
      have hk : i - b.offset c < bs.length := by omega
      apply hi _ hk
      rw [Buffer.offset_add hw hk]
      omega
  rest := by
    simp [Heap.copyTo]

namespace Wrapped

theorem add32_eq {x y : Nat} (hlt : x + y < 2 ^ 32) : add32 x y = x + y := Nat.mod_eq_of_lt hlt

theorem sub32_eq {x y : Nat} (hle : y ≤ x) (hx : x < 2 ^ 32) : sub32 x y = x - y := by
  unfold sub32
  omega

theorem behind_eq {it : Iterator} (hzero : it.zeroStart ≤ it.zeroEnd)
    (hle : it.zeroEnd ≤ it.current) (hc : it.current < 2 ^ 32) :
    behind it = it.current - (it.zeroEnd - it.zeroStart) := by
  unfold behind
  rw [sub32_eq hzero (by omega), sub32_eq (by omega) hc]

theorem advance_iteratorAt (hlt : c + n < 2 ^ 32) :
    advance (b.iteratorAt c) n = b.iteratorAt (c + n) := by
  unfold advance
  rw [show (b.iteratorAt c).current = c from rfl, add32_eq hlt]
  rfl

theorem store_ne_writeAssert {a pos : Nat} : h.store a pos bs ≠ .error .writeAssert := by
  unfold Heap.store
  split <;> intro heq <;> cases heq

theorem put_ne_writeAssert_iff {ok : Bool} {it : Iterator} {pos : Nat} :
    put ok h it pos bs ≠ .error .writeAssert ↔ ok = true := by
  cases ok with
  | false =>
    constructor
    · intro hne
      exact absurd rfl hne
    · intro hok
      cases hok
  | true =>
    refine ⟨fun _ => rfl, fun _ => ?_⟩
    unfold put
    cases hs : h.store it.data pos bs with
    | ok h' =>
      intro heq
      cases heq
    | error e =>
      intro heq
      cases heq
      exact store_ne_writeAssert hs

/-- A write whose target is the place of its position is confined if its assert is right. -/
theorem put_confined_iff (hf : b.Fits (h.data b.data)) (hend : b.dataEnd < 2 ^ 32)
    (hlen : bs.length = n) {ok : Bool} {pos : Nat}
    (hpos : b.Writable c n → 0 < n → pos = b.offset c) :
    WriteConfined h b c bs (b.Writable c n) (put ok h (b.iteratorAt c) pos bs) ↔
      (ok = true ↔ b.Writable c n) := by
  subst hlen
  unfold WriteConfined
  rw [put_ne_writeAssert_iff]
  refine ⟨fun hconf => hconf.1, fun hok => ⟨hok, fun htrue => ?_⟩⟩
  have hw := hok.mp htrue
  have hr := Buffer.writable_iff.mp hw
  refine ⟨h.copyTo b.data (b.offset c) bs, ?_, Written.copyTo hw⟩
  have hstore : h.store b.data pos bs = .ok (h.copyTo b.data (b.offset c) bs) := by
    by_cases hnil : bs = []
    · subst hnil
      simp [Heap.store, Heap.copyTo]
    · have hlen : 0 < bs.length := List.length_pos_iff.mpr hnil
      rw [hpos hw hlen]
      exact h.store_eq _ _ _ (hf.offset_le hw hlen)
  subst htrue
  unfold put
  rw [show (b.iteratorAt c).data = b.data from rfl, hstore, advance_iteratorAt (by omega)]
  rfl

/-! ## Writes -/

theorem checkNoZero_iff {e : Nat} : (b.iteratorAt c).checkNoZero c e = true ↔
    b.start ≤ c ∧ e ≤ b.dataEnd ∧
      ¬(b.zeroAreaStart < e ∧ c < b.zeroAreaEnd ∧ b.zeroAreaEnd ≠ b.zeroAreaStart ∧ c ≠ e) :=
  Iterator.checkNoZero_iff

/-- The assert on a range is right unless its end wraps. -/
theorem checkNoZero_add32_iff (hf : b.Fits d) (hend : b.dataEnd < 2 ^ 32) (hc : c < 2 ^ 32)
    (hn : n < 2 ^ 32) :
    ((b.iteratorAt c).checkNoZero c (add32 c n) = true ↔ b.Writable c n) ↔ ¬b.Wraps c n := by
  have h1 := hf.start_le
  have h2 := hf.zero_le
  have h3 := hf.le_end
  rw [checkNoZero_iff, Buffer.writable_iff]
  unfold Buffer.Wraps add32
  by_cases hlt : c + n < 2 ^ 32
  · rw [Nat.mod_eq_of_lt hlt]
    omega
  · rw [Nat.mod_eq_sub_mod (by omega), Nat.mod_eq_of_lt (by omega)]
    omega

/-- The size as an end is accepted for every writable range, and for some that are not. -/
theorem checkNoZero_size_iff (hf : b.Fits d) :
    ((b.iteratorAt c).checkNoZero c n = true ↔ b.Writable c n) ↔ ¬b.TakesSizeForEnd c n := by
  have h1 := hf.start_le
  have h2 := hf.zero_le
  have h3 := hf.le_end
  rw [checkNoZero_iff, Buffer.writable_iff]
  unfold Buffer.TakesSizeForEnd
  rw [Buffer.meetsZeroArea_iff]
  omega

theorem check_iff {it : Iterator} {i : Nat} : check it i = true ↔
    it.dataStart ≤ i ∧ ¬(it.zeroStart ≤ i ∧ i < it.zeroEnd) ∧ i ≤ it.dataEnd := by
  unfold check
  rw [Bool.and_eq_true, Bool.and_eq_true, Bool.not_eq_true', Bool.and_eq_false_iff,
    decide_eq_true_iff, decide_eq_true_iff, decide_eq_false_iff_not, decide_eq_false_iff_not]
  omega

/-- A position behind the zero area goes to its place in the block. -/
theorem behind_iteratorAt (hf : b.Fits d) (hle : b.zeroAreaEnd ≤ c) (hc : c < 2 ^ 32) :
    behind (b.iteratorAt c) = b.offset c := by
  have h2 := hf.zero_le
  rw [behind_eq h2 hle hc]
  show c - (b.zeroAreaEnd - b.zeroAreaStart) = b.offset c
  unfold Buffer.offset
  split <;> omega

theorem offset_before (hf : b.Fits d) (hw : b.Writable c n) (hn : 0 < n)
    (hle : c ≤ b.zeroAreaStart) : c = b.offset c := by
  have h2 := hf.zero_le
  have hr := Buffer.writable_iff.mp hw
  unfold Buffer.offset
  split <;> omega

theorem writeU8_confined_iff (hf : b.Fits (h.data b.data)) (hend : b.dataEnd < 2 ^ 32)
    (hc : c < 2 ^ 32) {data : UInt8} :
    WriteConfined h b c [data] (b.Writable c 1) (writeU8 h (b.iteratorAt c) data) ↔
      c ≠ b.dataEnd := by
  have h1 := hf.start_le
  have h2 := hf.zero_le
  have h3 := hf.le_end
  unfold writeU8
  rw [put_confined_iff hf hend List.length_singleton]
  · rw [check_iff, Buffer.writable_iff]
    show (b.start ≤ c ∧ ¬(b.zeroAreaStart ≤ c ∧ c < b.zeroAreaEnd) ∧ c ≤ b.dataEnd ↔ _) ↔ _
    omega
  · intro hw _
    have hr := Buffer.writable_iff.mp hw
    show (if c < b.zeroAreaStart then c else _) = _
    split
    · exact offset_before hf hw Nat.one_pos (by omega)
    · exact behind_iteratorAt hf (by omega) hc

/-- `WriteU8 (data, len)` and `Write (buffer, size)`: the target of a write that decides with
`m_current <= m_zeroStart`. -/
theorem target_of_current (hf : b.Fits d) (hc : c < 2 ^ 32) (hw : b.Writable c n) (hn : 0 < n) :
    (if c ≤ b.zeroAreaStart then c else behind (b.iteratorAt c)) = b.offset c := by
  have hr := Buffer.writable_iff.mp hw
  have h2 := hf.zero_le
  split
  · exact offset_before hf hw hn (by assumption)
  · exact behind_iteratorAt hf (by omega) hc

/-- `WriteHtonU16` and `WriteHtonU32`: the target of a write that decides with the end of its
range. -/
theorem target_of_end (hf : b.Fits d) (hend : b.dataEnd < 2 ^ 32) (hw : b.Writable c n)
    (hn : 0 < n) :
    (if add32 c n ≤ b.zeroAreaStart then c else behind (b.iteratorAt c)) = b.offset c := by
  have hr := Buffer.writable_iff.mp hw
  have h2 := hf.zero_le
  rw [add32_eq (by omega)]
  split
  · exact offset_before hf hw hn (by omega)
  · by_cases hle : b.zeroAreaEnd ≤ c
    · exact behind_iteratorAt hf hle (by omega)
    · -- the zero area is empty
      have h3 := hf.le_end
      have hzero : sub32 b.zeroAreaEnd b.zeroAreaStart = b.zeroAreaEnd - b.zeroAreaStart :=
        sub32_eq h2 (by omega)
      show sub32 c (sub32 b.zeroAreaEnd b.zeroAreaStart) = _
      rw [hzero, sub32_eq (by omega) (by omega)]
      unfold Buffer.offset
      split <;> omega

/-- Where a buffer keeps octets, the writes of them are those of `Iterator`. -/
theorem writes_eq_iterator (hf : b.Fits d) (hend : b.dataEnd < 2 ^ 32) (hw : b.Writable c n)
    (hn : 0 < n) :
    (∀ data, writeU8s h (b.iteratorAt c) data n = (b.iteratorAt c).writeU8 h data n) ∧
      ∀ bs : List UInt8, bs.length = n →
        write h (b.iteratorAt c) bs = (b.iteratorAt c).write h bs := by
  have hr := Buffer.writable_iff.mp hw
  have hzero := hf.zero_le
  have hlt : c + n < 2 ^ 32 := by omega
  have hout : c ≤ b.zeroAreaStart ∨ b.zeroAreaEnd ≤ c := by omega
  constructor
  · exact fun data => writeU8s_eq hzero hlt hout
  · rintro bs rfl
    exact write_eq hzero hlt hout

theorem writeU8s_confined_iff (hf : b.Fits (h.data b.data)) (hend : b.dataEnd < 2 ^ 32)
    (hc : c < 2 ^ 32) (hn : n < 2 ^ 32) {data : UInt8} :
    WriteConfined h b c (List.replicate n data) (b.Writable c n)
      (writeU8s h (b.iteratorAt c) data n) ↔ ¬b.Wraps c n := by
  rw [← checkNoZero_add32_iff hf hend hc hn]
  exact put_confined_iff hf hend List.length_replicate (target_of_current hf hc)

theorem write_confined_iff (hf : b.Fits (h.data b.data)) (hend : b.dataEnd < 2 ^ 32)
    (hc : c < 2 ^ 32) :
    WriteConfined h b c bs (b.Writable c bs.length) (write h (b.iteratorAt c) bs) ↔
      ¬b.TakesSizeForEnd c bs.length := by
  rw [← checkNoZero_size_iff hf]
  exact put_confined_iff hf hend rfl (target_of_current hf hc)

theorem octets_two (data : UInt16) :
    [((data >>> 8) &&& 0xff).toUInt8, ((data >>> 0) &&& 0xff).toUInt8] =
      octets 2 data.toNat := by
  have hmask (x : Nat) : x &&& 255 = x % 256 := Nat.and_two_pow_sub_one_eq_mod x 8
  simp only [octets, List.nil_append, List.cons_append, List.cons.injEq, and_true]
  constructor
  all_goals
    apply UInt8.toNat_inj.mp
    simp [hmask, Nat.shiftRight_eq_div_pow]

theorem octets_four (data : UInt32) :
    [((data >>> 24) &&& 0xff).toUInt8, ((data >>> 16) &&& 0xff).toUInt8,
      ((data >>> 8) &&& 0xff).toUInt8, ((data >>> 0) &&& 0xff).toUInt8] =
      octets 4 data.toNat := by
  have hmask (x : Nat) : x &&& 255 = x % 256 := Nat.and_two_pow_sub_one_eq_mod x 8
  simp only [octets, List.nil_append, List.cons_append, List.cons.injEq, and_true]
  refine ⟨?_, ?_, ?_, ?_⟩
  all_goals
    apply UInt8.toNat_inj.mp
    simp [hmask, Nat.shiftRight_eq_div_pow, Nat.div_div_eq_div_mul]

theorem writeHtonU16_confined_iff (hf : b.Fits (h.data b.data)) (hend : b.dataEnd < 2 ^ 32)
    (hc : c < 2 ^ 32) {data : UInt16} :
    WriteConfined h b c (octets 2 data.toNat) (b.Writable c 2)
      (writeHtonU16 h (b.iteratorAt c) data) ↔ ¬b.Wraps c 2 := by
  rw [← checkNoZero_add32_iff hf hend hc (by decide), writeHtonU16, octets_two]
  exact put_confined_iff hf hend (length_octets 2 _) (target_of_end hf hend)

theorem writeHtonU32_confined_iff (hf : b.Fits (h.data b.data)) (hend : b.dataEnd < 2 ^ 32)
    (hc : c < 2 ^ 32) {data : UInt32} :
    WriteConfined h b c (octets 4 data.toNat) (b.Writable c 4)
      (writeHtonU32 h (b.iteratorAt c) data) ↔ ¬b.Wraps c 4 := by
  rw [← checkNoZero_add32_iff hf hend hc (by decide), writeHtonU32, octets_four]
  exact put_confined_iff hf hend (length_octets 4 _) (target_of_end hf hend)

end Wrapped

end Ns3.Network
