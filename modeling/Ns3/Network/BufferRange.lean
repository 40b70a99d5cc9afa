import Ns3.Network.BufferReads
import Ns3.Lib.Outcome

/-!
# Every access of a buffer iterator

`Write (Iterator, Iterator)` copies a range in up to three pieces. Together they go to the offset
`m_current` of the block, which is the place of the position before a zero area only. With it,
`access_confined_iff` says for each access at which positions it is confined.
-/

namespace Ns3.Network

open Lib

namespace Wrapped

variable {h h' : Heap} {b o : Buffer} {d : BufferData} {c n : Nat} {bs : List UInt8}

/-! ## Copies of a range -/

theorem store_append {a pos : Nat} {xs ys : List UInt8} :
    (h.store a pos xs >>= fun h => h.store a (pos + xs.length) ys) = h.store a pos (xs ++ ys) := by
  unfold Heap.store
  by_cases hx : xs = [] ∨ pos + xs.length ≤ (h.data a).size
  · rw [if_pos hx, ok_bind, copyTo_copyTo, copyTo_size]
    by_cases hy : ys = []
    · subst hy
      rw [List.append_nil, if_pos (Or.inl rfl), if_pos hx]
    · by_cases hle : pos + xs.length + ys.length ≤ (h.data a).size
      · rw [if_pos (Or.inr hle), if_pos (Or.inr (by rw [List.length_append]; omega))]
      · rw [if_neg (not_or.mpr ⟨hy, hle⟩), if_neg]
        rw [List.length_append, List.append_eq_nil_iff]
        exact not_or.mpr ⟨fun hnil => hy hnil.2, by omega⟩
  · obtain ⟨hne, hlt⟩ := not_or.mp hx
    rw [if_neg hx, if_neg]
    · rfl
    · rw [List.length_append, List.append_eq_nil_iff]
      exact not_or.mpr ⟨fun hnil => hne hnil.1, by omega⟩

/-- What follows a store may read another block as it was before. -/
theorem store_bind_congr {β : Type} {a x pos : Nat} {f g : Heap → Except BufferFault β}
    (hx : x ≠ a) (hfg : ∀ h', h'.data x = h.data x → f h' = g h') :
    h.store a pos bs >>= f = h.store a pos bs >>= g := by
  unfold Heap.store
  split
  · rw [ok_bind, ok_bind]
    exact hfg _ (copyTo_data_ne hx)
  · rfl

/-- The lengths of the three copies that make the range of `n` bytes from `s` on. -/
structure Pieces (o : Buffer) (s n t1 t2 : Nat) : Prop where
  front : t1 = if s ≤ o.zeroAreaStart then min n (o.zeroAreaStart - s) else 0
  zeroes : t2 = if s + t1 ≤ o.zeroAreaEnd then min (n - t1) (o.zeroAreaEnd - (s + t1)) else 0

theorem Pieces.le {s t1 t2 : Nat} (hp : Pieces o s n t1 t2) : t1 + t2 ≤ n := by
  obtain ⟨h1, h2⟩ := hp
  split at h1 <;> split at h2 <;> omega

/-- Bytes are left for the third copy when the first two are through the zero area. -/
theorem Pieces.zeroAreaEnd_le (hf : o.Fits d) {s t1 t2 : Nat} (hp : Pieces o s n t1 t2)
    (hlt : t1 + t2 < n) : o.zeroAreaEnd ≤ s + t1 + t2 := by
  have hzero := hf.zero_le
  obtain ⟨h1, h2⟩ := hp
  split at h1 <;> split at h2 <;> omega

theorem Pieces.window_eq (hf : o.Fits d) {m : Nat → UInt8} {s t1 t2 : Nat}
    (hp : Pieces o s n t1 t2) :
    window (o.byteAt m) s n = window m s t1 ++ (List.replicate t2 0 ++
      window m (s + t1 + t2 - (o.zeroAreaEnd - o.zeroAreaStart)) (n - t1 - t2)) := by
  have hzero := hf.zero_le
  have hle := hp.le
  have hend := hp.zeroAreaEnd_le hf
  obtain ⟨h1, h2⟩ := hp
  have hn : n = t1 + (t2 + (n - t1 - t2)) := by omega
  conv_lhs => rw [hn, window_add, window_add]
  congr 1
  · apply window_congr
    intro i hi
    have hlt : s + i < o.zeroAreaStart := by split at h1 <;> omega
    simp [Buffer.byteAt, hlt]
  · congr 1
    · apply window_const
      intro i hi
      have hge : ¬ s + t1 + i < o.zeroAreaStart := by split at h1 <;> split at h2 <;> omega
      have hlt : s + t1 + i < o.zeroAreaEnd := by split at h2 <;> omega
      simp [Buffer.byteAt, hge, hlt]
    · apply window_congr
      intro i hi
      have hbehind := hend (by omega)
      have hge : ¬ s + t1 + t2 + i < o.zeroAreaEnd := by omega
      have hge' : ¬ s + t1 + t2 + i < o.zeroAreaStart := by omega
      simp only [Buffer.byteAt, hge, hge', if_false]
      congr 1
      omega

/-- The three copies of a range that lies in its data are one, to the offset `m_current`. -/
theorem copyRange_eq (hf : o.Fits d) (hend : o.dataEnd < 2 ^ 32) (hne : b.data ≠ o.data) {s : Nat}
    (hw : o.Within s n) (hlt : c + n < 2 ^ 32) :
    copyRange h (b.iteratorAt c) (o.iteratorAt s) n =
      put true h (b.iteratorAt c) c (window (o.byteAt (h.data o.data).bytes) s n) := by
  have hzero := hf.zero_le
  have hle := hf.le_end
  have hrange := hw.2
  unfold copyRange
  dsimp only
  generalize h1 : (if (o.iteratorAt s).current ≤ (o.iteratorAt s).zeroStart then
    min n ((o.iteratorAt s).zeroStart - (o.iteratorAt s).current) else 0) = t1
  have ht1 : t1 ≤ n := by rw [← h1]; split <;> omega
  rw [advance_iteratorAt (b := b) (by omega), advance_iteratorAt (b := o) (by omega)]
  generalize h2 : (if (o.iteratorAt (s + t1)).current ≤ (o.iteratorAt (s + t1)).zeroEnd then
    min (n - t1) ((o.iteratorAt (s + t1)).zeroEnd - (o.iteratorAt (s + t1)).current) else 0) = t2
  have hp : Pieces o s n t1 t2 := ⟨h1.symm, h2.symm⟩
  have ht2 := hp.le
  have hsub : sub32 (o.iteratorAt (s + t1 + t2)).dataEnd (o.iteratorAt (s + t1 + t2)).current =
      o.dataEnd - (s + t1 + t2) := by
    apply sub32_eq
    · show s + t1 + t2 ≤ o.dataEnd
      omega
    · exact hend
  have hlast : c + t1 + t2 + (n - t1 - t2) = c + n := by omega
  rw [advance_iteratorAt (b := b) (by omega), advance_iteratorAt (b := o) (by omega), hsub,
    Nat.min_eq_left (by omega), advance_iteratorAt (b := b) (by omega), hlast]
  -- the third copy starts behind the zero area, if there is one
  have hback (m : Nat → UInt8) : window m (behind (o.iteratorAt (s + t1 + t2))) (n - t1 - t2) =
      window m (s + t1 + t2 - (o.zeroAreaEnd - o.zeroAreaStart)) (n - t1 - t2) := by
    by_cases hlt : t1 + t2 < n
    · have hbehind := hp.zeroAreaEnd_le hf hlt
      rw [behind_eq hzero hbehind (by show s + t1 + t2 < _; omega)]
      rfl
    · have hnil : n - t1 - t2 = 0 := by omega
      rw [hnil, window_zero, window_zero]
  let front := window (h.data o.data).bytes s t1
  let zeroes := List.replicate t2 (0 : UInt8)
  let back := window (h.data o.data).bytes
    (s + t1 + t2 - (o.zeroAreaEnd - o.zeroAreaStart)) (n - t1 - t2)
  have hfront : front.length = t1 := length_window
  have hzeroes : zeroes.length = t2 := List.length_replicate
  have hpieces : window (o.byteAt (h.data o.data).bytes) s n = front ++ (zeroes ++ back) :=
    hp.window_eq hf
  have hlen : (front ++ (zeroes ++ back)).length = n := by
    rw [← hpieces, length_window]
  calc
    _ = h.store b.data c front >>= fun h1 => h1.store b.data (c + t1) zeroes >>= fun h2 =>
          h2.store b.data (c + t1 + t2) back >>= fun h3 => pure (h3, b.iteratorAt (c + n)) := by
        apply store_bind_congr (x := o.data) (Ne.symm hne)
        intro h1 hh1
        apply store_bind_congr (x := o.data) (Ne.symm hne)
        intro h2 hh2
        show (h2.store b.data (c + t1 + t2) (window (h2.data o.data).bytes _ _) >>= _) = _
        rw [hh2, hh1, hback]
    _ = (h.store b.data c front >>= fun h1 => h1.store b.data (c + front.length) (zeroes ++ back))
          >>= fun h3 => pure (h3, b.iteratorAt (c + n)) := by
        rw [bind_assoc, hfront]
        congr 1
        funext h1
        rw [← store_append, bind_assoc, hzeroes]
    _ = put true h (b.iteratorAt c) c (front ++ (zeroes ++ back)) := by
        rw [store_append, put, hlen, advance_iteratorAt hlt]
        rfl
    _ = _ := by rw [hpieces]

theorem store_bind_ne {β : Type} {a pos : Nat} {f : Heap → Except BufferFault β}
    (hf : ∀ h', f h' ≠ .error .writeAssert) : h.store a pos bs >>= f ≠ .error .writeAssert := by
  unfold Heap.store
  split
  · exact hf _
  · intro heq
    cases heq

theorem copyRange_ne {it start : Iterator} :
    copyRange h it start n ≠ .error .writeAssert := by
  unfold copyRange
  apply store_bind_ne
  intro h1
  apply store_bind_ne
  intro h2
  apply store_bind_ne
  intro h3 heq
  cases heq

theorem writeRange_eq {it : Iterator} (hne : it.data ≠ o.data) {s e : Nat} (hle : s ≤ e) :
    writeRange h it (o.iteratorAt s) (o.iteratorAt e) =
      if it.checkNoZero it.current (add32 it.current (e - s)) then
        copyRange h it (o.iteratorAt s) (e - s)
      else .error .writeAssert := by
  have hguard : ¬((o.iteratorAt s).data ≠ (o.iteratorAt e).data ∨
      (o.iteratorAt e).current < (o.iteratorAt s).current ∨
      (o.iteratorAt s).zeroStart ≠ (o.iteratorAt e).zeroStart ∨
      (o.iteratorAt s).zeroEnd ≠ (o.iteratorAt e).zeroEnd ∨ it.data = (o.iteratorAt s).data) := by
    simp only [Buffer.iteratorAt, Buffer.begin, ne_eq, not_true_eq_false, false_or, not_or]
    exact ⟨by omega, hne⟩
  unfold writeRange
  rw [if_neg hguard]
  show (if !it.checkNoZero it.current (add32 it.current (e - s)) then _ else _) = _
  cases it.checkNoZero it.current (add32 it.current (e - s)) with
  | false => rfl
  | true => rfl

/-- The assert of the copy is that of any write of as many bytes. -/
theorem writeRange_ne_iff (h : Heap) (it : Iterator) (hne : it.data ≠ o.data) {s e : Nat}
    (hle : s ≤ e) :
    writeRange h it (o.iteratorAt s) (o.iteratorAt e) ≠ .error .writeAssert ↔
      it.checkNoZero it.current (add32 it.current (e - s)) = true := by
  rw [writeRange_eq hne hle]
  split
  · rename_i hok
    exact ⟨fun _ => hok, fun _ => copyRange_ne⟩
  · rename_i hok
    exact ⟨fun hne => absurd rfl hne, fun h => absurd h hok⟩

/-- Before the zero area, the target of a copy is the place of its position. -/
theorem writeRange_confined (hf : b.Fits (h.data b.data)) (hend : b.dataEnd < 2 ^ 32)
    (hc : c < 2 ^ 32) (hfo : o.Fits (h.data o.data)) (hendo : o.dataEnd < 2 ^ 32)
    (hne : b.data ≠ o.data) {s e : Nat} (hle : s ≤ e) (he : e < 2 ^ 32)
    (hwrap : ¬b.Wraps c (e - s))
    (hsource : b.Writable c (e - s) → o.Within s (e - s) ∧
      (c + (e - s) ≤ b.zeroAreaStart ∨ b.zeroAreaStart = b.zeroAreaEnd ∨ s = e)) :
    Access.Confined h b c (.writeRange o s e) := by
  have hcheck := (checkNoZero_add32_iff hf hend hc (by omega)).mpr hwrap
  show WriteConfined h b c _ (_ ∧ _) (writeRange h (b.iteratorAt c) _ _)
  by_cases hw : b.Writable c (e - s)
  · obtain ⟨hwithin, htarget⟩ := hsource hw
    have hr := Buffer.writable_iff.mp hw
    have hzero := hf.zero_le
    have hpos : b.Writable c (e - s) → 0 < e - s → c = b.offset c := by
      intro _ hlt
      unfold Buffer.offset
      split <;> omega
    have hok : (b.iteratorAt c).checkNoZero (b.iteratorAt c).current
        (add32 (b.iteratorAt c).current (e - s)) = true := hcheck.mpr hw
    rw [writeRange_eq hne hle, if_pos hok, copyRange_eq hfo hendo hne hwithin (by omega),
      and_iff_left hwithin, put_confined_iff hf hend length_window hpos]
    exact ⟨fun _ => hw, fun _ => rfl⟩
  · have hpass := writeRange_ne_iff h (b.iteratorAt c) hne hle
    refine ⟨⟨fun hne => absurd (hcheck.mp (hpass.mp hne)) hw, fun hallowed => ?_⟩, fun hne => ?_⟩
    · exact absurd hallowed.1 hw
    · exact absurd (hcheck.mp (hpass.mp hne)) hw

/-- Behind a zero area, the first byte of the range does not reach its place. -/
theorem writeRange_misplaced (hend : b.dataEnd < 2 ^ 32) (hfo : o.Fits (h.data o.data))
    (hendo : o.dataEnd < 2 ^ 32)
    (hne : b.data ≠ o.data) {s e : Nat} (hlt : s < e) (hw : b.Writable c (e - s))
    (hwithin : o.Within s (e - s)) (hbehind : b.zeroAreaEnd ≤ c)
    (hzero : b.zeroAreaStart < b.zeroAreaEnd)
    (hbytes : (h.data b.data).bytes (b.offset c) ≠ o.byteAt (h.data o.data).bytes s) :
    ¬Access.Confined h b c (.writeRange o s e) := by
  intro hconf
  have hr := Buffer.writable_iff.mp hw
  obtain ⟨h', hresult, hwritten⟩ := hconf.2 (hconf.1.mpr ⟨hw, hwithin⟩)
  rw [writeRange_eq hne hlt.le] at hresult
  split at hresult
  · rw [copyRange_eq hfo hendo hne hwithin (by omega)] at hresult
    obtain ⟨h1, hstore, hpure⟩ := bind_eq_ok.mp hresult
    have hoff : b.offset c < c := by
      unfold Buffer.offset
      split <;> omega
    have hsame : (h'.data b.data).bytes (b.offset c) = (h.data b.data).bytes (b.offset c) := by
      have heq : h1 = h' := congrArg Prod.fst (pure_eq_ok.mp hpure)
      subst heq
      unfold Heap.store at hstore
      split at hstore
      · cases hstore
        simp only [Heap.copyTo]
        show ((h.setData b.data _).data b.data).bytes _ = _
        rw [Heap.setData_data_self]
        exact poke_of_lt hoff
      · cases hstore
    have hinside := hwritten.inside 0 (by rw [length_window]; omega)
    rw [getElem_window, Nat.add_zero, Nat.add_zero, Buffer.byteAt_eq _ (by omega), hsame] at hinside
    exact hbytes hinside
  · cases hresult

end Wrapped

/-! ## Every access -/

variable {h : Heap} {b o : Buffer} {c : Nat}

/-- The heap with other bytes in its blocks. -/
def Heap.withMemory (h : Heap) (m : Nat → Nat → UInt8) : Heap :=
  { h with data := fun a => { h.data a with bytes := m a } }

theorem Buffer.Fits.withMemory (hf : b.Fits (h.data b.data)) (m : Nat → Nat → UInt8) :
    b.Fits ((h.withMemory m).data b.data) :=
  ⟨hf.start_le, hf.zero_le, hf.le_end, hf.dirtyStart, hf.dirtyEnd, hf.internalEnd, hf.start_size,
    hf.zero_size⟩

open Wrapped

theorem writeRange_confined_iff (hf : b.Fits (h.data b.data)) (hend : b.dataEnd < 2 ^ 32)
    (hc : c < 2 ^ 32) {s e : Nat} (hproper : (Access.writeRange o s e).Proper h b) :
    (∀ m, (Access.writeRange o s e).Confined (h.withMemory m) b c) ↔
      (Access.writeRange o s e).Safe b c := by
  obtain ⟨⟨hfo, hendo⟩, hne, hle, he⟩ := hproper
  constructor
  · intro hconf
    have hpass := writeRange_ne_iff (h.withMemory fun _ _ => 0) (b.iteratorAt c) hne hle
    have hverdict := hpass.symm.trans (hconf fun _ _ => 0).1
    have hcheck := checkNoZero_add32_iff hf hend hc (n := e - s) (by omega)
    have hwrap : ¬b.Wraps c (e - s) := by
      intro hwraps
      have hnot : ¬b.Writable c (e - s) := by
        intro hw
        have := hw.1.2
        have := hwraps.1
        omega
      refine hcheck.mp ⟨fun hok => ?_, fun hw => absurd hw hnot⟩ hwraps
      exact (hverdict.mp hok).1
    refine ⟨hwrap, fun hw => ?_⟩
    have hwithin := (hverdict.mp ((hcheck.mpr hwrap).mpr hw)).2
    refine ⟨hwithin, ?_⟩
    by_contra htarget
    have hr := Buffer.writable_iff.mp hw
    have hzero := hf.zero_le
    -- the source holds zeroes and the target holds ones
    let m : Nat → Nat → UInt8 := fun a _ => if a = o.data then 0 else 1
    refine writeRange_misplaced hend (hfo.withMemory m) hendo hne (s := s)
      (e := e) (by omega) hw hwithin (by omega) (by omega) ?_ (hconf m)
    have hsource : o.byteAt ((h.withMemory m).data o.data).bytes s = 0 := by
      simp [Buffer.byteAt, Heap.withMemory, m]
    have htarget : ((h.withMemory m).data b.data).bytes (b.offset c) = 1 := if_neg hne
    rw [hsource, htarget]
    decide
  · rintro ⟨hwrap, hsource⟩ m
    exact writeRange_confined (hf.withMemory m) hend hc (hfo.withMemory m) hendo hne hle he hwrap
      hsource

/-- Whatever the blocks hold, an access is confined at the safe positions and at no others. -/
theorem access_confined_iff (h : Heap) (b : Buffer) (hf : b.Fits (h.data b.data))
    (hend : b.dataEnd < 2 ^ 32) (c : Nat) (hc : c < 2 ^ 32) (access : Access)
    (hproper : access.Proper h b) :
    (∀ m, access.Confined (h.withMemory m) b c) ↔ access.Safe b c := by
  have hall {p : Access → Prop} (hiff : ∀ m, access.Confined (h.withMemory m) b c ↔ p access) :
      (∀ m, access.Confined (h.withMemory m) b c) ↔ p access :=
    ⟨fun hconf => (hiff fun _ _ => 0).mp (hconf _), fun hp m => (hiff m).mpr hp⟩
  have hfits := hf.withMemory
  cases access with
  | writeU8 data => exact hall fun m => writeU8_confined_iff (hfits m) hend hc
  | writeU8s data len => exact hall fun m => writeU8s_confined_iff (hfits m) hend hc hproper
  | writeHtonU16 data => exact hall fun m => writeHtonU16_confined_iff (hfits m) hend hc
  | writeHtonU32 data => exact hall fun m => writeHtonU32_confined_iff (hfits m) hend hc
  | write bs => exact hall fun m => write_confined_iff (hfits m) hend hc
  | writeRange o s e => exact writeRange_confined_iff hf hend hc hproper
  | peekU8 => exact hall fun m => iff_of_true (peekU8_confined (hfits m) hend) trivial
  | readU8 => exact hall fun m => iff_of_true (readU8_confined (hfits m) hend) trivial
  | readNtohU16 => exact hall fun m => readNtohU16_confined_iff (hfits m) hend
  | readNtohU32 => exact hall fun m => readNtohU32_confined_iff (hfits m) hend

/-- Two blocks of 16 bytes, one of ones and one of zeroes. -/
def twoBlocks : Heap where
  data a :=
    { count := 1
      size := 16
      dirtyStart := 0
      dirtyEnd := 16
      bytes := fun _ => if a = 0 then 1 else 0 }
  next := 2

/-- A buffer with a zero area of four bytes. -/
def withZeroArea (a : Nat) : Buffer where
  data := a
  maxZeroAreaStart := 4
  zeroAreaStart := 4
  zeroAreaEnd := 8
  start := 2
  dataEnd := 10

theorem withZeroArea_fits (a : Nat) :
    (withZeroArea a).Fits (twoBlocks.data (withZeroArea a).data) := by
  constructor <;> simp [twoBlocks, withZeroArea]

theorem access_confined_iff_front :
    (Access.writeRange (withZeroArea 1) 7 9).Safe (withZeroArea 0) 2 ∧ ∀ m,
      (Access.writeRange (withZeroArea 1) 7 9).Confined (twoBlocks.withMemory m)
        (withZeroArea 0) 2 := by
  have hsafe : (Access.writeRange (withZeroArea 1) 7 9).Safe (withZeroArea 0) 2 := by
    refine ⟨fun hwrap => absurd hwrap.1 (by decide), fun _ => ?_⟩
    exact ⟨(by decide : (withZeroArea 1).Within 7 2), Or.inl (by decide)⟩
  exact ⟨hsafe, (access_confined_iff twoBlocks (withZeroArea 0) (withZeroArea_fits 0) (by decide) 2
    (by decide) (.writeRange (withZeroArea 1) 7 9)
    ⟨⟨withZeroArea_fits 1, by decide⟩, by decide, by decide, by decide⟩).mpr hsafe⟩

/-- A byte is written behind the data, a range into the zero area, a copy away from its range, and
a number is read behind the data. -/
theorem access_not_confined : (withZeroArea 0).Fits (twoBlocks.data 0) ∧
    ¬(Access.writeU8 5).Confined twoBlocks (withZeroArea 0) 10 ∧
    ¬(Access.write [1, 2, 3]).Confined twoBlocks (withZeroArea 0) 3 ∧
    ¬(Access.writeRange (withZeroArea 1) 2 4).Confined twoBlocks (withZeroArea 0) 8 ∧
    ¬Access.readNtohU16.Confined twoBlocks (withZeroArea 0) 9 := by
  have hf := withZeroArea_fits 0
  have hend : (withZeroArea 0).dataEnd < 2 ^ 32 := by decide
  refine ⟨hf, fun hconf => ?_, fun hconf => ?_, ?_, fun hconf => ?_⟩
  · exact (writeU8_confined_iff hf hend (by decide)).mp hconf rfl
  · apply (write_confined_iff hf hend (by decide)).mp hconf
    exact ⟨⟨by decide, by decide, Or.inl (by decide)⟩, Or.inr (by decide)⟩
  · exact writeRange_misplaced hend (withZeroArea_fits 1) (by decide) (by decide) (by decide)
      (by decide) (by decide) (by decide) (by decide) (by decide)
  · exact absurd ((readNtohU16_confined_iff hf hend).mp hconf (Or.inr (by decide))) (by decide)

end Ns3.Network
