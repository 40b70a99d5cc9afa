import Ns3.Network.BufferGrow

/-!
# The operations of a buffer

Each operation of `Buffer`, as a whole, does to the bytes what it says and leaves the other live
buffers alone. `AddAtEnd (Buffer const &)` does so under `Appendable`, which leaves out the two
ways in which it goes wrong: trailing bytes behind the zero area of the fast path, and a block that
source and target still share when the bytes are copied.
-/

namespace Ns3.Network

open Lib Buffer

variable {h h' : Heap} {b b' c o : Buffer} {L : List Buffer} {bs : List UInt8} {n : Nat}

/-! ## Iterators -/

theorem Iterator.checkNoZero_iff {it : Iterator} {s e : Nat} : it.checkNoZero s e = true ↔
    it.dataStart ≤ s ∧ e ≤ it.dataEnd ∧
      ¬(it.zeroStart < e ∧ s < it.zeroEnd ∧ it.zeroEnd ≠ it.zeroStart ∧ s ≠ e) := by
  simp only [Iterator.checkNoZero, Bool.not_eq_true', Bool.or_eq_false_iff, Bool.and_eq_false_iff,
    decide_eq_false_iff_not, bne_eq_false_iff_eq]
  omega

theorem Iterator.write_ok {it : Iterator} {pos : Nat}
    (hcheck : it.checkNoZero it.current bs.length = true)
    (hpos : pos = if it.current ≤ it.zeroStart then it.current
      else it.current - (it.zeroEnd - it.zeroStart))
    (hfit : pos + bs.length ≤ (h.data it.data).size) :
    it.write h bs = .ok (h.copyTo it.data pos bs, it.next bs.length) := by
  have hstore := h.store_eq it.data pos bs hfit
  simp only [Iterator.write, hcheck, ← hpos, hstore]
  rfl

theorem Iterator.writeU8_ok {it : Iterator} {pos : Nat} {data : UInt8}
    (hcheck : it.checkNoZero it.current (it.current + n) = true)
    (hpos : pos = if it.current ≤ it.zeroStart then it.current
      else it.current - (it.zeroEnd - it.zeroStart))
    (hfit : pos + n ≤ (h.data it.data).size) :
    it.writeU8 h data n = .ok (h.copyTo it.data pos (List.replicate n data), it.next n) := by
  have hstore := h.store_eq it.data pos (List.replicate n data) (by simpa using hfit)
  simp only [Iterator.writeU8, hcheck, ← hpos, hstore]
  rfl

theorem GrownAtStart.write_updated (hg : GrownAtStart h b n L h' b')
    (hb : b.Fits (h.data b.data)) (hlen : bs.length = n) :
    ∃ h1 it, b'.begin.write h' bs = .ok (h1, it) ∧ Updated h L h1 b' (bs ++ b.bytes h) := by
  subst hlen
  have hfits := hg.inv.head_fits
  have h1 := hfits.start_le
  have h2 := hfits.zero_le
  have h3 := hfits.le_end
  have hfront := hg.front
  have hsize := hfits.zero_size
  refine ⟨_, _, Iterator.write_ok ?_ ?_ ?_, hg.written bs hb⟩
  · apply Iterator.checkNoZero_iff.mpr
    dsimp only [Buffer.begin]
    omega
  · exact (if_pos h1).symm
  · show b'.start + bs.length ≤ _
    exact le_trans (by omega) hsize

theorem GrownAtStart.writeU8_updated (hg : GrownAtStart h b n L h' b')
    (hb : b.Fits (h.data b.data)) (hflat : b'.zeroAreaEnd = b'.zeroAreaStart) (data : UInt8) :
    ∃ h1 it, b'.begin.writeU8 h' data n = .ok (h1, it) ∧
      Updated h L h1 b' (List.replicate n data ++ b.bytes h) := by
  have hfits := hg.inv.head_fits
  have h1 := hfits.start_le
  have h3 := hfits.le_end
  have hfront := hg.front
  have hsize := hfits.zero_size
  have hlen : (List.replicate n data).length = n := List.length_replicate
  have hwritten := GrownAtStart.written _ (hlen.symm ▸ hg) hb
  refine ⟨_, _, Iterator.writeU8_ok ?_ ?_ ?_, hwritten⟩
  · apply Iterator.checkNoZero_iff.mpr
    dsimp only [Buffer.begin]
    omega
  · exact (if_pos h1).symm
  · show b'.start + n ≤ _
    exact le_trans (by omega) hsize

/-- The iterator before the `n` new cells at the end, and where it writes. -/
theorem GrownAtEnd.last (hg : GrownAtEnd h b n L h' b') :
    b'.zeroAreaEnd ≤ b'.dataEnd - n ∧ n ≤ b'.getInternalEnd ∧ n ≤ b'.dataEnd ∧
      b'.getInternalEnd ≤ (h'.data b'.data).size ∧
      b'.getInternalEnd - n = b'.dataEnd - n - (b'.zeroAreaEnd - b'.zeroAreaStart) := by
  have hfits := hg.inv.head_fits
  have h2 := hfits.zero_le
  have hback := hg.back
  have hint := hfits.internalEnd
  unfold getInternalEnd
  omega

theorem GrownAtEnd.write_updated (hg : GrownAtEnd h b n L h' b')
    (hb : b.Fits (h.data b.data)) (hlen : bs.length = n) :
    ∃ h1 it, (b'.finish.prev n).write h' bs = .ok (h1, it) ∧
      Updated h L h1 b' (b.bytes h ++ bs) := by
  subst hlen
  have hfits := hg.inv.head_fits
  have h1 := hfits.start_le
  have h2 := hfits.zero_le
  obtain ⟨hle, hn, hend, hsize, hpos⟩ := hg.last
  refine ⟨_, _, Iterator.write_ok ?_ ?_ ?_, hg.written bs hb⟩
  · apply Iterator.checkNoZero_iff.mpr
    dsimp only [Buffer.finish, Buffer.begin, Iterator.prev]
    omega
  · show _ = if b'.dataEnd - bs.length ≤ b'.zeroAreaStart then b'.dataEnd - bs.length
      else b'.dataEnd - bs.length - (b'.zeroAreaEnd - b'.zeroAreaStart)
    split
    · omega
    · exact hpos
  · show b'.getInternalEnd - bs.length + bs.length ≤ (h'.data b'.data).size
    omega

@[simp] theorem copyTo_nil {a pos : Nat} : h.copyTo a pos [] = h := by
  simp [Heap.copyTo, Heap.setData]

theorem copyTo_copyTo {a pos : Nat} {xs ys : List UInt8} :
    (h.copyTo a pos xs).copyTo a (pos + xs.length) ys = h.copyTo a pos (xs ++ ys) := by
  simp [Heap.copyTo, Heap.setData, poke_poke]

@[simp] theorem copyTo_data_ne {a pos x : Nat} (hx : x ≠ a) :
    (h.copyTo a pos bs).data x = h.data x := by
  simp [Heap.copyTo, hx]

@[simp] theorem copyTo_size {a pos x : Nat} :
    ((h.copyTo a pos bs).data x).size = (h.data x).size := by
  by_cases hx : x = a
  · subst hx
    simp [Heap.copyTo]
  · simp [hx]

/-- A whole buffer is copied, its zero area included. -/
theorem Iterator.writeRange_ok {it : Iterator} {d : BufferData} (hf : o.Fits d)
    (hne : it.data ≠ o.data)
    (hcheck : it.checkNoZero it.current (it.current + o.getSize) = true)
    (hfit : it.current + o.getSize ≤ (h.data it.data).size) :
    ∃ it', it.writeRange h o.begin o.finish =
      .ok (h.copyTo it.data it.current (o.bytes h), it') := by
  have h1 := hf.start_le
  have h2 := hf.zero_le
  have h3 := hf.le_end
  have hsize : o.getSize = o.dataEnd - o.start := rfl
  have hguard : ¬(o.begin.data ≠ o.finish.data ∨ o.finish.current < o.begin.current ∨
      o.begin.zeroStart ≠ o.finish.zeroStart ∨ o.begin.zeroEnd ≠ o.finish.zeroEnd ∨
      it.data = o.begin.data) := by
    simp only [Buffer.finish, Buffer.begin, ne_eq, not_true_eq_false, false_or, not_or]
    exact ⟨by omega, hne⟩
  have e1 : (if o.start ≤ o.zeroAreaStart then min o.getSize (o.zeroAreaStart - o.start) else 0) =
      o.zeroAreaStart - o.start := by
    rw [if_pos h1]
    omega
  have e2 : o.start + (o.zeroAreaStart - o.start) = o.zeroAreaStart := by omega
  have e3 : (if o.zeroAreaStart ≤ o.zeroAreaEnd then
      min (o.getSize - (o.zeroAreaStart - o.start)) (o.zeroAreaEnd - o.zeroAreaStart) else 0) =
      o.zeroAreaEnd - o.zeroAreaStart := by
    rw [if_pos h2]
    omega
  have e4 : o.zeroAreaStart + (o.zeroAreaEnd - o.zeroAreaStart) = o.zeroAreaEnd := by omega
  have e5 : min (o.getSize - (o.zeroAreaStart - o.start) - (o.zeroAreaEnd - o.zeroAreaStart))
      (o.dataEnd - o.zeroAreaEnd) = o.dataEnd - o.zeroAreaEnd := by omega
  have e6 : o.zeroAreaEnd - (o.zeroAreaEnd - o.zeroAreaStart) = o.zeroAreaStart := by omega
  -- the three copies are one
  let front := window (h.data o.data).bytes o.start (o.zeroAreaStart - o.start)
  let zeroes := List.replicate (o.zeroAreaEnd - o.zeroAreaStart) (0 : UInt8)
  let back := window (h.data o.data).bytes o.zeroAreaStart (o.dataEnd - o.zeroAreaEnd)
  have s1 : h.store it.data it.current front = .ok (h.copyTo it.data it.current front) := by
    apply h.store_eq
    simp only [front, length_window]
    omega
  have s2 : (h.copyTo it.data it.current front).store it.data
      (it.current + (o.zeroAreaStart - o.start)) zeroes =
      .ok (h.copyTo it.data it.current (front ++ zeroes)) := by
    rw [Heap.store_eq, ← copyTo_copyTo, length_window]
    simp only [copyTo_size, zeroes, List.length_replicate]
    omega
  have s3 : (h.copyTo it.data it.current (front ++ zeroes)).store it.data
      (it.current + (o.zeroAreaStart - o.start) + (o.zeroAreaEnd - o.zeroAreaStart)) back =
      .ok (h.copyTo it.data it.current (front ++ zeroes ++ back)) := by
    have hpos : it.current + (o.zeroAreaStart - o.start) + (o.zeroAreaEnd - o.zeroAreaStart) =
        it.current + (front ++ zeroes).length := by
      simp [front, zeroes, Nat.add_assoc]
    rw [hpos, Heap.store_eq, copyTo_copyTo]
    simp only [copyTo_size, ← hpos, back, length_window]
    omega
  have hbytes : o.bytes h = front ++ zeroes ++ back := by
    rw [hf.bytes_eq, List.append_assoc]
  unfold Iterator.writeRange
  rw [if_neg hguard, hbytes]
  simp only [bind, Except.bind, pure, Except.pure, Buffer.finish, Buffer.begin, Iterator.next, e1,
    e2, e3, e4, e5, e6, ← hsize, hcheck, Bool.not_true, if_false, Bool.false_eq_true]
  simp only [front, zeroes, back] at s1 s2 s3 ⊢
  simp only [s1, s2, copyTo_data_ne (Ne.symm hne), s3]
  exact ⟨_, rfl⟩

/-! ## Removals -/

/-- A buffer that gives up bytes keeps its place among its siblings. -/
theorem Inv.shrunk (hi : Inv h (b :: L)) (hdata : b'.data = b.data)
    (hfits : b'.Fits (h.data b.data)) (hend : b'.dataEnd ≤ b.dataEnd)
    (hle : b'.getInternalEnd ≤ b.getInternalEnd)
    (hlast : b'.dataEnd = b.dataEnd → b'.getInternalEnd = b.getInternalEnd) :
    Inv h (b' :: L) := by
  have hbfits := hi.head_fits
  constructor
  · show h.Counts (b'.data :: L.map Buffer.data)
    rw [hdata]
    exact hi.counts
  · refine hi.sound.replace hdata (fun c _ _ => ⟨rfl, rfl, rfl, rfl⟩) hfits ?_ ?_ ?_
    · intro c hc hcd
      exact hcd ▸ hi.sound.fits c (List.mem_cons_of_mem _ hc)
    · intro c hc hcd hcend
      refine ⟨hcend, hle.trans ?_⟩
      exact hi.sound.shared c (List.mem_cons_of_mem _ hc) b List.mem_cons_self hcd (hcd ▸ hcend)
    · intro c hc hcd hbend
      have hold := hbfits.dirtyEnd
      have heq : b'.dataEnd = b.dataEnd := by omega
      rw [hlast heq]
      exact hi.sound.shared b List.mem_cons_self c (List.mem_cons_of_mem _ hc) hcd.symm (by omega)

theorem Inv.shrunk_updated (hi : Inv h (b :: L)) (hdata : b'.data = b.data)
    (hfits : b'.Fits (h.data b.data)) (hend : b'.dataEnd ≤ b.dataEnd)
    (hle : b'.getInternalEnd ≤ b.getInternalEnd)
    (hlast : b'.dataEnd = b.dataEnd → b'.getInternalEnd = b.getInternalEnd) {k : Nat}
    (hsize : b'.getSize ≤ b.getSize - k)
    (hbyte : ∀ m i, i < b'.getSize → b'.byteAt m (b'.start + i) = b.byteAt m (b.start + k + i)) :
    Updated h L h b' (((b.bytes h).drop k).take b'.getSize) := by
  refine ⟨hi.shrunk hdata hfits hend hle hlast, ?_, fun _ _ => rfl⟩
  rw [Buffer.bytes, Buffer.bytes, drop_window, take_window, min_eq_left hsize, hdata]
  apply window_congr
  intro i hlt
  exact hbyte _ i hlt

theorem Buffer.removeAtStart_updated (hi : Inv h (b :: L)) (n : Nat) :
    Updated h L h (b.removeAtStart n) ((b.bytes h).drop n) := by
  have hf := hi.head_fits
  have h1 := hf.start_le
  have h2 := hf.zero_le
  have h3 := hf.le_end
  have hdata : (b.removeAtStart n).data = b.data := by
    unfold removeAtStart raiseMaxZeroAreaStart
    dsimp only
    split_ifs <;> rfl
  have hfits : (b.removeAtStart n).Fits (h.data b.data) := by
    have h4 := hf.dirtyStart
    have h5 := hf.dirtyEnd
    have h6 := hf.internalEnd
    have h7 := hf.zero_size
    unfold removeAtStart raiseMaxZeroAreaStart
    dsimp only
    split_ifs <;> constructor <;> dsimp only <;> omega
  have hends : (b.removeAtStart n).dataEnd ≤ b.dataEnd ∧
      (b.removeAtStart n).getInternalEnd = b.getInternalEnd := by
    unfold removeAtStart raiseMaxZeroAreaStart getInternalEnd
    dsimp only
    split_ifs <;> dsimp only <;> omega
  have hsize : (b.removeAtStart n).getSize = b.getSize - n := by
    unfold removeAtStart raiseMaxZeroAreaStart getSize
    dsimp only
    split_ifs <;> dsimp only <;> omega
  have hbyte : ∀ m i, i < (b.removeAtStart n).getSize →
      (b.removeAtStart n).byteAt m ((b.removeAtStart n).start + i) =
        b.byteAt m (b.start + n + i) := by
    intro m i
    unfold removeAtStart raiseMaxZeroAreaStart getSize
    dsimp only
    -- the cases of the operation, then where the offsets lie in the two buffers
    split_ifs <;> dsimp only [byteAt] <;> split_ifs <;> intro hlt <;>
      first | omega | rfl | (congr 1; omega)
  have hall := hi.shrunk_updated hdata hfits hends.1 hends.2.le (fun _ => hends.2) hsize.le hbyte
  rwa [List.take_of_length_le] at hall
  rw [List.length_drop, length_bytes, hsize]

theorem Buffer.removeAtEnd_updated (hi : Inv h (b :: L)) (n : Nat) :
    Updated h L h (b.removeAtEnd n) ((b.bytes h).take (b.getSize - n)) := by
  have hf := hi.head_fits
  have h1 := hf.start_le
  have h2 := hf.zero_le
  have h3 := hf.le_end
  have hdata : (b.removeAtEnd n).data = b.data := by
    unfold removeAtEnd raiseMaxZeroAreaStart
    dsimp only
    split_ifs <;> rfl
  have hfits : (b.removeAtEnd n).Fits (h.data b.data) := by
    have h4 := hf.dirtyStart
    have h5 := hf.dirtyEnd
    have h6 := hf.internalEnd
    have h7 := hf.zero_size
    unfold removeAtEnd raiseMaxZeroAreaStart
    dsimp only
    split_ifs <;> constructor <;> dsimp only <;> omega
  have hends : (b.removeAtEnd n).dataEnd ≤ b.dataEnd ∧
      (b.removeAtEnd n).getInternalEnd ≤ b.getInternalEnd ∧
      ((b.removeAtEnd n).dataEnd = b.dataEnd →
        (b.removeAtEnd n).getInternalEnd = b.getInternalEnd) := by
    unfold removeAtEnd raiseMaxZeroAreaStart getInternalEnd
    dsimp only
    split_ifs <;> dsimp only <;> omega
  have hsize : (b.removeAtEnd n).getSize = b.getSize - n := by
    unfold removeAtEnd raiseMaxZeroAreaStart getSize
    dsimp only
    split_ifs <;> dsimp only <;> omega
  have hbyte : ∀ m i, i < (b.removeAtEnd n).getSize →
      (b.removeAtEnd n).byteAt m ((b.removeAtEnd n).start + i) = b.byteAt m (b.start + 0 + i) := by
    intro m i
    unfold removeAtEnd raiseMaxZeroAreaStart getSize
    dsimp only
    -- the cases of the operation, then where the offsets lie in the two buffers
    split_ifs <;> dsimp only [byteAt] <;> split_ifs <;> intro hlt <;>
      first | omega | rfl
  have hall := hi.shrunk_updated hdata hfits hends.1 hends.2.1 hends.2.2
    (hsize.le.trans (Nat.sub_le_sub_left (Nat.zero_le n) _)) hbyte
  rwa [List.drop_zero, hsize] at hall

/-! ## Copies -/

theorem Updated.trans {b1 : Buffer} {bs1 : List UInt8} {h1 : Heap} (h01 : Updated h L h1 b1 bs1)
    (h12 : Updated h1 L h' b' bs) : Updated h L h' b' bs :=
  ⟨h12.inv, h12.bytes, fun c hc => (h12.frame c hc).trans (h01.frame c hc)⟩

theorem Buffer.addAtStart_spec (hi : Inv h (b :: L)) (n : Nat) :
    ∃ h' b', b.addAtStart h n = (h', b') ∧ GrownAtStart h b n L h' b' :=
  ⟨_, _, rfl, addAtStart_grown hi n⟩

theorem Buffer.addAtEnd_spec (hi : Inv h (b :: L)) (n : Nat) :
    ∃ h' b', b.addAtEnd h n = (h', b') ∧ GrownAtEnd h b n L h' b' :=
  ⟨_, _, rfl, addAtEnd_grown hi n⟩

theorem Buffer.initializeZero_spec (hi : Inv h L) (n : Nat) :
    ∃ h' b', initializeZero h n = (h', b') ∧ Updated h L h' b' (List.replicate n 0) ∧
      b'.data ∉ L.map Buffer.data ∧ b'.zeroAreaStart = b'.start ∧
      b'.zeroAreaEnd = b'.zeroAreaStart + n := by
  have hc := hi.counts.create 0
  unfold initializeZero
  generalize h.create 0 = created at hc ⊢
  obtain ⟨h1, a⟩ := created
  have hne : ∀ c ∈ L, c.data ≠ a := fun c hmem heq =>
    hc.fresh (heq ▸ List.mem_map_of_mem hmem)
  dsimp only at hc ⊢
  have hsame : ∀ s e, ∀ c ∈ L, (h.data c.data).Same ((h1.setDirty a s e).data c.data) := by
    intro s e c hmem
    rw [← hc.other _ (hne c hmem)]
    exact same_setDirty_of_ne (hne c hmem)
  have hframe := fun s e => frame_of_same hi.sound (hsame s e)
  refine ⟨_, _, rfl, ⟨⟨hc.counts.setDirty _ _ _, ?_⟩, ?_, hframe _ _⟩, hc.fresh, rfl, rfl⟩
  · apply (hi.sound.of_same (hsame _ _)).cons_of_fresh hc.fresh
    simp only [Heap.setDirty, Heap.setData_data_self]
    constructor <;> dsimp only <;> omega
  · have hsize : min (h1.data a).size h1.recommendedStart + n -
        min (h1.data a).size h1.recommendedStart = n := by omega
    simp only [Buffer.bytes, Buffer.getSize, hsize]
    apply window_const
    intro i hlt
    have hnot : ¬ min (h1.data a).size h1.recommendedStart + i <
        min (h1.data a).size h1.recommendedStart := by omega
    have hin : min (h1.data a).size h1.recommendedStart + i <
        min (h1.data a).size h1.recommendedStart + n := by omega
    unfold byteAt
    rw [if_neg hnot, if_pos hin]

/-- A buffer with the same bytes has the same pieces. -/
theorem Buffer.Fits.pieces_eq {d : BufferData} (hf : b.Fits d) (heq : b.bytes h' = b.bytes h) :
    window (h'.data b.data).bytes b.start (b.zeroAreaStart - b.start) =
        window (h.data b.data).bytes b.start (b.zeroAreaStart - b.start) ∧
      window (h'.data b.data).bytes b.zeroAreaStart (b.dataEnd - b.zeroAreaEnd) =
        window (h.data b.data).bytes b.zeroAreaStart (b.dataEnd - b.zeroAreaEnd) := by
  rw [hf.bytes_eq, hf.bytes_eq] at heq
  obtain ⟨hfront, hrest⟩ := List.append_inj heq (by simp)
  exact ⟨hfront, (List.append_inj hrest rfl).2⟩

theorem Buffer.createFullCopy_updated (hi : Inv h L) (hb : b ∈ L) :
    ∃ h' tmp, b.createFullCopy h = .ok (h', tmp) ∧ Updated h L h' tmp (b.bytes h) ∧
      tmp.zeroAreaStart = tmp.zeroAreaEnd ∧
      (b.zeroAreaStart ≠ b.zeroAreaEnd → tmp.data ∉ L.map Buffer.data) ∧
      (b.zeroAreaStart = b.zeroAreaEnd → h' = h.retain b.data ∧
        tmp = { b with maxZeroAreaStart := b.zeroAreaStart }) := by
  have hf := hi.sound.fits b hb
  have h1 := hf.start_le
  have h2 := hf.zero_le
  have h3 := hf.le_end
  unfold createFullCopy
  by_cases hzero : b.zeroAreaEnd - b.zeroAreaStart = 0
  · have hnone : b.zeroAreaStart = b.zeroAreaEnd := by omega
    refine ⟨_, _, if_neg (not_not.mpr hzero), copy_updated hi hb, hnone, ?_, fun _ => ⟨rfl, rfl⟩⟩
    exact fun hne => absurd hnone hne
  · rw [if_pos hzero]
    -- an empty buffer
    obtain ⟨h0, t0, e0, u0, a0, s0, z0⟩ := initializeZero_spec hi 0
    -- the zero area, written out
    obtain ⟨h1, t1, e1, g1⟩ := addAtStart_spec u0.inv (b.zeroAreaEnd - b.zeroAreaStart)
    have flat1 : t1.zeroAreaEnd = t1.zeroAreaStart := by
      have := g1.zero
      omega
    obtain ⟨h1', it1, w1, v1⟩ := g1.writeU8_updated u0.inv.head_fits flat1 0
    have u1 := u0.trans v1
    -- the bytes before it
    obtain ⟨h2, t2, e2, g2⟩ := addAtStart_spec u1.inv (b.zeroAreaStart - b.start)
    have hfront : (window (h2.data b.data).bytes b.start (b.zeroAreaStart - b.start)).length =
        b.zeroAreaStart - b.start := length_window
    obtain ⟨h2', it2, w2, v2⟩ := g2.write_updated u1.inv.head_fits hfront
    have u2 := u1.trans v2
    -- the bytes after it
    obtain ⟨h3, t3, e3, g3⟩ := addAtEnd_spec u2.inv (b.dataEnd - b.zeroAreaEnd)
    have hback : (window (h3.data b.data).bytes b.zeroAreaStart
        (b.dataEnd - b.zeroAreaEnd)).length = b.dataEnd - b.zeroAreaEnd := length_window
    obtain ⟨h3', it3, w3, v3⟩ := g3.write_updated u2.inv.head_fits hback
    have u3 := u2.trans v3
    have flat3 : t3.zeroAreaStart = t3.zeroAreaEnd := by
      have := g2.zero
      have := g3.zero
      omega
    have p2 := hf.pieces_eq ((g2.frame b hb).trans (u1.frame b hb))
    have p3 := hf.pieces_eq ((g3.frame b hb).trans (u2.frame b hb))
    have hbytes : window (h2.data b.data).bytes b.start (b.zeroAreaStart - b.start) ++
        (List.replicate (b.zeroAreaEnd - b.zeroAreaStart) 0 ++ t0.bytes h0) ++
        window (h3.data b.data).bytes b.zeroAreaStart (b.dataEnd - b.zeroAreaEnd) = b.bytes h := by
      rw [hf.bytes_eq, p2.1, p3.2, u0.bytes]
      simp
    rw [v2.bytes, v1.bytes, hbytes] at u3
    refine ⟨h3', t3, ?_, u3, flat3, ?_, ?_⟩
    · simp only [bind, Except.bind, e0, e1, w1, e2, w2, e3, w3, pure, Except.pure]
    · exact fun _ => g3.apart (g2.apart (g1.apart a0))
    · intro hne
      omega

/-- The buffer has its bytes in one piece afterwards. When it had them already it keeps its block;
otherwise the block is its own. -/
theorem Buffer.transformIntoRealBuffer_updated (hi : Inv h (b :: L)) :
    ∃ h' b', b.transformIntoRealBuffer h = .ok (h', b') ∧ Updated h L h' b' (b.bytes h) ∧
      b'.zeroAreaStart = b'.zeroAreaEnd ∧
      (b.zeroAreaStart ≠ b.zeroAreaEnd → b'.data ∉ L.map Buffer.data) ∧
      (b.zeroAreaStart = b.zeroAreaEnd → b' = { b with maxZeroAreaStart := b.zeroAreaStart } ∧
        ∀ x, h'.data x = h.data x) := by
  obtain ⟨h1, tmp, hcopy, hup, hflat, hfresh, hkept⟩ := createFullCopy_updated hi List.mem_cons_self
  have hperm : (tmp :: b :: L).Perm (b :: tmp :: L) := List.Perm.swap _ _ _
  have hassign := assign_updated (hup.inv.perm hperm) List.mem_cons_self
  obtain ⟨hinv, hframe⟩ := destroy_inv hassign.inv
  refine ⟨tmp.destroy (assign h1 b tmp).1, tmp, ?_, ⟨hinv, ?_, ?_⟩, hflat, ?_, ?_⟩
  · simp only [transformIntoRealBuffer, hcopy, bind, Except.bind]
    rfl
  · exact (hframe _ List.mem_cons_self).trans (hassign.bytes.trans hup.bytes)
  · intro c hc
    have h1 := hframe c (List.mem_cons_of_mem _ hc)
    have h2 := hassign.frame c (List.mem_cons_of_mem _ hc)
    exact h1.trans (h2.trans (hup.frame c (List.mem_cons_of_mem _ hc)))
  · exact fun hne hmem => hfresh hne (List.mem_cons_of_mem _ hmem)
  · intro heq
    obtain ⟨rfl, rfl⟩ := hkept heq
    refine ⟨rfl, fun x => ?_⟩
    -- the reference of the copy comes and goes
    simp only [destroy, assign, ne_eq, not_true_eq_false, if_false, Heap.release_data]
    by_cases hx : x = b.data
    · subst hx
      simp [Heap.retain]
    · simp [Heap.retain, hx]

theorem Buffer.peekData_updated (hi : Inv h (b :: L)) :
    ∃ h' b', b.peekData h = .ok (h', b', b.bytes h) ∧ Updated h L h' b' (b.bytes h) := by
  obtain ⟨h1, b1, htrans, hup, hflat, -, -⟩ := transformIntoRealBuffer_updated hi
  have hread : window (h1.data b1.data).bytes b1.start b1.getSize = b1.bytes h1 := by
    apply window_congr
    intro i _
    unfold byteAt
    split
    · rfl
    · rw [if_neg (by omega), hflat, Nat.sub_self, Nat.sub_zero]
  refine ⟨h1, b1, ?_, hup⟩
  simp only [peekData, htrans, bind, Except.bind, pure, Except.pure, hread, hup.bytes]

/-- The fragment is the slice. -/
theorem Buffer.createFragment_updated (hi : Inv h L) (hb : b ∈ L) {start length : Nat}
    (hslice : start + length ≤ b.getSize) (hsize : b.getSize < 2 ^ 32) :
    ∃ h' b', b.createFragment h start length = (h', b') ∧
      Updated h L h' b' (((b.bytes h).drop start).take length) := by
  have hcopy := copy_updated hi hb
  have hdrop := hcopy.trans (removeAtStart_updated hcopy.inv start)
  have htake := hdrop.trans (removeAtEnd_updated hdrop.inv (b.getSize - (start + length)))
  have h32 : (b.getSize + 2 ^ 32 - (start + length) % 2 ^ 32) % 2 ^ 32 =
      b.getSize - (start + length) := by
    rw [Nat.mod_eq_of_lt (by omega : start + length < 2 ^ 32)]
    omega
  refine ⟨_, _, rfl, ?_⟩
  rw [h32]
  have hlen : (((copy h b).2.removeAtStart start).getSize - (b.getSize - (start + length))) =
      length := by
    have hcut := congrArg List.length hdrop.bytes
    have hcopied : (copy h b).2.getSize = b.getSize := rfl
    rw [length_bytes, List.length_drop, length_bytes] at hcut
    omega
  rw [hlen, hdrop.bytes, hcopy.bytes] at htake
  exact htake

/-! ## Appending a buffer -/

/-- When `AddAtEnd (Buffer const &)` may be called. On the fast path there are no bytes behind the
zero area of `o`; on the other path the bytes of `o` are not copied within one block. -/
def Appendable (h : Heap) (b o : Buffer) : Prop :=
  if adjacentZeroAreas h b o then o.dataEnd = o.zeroAreaEnd
  else ¬(b.data = o.data ∧ b.zeroAreaStart = b.zeroAreaEnd ∧
    b.dataEnd = (h.data b.data).dirtyEnd ∧
    b.getInternalEnd + o.getSize ≤ (h.data b.data).size)

instance (h : Heap) (b o : Buffer) : Decidable (Appendable h b o) :=
  inferInstanceAs (Decidable (if adjacentZeroAreas h b o then _ else ¬_))

theorem Buffer.addAtEnd_place (hi : Inv h (b :: L)) (n : Nat) :
    (b.addAtEnd h n).2.data ∉ L.map Buffer.data ∨
      ((b.addAtEnd h n).2.data = b.data ∧ b.getInternalEnd + n ≤ (h.data b.data).size ∧
        ¬((h.data b.data).count > 1 ∧ b.dataEnd < (h.data b.data).dirtyEnd)) := by
  by_cases hroom : b.getInternalEnd + n ≤ (h.data b.data).size ∧
      ¬((h.data b.data).count > 1 ∧ b.dataEnd < (h.data b.data).dirtyEnd)
  · right
    refine ⟨?_, hroom⟩
    simp only [addAtEnd, hroom, not_false_eq_true, and_self, if_true]
    rfl
  · left
    have hm := reallocate_moved hi (b.getInternalSize + n) 0
    simp only [addAtEnd, hroom, if_false]
    exact hm.fresh

theorem Buffer.not_shared_of_appendable (hi : Inv h (b :: L)) (ho : o ∈ L)
    (hflat : b.zeroAreaStart = b.zeroAreaEnd)
    (happ : ¬(b.data = o.data ∧ b.zeroAreaStart = b.zeroAreaEnd ∧
      b.dataEnd = (h.data b.data).dirtyEnd ∧
      b.getInternalEnd + o.getSize ≤ (h.data b.data).size)) :
    (b.addAtEnd h o.getSize).2.data ≠ o.data := by
  intro heq
  rcases addAtEnd_place hi o.getSize with hfresh | ⟨hdata, hroom, hclean⟩
  · exact hfresh (heq ▸ List.mem_map_of_mem ho)
  · have hbo : b.data = o.data := hdata.symm.trans heq
    have hshared : o.data ∈ L.map Buffer.data := List.mem_map_of_mem ho
    have hcount : (h.data b.data).count > 1 := hi.counts.one_lt (hbo ▸ hshared)
    have hle := hi.head_fits.dirtyEnd
    refine happ ⟨hbo, hflat, ?_, hroom⟩
    by_contra hne
    exact hclean ⟨hcount, by omega⟩

/-- The bytes of another block are written to the new cells at the end. -/
theorem GrownAtEnd.writeRange_updated (hg : GrownAtEnd h b o.getSize L h' b')
    (hb : b.Fits (h.data b.data)) (hflat : b'.zeroAreaStart = b'.zeroAreaEnd) (ho : o ∈ L)
    (hne : b'.data ≠ o.data) :
    ∃ h1 it, (b'.finish.prev o.getSize).writeRange h' o.begin o.finish = .ok (h1, it) ∧
      Updated h L h1 b' (b.bytes h ++ o.bytes h) := by
  have hfits := hg.inv.head_fits
  have h1 := hfits.start_le
  have h3 := hfits.le_end
  obtain ⟨hle, hn, hend, hsize, hpos⟩ := hg.last
  have hcurrent : (b'.finish.prev o.getSize).current = b'.getInternalEnd - o.getSize := by
    show b'.dataEnd - o.getSize = _
    omega
  have hofits := hg.inv.sound.fits o (List.mem_cons_of_mem _ ho)
  have hcheck : (b'.finish.prev o.getSize).checkNoZero (b'.finish.prev o.getSize).current
      ((b'.finish.prev o.getSize).current + o.getSize) = true := by
    apply Iterator.checkNoZero_iff.mpr
    dsimp only [Buffer.finish, Buffer.begin, Iterator.prev]
    omega
  have hfit : (b'.finish.prev o.getSize).current + o.getSize ≤
      (h'.data (b'.finish.prev o.getSize).data).size := by
    rw [hcurrent]
    show _ ≤ (h'.data b'.data).size
    omega
  obtain ⟨it, hwrite⟩ := Iterator.writeRange_ok hofits hne hcheck hfit
  have hlen : (o.bytes h').length = o.getSize := length_bytes
  have hup := GrownAtEnd.written _ (hlen.symm ▸ hg) hb
  rw [hlen, ← hcurrent, hg.frame o ho] at hup
  rw [hg.frame o ho] at hwrite
  exact ⟨_, it, hwrite, hup⟩

/-- Nothing is written from the end of a buffer on. -/
theorem Iterator.writeRange_nil {it : Iterator} (hne : it.data ≠ o.data)
    (hcheck : it.checkNoZero it.current it.current = true) :
    ∃ it', it.writeRange h (o.finish.prev 0) o.finish = .ok (h, it') := by
  have hguard : ¬((o.finish.prev 0).data ≠ o.finish.data ∨
      o.finish.current < (o.finish.prev 0).current ∨
      (o.finish.prev 0).zeroStart ≠ o.finish.zeroStart ∨
      (o.finish.prev 0).zeroEnd ≠ o.finish.zeroEnd ∨ it.data = (o.finish.prev 0).data) := by
    simp only [Iterator.prev, Nat.sub_zero, ne_eq, not_true_eq_false, lt_irrefl, false_or]
    exact hne
  have hstore : ∀ a pos, h.store a pos [] = .ok h := by
    intro a pos
    simp [Heap.store]
  unfold Iterator.writeRange
  rw [if_neg hguard]
  simp [bind, Except.bind, pure, Except.pure, Iterator.prev, Iterator.next, hcheck, hstore]

/-- The two zero areas become one. -/
theorem Inv.joinZeroAreas (hi : Inv h (b :: L)) (hone : (h.data b.data).count = 1)
    (hzero : b.dataEnd = b.zeroAreaEnd ∨ b.zeroAreaStart = b.zeroAreaEnd) (n : Nat)
    (hdata : b'.data = b.data) (hstart : b'.start = b.start)
    (hzs : b'.zeroAreaStart = if b.zeroAreaStart = b.zeroAreaEnd then b.dataEnd
      else b.zeroAreaStart)
    (hze : b'.zeroAreaEnd = b.dataEnd + n) (hend : b'.dataEnd = b.dataEnd + n) :
    Updated h L (h.setDirty b.data (h.data b.data).dirtyStart (b.dataEnd + n)) b'
      (b.bytes h ++ List.replicate n 0) := by
  have hf := hi.head_fits
  have h1 := hf.start_le
  have h2 := hf.zero_le
  have h3 := hf.le_end
  have h4 := hf.dirtyStart
  have h6 := hf.internalEnd
  have h7 := hf.start_size
  have h8 := hf.zero_size
  have halone : ∀ c ∈ L, c.data ≠ b.data := fun c hc => hi.alone (by omega) hc
  have hnew : (h.setDirty b.data (h.data b.data).dirtyStart (b.dataEnd + n)).data b.data =
      { h.data b.data with dirtyEnd := b.dataEnd + n } := by
    simp [Heap.setDirty]
  refine ⟨⟨?_, ?_⟩, ?_, fun c _ => bytes_setDirty⟩
  · show Heap.Counts _ (b'.data :: L.map Buffer.data)
    rw [hdata]
    exact hi.counts.setDirty _ _ _
  · refine hi.sound.replace hdata (fun c _ hcd => same_setDirty_of_ne hcd) ?_ ?_ ?_ ?_
    · rw [hnew]
      constructor <;> split at hzs <;> first | omega | (dsimp only; omega)
    · exact fun c hc hcd => absurd hcd (halone c hc)
    · exact fun c hc hcd => absurd hcd (halone c hc)
    · exact fun c hc hcd => absurd hcd (halone c hc)
  · have hsize : b'.getSize = b.getSize + n := by
      unfold getSize
      omega
    rw [bytes_setDirty, Buffer.bytes, hsize, window_add, hdata]
    unfold getSize
    congr 1
    · rw [Buffer.bytes]
      apply window_congr
      intro i hlt
      unfold byteAt
      rw [hstart]
      by_cases hflat : b.zeroAreaStart = b.zeroAreaEnd
      · rw [if_pos hflat] at hzs
        rw [if_pos (by omega), hflat, Nat.sub_self, Nat.sub_zero]
        split
        · rfl
        · rfl
      · rw [if_neg hflat] at hzs
        rw [hzs]
        split
        · rfl
        · rw [if_pos (by omega), if_pos (by omega)]
    · apply window_const
      intro i hlt
      unfold byteAt
      rw [if_neg (by split at hzs <;> omega), if_pos (by omega)]

theorem Buffer.append_updated (hi : Inv h (b :: L)) (ho : o ∈ L) (happ : Appendable h b o) :
    ∃ h' b', b.append h (fun _ => o) = .ok (h', b') ∧
      Updated h L h' b' (b.bytes h ++ o.bytes h) := by
  have hofits := hi.sound.fits o (List.mem_cons_of_mem _ ho)
  unfold Appendable at happ
  unfold Buffer.append
  by_cases hfast : adjacentZeroAreas h b o
  · rw [if_pos hfast] at happ ⊢
    obtain ⟨hone, hzero, hdirty, hfront, hpos⟩ := hfast
    have halone : b.data ∉ L.map Buffer.data := hi.counts.not_mem hone
    have hobytes : o.bytes h = List.replicate (o.zeroAreaEnd - o.zeroAreaStart) 0 := by
      rw [hofits.bytes_eq, hfront, happ]
      simp
    let emptied : Buffer :=
      if b.zeroAreaStart = b.zeroAreaEnd then { b with zeroAreaStart := b.dataEnd } else b
    let joined : Buffer :=
      { emptied with
        zeroAreaEnd := emptied.dataEnd + (o.zeroAreaEnd - o.zeroAreaStart)
        dataEnd := emptied.dataEnd + (o.zeroAreaEnd - o.zeroAreaStart) }
    have hdata : joined.data = b.data := by
      dsimp only [joined, emptied]
      split <;> rfl
    have hend : joined.dataEnd = b.dataEnd + (o.zeroAreaEnd - o.zeroAreaStart) := by
      dsimp only [joined, emptied]
      split <;> rfl
    have hup1 : Updated h L
        (h.setDirty joined.data (h.data joined.data).dirtyStart joined.zeroAreaEnd) joined
        (b.bytes h ++ List.replicate (o.zeroAreaEnd - o.zeroAreaStart) 0) := by
      have hze : joined.zeroAreaEnd = b.dataEnd + (o.zeroAreaEnd - o.zeroAreaStart) := hend
      rw [hdata, hze]
      apply hi.joinZeroAreas hone hzero _ hdata _ _ hze hend
      · dsimp only [joined, emptied]
        split <;> rfl
      · dsimp only [joined, emptied]
        split <;> rfl
    obtain ⟨h2, b2, hadd, hg⟩ := addAtEnd_spec hup1.inv 0
    have hne : b2.data ≠ o.data := by
      intro heq
      exact hg.apart (hdata ▸ halone) (heq ▸ List.mem_map_of_mem ho)
    have hfits2 := hg.inv.head_fits
    have hcheck : (b2.finish.prev 0).checkNoZero (b2.finish.prev 0).current
        (b2.finish.prev 0).current = true := by
      have h1 := hfits2.start_le
      have h2 := hfits2.zero_le
      have h3 := hfits2.le_end
      apply Iterator.checkNoZero_iff.mpr
      dsimp only [Buffer.finish, Buffer.begin, Iterator.prev]
      omega
    obtain ⟨it, hwrite⟩ := Iterator.writeRange_nil (h := h2) hne hcheck
    have hup2 := GrownAtEnd.written [] hg hup1.inv.head_fits
    rw [copyTo_nil, hup1.bytes, List.append_nil, ← hobytes] at hup2
    refine ⟨h2, b2, ?_, hup1.trans hup2⟩
    have hnone : o.dataEnd - o.zeroAreaEnd = 0 := by omega
    let grown := joined.addAtEnd
      (h.setDirty joined.data (h.data joined.data).dirtyStart joined.zeroAreaEnd)
      (o.dataEnd - o.zeroAreaEnd)
    show ((grown.2.finish.prev (o.dataEnd - o.zeroAreaEnd)).writeRange grown.1
      (o.finish.prev (o.dataEnd - o.zeroAreaEnd)) o.finish >>= fun written =>
        pure (written.1, grown.2)) = _
    have hgrown : grown = (h2, b2) := by
      dsimp only [grown]
      rw [hnone, hadd]
    rw [hnone, hgrown]
    simp only [hwrite, bind, Except.bind, pure, Except.pure]
  · rw [if_neg hfast] at happ ⊢
    obtain ⟨h1, b1, htrans, hup1, hflat, hfresh, hkept⟩ := transformIntoRealBuffer_updated hi
    obtain ⟨h2, b2, hadd, hg⟩ := addAtEnd_spec hup1.inv o.getSize
    have hflat2 : b2.zeroAreaStart = b2.zeroAreaEnd := by
      have := hg.zero
      omega
    have hne : b2.data ≠ o.data := by
      by_cases hb : b.zeroAreaStart = b.zeroAreaEnd
      · obtain ⟨rfl, hsame⟩ := hkept hb
        have hb2 := not_shared_of_appendable hup1.inv ho hflat (by rw [hsame]; exact happ)
        rw [hadd] at hb2
        exact hb2
      · intro heq
        exact hg.apart (hfresh hb) (heq ▸ List.mem_map_of_mem ho)
    obtain ⟨h3, it, hwrite, hup⟩ := hg.writeRange_updated hup1.inv.head_fits hflat2 ho hne
    refine ⟨h3, b2, ?_, ?_⟩
    · simp only [htrans, hadd, hwrite, bind, Except.bind, pure, Except.pure]
    · rw [hup1.bytes, hup1.frame o ho] at hup
      exact hup1.trans hup

end Ns3.Network
