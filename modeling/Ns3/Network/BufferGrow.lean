import Ns3.Network.BufferBytes

/-!
# Growing and shrinking a buffer

`AddAtStart` and `AddAtEnd` make room for new bytes, in place or in a new block. What they leave is
`GrownAtStart` and `GrownAtEnd`: the old bytes, the sizes of the three pieces, and new cells that
no other buffer reads. Writing the new cells then prepends or appends.
-/

namespace Ns3.Network

open Lib Buffer

variable {h h' : Heap} {b b' c o : Buffer} {L : List Buffer} {bs : List UInt8} {n : Nat}

/-- What `AddAtStart (n)` leaves. -/
structure GrownAtStart (h : Heap) (b : Buffer) (n : Nat) (L : List Buffer) (h' : Heap)
    (b' : Buffer) : Prop where
  inv : Inv h' (b' :: L)
  front : b'.zeroAreaStart = b'.start + n + (b.zeroAreaStart - b.start)
  zero : b'.zeroAreaEnd = b'.zeroAreaStart + (b.zeroAreaEnd - b.zeroAreaStart)
  back : b'.dataEnd = b'.zeroAreaEnd + (b.dataEnd - b.zeroAreaEnd)
  kept : ∀ i < b.getSize, b'.byteAt (h'.data b'.data).bytes (b'.start + n + i) =
    b.byteAt (h.data b.data).bytes (b.start + i)
  frame : ∀ c ∈ L, c.bytes h' = c.bytes h
  free : ∀ c ∈ L, c.data = b'.data → b'.start + n ≤ c.start
  apart : b.data ∉ L.map Buffer.data → b'.data ∉ L.map Buffer.data

/-- What `AddAtEnd (n)` leaves. -/
structure GrownAtEnd (h : Heap) (b : Buffer) (n : Nat) (L : List Buffer) (h' : Heap)
    (b' : Buffer) : Prop where
  inv : Inv h' (b' :: L)
  front : b'.zeroAreaStart = b'.start + (b.zeroAreaStart - b.start)
  zero : b'.zeroAreaEnd = b'.zeroAreaStart + (b.zeroAreaEnd - b.zeroAreaStart)
  back : b'.dataEnd = b'.zeroAreaEnd + (b.dataEnd - b.zeroAreaEnd) + n
  kept : ∀ i < b.getSize, b'.byteAt (h'.data b'.data).bytes (b'.start + i) =
    b.byteAt (h.data b.data).bytes (b.start + i)
  frame : ∀ c ∈ L, c.bytes h' = c.bytes h
  free : ∀ c ∈ L, c.data = b'.data → c.getInternalEnd + n ≤ b'.getInternalEnd
  apart : b.data ∉ L.map Buffer.data → b'.data ∉ L.map Buffer.data

/-! ## A new block -/

/-- The part of a buffer that takes memory is copied to the offset `pos` of a new block. -/
structure Moved (h : Heap) (b : Buffer) (pos size : Nat) (L : List Buffer) (h' : Heap) (a : Nat) :
    Prop where
  counts : h'.Counts (a :: L.map Buffer.data)
  sound : Sound h' L
  fresh : a ∉ L.map Buffer.data
  frame : ∀ c ∈ L, c.bytes h' = c.bytes h
  size : size ≤ (h'.data a).size
  byte : ∀ i < b.getInternalSize,
    (h'.data a).bytes (pos + i) = (h.data b.data).bytes (b.start + i)

theorem Buffer.reallocate_moved (hi : Inv h (b :: L)) (size pos : Nat) :
    Moved h b pos size L (b.reallocate h size pos).1 (b.reallocate h size pos).2 := by
  have hc := hi.counts.create size
  unfold Buffer.reallocate
  generalize h.create size = created at hc ⊢
  obtain ⟨h1, a⟩ := created
  have hne : ∀ c ∈ b :: L, c.data ≠ a := fun c hmem heq =>
    hc.fresh (heq ▸ List.mem_map_of_mem hmem)
  have hba : b.data ≠ a := hne b List.mem_cons_self
  let bs := window (h1.data b.data).bytes b.start b.getInternalSize
  have hcounts : (h1.copyTo a pos bs).Counts (b.data :: a :: L.map Buffer.data) :=
    (hc.counts.copyTo a pos bs).perm (List.Perm.swap _ _ _)
  have hsound : Sound h L := hi.sound.mono fun c hmem => List.mem_cons_of_mem _ hmem
  have hsame :
      ∀ c ∈ L, (h.data c.data).Same (((h1.copyTo a pos bs).release b.data).data c.data) := by
    intro c hmem
    have hca := hne c (List.mem_cons_of_mem _ hmem)
    have hrel := same_release (h1.copyTo a pos bs) b.data c.data
    have hcopy : (h1.copyTo a pos bs).data c.data = h.data c.data := by
      simp only [Heap.copyTo, Heap.setData_data_ne hca]
      exact hc.other _ hca
    rw [hcopy] at hrel
    exact hrel
  have hdata : ((h1.copyTo a pos bs).release b.data).data a =
      { h1.data a with bytes := poke (h1.data a).bytes pos bs } := by
    rw [Heap.release_data, Function.update_of_ne hba.symm]
    simp [Heap.copyTo]
  refine ⟨hcounts.release, hsound.of_same hsame, ?_, frame_of_same hsound hsame, ?_, ?_⟩
  · exact fun hmem => hc.fresh (List.mem_cons_of_mem _ hmem)
  · show size ≤ (((h1.copyTo a pos bs).release b.data).data a).size
    rw [hdata]
    exact hc.size
  · intro i hlt
    show (((h1.copyTo a pos bs).release b.data).data a).bytes (pos + i) = _
    have hlen : i < bs.length := by simpa [bs] using hlt
    rw [hdata]
    show poke (h1.data a).bytes pos bs (pos + i) = _
    rw [poke_add hlen, getElem_window, hc.other _ hba]

theorem Buffer.Fits.byteAt_moved {d : BufferData} {m m' : Nat → UInt8} {pos i : Nat}
    (hf : b.Fits d) (hfront : b'.zeroAreaStart = pos + (b.zeroAreaStart - b.start))
    (hzero : b'.zeroAreaEnd = b'.zeroAreaStart + (b.zeroAreaEnd - b.zeroAreaStart))
    (hm : ∀ j < b.getInternalSize, m' (pos + j) = m (b.start + j)) (hi : i < b.getSize) :
    b'.byteAt m' (pos + i) = b.byteAt m (b.start + i) := by
  have h1 := hf.start_le
  have h2 := hf.zero_le
  have h3 := hf.le_end
  unfold getInternalSize at hm
  unfold getSize at hi
  unfold byteAt
  by_cases hlt : b.start + i < b.zeroAreaStart
  · have hlt' : pos + i < b'.zeroAreaStart := by omega
    rw [if_pos hlt, if_pos hlt']
    exact hm i (by omega)
  · have hlt' : ¬ pos + i < b'.zeroAreaStart := by omega
    rw [if_neg hlt, if_neg hlt']
    by_cases hin : b.start + i < b.zeroAreaEnd
    · have hin' : pos + i < b'.zeroAreaEnd := by omega
      rw [if_pos hin, if_pos hin']
    · have hin' : ¬ pos + i < b'.zeroAreaEnd := by omega
      rw [if_neg hin, if_neg hin']
      have hj := hm (i - (b.zeroAreaEnd - b.zeroAreaStart)) (by omega)
      have e1 : pos + i - (b'.zeroAreaEnd - b'.zeroAreaStart) =
          pos + (i - (b.zeroAreaEnd - b.zeroAreaStart)) := by omega
      have e2 : b.start + i - (b.zeroAreaEnd - b.zeroAreaStart) =
          b.start + (i - (b.zeroAreaEnd - b.zeroAreaStart)) := by omega
      rw [e1, e2, hj]

/-- The buffer takes the new block with the dirty area as large as itself. -/
theorem Moved.dirty {pos size a s e : Nat} (hm : Moved h b pos size L h' a) (hdata : b'.data = a)
    (hfits : b'.Fits { h'.data a with dirtyStart := s, dirtyEnd := e }) :
    Inv (h'.setDirty a s e) (b' :: L) ∧ ∀ c ∈ L, c.bytes (h'.setDirty a s e) = c.bytes h := by
  subst hdata
  have hne : ∀ c ∈ L, c.data ≠ b'.data := fun c hmem heq =>
    hm.fresh (heq ▸ List.mem_map_of_mem hmem)
  have hsame : ∀ c ∈ L, (h'.data c.data).Same ((h'.setDirty b'.data s e).data c.data) :=
    fun c hmem => same_setDirty_of_ne (hne c hmem)
  have hsound := hm.sound.of_same hsame
  have hfits' : b'.Fits ((h'.setDirty b'.data s e).data b'.data) := by
    simpa [Heap.setDirty] using hfits
  refine ⟨⟨hm.counts.setDirty _ s e, hsound.cons_of_fresh hm.fresh hfits'⟩, ?_⟩
  intro c hmem
  rw [frame_of_same hm.sound hsame c hmem, hm.frame c hmem]

/-! ## The same block -/

/-- The buffer changes its offsets and the dirty area of its block. The conditions are about its
siblings, which share the block. -/
theorem Sound.replace (hs : Sound h (b :: L)) (hdata : b'.data = b.data)
    (hother : ∀ c ∈ L, c.data ≠ b.data → (h.data c.data).Same (h'.data c.data))
    (hfits : b'.Fits (h'.data b.data))
    (hsib : ∀ c ∈ L, c.data = b.data → c.Fits (h'.data b.data))
    (hlast : ∀ c ∈ L, c.data = b.data → c.dataEnd = (h'.data b.data).dirtyEnd →
      c.dataEnd = (h.data b.data).dirtyEnd ∧ b'.getInternalEnd ≤ c.getInternalEnd)
    (hend : ∀ c ∈ L, c.data = b.data → b'.dataEnd = (h'.data b.data).dirtyEnd →
      c.getInternalEnd ≤ b'.getInternalEnd) : Sound h' (b' :: L) := by
  constructor
  · intro c hc
    rcases List.mem_cons.mp hc with hcb | hcL
    · rw [hcb, hdata]
      exact hfits
    · by_cases hcd : c.data = b.data
      · rw [hcd]
        exact hsib c hcL hcd
      · exact (hother c hcL hcd).fits (hs.fits c (List.mem_cons_of_mem _ hcL))
  · intro x hx y hy hxy hxend
    rcases List.mem_cons.mp hx with hxb | hxL
    · rw [hxb, hdata] at hxend hxy
      rw [hxb]
      rcases List.mem_cons.mp hy with hyb | hyL
      · rw [hyb]
      · exact hend y hyL hxy.symm hxend
    · by_cases hxd : x.data = b.data
      · rw [hxd] at hxend hxy
        obtain ⟨hold, hle⟩ := hlast x hxL hxd hxend
        rcases List.mem_cons.mp hy with hyb | hyL
        · rw [hyb]
          exact hle
        · apply hs.shared x (List.mem_cons_of_mem _ hxL) y (List.mem_cons_of_mem _ hyL)
          · exact hxd.trans hxy
          · rw [hxd]
            exact hold
      · rw [(hother x hxL hxd).dirtyEnd] at hxend
        rcases List.mem_cons.mp hy with hyb | hyL
        · rw [hyb, hdata] at hxy
          exact absurd hxy hxd
        · exact hs.shared x (List.mem_cons_of_mem _ hxL) y (List.mem_cons_of_mem _ hyL) hxy hxend

@[simp] theorem setDirty_data_bytes {a s e x : Nat} :
    ((h.setDirty a s e).data x).bytes = (h.data x).bytes := by
  by_cases hx : x = a
  · subst hx
    simp [Heap.setDirty]
  · simp [Heap.setDirty, hx]

@[simp] theorem bytes_setDirty {a s e : Nat} : b.bytes (h.setDirty a s e) = b.bytes h := by
  simp [Buffer.bytes]

/-! ## `AddAtStart` -/

theorem Buffer.addAtStart_grown (hi : Inv h (b :: L)) (n : Nat) :
    GrownAtStart h b n L (b.addAtStart h n).1 (b.addAtStart h n).2 := by
  have hfits := hi.head_fits
  have hstart := hfits.start_le
  have hzero := hfits.zero_le
  have hend := hfits.le_end
  by_cases hroom : b.start ≥ n ∧ ¬((h.data b.data).count > 1 ∧ b.start > (h.data b.data).dirtyStart)
  · have heq : b.addAtStart h n = (h.setDirty b.data (b.start - n) (h.data b.data).dirtyEnd,
        raiseMaxZeroAreaStart { b with start := b.start - n }) := if_pos hroom
    rw [heq]
    obtain ⟨hn, hclean⟩ := hroom
    have hnew : (h.setDirty b.data (b.start - n) (h.data b.data).dirtyEnd).data b.data =
        { h.data b.data with dirtyStart := b.start - n } := by
      simp [Heap.setDirty]
    -- a sibling starts at the dirty start or after it, and `b` starts there
    have hsibling : ∀ c ∈ L, c.data = b.data → b.start ≤ c.start := by
      intro c hc hcd
      have hcount : (h.data b.data).count > 1 := by
        by_contra hone
        exact hi.alone hone hc hcd
      have hcfits := hi.sound.fits c (List.mem_cons_of_mem _ hc)
      rw [hcd] at hcfits
      have hdirty : b.start ≤ (h.data b.data).dirtyStart := by
        by_contra hlt
        exact hclean ⟨hcount, by omega⟩
      exact hdirty.trans hcfits.dirtyStart
    refine ⟨⟨hi.counts.setDirty _ _ _, ?_⟩, ?_, ?_, ?_, ?_, fun c _ => bytes_setDirty, ?_, id⟩
    · let b1 := raiseMaxZeroAreaStart { b with start := b.start - n }
      have hdata : b1.data = b.data := rfl
      refine hi.sound.replace hdata ?_ ?_ ?_ ?_ ?_
      · exact fun c _ hcd => same_setDirty_of_ne hcd
      · rw [hnew]
        exact ⟨(Nat.sub_le _ _).trans hstart, hzero, hend, Nat.le_refl _, hfits.dirtyEnd,
          hfits.internalEnd, (Nat.sub_le _ _).trans hfits.start_size, hfits.zero_size⟩
      · intro c hc hcd
        have hcfits := hi.sound.fits c (List.mem_cons_of_mem _ hc)
        rw [hcd] at hcfits
        rw [hnew]
        exact ⟨hcfits.1, hcfits.2, hcfits.3, (Nat.sub_le _ _).trans (hsibling c hc hcd), hcfits.5,
          hcfits.6, hcfits.7, hcfits.8⟩
      · intro c hc hcd hcend
        rw [hnew] at hcend
        refine ⟨hcend, hi.sound.shared c (List.mem_cons_of_mem _ hc) b List.mem_cons_self hcd ?_⟩
        rw [hcd]
        exact hcend
      · intro c hc hcd hbend
        rw [hnew] at hbend
        exact hi.sound.shared b List.mem_cons_self c (List.mem_cons_of_mem _ hc) hcd.symm hbend
    · show b.zeroAreaStart = b.start - n + n + (b.zeroAreaStart - b.start)
      omega
    · show b.zeroAreaEnd = b.zeroAreaStart + (b.zeroAreaEnd - b.zeroAreaStart)
      omega
    · show b.dataEnd = b.zeroAreaEnd + (b.dataEnd - b.zeroAreaEnd)
      omega
    · intro i _
      show b.byteAt ((h.setDirty _ _ _).data b.data).bytes (b.start - n + n + i) = _
      rw [Nat.sub_add_cancel hn, setDirty_data_bytes]
    · intro c hc hcd
      show b.start - n + n ≤ c.start
      rw [Nat.sub_add_cancel hn]
      exact hsibling c hc hcd
  · have hm := reallocate_moved hi (b.getInternalSize + n) n
    have heq : b.addAtStart h n =
        ((b.reallocate h (b.getInternalSize + n) n).1.setDirty
            (b.reallocate h (b.getInternalSize + n) n).2 0 (b.dataEnd + n - b.start),
          raiseMaxZeroAreaStart
            { b with
              data := (b.reallocate h (b.getInternalSize + n) n).2
              start := 0
              zeroAreaStart := b.zeroAreaStart + n - b.start
              zeroAreaEnd := b.zeroAreaEnd + n - b.start
              dataEnd := b.dataEnd + n - b.start }) := if_neg hroom
    rw [heq]
    generalize b.reallocate h (b.getInternalSize + n) n = moved at hm ⊢
    obtain ⟨h1, a⟩ := moved
    let b1 : Buffer := raiseMaxZeroAreaStart
      { b with
        data := a
        start := 0
        zeroAreaStart := b.zeroAreaStart + n - b.start
        zeroAreaEnd := b.zeroAreaEnd + n - b.start
        dataEnd := b.dataEnd + n - b.start }
    have hdata : b1.data = a := rfl
    have hsize := hm.size
    have hbyte := hm.byte
    dsimp only at hsize hbyte
    unfold getInternalSize at hsize
    have hfits1 :
        b1.Fits { h1.data a with dirtyStart := 0, dirtyEnd := b.dataEnd + n - b.start } := by
      constructor <;> dsimp only [b1, raiseMaxZeroAreaStart] <;> omega
    obtain ⟨hinv, hframe⟩ := hm.dirty hdata hfits1
    refine ⟨hinv, ?_, ?_, ?_, ?_, hframe, ?_, fun _ => hm.fresh⟩
    · dsimp only [raiseMaxZeroAreaStart]
      omega
    · dsimp only [raiseMaxZeroAreaStart]
      omega
    · dsimp only [raiseMaxZeroAreaStart]
      omega
    · intro i hlt
      have hz : b1.zeroAreaStart = 0 + n + (b.zeroAreaStart - b.start) := by
        dsimp only [b1, raiseMaxZeroAreaStart]
        omega
      have hzz : b1.zeroAreaEnd = b1.zeroAreaStart + (b.zeroAreaEnd - b.zeroAreaStart) := by
        dsimp only [b1, raiseMaxZeroAreaStart]
        omega
      show b1.byteAt ((h1.setDirty a _ _).data a).bytes (0 + n + i) = _
      rw [setDirty_data_bytes]
      apply hfits.byteAt_moved hz hzz _ hlt
      rw [Nat.zero_add]
      exact hbyte
    · intro c hc hcd
      have hca : c.data = a := hcd
      exact absurd (hca ▸ List.mem_map_of_mem hc) hm.fresh

/-! ## `AddAtEnd` -/

theorem Buffer.addAtEnd_grown (hi : Inv h (b :: L)) (n : Nat) :
    GrownAtEnd h b n L (b.addAtEnd h n).1 (b.addAtEnd h n).2 := by
  have hfits := hi.head_fits
  have hstart := hfits.start_le
  have hzero := hfits.zero_le
  have hend := hfits.le_end
  by_cases hroom : b.getInternalEnd + n ≤ (h.data b.data).size ∧
      ¬((h.data b.data).count > 1 ∧ b.dataEnd < (h.data b.data).dirtyEnd)
  · have heq : b.addAtEnd h n =
        (h.setDirty b.data (h.data b.data).dirtyStart (b.dataEnd + n),
          raiseMaxZeroAreaStart { b with dataEnd := b.dataEnd + n }) := if_pos hroom
    rw [heq]
    obtain ⟨hn, hclean⟩ := hroom
    have hnew : (h.setDirty b.data (h.data b.data).dirtyStart (b.dataEnd + n)).data b.data =
        { h.data b.data with dirtyEnd := b.dataEnd + n } := by
      simp [Heap.setDirty]
    let b1 := raiseMaxZeroAreaStart { b with dataEnd := b.dataEnd + n }
    have hinternal : b1.getInternalEnd = b.getInternalEnd + n := by
      dsimp only [b1, raiseMaxZeroAreaStart, getInternalEnd]
      omega
    -- when the block is shared, `b` ends at the dirty end, and no sibling ends after it
    have hdirty : ∀ c ∈ L, c.data = b.data → b.dataEnd = (h.data b.data).dirtyEnd := by
      intro c hc hcd
      have hcount : (h.data b.data).count > 1 := by
        by_contra hone
        exact hi.alone hone hc hcd
      have := hfits.dirtyEnd
      by_contra hne
      exact hclean ⟨hcount, by omega⟩
    have hsibling : ∀ c ∈ L, c.data = b.data → c.getInternalEnd ≤ b.getInternalEnd := by
      intro c hc hcd
      exact hi.sound.shared b List.mem_cons_self c (List.mem_cons_of_mem _ hc) hcd.symm
        (hdirty c hc hcd)
    have hsound :
        Sound (h.setDirty b.data (h.data b.data).dirtyStart (b.dataEnd + n)) (b1 :: L) := by
      have hdata : b1.data = b.data := rfl
      refine hi.sound.replace hdata ?_ ?_ ?_ ?_ ?_
      · exact fun c _ hcd => same_setDirty_of_ne hcd
      · rw [hnew]
        exact ⟨hstart, hzero, Nat.le_add_right_of_le hend, hfits.dirtyStart, Nat.le_refl _,
          hinternal.le.trans hn, hfits.start_size, hfits.zero_size⟩
      · intro c hc hcd
        have hcfits := hi.sound.fits c (List.mem_cons_of_mem _ hc)
        rw [hcd] at hcfits
        rw [hnew]
        have hcend : c.dataEnd ≤ b.dataEnd + n := by
          rw [hdirty c hc hcd]
          exact Nat.le_add_right_of_le hcfits.dirtyEnd
        exact ⟨hcfits.1, hcfits.2, hcfits.3, hcfits.4, hcend, hcfits.6, hcfits.7, hcfits.8⟩
      · intro c hc hcd hcend
        rw [hnew] at hcend
        dsimp only at hcend
        -- a sibling ends at the new dirty end only when nothing is added
        have hcfits := hi.sound.fits c (List.mem_cons_of_mem _ hc)
        rw [hcd] at hcfits
        have hold := hdirty c hc hcd
        have hle := hcfits.dirtyEnd
        have hcdirty : c.dataEnd = (h.data b.data).dirtyEnd := by omega
        refine ⟨hcdirty, ?_⟩
        have hshared := hi.sound.shared c (List.mem_cons_of_mem _ hc) b List.mem_cons_self hcd
          (hcd ▸ hcdirty)
        rw [hinternal]
        omega
      · intro c hc hcd _
        have := hsibling c hc hcd
        rw [hinternal]
        omega
    refine ⟨⟨hi.counts.setDirty _ _ _, hsound⟩, ?_, ?_, ?_, ?_, fun c _ => bytes_setDirty, ?_, id⟩
    · show b.zeroAreaStart = b.start + (b.zeroAreaStart - b.start)
      omega
    · show b.zeroAreaEnd = b.zeroAreaStart + (b.zeroAreaEnd - b.zeroAreaStart)
      omega
    · show b.dataEnd + n = b.zeroAreaEnd + (b.dataEnd - b.zeroAreaEnd) + n
      omega
    · intro i _
      show b.byteAt ((h.setDirty _ _ _).data b.data).bytes (b.start + i) = _
      rw [setDirty_data_bytes]
    · intro c hc hcd
      have := hsibling c hc hcd
      show c.getInternalEnd + n ≤ b1.getInternalEnd
      omega
  · have hm := reallocate_moved hi (b.getInternalSize + n) 0
    have heq : b.addAtEnd h n =
        ((b.reallocate h (b.getInternalSize + n) 0).1.setDirty
            (b.reallocate h (b.getInternalSize + n) 0).2 0 (b.dataEnd - b.start + n),
          raiseMaxZeroAreaStart
            { b with
              data := (b.reallocate h (b.getInternalSize + n) 0).2
              start := 0
              zeroAreaStart := b.zeroAreaStart - b.start
              zeroAreaEnd := b.zeroAreaEnd - b.start
              dataEnd := b.dataEnd - b.start + n }) := if_neg hroom
    rw [heq]
    generalize b.reallocate h (b.getInternalSize + n) 0 = moved at hm ⊢
    obtain ⟨h1, a⟩ := moved
    let b1 : Buffer := raiseMaxZeroAreaStart
      { b with
        data := a
        start := 0
        zeroAreaStart := b.zeroAreaStart - b.start
        zeroAreaEnd := b.zeroAreaEnd - b.start
        dataEnd := b.dataEnd - b.start + n }
    have hdata : b1.data = a := rfl
    have hsize := hm.size
    have hbyte := hm.byte
    dsimp only at hsize hbyte
    unfold getInternalSize at hsize
    have hfits1 :
        b1.Fits { h1.data a with dirtyStart := 0, dirtyEnd := b.dataEnd - b.start + n } := by
      constructor <;> dsimp only [b1, raiseMaxZeroAreaStart] <;> omega
    obtain ⟨hinv, hframe⟩ := hm.dirty hdata hfits1
    refine ⟨hinv, ?_, ?_, ?_, ?_, hframe, ?_, fun _ => hm.fresh⟩
    · dsimp only [raiseMaxZeroAreaStart]
      omega
    · dsimp only [raiseMaxZeroAreaStart]
      omega
    · dsimp only [raiseMaxZeroAreaStart]
      omega
    · intro i hlt
      have hz : b1.zeroAreaStart = 0 + (b.zeroAreaStart - b.start) := by
        dsimp only [b1, raiseMaxZeroAreaStart]
        omega
      have hzz : b1.zeroAreaEnd = b1.zeroAreaStart + (b.zeroAreaEnd - b.zeroAreaStart) := by
        dsimp only [b1, raiseMaxZeroAreaStart]
        omega
      show b1.byteAt ((h1.setDirty a _ _).data a).bytes (0 + i) = _
      rw [setDirty_data_bytes]
      exact hfits.byteAt_moved hz hzz hbyte hlt
    · intro c hc hcd
      have hca : c.data = a := hcd
      exact absurd (hca ▸ List.mem_map_of_mem hc) hm.fresh

/-! ## Writing the new cells -/

theorem Inv.copyTo (hi : Inv h L) (a pos : Nat) (bs : List UInt8) : Inv (h.copyTo a pos bs) L := by
  have hdata : ∀ x, ((h.copyTo a pos bs).data x).size = (h.data x).size ∧
      ((h.copyTo a pos bs).data x).dirtyStart = (h.data x).dirtyStart ∧
      ((h.copyTo a pos bs).data x).dirtyEnd = (h.data x).dirtyEnd := by
    intro x
    by_cases hx : x = a
    · subst hx
      simp [Heap.copyTo]
    · simp [Heap.copyTo, hx]
  refine ⟨hi.counts.copyTo a pos bs, ⟨?_, ?_⟩⟩
  · intro c hc
    have hf := hi.sound.fits c hc
    obtain ⟨h1, h2, h3⟩ := hdata c.data
    exact ⟨hf.1, hf.2, hf.3, h2 ▸ hf.4, h3 ▸ hf.5, h1 ▸ hf.6, h1 ▸ hf.7, h1 ▸ hf.8⟩
  · intro x hx y hy hxy hend
    rw [(hdata x.data).2.2] at hend
    exact hi.sound.shared x hx y hy hxy hend

/-- What is written outside of a buffer does not change it. -/
theorem Buffer.Fits.bytes_copyTo {d : BufferData} (hf : c.Fits d) {a pos : Nat} {bs : List UInt8}
    (hout : c.data = a → pos + bs.length ≤ c.start ∨ c.getInternalEnd ≤ pos) :
    c.bytes (h.copyTo a pos bs) = c.bytes h := by
  apply hf.bytes_congr
  intro i hlo hhi
  by_cases hca : c.data = a
  · subst hca
    simp only [Heap.copyTo, Heap.setData_data_self]
    rcases hout rfl with hle | hle
    · exact poke_of_le (by omega)
    · exact poke_of_lt (by omega)
  · simp [Heap.copyTo, hca]

theorem Heap.store_eq (h : Heap) (a pos : Nat) (bs : List UInt8)
    (hfit : pos + bs.length ≤ (h.data a).size) :
    h.store a pos bs = .ok (h.copyTo a pos bs) :=
  if_pos (Or.inr hfit)

/-- The new cells at the start take `bs`. -/
theorem GrownAtStart.written (bs : List UInt8) (hg : GrownAtStart h b bs.length L h' b')
    (hb : b.Fits (h.data b.data)) :
    Updated h L (h'.copyTo b'.data b'.start bs) b' (bs ++ b.bytes h) := by
  have hfits := hg.inv.head_fits
  have h1 := hfits.start_le
  have h2 := hfits.zero_le
  have h3 := hfits.le_end
  have hfront := hg.front
  have hzero := hg.zero
  refine ⟨hg.inv.copyTo _ _ _, ?_, ?_⟩
  · have hsize : b'.getSize = bs.length + b.getSize := by
      have h4 := hb.start_le
      have h5 := hb.zero_le
      have h6 := hb.le_end
      have hback := hg.back
      unfold getSize
      omega
    rw [Buffer.bytes, hsize, window_add]
    congr 1
    · symm
      apply eq_window rfl
      intro i hi
      have hlt : b'.start + i < b'.zeroAreaStart := by omega
      simp [byteAt, hlt, Heap.copyTo, poke_add hi]
    · apply window_congr
      intro i hi
      rw [← hg.kept i hi]
      unfold byteAt
      simp only [Heap.copyTo, Heap.setData_data_self]
      split
      · exact poke_of_le (by omega)
      · split
        · rfl
        · exact poke_of_le (by omega)
  · intro c hc
    rw [← hg.frame c hc]
    have hcfits := hg.inv.sound.fits c (List.mem_cons_of_mem _ hc)
    exact hcfits.bytes_copyTo fun hcd => Or.inl (hg.free c hc hcd)

/-- The new cells at the end take `bs`. -/
theorem GrownAtEnd.written (bs : List UInt8) (hg : GrownAtEnd h b bs.length L h' b')
    (hb : b.Fits (h.data b.data)) :
    Updated h L (h'.copyTo b'.data (b'.getInternalEnd - bs.length) bs) b' (b.bytes h ++ bs) := by
  have hfits := hg.inv.head_fits
  have h1 := hfits.start_le
  have h2 := hfits.zero_le
  have h3 := hfits.le_end
  have hback := hg.back
  have hint : b'.getInternalEnd = b'.dataEnd - (b'.zeroAreaEnd - b'.zeroAreaStart) := rfl
  refine ⟨hg.inv.copyTo _ _ _, ?_, ?_⟩
  · have hsize : b'.getSize = b.getSize + bs.length := by
      have h4 := hb.start_le
      have h5 := hb.zero_le
      have h6 := hb.le_end
      have hfront := hg.front
      have hzero := hg.zero
      unfold getSize
      omega
    rw [Buffer.bytes, hsize, window_add]
    congr 1
    · apply window_congr
      intro i hi
      rw [← hg.kept i hi]
      unfold byteAt
      simp only [Heap.copyTo, Heap.setData_data_self]
      unfold getSize at hi hsize
      split
      · exact poke_of_lt (by omega)
      · split
        · rfl
        · exact poke_of_lt (by omega)
    · symm
      apply eq_window rfl
      intro i hi
      have hle : b'.zeroAreaEnd ≤ b'.start + b.getSize := by
        unfold getSize at hsize ⊢
        omega
      have hpos : b'.start + b.getSize + i - (b'.zeroAreaEnd - b'.zeroAreaStart) =
          b'.getInternalEnd - bs.length + i := by
        unfold getSize at hsize ⊢
        omega
      unfold byteAt
      simp only [Heap.copyTo, Heap.setData_data_self]
      split
      · -- before the zero area: there is none then
        have hflat : b'.start + b.getSize + i = b'.getInternalEnd - bs.length + i := by omega
        rw [hflat, poke_add hi]
      · rw [if_neg (by omega), hpos, poke_add hi]
  · intro c hc
    rw [← hg.frame c hc]
    have hcfits := hg.inv.sound.fits c (List.mem_cons_of_mem _ hc)
    apply hcfits.bytes_copyTo
    intro hcd
    have := hg.free c hc hcd
    right
    omega

end Ns3.Network
