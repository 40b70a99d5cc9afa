import Ns3.Network.Buffer

/-!
# What the operations of a buffer do to its bytes

`Buffer.bytes` is what a buffer holds. Each operation is described with the other live buffers
`L` at its side: it keeps `Inv`, leaves their bytes alone and changes its own as said.

A block may be shared by buffers with zero areas of different sizes, whose virtual offsets do not
compare. `Inv.shared` is what makes growing at the dirty end safe: a buffer that ends there
ends last in the block too.
-/

namespace Ns3.Network

open Lib

namespace Buffer

/-- The byte at a virtual offset. -/
def byteAt (m : Nat → UInt8) (b : Buffer) (i : Nat) : UInt8 :=
  if i < b.zeroAreaStart then m i
  else if i < b.zeroAreaEnd then 0
  else m (i - (b.zeroAreaEnd - b.zeroAreaStart))

def bytes (h : Heap) (b : Buffer) : List UInt8 :=
  window (b.byteAt (h.data b.data).bytes) b.start b.getSize

variable {h h' : Heap} {b b' c o : Buffer} {d : BufferData}

@[simp] theorem length_bytes : (b.bytes h).length = b.getSize := length_window

/-- The three pieces of a buffer. -/
theorem Fits.bytes_eq (hf : b.Fits d) : b.bytes h =
    window (h.data b.data).bytes b.start (b.zeroAreaStart - b.start) ++
      (List.replicate (b.zeroAreaEnd - b.zeroAreaStart) 0 ++
        window (h.data b.data).bytes b.zeroAreaStart (b.dataEnd - b.zeroAreaEnd)) := by
  have hstart := hf.start_le
  have hzero := hf.zero_le
  have hend := hf.le_end
  have hsize : b.getSize = b.zeroAreaStart - b.start + (b.zeroAreaEnd - b.zeroAreaStart +
      (b.dataEnd - b.zeroAreaEnd)) := by
    unfold getSize
    omega
  rw [bytes, hsize, window_add, window_add]
  congr 1
  · apply window_congr
    intro i hi
    have : b.start + i < b.zeroAreaStart := by omega
    simp [byteAt, this]
  · congr 1
    · apply window_const
      intro i hi
      have h1 : ¬ b.start + (b.zeroAreaStart - b.start) + i < b.zeroAreaStart := by omega
      have h2 : b.start + (b.zeroAreaStart - b.start) + i < b.zeroAreaEnd := by omega
      simp [byteAt, h1, h2]
    · apply window_congr
      intro i hi
      have h1 : ¬ b.start + (b.zeroAreaStart - b.start) + (b.zeroAreaEnd - b.zeroAreaStart) + i <
          b.zeroAreaStart := by omega
      have h2 : ¬ b.start + (b.zeroAreaStart - b.start) + (b.zeroAreaEnd - b.zeroAreaStart) + i <
          b.zeroAreaEnd := by omega
      simp only [byteAt, h1, h2, if_false]
      congr 1
      omega

theorem Fits.copyData_eq (hf : b.Fits d) (size : Nat) :
    b.copyData h size = (b.bytes h).take size := by
  have hafter (zeroes rest : Nat) : rest - min zeroes rest = rest - zeroes := by omega
  unfold copyData
  dsimp only
  rw [hf.bytes_eq, List.take_append, List.take_append, take_window, take_window,
    List.take_replicate, length_window, List.length_replicate, List.append_assoc, hafter, hafter,
    Nat.min_comm size, Nat.min_comm (size - _), Nat.min_comm (size - _ - _)]

/-- A buffer reads its block between its start and its internal end only. -/
theorem Fits.bytes_congr (hf : b.Fits d)
    (hsame : ∀ i, b.start ≤ i → i < b.getInternalEnd →
      (h'.data b.data).bytes i = (h.data b.data).bytes i) : b.bytes h' = b.bytes h := by
  have hstart := hf.start_le
  have hzero := hf.zero_le
  have hend := hf.le_end
  apply window_congr
  intro i hi
  simp only [getSize] at hi
  simp only [getInternalEnd] at hsame
  unfold byteAt
  split
  · apply hsame <;> omega
  · split
    · rfl
    · apply hsame <;> omega

end Buffer

/-- The blocks are the same up to the count. -/
structure BufferData.Same (d d' : BufferData) : Prop where
  size : d'.size = d.size
  dirtyStart : d'.dirtyStart = d.dirtyStart
  dirtyEnd : d'.dirtyEnd = d.dirtyEnd
  bytes : d'.bytes = d.bytes

/-- The buffers of `L` fit in their blocks, and one that ends at the dirty end is the last in its
block. -/
structure Sound (h : Heap) (L : List Buffer) : Prop where
  fits : ∀ b ∈ L, b.Fits (h.data b.data)
  shared : ∀ b ∈ L, ∀ c ∈ L, b.data = c.data → b.dataEnd = (h.data b.data).dirtyEnd →
    c.getInternalEnd ≤ b.getInternalEnd

/-- The invariant of a heap whose live buffers are those of `L`. -/
structure Inv (h : Heap) (L : List Buffer) : Prop where
  counts : h.Counts (L.map Buffer.data)
  sound : Sound h L

variable {h h' : Heap} {b b' c o : Buffer} {L L' : List Buffer} {bs : List UInt8} {n : Nat}

theorem BufferData.Same.fits {d d' : BufferData} (hs : d.Same d') (hf : b.Fits d) : b.Fits d' where
  start_le := hf.start_le
  zero_le := hf.zero_le
  le_end := hf.le_end
  dirtyStart := hs.dirtyStart ▸ hf.dirtyStart
  dirtyEnd := hs.dirtyEnd ▸ hf.dirtyEnd
  internalEnd := hs.size ▸ hf.internalEnd
  start_size := hs.size ▸ hf.start_size
  zero_size := hs.size ▸ hf.zero_size

theorem Sound.mono (hs : Sound h L) (hsub : ∀ b ∈ L', b ∈ L) : Sound h L' where
  fits b hb := hs.fits b (hsub b hb)
  shared b hb c hc := hs.shared b (hsub b hb) c (hsub c hc)

theorem Sound.of_same (hs : Sound h L) (hsame : ∀ c ∈ L, (h.data c.data).Same (h'.data c.data)) :
    Sound h' L where
  fits c hc := (hsame c hc).fits (hs.fits c hc)
  shared b hb c hc hdata hend := hs.shared b hb c hc hdata ((hsame b hb).dirtyEnd ▸ hend)

/-- A buffer with a block of its own joins the others. -/
theorem Sound.cons_of_fresh (hs : Sound h L) (hfresh : b.data ∉ L.map Buffer.data)
    (hfits : b.Fits (h.data b.data)) : Sound h (b :: L) := by
  have hne : ∀ c ∈ L, c.data ≠ b.data := fun c hc heq =>
    hfresh (heq ▸ List.mem_map_of_mem hc)
  constructor
  · intro c hc
    rcases List.mem_cons.mp hc with rfl | hc
    · exact hfits
    · exact hs.fits c hc
  · intro x hx y hy hdata hend
    rcases List.mem_cons.mp hx with hxb | hxL <;> rcases List.mem_cons.mp hy with hyb | hyL
    · rw [hxb, hyb]
    · rw [hxb] at hdata
      exact absurd hdata.symm (hne y hyL)
    · rw [hyb] at hdata
      exact absurd hdata (hne x hxL)
    · exact hs.shared x hxL y hyL hdata hend

theorem Inv.perm (hi : Inv h L) (hp : L.Perm L') : Inv h L' where
  counts := hi.counts.perm (hp.map _)
  sound := hi.sound.mono fun _ hb => hp.mem_iff.mpr hb

theorem Inv.head_fits (hi : Inv h (b :: L)) : b.Fits (h.data b.data) :=
  hi.sound.fits b List.mem_cons_self

theorem Inv.checkInternalState (hi : Inv h L) (hb : b ∈ L) : b.CheckInternalState h :=
  ⟨hi.counts.count_pos (List.mem_map_of_mem hb), hi.sound.fits b hb⟩

theorem Inv.alone (hi : Inv h (b :: L)) (hone : ¬ 1 < (h.data b.data).count) (hc : c ∈ L) :
    c.data ≠ b.data := by
  intro heq
  exact hone (hi.counts.one_lt (heq ▸ List.mem_map_of_mem hc))

theorem frame_of_same (hs : Sound h L) (hsame : ∀ c ∈ L, (h.data c.data).Same (h'.data c.data)) :
    ∀ c ∈ L, c.bytes h' = c.bytes h := by
  intro c hc
  apply (hs.fits c hc).bytes_congr
  intro i _ _
  rw [(hsame c hc).bytes]

/-- What an operation on `b` that leaves `b'` is expected to do. -/
structure Updated (h : Heap) (L : List Buffer) (h' : Heap) (b' : Buffer) (bs : List UInt8) :
    Prop where
  inv : Inv h' (b' :: L)
  bytes : b'.bytes h' = bs
  frame : ∀ c ∈ L, c.bytes h' = c.bytes h

/-! ## Copies -/

theorem same_release (h : Heap) (a x : Nat) : (h.data x).Same ((h.release a).data x) := by
  rw [Heap.release_data]
  by_cases hx : x = a
  · subst hx
    rw [Function.update_self]
    exact ⟨rfl, rfl, rfl, rfl⟩
  · rw [Function.update_of_ne hx]
    exact ⟨rfl, rfl, rfl, rfl⟩

theorem same_retain (h : Heap) (a x : Nat) : (h.data x).Same ((h.retain a).data x) := by
  by_cases hx : x = a
  · subst hx
    simp only [Heap.retain, Heap.setData_data_self]
    exact ⟨rfl, rfl, rfl, rfl⟩
  · simp only [Heap.retain, Heap.setData_data_ne hx]
    exact ⟨rfl, rfl, rfl, rfl⟩

theorem same_setDirty_of_ne {a s e x : Nat} (hx : x ≠ a) :
    (h.data x).Same ((h.setDirty a s e).data x) := by
  simp only [Heap.setDirty, Heap.setData_data_ne hx]
  exact ⟨rfl, rfl, rfl, rfl⟩

theorem Heap.Counts.setDirty {refs : List Nat} (hc : h.Counts refs) (a s e : Nat) :
    (h.setDirty a s e).Counts refs :=
  hc.setData rfl

theorem Heap.Counts.copyTo {refs : List Nat} (hc : h.Counts refs) (a pos : Nat) (bs : List UInt8) :
    (h.copyTo a pos bs).Counts refs :=
  hc.setData rfl

theorem Inv.recommend (hi : Inv h L) (start : Nat) : Inv { h with recommendedStart := start } L :=
  ⟨hi.counts.of_eq rfl rfl fun _ => rfl, ⟨hi.sound.fits, hi.sound.shared⟩⟩

/-- One more buffer with the offsets of a live one. -/
theorem Sound.cons_of_mem (hs : Sound h L) (ho : o ∈ L) {m : Nat} :
    Sound h ({ o with maxZeroAreaStart := m } :: L) := by
  have hfits := hs.fits o ho
  constructor
  · intro c hc
    rcases List.mem_cons.mp hc with rfl | hc
    · exact ⟨hfits.1, hfits.2, hfits.3, hfits.4, hfits.5, hfits.6, hfits.7, hfits.8⟩
    · exact hs.fits c hc
  · intro x hx y hy
    rcases List.mem_cons.mp hx with hxo | hxL <;> rcases List.mem_cons.mp hy with hyo | hyL
    · rw [hxo, hyo]
      exact fun _ _ => Nat.le_refl _
    · rw [hxo]
      exact hs.shared o ho y hyL
    · rw [hyo]
      exact hs.shared x hxL o ho
    · exact hs.shared x hxL y hyL

theorem Buffer.copy_updated (hi : Inv h L) (ho : o ∈ L) :
    Updated h L (Buffer.copy h o).1 (Buffer.copy h o).2 (o.bytes h) := by
  have hsame : ∀ x, (h.data x).Same ((h.retain o.data).data x) := same_retain h o.data
  have hcounts := hi.counts.retain (List.mem_map_of_mem ho)
  refine ⟨⟨hcounts, ?_⟩, ?_, frame_of_same hi.sound fun c _ => hsame c.data⟩
  · exact (hi.sound.of_same fun c _ => hsame c.data).cons_of_mem ho
  · exact frame_of_same hi.sound (fun c _ => hsame c.data) o ho

/-- The reference that `b` held goes to `o`. -/
theorem Buffer.assign_updated (hi : Inv h (b :: L)) (ho : o ∈ L) :
    Updated h L (Buffer.assign h b o).1 (Buffer.assign h b o).2 (o.bytes h) := by
  have hsound : Sound h L := hi.sound.mono fun c hc => List.mem_cons_of_mem _ hc
  simp only [Buffer.assign]
  by_cases hdata : b.data = o.data
  · have hcounts : h.Counts (o.data :: L.map Buffer.data) := hdata ▸ hi.counts
    have hinv : Inv h (o :: L) := ⟨hcounts, hsound.cons_of_mem ho⟩
    simp only [hdata, ne_eq, not_true_eq_false, if_false]
    exact ⟨hinv.recommend _, rfl, fun _ _ => rfl⟩
  · have hcounts : ((h.release b.data).retain o.data).Counts (o.data :: L.map Buffer.data) := by
      apply Heap.Counts.retain hi.counts.release
      exact List.mem_map_of_mem ho
    have hsame :
        ∀ c ∈ L, (h.data c.data).Same (((h.release b.data).retain o.data).data c.data) := by
      intro c _
      have h1 := same_release h b.data c.data
      have h2 := same_retain (h.release b.data) o.data c.data
      exact ⟨h2.1.trans h1.1, h2.2.trans h1.2, h2.3.trans h1.3, h2.4.trans h1.4⟩
    have hinv : Inv ((h.release b.data).retain o.data) (o :: L) :=
      ⟨hcounts, (hsound.of_same hsame).cons_of_mem ho⟩
    simp only [ne_eq, hdata, not_false_eq_true, if_true]
    have hframe := frame_of_same hsound hsame
    exact ⟨hinv.recommend _, hframe o ho, hframe⟩

theorem Buffer.assign_self_updated (hi : Inv h (b :: L)) :
    Updated h L (Buffer.assign h b b).1 (Buffer.assign h b b).2 (b.bytes h) := by
  simp only [Buffer.assign, ne_eq, not_true_eq_false, if_false]
  exact ⟨hi.recommend _, rfl, fun _ _ => rfl⟩

theorem Buffer.destroy_inv (hi : Inv h (b :: L)) :
    Inv (b.destroy h) L ∧ ∀ c ∈ L, c.bytes (b.destroy h) = c.bytes h := by
  have hrec := hi.recommend (max h.recommendedStart b.maxZeroAreaStart)
  have hsound := hrec.sound.mono fun c (hc : c ∈ L) => List.mem_cons_of_mem _ hc
  have hsame := fun c (_ : c ∈ L) =>
    same_release { h with recommendedStart := max h.recommendedStart b.maxZeroAreaStart } b.data
      c.data
  have hframe := frame_of_same hsound hsame
  exact ⟨⟨Heap.Counts.release hrec.counts, hsound.of_same hsame⟩, hframe⟩

end Ns3.Network
