import Ns3.Lib.Window
import Mathlib.Data.List.Count
import Mathlib.Data.List.Nodup
import Mathlib.Logic.Function.Basic

/-!
# The storage of buffers

`Buffer::Data` blocks are reference counted. A block whose last reference goes is kept in
a free list when it is as large as any seen so far, and `Buffer::Create` hands it out again with
whatever bytes it holds.

`Counts h refs` says that `refs` are the references there are. Creating, retaining and releasing a
block keep it.
-/

namespace Ns3.Network

open Lib

/-- `Buffer::Data`. The cells from `size` on are not part of the block. -/
structure BufferData where
  count : Nat
  size : Nat
  dirtyStart : Nat
  dirtyEnd : Nat
  bytes : Nat → UInt8

/-- Blocks by address, and the static variables of `Buffer`. The addresses from `next` on are not
allocated yet: what `data` holds there is what the allocator will find in that memory. -/
structure Heap where
  data : Nat → BufferData
  next : Nat := 0
  freeList : List Nat := []
  maxSize : Nat := 0
  recommendedStart : Nat := 0

namespace Heap

def setData (h : Heap) (a : Nat) (d : BufferData) : Heap :=
  { h with data := Function.update h.data a d }

/-- `Buffer::Allocate`. -/
def allocate (h : Heap) (reqSize : Nat) : Heap × Nat :=
  let h' := h.setData h.next { h.data h.next with size := max reqSize 1, count := 1 }
  ({ h' with next := h.next + 1 }, h.next)

/-- `Buffer::Create`: the blocks of the free list that are too small are deallocated on the way to
the first one that is large enough. -/
def create (h : Heap) (dataSize : Nat) : Heap × Nat :=
  match h.freeList.dropWhile fun a => decide ((h.data a).size < dataSize) with
  | a :: rest => ({ h with freeList := rest }.setData a { h.data a with count := 1 }, a)
  | [] => { h with freeList := [] }.allocate dataSize

/-- `Buffer::Recycle`. -/
def recycle (h : Heap) (a : Nat) : Heap :=
  let maxSize := max h.maxSize (h.data a).size
  if (h.data a).size < maxSize ∨ 1000 < h.freeList.length then { h with maxSize := maxSize }
  else { h with maxSize := maxSize, freeList := a :: h.freeList }

/-- `m_data->m_count++`. -/
def retain (h : Heap) (a : Nat) : Heap :=
  h.setData a { h.data a with count := (h.data a).count + 1 }

/-- `m_data->m_count--`, and the block is recycled when nobody refers to it. -/
def release (h : Heap) (a : Nat) : Heap :=
  let h := h.setData a { h.data a with count := (h.data a).count - 1 }
  if (h.data a).count = 0 then h.recycle a else h

/-- The bytes `bs` are copied to the block `a`, from the offset `pos` on. -/
def copyTo (h : Heap) (a pos : Nat) (bs : List UInt8) : Heap :=
  h.setData a { h.data a with bytes := poke (h.data a).bytes pos bs }

def setDirty (h : Heap) (a dirtyStart dirtyEnd : Nat) : Heap :=
  h.setData a { h.data a with dirtyStart := dirtyStart, dirtyEnd := dirtyEnd }

variable {h : Heap} {a c : Nat} {d : BufferData} {refs refs' : List Nat}

@[simp] theorem setData_data_self : (h.setData a d).data a = d := by
  simp [setData]

@[simp] theorem setData_data_ne (hc : c ≠ a) : (h.setData a d).data c = h.data c := by
  simp [setData, hc]

@[simp] theorem setData_next : (h.setData a d).next = h.next := rfl

@[simp] theorem setData_freeList : (h.setData a d).freeList = h.freeList := rfl

@[simp] theorem recycle_data : (h.recycle a).data = h.data := by
  simp only [recycle]
  split <;> rfl

@[simp] theorem recycle_next : (h.recycle a).next = h.next := by
  simp only [recycle]
  split <;> rfl

@[simp] theorem release_next : (h.release a).next = h.next := by
  simp only [release]
  split <;> simp

/-- Releasing a reference changes a count and nothing else of a block. -/
theorem release_data : (h.release a).data =
    Function.update h.data a { h.data a with count := (h.data a).count - 1 } := by
  simp only [release]
  split
  · rw [recycle_data]
    rfl
  · rfl

/-- The references there are: each block counts its own, and the free list holds blocks that
nobody refers to. -/
structure Counts (h : Heap) (refs : List Nat) : Prop where
  live : ∀ a ∈ refs, a < h.next
  count : ∀ a < h.next, (h.data a).count = refs.count a
  free : ∀ a ∈ h.freeList, a < h.next ∧ a ∉ refs
  nodup : h.freeList.Nodup

theorem Counts.perm (hc : h.Counts refs) (hp : refs.Perm refs') : h.Counts refs' where
  live a ha := hc.live a (hp.mem_iff.mpr ha)
  count a ha := (hc.count a ha).trans (hp.count_eq a)
  free a ha := ⟨(hc.free a ha).1, fun hmem => (hc.free a ha).2 (hp.mem_iff.mpr hmem)⟩
  nodup := hc.nodup

theorem Counts.count_pos (hc : h.Counts refs) (ha : a ∈ refs) : 0 < (h.data a).count := by
  rw [hc.count a (hc.live a ha)]
  exact List.count_pos_iff.mpr ha

/-- A block with one reference has no second one. -/
theorem Counts.not_mem (hc : h.Counts (a :: refs)) (hone : (h.data a).count = 1) : a ∉ refs := by
  have hcount := hc.count a (hc.live a List.mem_cons_self)
  rw [hone, List.count_cons_self] at hcount
  exact List.count_eq_zero.mp (by omega)

theorem Counts.one_lt (hc : h.Counts (a :: refs)) (ha : a ∈ refs) : 1 < (h.data a).count := by
  have hcount := hc.count a (hc.live a List.mem_cons_self)
  have hpos : 0 < refs.count a := List.count_pos_iff.mpr ha
  rw [List.count_cons_self] at hcount
  omega

/-- Anything but the counts may change. -/
theorem Counts.of_eq {h' : Heap} (hc : h.Counts refs) (hnext : h'.next = h.next)
    (hfree : h'.freeList = h.freeList) (hcount : ∀ a, (h'.data a).count = (h.data a).count) :
    h'.Counts refs where
  live a ha := hnext ▸ hc.live a ha
  count a ha := (hcount a).trans (hc.count a (hnext ▸ ha))
  free a ha := hnext ▸ hc.free a (hfree ▸ ha)
  nodup := hfree ▸ hc.nodup

theorem Counts.setData (hc : h.Counts refs) (hd : d.count = (h.data a).count) :
    (h.setData a d).Counts refs := by
  have hcount : ∀ x, ((h.setData a d).data x).count = (h.data x).count := by
    intro x
    by_cases hx : x = a
    · rw [hx, setData_data_self, hd]
    · rw [setData_data_ne hx]
  exact hc.of_eq rfl rfl hcount

theorem Counts.retain (hc : h.Counts refs) (ha : a ∈ refs) : (h.retain a).Counts (a :: refs) where
  live x hx := by
    rcases List.mem_cons.mp hx with rfl | hx
    · exact hc.live x ha
    · exact hc.live x hx
  count x hx := by
    by_cases hxa : x = a
    · subst hxa
      simp [Heap.retain, hc.count x hx]
    · simp [Heap.retain, hxa, hc.count x hx, Ne.symm hxa]
  free x hx := by
    obtain ⟨hlt, hnot⟩ := hc.free x hx
    refine ⟨hlt, fun hmem => ?_⟩
    rcases List.mem_cons.mp hmem with rfl | hmem
    · exact hnot ha
    · exact hnot hmem
  nodup := hc.nodup

theorem Counts.release (hc : h.Counts (a :: refs)) : (h.release a).Counts refs := by
  have hlive := hc.live a List.mem_cons_self
  have hcount := hc.count a hlive
  rw [List.count_cons_self] at hcount
  have hcounts : ∀ x < h.next, ((h.release a).data x).count = refs.count x := by
    intro x hx
    rw [release_data]
    by_cases hxa : x = a
    · subst hxa
      simp [hcount]
    · rw [Function.update_of_ne hxa, hc.count x hx, List.count_cons_of_ne (Ne.symm hxa)]
  have hfree : ∀ x ∈ (h.release a).freeList, x < h.next ∧ x ∉ refs := by
    intro x hx
    simp only [Heap.release, Heap.recycle] at hx
    have hold : x ∈ h.freeList → x < h.next ∧ x ∉ refs := fun hmem =>
      ⟨(hc.free x hmem).1, fun hr => (hc.free x hmem).2 (List.mem_cons_of_mem _ hr)⟩
    split at hx
    · rename_i hzero
      rw [setData_data_self] at hzero
      split at hx
      · exact hold hx
      · -- the released block enters the list: nobody refers to it
        rcases List.mem_cons.mp hx with rfl | hx
        · refine ⟨hlive, List.count_eq_zero.mp ?_⟩
          simpa [hcount] using hzero
        · exact hold hx
    · exact hold hx
  have hnodup : (h.release a).freeList.Nodup := by
    simp only [Heap.release, Heap.recycle]
    split
    · split
      · exact hc.nodup
      · refine List.nodup_cons.mpr ⟨fun hmem => ?_, hc.nodup⟩
        exact (hc.free a hmem).2 List.mem_cons_self
    · exact hc.nodup
  refine ⟨?_, ?_, ?_, hnodup⟩
  · intro x hx
    rw [release_next]
    exact hc.live x (List.mem_cons_of_mem _ hx)
  · intro x hx
    exact hcounts x (release_next ▸ hx)
  · intro x hx
    rw [release_next]
    exact hfree x hx

/-- What `Buffer::Create` returns: a block that nobody refers to, of the size asked for. The other
blocks are left alone. -/
structure Created (h : Heap) (refs : List Nat) (dataSize : Nat) (h' : Heap) (a : Nat) : Prop where
  counts : h'.Counts (a :: refs)
  fresh : a ∉ refs
  size : dataSize ≤ (h'.data a).size
  count : (h'.data a).count = 1
  other : ∀ c ≠ a, h'.data c = h.data c

theorem Counts.allocate (hc : h.Counts refs) (hfree : h.freeList = []) (dataSize : Nat) :
    h.Created refs dataSize (h.allocate dataSize).1 (h.allocate dataSize).2 := by
  have hnot : h.next ∉ refs := fun hmem => Nat.lt_irrefl _ (hc.live _ hmem)
  refine ⟨⟨?_, ?_, ?_, ?_⟩, hnot, ?_, ?_, ?_⟩
  · intro x hx
    show x < h.next + 1
    rcases List.mem_cons.mp hx with rfl | hx
    · exact Nat.lt_succ_self _
    · exact Nat.lt_succ_of_lt (hc.live x hx)
  · intro x hx
    show ((h.setData h.next _).data x).count = (h.next :: refs).count x
    by_cases hxn : x = h.next
    · subst hxn
      simp [List.count_eq_zero.mpr hnot]
    · have hlt : x < h.next := by
        have hx' : x < h.next + 1 := hx
        omega
      rw [setData_data_ne hxn, List.count_cons_of_ne (Ne.symm hxn), hc.count x hlt]
  · intro x hx
    have hx' : x ∈ h.freeList := hx
    rw [hfree] at hx'
    cases hx'
  · exact hc.nodup
  · show dataSize ≤ ((h.setData h.next _).data h.next).size
    simp
  · show ((h.setData h.next _).data h.next).count = 1
    simp
  · intro c hcn
    exact setData_data_ne hcn

theorem Counts.create (hc : h.Counts refs) (dataSize : Nat) :
    h.Created refs dataSize (h.create dataSize).1 (h.create dataSize).2 := by
  unfold Heap.create
  have hsub := List.dropWhile_sublist (fun a => decide ((h.data a).size < dataSize))
    (l := h.freeList)
  split
  · rename_i a rest hdrop
    rw [hdrop] at hsub
    have hnodup := hc.nodup.sublist hsub
    obtain ⟨hlive, hnot⟩ := hc.free a (hsub.subset List.mem_cons_self)
    have hsize : dataSize ≤ (h.data a).size := by
      have hne : h.freeList.dropWhile (fun a => decide ((h.data a).size < dataSize)) ≠ [] := by
        simp [hdrop]
      have hhead := List.head_dropWhile_not _ hne
      simpa [hdrop] using hhead
    refine ⟨⟨?_, ?_, ?_, ?_⟩, hnot, ?_, ?_, ?_⟩
    · intro x hx
      rcases List.mem_cons.mp hx with rfl | hx
      · exact hlive
      · exact hc.live x hx
    · intro x hx
      by_cases hxa : x = a
      · subst hxa
        simp [List.count_eq_zero.mpr hnot]
      · rw [setData_data_ne hxa, List.count_cons_of_ne (Ne.symm hxa)]
        exact hc.count x hx
    · intro x hx
      obtain ⟨hlt, hxnot⟩ := hc.free x (hsub.subset (List.mem_cons_of_mem _ hx))
      refine ⟨hlt, fun hmem => ?_⟩
      rcases List.mem_cons.mp hmem with rfl | hmem
      · exact (List.nodup_cons.mp hnodup).1 hx
      · exact hxnot hmem
    · exact (List.nodup_cons.mp hnodup).2
    · simpa using hsize
    · simp
    · intro c hca
      exact setData_data_ne hca
  · have hempty : ({ h with freeList := [] } : Heap).Counts refs :=
      ⟨hc.live, hc.count, (fun x hx => nomatch hx), List.nodup_nil⟩
    have hall := hempty.allocate rfl dataSize
    exact ⟨hall.counts, hall.fresh, hall.size, hall.count, hall.other⟩

end Heap

end Ns3.Network
