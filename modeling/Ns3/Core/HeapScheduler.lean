import Ns3.Core.Scheduler
import Ns3.Lib.BinaryHeap

/-!
# The heap scheduler

The scheduler that keeps its events in a binary heap. `Remove` puts the last event in the place of
the removed one and sifts it towards the leaves only, so the heap stays ordered exactly when that
event is not before the new parent.
-/

namespace Ns3.Core

open Ns3.Lib Scheduler

/-- The array of the heap; the item at index 0 is wasted, so that indexes start at one. -/
structure HeapScheduler where
  m_heap : Array Event := #[⟨0, ⟨0, 0, 0⟩⟩]
deriving Repr, DecidableEq

namespace HeapScheduler

/-- `m_heap[i]`, for an index of the array. -/
def item (s : HeapScheduler) (i : ℕ) : Event := s.m_heap.getD i ⟨0, ⟨0, 0, 0⟩⟩

def parent (id : ℕ) : ℕ := id / 2

def leftChild (id : ℕ) : ℕ := id * 2

def rightChild (id : ℕ) : ℕ := id * 2 + 1

def root : ℕ := 1

def isRoot (id : ℕ) : Bool := id == root

def last (s : HeapScheduler) : ℕ := s.m_heap.size - 1

def isBottom (s : HeapScheduler) (id : ℕ) : Bool := id ≥ s.m_heap.size

def exch (s : HeapScheduler) (a b : ℕ) : HeapScheduler := ⟨s.m_heap.swapIfInBounds a b⟩

def isLessStrictly (s : HeapScheduler) (a b : ℕ) : Bool := (s.item a).key.less (s.item b).key

def smallest (s : HeapScheduler) (a b : ℕ) : ℕ := if s.isLessStrictly a b then a else b

def isEmpty (s : HeapScheduler) : Bool := s.m_heap.size == 1

/-- The loop of `BottomUp`; each turn halves the index. -/
def bottomUpLoop : ℕ → HeapScheduler → ℕ → HeapScheduler
  | 0, s, _ => s
  | fuel + 1, s, index =>
    if !isRoot index && s.isLessStrictly index (parent index) then
      bottomUpLoop fuel (s.exch index (parent index)) (parent index)
    else s

def bottomUp (s : HeapScheduler) : HeapScheduler := bottomUpLoop s.m_heap.size s s.last

/-- The loop of `TopDown` and what follows it; each turn increases the index. -/
def topDownLoop : ℕ → HeapScheduler → ℕ → HeapScheduler
  | 0, s, _ => s
  | fuel + 1, s, index =>
    if !s.isBottom (rightChild index) then
      let tmp := s.smallest (leftChild index) (rightChild index)
      if s.isLessStrictly index tmp then s
      else topDownLoop fuel (s.exch index tmp) tmp
    else if s.isBottom index then s
    else if s.isBottom (leftChild index) then s
    else if s.isLessStrictly index (leftChild index) then s
    else s.exch index (leftChild index)

def topDown (s : HeapScheduler) (start : ℕ) : HeapScheduler := topDownLoop s.m_heap.size s start

def insert (s : HeapScheduler) (ev : Event) : HeapScheduler :=
  bottomUp ⟨s.m_heap.push ev⟩

def popBack (s : HeapScheduler) : HeapScheduler := ⟨s.m_heap.pop⟩

/-- There is no next event in an empty heap. -/
def peekNext (s : HeapScheduler) : Option Event := s.m_heap[root]?

def removeNext (s : HeapScheduler) : Option (Event × HeapScheduler) := do
  let next ← s.m_heap[root]?
  return (next, ((s.exch root s.last).popBack).topDown root)

/-- The index at which `Remove` finds the uid. -/
def find (s : HeapScheduler) (uid : ℕ) : Option ℕ :=
  (List.range' 1 (s.m_heap.size - 1)).find? fun i => uid == (s.item i).key.m_uid

def remove (s : HeapScheduler) (ev : Event) : Option HeapScheduler := do
  let i ← s.find ev.key.m_uid
  return ((s.exch i s.last).popBack).topDown i

def step (s : HeapScheduler) : Request → Option (HeapScheduler × Option Event)
  | .insert ev => some (s.insert ev, none)
  | .peekNext => s.peekNext.map fun ev => (s, some ev)
  | .removeNext => s.removeNext.map fun p => (p.2, some p.1)
  | .remove ev => (s.remove ev).map fun s' => (s', none)

/-! ## What is stored -/

/-- The stored events. -/
def stored (s : HeapScheduler) : Multiset Event := s.m_heap.toList.tail

/-- The keys by index. -/
def keyAt (s : HeapScheduler) (i : ℕ) : ℕ ×ₗ ℕ := (s.item i).key.order

/-- No event is after its children. -/
def Ordered (s : HeapScheduler) : Prop := BinaryHeap.Ordered s.keyAt s.last

theorem item_eq_getElem {s : HeapScheduler} {i : ℕ} (hi : i < s.m_heap.size) :
    s.item i = s.m_heap[i] := by
  simp [item, hi]

theorem isLessStrictly_iff {s : HeapScheduler} {a b : ℕ} :
    s.isLessStrictly a b = true ↔ s.keyAt a < s.keyAt b :=
  EventKey.less_iff

theorem isLessStrictly_eq_false_iff {s : HeapScheduler} {a b : ℕ} :
    s.isLessStrictly a b = false ↔ s.keyAt b ≤ s.keyAt a :=
  EventKey.less_eq_false_iff

theorem mem_stored_iff {s : HeapScheduler} {ev : Event} :
    ev ∈ s.stored ↔ ∃ i, 1 ≤ i ∧ i < s.m_heap.size ∧ s.item i = ev := by
  unfold stored
  rw [Multiset.mem_coe, List.mem_iff_getElem]
  constructor
  · rintro ⟨i, hi, rfl⟩
    rw [List.length_tail, Array.length_toList] at hi
    refine ⟨i + 1, by omega, by omega, ?_⟩
    rw [item_eq_getElem (by omega)]
    simp
  · rintro ⟨i, h1, hi, rfl⟩
    refine ⟨i - 1, by simp; omega, ?_⟩
    rw [item_eq_getElem hi]
    simp [Nat.sub_add_cancel h1]

/-- The array is the wasted item and the stored events. -/
theorem toList_eq {s : HeapScheduler} (h : 1 ≤ s.m_heap.size) :
    (s.m_heap.toList : Multiset Event) = s.item 0 ::ₘ s.stored := by
  rw [item_eq_getElem h]
  unfold stored
  rw [Multiset.cons_coe]
  congr 1
  rw [← Array.getElem_toList, List.getElem_zero_eq_head, List.cons_head_tail]

theorem item_exch {s : HeapScheduler} {a b : ℕ} (ha : a < s.m_heap.size) (hb : b < s.m_heap.size) :
    (s.exch a b).item = BinaryHeap.exch s.item a b := by
  ext1 k
  have hk : (s.exch a b).m_heap.size = s.m_heap.size := Array.size_swapIfInBounds
  unfold BinaryHeap.exch
  by_cases hks : k < s.m_heap.size
  · rw [item_eq_getElem (hk ▸ hks), item_eq_getElem ha, item_eq_getElem hb, item_eq_getElem hks]
    unfold exch
    rw [Array.getElem_swapIfInBounds]
    by_cases hka : k = a
    · simp [hka, hb]
    · by_cases hkb : k = b
      · simp [hkb, ha, hkb ▸ hka]
      · simp [hka, hkb]
  · rw [if_neg (by omega), if_neg (by omega)]
    simp [item, hk, hks]

theorem keyAt_exch {s : HeapScheduler} {a b : ℕ} (ha : a < s.m_heap.size)
    (hb : b < s.m_heap.size) : (s.exch a b).keyAt = BinaryHeap.exch s.keyAt a b := by
  ext1 k
  unfold keyAt
  rw [item_exch ha hb]
  unfold BinaryHeap.exch
  split
  · rfl
  · split <;> rfl

/-- The same events at other indexes. -/
structure Rearranged (s s' : HeapScheduler) : Prop where
  size_eq : s'.m_heap.size = s.m_heap.size
  stored_eq : s'.stored = s.stored

theorem Rearranged.refl (s : HeapScheduler) : Rearranged s s := ⟨rfl, rfl⟩

theorem Rearranged.trans {s s' s'' : HeapScheduler} (h : Rearranged s s')
    (h' : Rearranged s' s'') : Rearranged s s'' :=
  ⟨h'.size_eq.trans h.size_eq, h'.stored_eq.trans h.stored_eq⟩

theorem Rearranged.last_eq {s s' : HeapScheduler} (h : Rearranged s s') : s'.last = s.last :=
  congrArg (· - 1) h.size_eq

theorem Rearranged.exch {s : HeapScheduler} {a b : ℕ} (ha : 1 ≤ a) (hb : 1 ≤ b)
    (has : a < s.m_heap.size) (hbs : b < s.m_heap.size) : Rearranged s (s.exch a b) := by
  have hsize : (s.exch a b).m_heap.size = s.m_heap.size := Array.size_swapIfInBounds
  refine ⟨hsize, ?_⟩
  have hperm : ((s.exch a b).m_heap.toList : Multiset Event) = s.m_heap.toList := by
    rw [Multiset.coe_eq_coe, ← Array.perm_iff_toList_perm]
    unfold HeapScheduler.exch Array.swapIfInBounds
    rw [dif_pos has, dif_pos hbs]
    exact Array.swap_perm has hbs
  rw [toList_eq (by omega), toList_eq (by omega), item_exch has hbs,
    BinaryHeap.exch_of_ne _ (by omega) (by omega)] at hperm
  exact (Multiset.cons_inj_right _).mp hperm

/-! ## The sifts -/

theorem bottomUpLoop_spec (fuel : ℕ) (s : HeapScheduler) (index : ℕ) (h1 : 1 ≤ index)
    (hs : index < s.m_heap.size) (hf : index ≤ fuel)
    (h : BinaryHeap.UpOrder s.keyAt s.last index) :
    Rearranged s (bottomUpLoop fuel s index) ∧ (bottomUpLoop fuel s index).Ordered := by
  induction fuel generalizing s index with
  | zero => omega
  | succ fuel ih =>
    unfold bottomUpLoop
    split
    · next hc =>
      simp only [isRoot, root, parent, Bool.and_eq_true, Bool.not_eq_true', beq_eq_false_iff_ne,
        isLessStrictly_iff] at hc
      have hr : Rearranged s (s.exch index (parent index)) :=
        .exch h1 (by unfold parent; omega) hs (by unfold parent; omega)
      have hmove := h.move (by omega) (by unfold last; omega) hc.2
      obtain ⟨hr', ho⟩ := ih (s.exch index (parent index)) (parent index)
        (by unfold parent; omega) (by rw [hr.size_eq]; unfold parent; omega)
        (by unfold parent; omega)
        (by rw [hr.last_eq, keyAt_exch hs (by unfold parent; omega)]; exact hmove)
      exact ⟨hr.trans hr', ho⟩
    · next hc =>
      refine ⟨.refl s, h.finish ?_⟩
      intro h2
      simp only [isRoot, root, parent, Bool.and_eq_true, Bool.not_eq_true', beq_eq_false_iff_ne,
        isLessStrictly_iff, not_and, not_lt] at hc
      exact hc (by omega)

/-- `Insert` keeps the order. -/
theorem insert_spec {s : HeapScheduler} (hs : 1 ≤ s.m_heap.size) (h : s.Ordered) (ev : Event) :
    (s.insert ev).m_heap.size = s.m_heap.size + 1 ∧
      (s.insert ev).stored = ev ::ₘ s.stored ∧ (s.insert ev).Ordered := by
  have hitem : ∀ k, k < s.m_heap.size → item ⟨s.m_heap.push ev⟩ k = s.item k := by
    intro k hk
    rw [item_eq_getElem (by simp; omega), item_eq_getElem hk]
    exact Array.getElem_push_lt hk
  have hstored : stored ⟨s.m_heap.push ev⟩ = ev ::ₘ s.stored := by
    unfold stored
    rw [Array.toList_push, List.tail_append_of_ne_nil (by simp; grind), Multiset.cons_coe,
      Multiset.coe_eq_coe]
    exact List.perm_append_singleton ev _
  have hup := BinaryHeap.UpOrder.last (b := keyAt ⟨s.m_heap.push ev⟩) h
    (by intro k _ hk; unfold keyAt; rw [hitem k (by unfold last at hk; omega)])
  have hlast : last ⟨s.m_heap.push ev⟩ = s.last + 1 := by
    simp [last]
    omega
  obtain ⟨hr, ho⟩ := bottomUpLoop_spec (s.m_heap.push ev).size ⟨s.m_heap.push ev⟩
    (last ⟨s.m_heap.push ev⟩) (by omega) (by simp [last]) (by simp [last])
    (by rw [hlast]; exact hup)
  refine ⟨?_, ?_, ho⟩
  · exact hr.size_eq.trans (Array.size_push _)
  · exact hr.stored_eq.trans hstored

theorem smallest_spec (s : HeapScheduler) (a b : ℕ) :
    (s.smallest a b = a ∨ s.smallest a b = b) ∧
      s.keyAt (s.smallest a b) ≤ s.keyAt a ∧ s.keyAt (s.smallest a b) ≤ s.keyAt b := by
  unfold smallest
  split
  · next h => exact ⟨Or.inl rfl, le_rfl, (isLessStrictly_iff.mp h).le⟩
  · next h =>
    rw [Bool.not_eq_true] at h
    exact ⟨Or.inr rfl, isLessStrictly_eq_false_iff.mp h, le_rfl⟩

/-- An index without children ends the sift. -/
theorem ordered_of_leaf {s : HeapScheduler} {index : ℕ}
    (h : BinaryHeap.DownOrder s.keyAt s.last index) (hl : s.m_heap.size ≤ leftChild index) :
    s.Ordered := by
  apply h.finish
  intro i h2 hi hp
  unfold leftChild at hl
  unfold last at hi
  omega

theorem topDownLoop_spec (fuel : ℕ) (s : HeapScheduler) (index : ℕ) (h1 : 1 ≤ index)
    (hf : s.m_heap.size ≤ index + fuel) (h : BinaryHeap.DownOrder s.keyAt s.last index) :
    Rearranged s (topDownLoop fuel s index) ∧ (topDownLoop fuel s index).Ordered := by
  induction fuel generalizing s index with
  | zero =>
    have ho : s.Ordered := ordered_of_leaf h (by unfold leftChild; omega)
    exact ⟨.refl s, ho⟩
  | succ fuel ih =>
    unfold topDownLoop
    split
    · next hright =>
      simp only [isBottom, rightChild, Bool.not_eq_true', decide_eq_false_iff_not, ge_iff_le,
        not_le] at hright
      obtain ⟨hmem, hle, hle'⟩ := s.smallest_spec (leftChild index) (rightChild index)
      generalize s.smallest (leftChild index) (rightChild index) = tmp at hmem hle hle'
      have hmin : ∀ i, i ≤ s.last → i / 2 = index → s.keyAt tmp ≤ s.keyAt i := by
        intro i _ hi
        have : i = leftChild index ∨ i = rightChild index := by
          unfold leftChild rightChild
          omega
        rcases this with rfl | rfl
        · exact hle
        · exact hle'
      simp only [leftChild, rightChild] at hmem
      dsimp only
      split
      · next hless =>
        refine ⟨.refl s, h.finish ?_⟩
        intro i _ hi hp
        exact (isLessStrictly_iff.mp hless).le.trans (hmin i hi hp)
      · next hless =>
        rw [Bool.not_eq_true, isLessStrictly_eq_false_iff] at hless
        have hr : Rearranged s (s.exch index tmp) :=
          .exch h1 (by omega) (by omega) (by omega)
        have hmove : BinaryHeap.DownOrder (s.exch index tmp).keyAt (s.exch index tmp).last tmp := by
          rw [hr.last_eq, keyAt_exch (by omega) (by omega)]
          exact h.move (by omega) (by unfold last; omega) hless hmin
        obtain ⟨hr', ho⟩ := ih (s.exch index tmp) tmp (by omega) (by rw [hr.size_eq]; omega) hmove
        exact ⟨hr.trans hr', ho⟩
    · next hright =>
      simp only [isBottom, rightChild, Bool.not_eq_true', decide_eq_false_iff_not, ge_iff_le,
        not_le, not_lt] at hright
      split
      · next hb =>
        simp only [isBottom, ge_iff_le, decide_eq_true_eq] at hb
        exact ⟨.refl s, ordered_of_leaf h (by unfold leftChild; omega)⟩
      · split
        · next hb =>
          simp only [isBottom, ge_iff_le, decide_eq_true_eq] at hb
          exact ⟨.refl s, ordered_of_leaf h hb⟩
        · next hb =>
          simp only [isBottom, leftChild, ge_iff_le, decide_eq_true_eq, not_le] at hb
          have honly : ∀ i, i ≤ s.last → i / 2 = index → i = leftChild index := by
            intro i hi hp
            unfold last at hi
            unfold leftChild
            omega
          split
          · next hless =>
            refine ⟨.refl s, h.finish ?_⟩
            intro i _ hi hp
            rw [honly i hi hp]
            exact (isLessStrictly_iff.mp hless).le
          · next hless =>
            rw [Bool.not_eq_true, isLessStrictly_eq_false_iff] at hless
            have hr : Rearranged s (s.exch index (leftChild index)) :=
              .exch h1 (by unfold leftChild; omega) (by omega) (by unfold leftChild; omega)
            refine ⟨hr, ?_⟩
            unfold Ordered
            rw [hr.last_eq, keyAt_exch (by omega) (by unfold leftChild; omega)]
            refine (h.move (by unfold leftChild; omega) (by unfold leftChild last; omega) hless
              (fun i hi hp => (congrArg s.keyAt (honly i hi hp)).ge)).finish ?_
            intro i _ hi hp
            unfold last at hi
            unfold leftChild at hp
            omega

/-! ## Taking an event out -/

theorem item_popBack {s : HeapScheduler} {k : ℕ} (hk : k < s.last) :
    s.popBack.item k = s.item k := by
  have hs : k < s.popBack.m_heap.size := by
    unfold popBack
    rw [Array.size_pop]
    exact hk
  rw [item_eq_getElem hs, item_eq_getElem (by unfold last at hk; omega)]
  exact Array.getElem_pop _

theorem stored_popBack {s : HeapScheduler} (hs : 2 ≤ s.m_heap.size) :
    s.item s.last ::ₘ s.popBack.stored = s.stored := by
  have hlast : s.m_heap.toList.tail.getLast? = some (s.item s.last) := by
    rw [item_eq_getElem (by unfold last; omega), List.getLast?_eq_getElem?, List.getElem?_tail,
      List.length_tail, Array.length_toList, Nat.sub_add_cancel (by omega)]
    simp [last]
  unfold stored popBack
  rw [Array.toList_pop, List.tail_dropLast, Multiset.cons_coe, Multiset.coe_eq_coe]
  refine (List.perm_append_singleton _ _).symm.trans ?_
  rw [List.dropLast_append_getLast? _ hlast]

/-- The heap without the event of the index `i`. -/
def take (s : HeapScheduler) (i : ℕ) : HeapScheduler := ((s.exch i s.last).popBack).topDown i

/-- The last event takes the place of the removed one, and must not be before the parent of that
place. -/
theorem take_spec {s : HeapScheduler} (h : s.Ordered) {i : ℕ} (h1 : 1 ≤ i) (hi : i ≤ s.last)
    (hsink : i = root ∨ i = s.last ∨ s.isLessStrictly s.last (parent i) = false) :
    (s.take i).m_heap.size = s.m_heap.size - 1 ∧ s.item i ::ₘ (s.take i).stored = s.stored ∧
      (s.take i).Ordered := by
  have hlast : s.last + 1 = s.m_heap.size := by
    unfold last at hi ⊢
    omega
  have hx : Rearranged s (s.exch i s.last) := .exch h1 (by omega) (by omega) (by omega)
  have hsize : (s.exch i s.last).popBack.m_heap.size = s.m_heap.size - 1 := by
    rw [← hx.size_eq]
    exact Array.size_pop
  have hitem : ∀ k, k < s.last →
      (s.exch i s.last).popBack.item k = BinaryHeap.exch s.item i s.last k := by
    intro k hk
    rw [item_popBack (by rw [hx.last_eq]; exact hk), item_exch (by omega) (by omega)]
  have hstored : s.item i ::ₘ (s.exch i s.last).popBack.stored = s.stored := by
    have hpop := stored_popBack (s := s.exch i s.last) (by rw [hx.size_eq]; omega)
    rw [hx.last_eq, item_exch (by omega) (by omega), BinaryHeap.exch_right, hx.stored_eq] at hpop
    exact hpop
  have hdown : BinaryHeap.DownOrder (s.exch i s.last).popBack.keyAt
      (s.exch i s.last).popBack.last i := by
    have hl : (s.exch i s.last).popBack.last = s.last - 1 := by
      rw [last, hsize, last]
    rw [hl]
    apply BinaryHeap.DownOrder.replace h (by omega)
    · intro k hk hkm hki
      unfold keyAt
      rw [hitem k (by omega), BinaryHeap.exch_of_ne _ hki (by omega)]
    · intro h2 him
      have hk : (s.exch i s.last).popBack.keyAt i = s.keyAt s.last := by
        unfold keyAt
        rw [hitem i (by omega), BinaryHeap.exch_left]
      rw [hk]
      rcases hsink with hroot | hil | hless
      · unfold root at hroot
        omega
      · omega
      · exact isLessStrictly_eq_false_iff.mp hless
  obtain ⟨hr, ho⟩ := topDownLoop_spec (s.exch i s.last).popBack.m_heap.size
    (s.exch i s.last).popBack i h1 (by omega) hdown
  refine ⟨hr.size_eq.trans hsize, ?_, ho⟩
  unfold take topDown
  rw [hr.stored_eq]
  exact hstored

theorem find_spec {s : HeapScheduler} {uid i : ℕ} (h : s.find uid = some i) :
    1 ≤ i ∧ i ≤ s.last ∧ (s.item i).key.m_uid = uid := by
  unfold find at h
  have hmem := List.mem_of_find?_eq_some h
  have huid := List.find?_some h
  rw [List.mem_range'_1] at hmem
  refine ⟨hmem.1, by unfold last; omega, ?_⟩
  exact (beq_iff_eq.mp huid).symm

theorem find_isSome {s : HeapScheduler} {ev : Event} (h : ev ∈ s.stored) :
    ∃ i, s.find ev.key.m_uid = some i := by
  obtain ⟨i, h1, hi, heq⟩ := mem_stored_iff.mp h
  rw [← Option.isSome_iff_exists, find, List.find?_isSome]
  refine ⟨i, List.mem_range'_1.mpr (by omega), ?_⟩
  rw [heq]
  exact beq_self_eq_true _

/-! ## Runs -/

/-- `m_heap[i]` is not greater than its children, for every index `i`. -/
def HeapOrder (s : HeapScheduler) : Prop :=
  ∀ i, root ≤ i → ∀ c, c = leftChild i ∨ c = rightChild i → s.isBottom c = false →
    s.isLessStrictly c i = false

theorem Ordered.heapOrder {s : HeapScheduler} (h : s.Ordered) : s.HeapOrder := by
  intro i hi c hc hb
  simp only [isBottom, ge_iff_le, decide_eq_false_iff_not, not_le] at hb
  unfold root at hi
  unfold leftChild rightChild at hc
  rw [isLessStrictly_eq_false_iff]
  have hp := h c (by omega) (by unfold last; omega)
  rwa [show c / 2 = i by omega] at hp

/-- The condition on a request that keeps the heap ordered: the event moved to the place of a
removed one is not before the parent of that place. -/
def sinks (s : HeapScheduler) : Request → Bool
  | .remove ev =>
    match s.find ev.key.m_uid with
    | some i => i == root || i == s.last || !s.isLessStrictly s.last (parent i)
    | none => true
  | _ => true

/-- The runs from the empty heap, with the events inserted and not yet removed. `Q` is the condition
on each request. -/
inductive Run (Q : HeapScheduler → Request → Bool) : HeapScheduler → Multiset Event → Prop
  | start : Run Q {} 0
  | step {s s' : HeapScheduler} {q : Multiset Event} {r : Request} {ans : Option Event}
    (h : Run Q s q) (hr : Legal q r) (hQ : Q s r = true) (hs : s.step r = some (s', ans)) :
    Run Q s' (after q r ans)

/-- What holds between the requests. -/
structure Inv (s : HeapScheduler) (q : Multiset Event) : Prop where
  size_pos : 1 ≤ s.m_heap.size
  ordered : s.Ordered
  stored_eq : s.stored = q
  distinct : DistinctUids q

theorem Inv.start : Inv {} 0 where
  size_pos := le_rfl
  ordered := by
    intro i h2 hi
    simp [last] at hi
    omega
  stored_eq := rfl
  distinct := .zero

theorem Inv.root_isNext {s : HeapScheduler} {q : Multiset Event} (h : Inv s q) (hq : q ≠ 0) :
    2 ≤ s.m_heap.size ∧ s.m_heap[root]? = some (s.item root) ∧ IsNext q (s.item root) := by
  have hmem := Multiset.exists_mem_of_ne_zero hq
  rw [← h.stored_eq] at hmem
  obtain ⟨x, hx⟩ := hmem
  obtain ⟨j, h1, hj, -⟩ := mem_stored_iff.mp hx
  have hroot : root < s.m_heap.size := by
    unfold root
    omega
  refine ⟨hroot, ?_, ?_⟩
  · rw [item_eq_getElem hroot]
    exact Array.getElem?_eq_getElem hroot
  · have hin : s.item root ∈ q := by
      rw [← h.stored_eq]
      exact mem_stored_iff.mpr ⟨root, le_rfl, hroot, rfl⟩
    apply IsNext.of_le h.distinct hin
    intro y hy
    rw [← h.stored_eq] at hy
    obtain ⟨i, h1, hi, rfl⟩ := mem_stored_iff.mp hy
    exact h.ordered.root_le i h1 (by unfold last; omega)

/-- One legal request that meets the condition. -/
theorem Inv.step {s : HeapScheduler} {q : Multiset Event} (h : Inv s q) {r : Request}
    (hr : Legal q r) (hQ : s.sinks r = true) :
    ∃ s' ans, s.step r = some (s', ans) ∧ Answers q r ans ∧ Inv s' (after q r ans) := by
  cases r with
  | insert ev =>
    obtain ⟨hsize, hstored, ho⟩ := insert_spec h.size_pos h.ordered ev
    refine ⟨s.insert ev, none, rfl, rfl, ?_⟩
    exact ⟨by omega, ho, by rw [hstored, h.stored_eq]; rfl, h.distinct.after hr none⟩
  | peekNext =>
    obtain ⟨-, hget, hnext⟩ := h.root_isNext hr
    exact ⟨s, some (s.item root), by simp [HeapScheduler.step, peekNext, hget], ⟨_, rfl, hnext⟩, h⟩
  | removeNext =>
    obtain ⟨h2, hget, hnext⟩ := h.root_isNext hr
    obtain ⟨hsize, hstored, ho⟩ := take_spec h.ordered (i := root) le_rfl
      (by unfold root last; omega) (Or.inl rfl)
    refine ⟨s.take root, some (s.item root), ?_, ⟨_, rfl, hnext⟩, by omega, ho, ?_,
      h.distinct.after hr _⟩
    · simp [HeapScheduler.step, removeNext, hget, take]
    · rw [← h.stored_eq, ← hstored]
      exact (Multiset.erase_cons_head _ _).symm
  | remove ev =>
    have hev : ev ∈ s.stored := by
      rw [h.stored_eq]
      exact hr
    obtain ⟨i, hfind⟩ := find_isSome hev
    obtain ⟨h1, hi, huid⟩ := find_spec hfind
    have hsink : i = root ∨ i = s.last ∨ s.isLessStrictly s.last (parent i) = false := by
      simpa [sinks, hfind, or_assoc] using hQ
    obtain ⟨hsize, hstored, ho⟩ := take_spec h.ordered h1 hi hsink
    have hitem : s.item i = ev := by
      have hin : s.item i ∈ s.stored :=
        mem_stored_iff.mpr ⟨i, h1, by unfold last at hi; omega, rfl⟩
      rw [h.stored_eq] at hin
      exact h.distinct.eq hin hr huid
    refine ⟨s.take i, none, ?_, rfl, by unfold last at hi; omega, ho, ?_, h.distinct.after hr _⟩
    · simp [HeapScheduler.step, remove, hfind, take]
    · rw [← h.stored_eq, ← hstored, hitem]
      exact (Multiset.erase_cons_head _ _).symm

theorem Run.inv {s : HeapScheduler} {q : Multiset Event} (h : Run sinks s q) : Inv s q := by
  induction h with
  | start => exact .start
  | step h hr hQ hs ih =>
    obtain ⟨s', ans, heq, -, hinv⟩ := ih.step hr hQ
    rw [hs] at heq
    cases heq
    exact hinv

/-- While every removal meets the condition, the heap is a priority queue. -/
theorem queue_of_sinks {s : HeapScheduler} {q : Multiset Event} (h : Run sinks s q) :
    s.HeapOrder ∧ s.stored = q ∧
      ∀ r, Legal q r → s.sinks r = true → ∃ s' ans, s.step r = some (s', ans) ∧
      Answers q r ans := by
  refine ⟨h.inv.ordered.heapOrder, h.inv.stored_eq, ?_⟩
  intro r hr hQ
  obtain ⟨s', ans, hs, hans, -⟩ := h.inv.step hr hQ
  exact ⟨s', ans, hs, hans⟩

/-- The requests one after the other, while they are legal and meet the condition. -/
def exec (Q : HeapScheduler → Request → Bool) (s : HeapScheduler) (q : Multiset Event) :
    List Request → Option (HeapScheduler × Multiset Event)
  | [] => some (s, q)
  | r :: rs =>
    if Legal q r ∧ Q s r = true then
      match s.step r with
      | some (s', ans) => exec Q s' (after q r ans) rs
      | none => none
    else none

theorem Run.exec {Q : HeapScheduler → Request → Bool} {s s' : HeapScheduler}
    {q q' : Multiset Event} {rs : List Request} (h : Run Q s q)
    (he : exec Q s q rs = some (s', q')) : Run Q s' q' := by
  induction rs generalizing s q with
  | nil =>
    cases he
    exact h
  | cons r rs ih =>
    unfold HeapScheduler.exec at he
    split at he
    · next hr =>
      split at he
      · next hs => exact ih (.step h hr.1 hr.2 hs) he
      · cases he
    · cases he

/-- The event with the time stamp `ts` and the uid `uid`. -/
def event (ts uid : ℕ) : Event := ⟨uid, ⟨ts, uid, 0⟩⟩

/-- A removal that meets the condition, with what holds after it. -/
theorem queue_of_sinks_remove :
    HeapOrder ⟨#[event 0 0, event 1 4, event 2 6]⟩ ∧
      stored ⟨#[event 0 0, event 1 4, event 2 6]⟩ = {event 1 4, event 2 6} := by
  have hs : HeapScheduler.exec sinks {} 0 [.insert (event 1 4), .insert (event 5 5),
      .insert (event 2 6), .remove (event 5 5)] =
        some (⟨#[event 0 0, event 1 4, event 2 6]⟩, {event 1 4, event 2 6}) := by
    decide
  obtain ⟨horder, hstored, -⟩ := queue_of_sinks (Run.start.exec hs)
  exact ⟨horder, hstored⟩

/-- After a removal that does not meet the condition the heap is out of order, and the next event is
not the earliest one. -/
theorem remove_misorders :
    ∃ s q, Run (fun _ _ => true) s q ∧ ¬ s.HeapOrder ∧
      ∃ ev s', s.removeNext = some (ev, s') ∧ ¬ IsNext q ev := by
  have hs : HeapScheduler.exec (fun _ _ => true) {} 0 [.insert (event 1 4), .insert (event 10 5),
      .insert (event 2 6), .insert (event 11 7), .insert (event 12 8), .insert (event 20 9),
      .insert (event 3 10), .remove (event 11 7), .removeNext, .removeNext] =
        some (⟨#[event 0 0, event 10 5, event 3 10, event 20 9, event 12 8]⟩,
          {event 3 10, event 10 5, event 12 8, event 20 9}) := by
    decide
  refine ⟨_, _, Run.start.exec hs, ?_, event 10 5,
    ⟨#[event 0 0, event 3 10, event 12 8, event 20 9]⟩, by decide, ?_⟩
  · intro h
    have := h root le_rfl (leftChild root) (Or.inl rfl) rfl
    exact absurd this (by decide)
  · rintro ⟨-, hmin⟩
    have := hmin (event 3 10) (by decide) (by decide)
    exact absurd this (by decide)

end HeapScheduler

end Ns3.Core
