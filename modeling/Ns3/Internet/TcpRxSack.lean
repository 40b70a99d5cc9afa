import Ns3.Internet.TcpRxRun
import Ns3.Lib.MergedSpans

/-!
# The SACK list describes the buffer

The blocks of `m_sackList` are spans with gaps between them, as long as no segment above the next
byte encloses a packet that a block reports. `Add` then erases the packet, but its block stays.
-/

namespace Ns3.Internet

open Ns3.Network Ns3.Lib SequenceNumber32

/-- The block of a span. -/
def block (init : ℕ) (z : ℕ × ℕ) : SackBlock := (pos (init + z.1), pos (init + z.2))

/-- There is a gap between the blocks. -/
def Distinct (b c : SackBlock) : Prop := b.2.lt c.1 = true ∨ c.2.lt b.1 = true

/-- A span in the window from `lo`. -/
def Inside (lo : ℕ) (z : ℕ × ℕ) : Prop := lo ≤ z.1 ∧ z.1 < z.2 ∧ z.2 < lo + 2 ^ 31

variable {stream : List UInt8} {init lo n : ℕ} {ds : List (ℕ × ℕ)} {x z : ℕ × ℕ}

theorem distinct_iff (hx : Inside lo x) (hz : Inside lo z) :
    Distinct (block init x) (block init z) ↔ Separate x z := by
  obtain ⟨h1, h2, h3⟩ := hx
  obtain ⟨h4, h5, h6⟩ := hz
  rw [Distinct, block, block, Separate, lt_window (by omega) h3 h4 (by omega),
    lt_window (by omega) h6 h1 (by omega), decide_eq_true_eq, decide_eq_true_eq]

/-- The merging of blocks is that of spans. -/
theorem mergeBlocks_map {passed rest : List (ℕ × ℕ)} (hx : Inside lo x)
    (hpassed : ∀ z ∈ passed, Inside lo z) (hrest : ∀ z ∈ rest, Inside lo z) :
    TcpRxBuffer.mergeBlocks (block init x) (passed.map (block init)) (rest.map (block init)) =
      some ((mergeSpans x passed rest).map (block init)) := by
  induction x, passed, rest using mergeSpans.induct with
  | case1 x passed =>
    rw [List.map_nil, TcpRxBuffer.mergeBlocks, mergeSpans]
    rfl
  | case2 x passed z rest hleft ih =>
    obtain ⟨hz, hrest⟩ := List.forall_mem_cons.mp hrest
    obtain ⟨h1, h2, h3⟩ := hx
    obtain ⟨h4, h5, h6⟩ := hz
    have hlt : (block init z).1.lt (block init x).2 = true := by
      rw [block, block, lt_window h4 (by omega) (by omega) h3, decide_eq_true_eq]
      omega
    have heq : (block init x).1 = (block init z).2 := by rw [block, block, hleft]
    have hnew := ih ⟨h4, by omega, h3⟩ (fun _ h => (List.not_mem_nil h).elim)
      (List.forall_mem_append.mpr ⟨hpassed, hrest⟩)
    rw [List.map_cons, TcpRxBuffer.mergeBlocks, mergeSpans, if_pos heq, if_pos hlt, if_pos hleft,
      ← hnew, List.map_append]
    rfl
  | case3 x passed z rest hleft hright ih =>
    obtain ⟨hz, hrest⟩ := List.forall_mem_cons.mp hrest
    obtain ⟨h1, h2, h3⟩ := hx
    obtain ⟨h4, h5, h6⟩ := hz
    have hne : ¬(block init x).1 = (block init z).2 := by
      rw [block, block, eq_window h1 (by omega) (by omega) h6]
      exact hleft
    have hlt : (block init x).1.lt (block init z).2 = true := by
      rw [block, block, lt_window h1 (by omega) (by omega) h6, decide_eq_true_eq]
      omega
    have heq : (block init x).2 = (block init z).1 := by rw [block, block, hright]
    have hnew := ih ⟨h1, by omega, h6⟩ (fun _ h => (List.not_mem_nil h).elim)
      (List.forall_mem_append.mpr ⟨hpassed, hrest⟩)
    rw [List.map_cons, TcpRxBuffer.mergeBlocks, mergeSpans, if_neg hne, if_pos heq, if_pos hlt,
      if_neg hleft, if_pos hright, ← hnew, List.map_append]
    rfl
  | case4 x passed z rest hleft hright ih =>
    obtain ⟨hz, hrest⟩ := List.forall_mem_cons.mp hrest
    obtain ⟨h1, h2, h3⟩ := hx
    obtain ⟨h4, h5, h6⟩ := hz
    have hne : ¬(block init x).1 = (block init z).2 := by
      rw [block, block, eq_window h1 (by omega) (by omega) h6]
      exact hleft
    have hne' : ¬(block init x).2 = (block init z).1 := by
      rw [block, block, eq_window (by omega) h3 h4 (by omega)]
      exact hright
    have hnew := ih ⟨h1, h2, h3⟩
      (List.forall_mem_append.mpr ⟨hpassed, List.forall_mem_singleton.mpr ⟨h4, h5, h6⟩⟩) hrest
    rw [List.map_cons, TcpRxBuffer.mergeBlocks, mergeSpans, if_neg hne, if_neg hne', if_neg hleft,
      if_neg hright, ← hnew, List.map_append]
    rfl

/-- The spans that a list of blocks reports. -/
theorem Reports.exists_spans (hd : Within stream lo ds) {blocks : List SackBlock}
    (h : Reports init ds n blocks) : ∃ spans : List (ℕ × ℕ), blocks = spans.map (block init) ∧
      ∀ z ∈ spans, Inside lo z ∧ n < z.2 ∧ ∀ k, z.1 ≤ k → k < z.2 → Intervals.Covers ds k := by
  induction blocks with
  | nil => exact ⟨[], rfl, fun _ hz => (List.not_mem_nil hz).elim⟩
  | cons b blocks ih =>
    obtain ⟨hb, hrest⟩ := reports_cons.mp h
    obtain ⟨spans, rfl, hspans⟩ := ih hrest
    obtain ⟨x, y, rfl, hxy, hn, hcov⟩ := hb b (List.mem_singleton_self b)
    obtain ⟨hlow, hhigh⟩ := hd.span hxy hcov
    exact ⟨(x, y) :: spans, rfl, List.forall_mem_cons.mpr ⟨⟨⟨hlow, hxy, hhigh⟩, hn, hcov⟩, hspans⟩⟩

theorem pairwise_distinct_iff {spans : List (ℕ × ℕ)} (h : ∀ z ∈ spans, Inside lo z) :
    (spans.map (block init)).Pairwise Distinct ↔ spans.Pairwise Separate := by
  rw [List.pairwise_map]
  apply List.Pairwise.iff_of_mem
  intro x z hx hz
  exact distinct_iff (h x hx) (h z hz)

/-- The list after a new span. -/
def reported (x : ℕ × ℕ) (spans : List (ℕ × ℕ)) : List (ℕ × ℕ) :=
  if (mergeSpans x [] spans).length > 4 then (mergeSpans x [] spans).dropLast
  else mergeSpans x [] spans

theorem updateSackList_map {spans : List (ℕ × ℕ)} (hn : lo ≤ n) (hx : Inside lo x) (hnx : n < x.1)
    (hspans : ∀ z ∈ spans, Inside lo z) :
    TcpRxBuffer.updateSackList (pos (init + n)) (pos (init + x.1)) (pos (init + x.2))
      (spans.map (block init)) = some ((reported x spans).map (block init)) := by
  obtain ⟨h1, h2, h3⟩ := hx
  have hmerge : TcpRxBuffer.mergeBlocks (block init x) (List.map (block init) [])
      (spans.map (block init)) = some ((mergeSpans x [] spans).map (block init)) :=
    mergeBlocks_map ⟨h1, h2, h3⟩ (fun _ h => (List.not_mem_nil h).elim) hspans
  rw [block, List.map_nil] at hmerge
  unfold TcpRxBuffer.updateSackList reported
  rw [gt_window h1 (by omega) hn (by omega), if_pos (decide_eq_true hnx), hmerge]
  dsimp only [Option.bind_eq_bind, Option.bind_some, Option.pure_def]
  rw [List.length_map]
  split
  · rw [List.map_dropLast]
  · rfl

/-- The first span contains the new one, and there are at most four. -/
theorem reported_head {spans : List (ℕ × ℕ)} (hspans : ∀ z ∈ spans, z.1 < z.2)
    (hlen : spans.length ≤ 4) : ∃ y zs, reported x spans = y :: zs ∧ y.1 ≤ x.1 ∧ x.2 ≤ y.2 ∧
      (y :: zs).length ≤ 4 := by
  obtain ⟨y, zs, heq, hlow, hhigh, hlength⟩ : ∃ y zs, mergeSpans x [] spans = y :: zs ∧ y.1 ≤ x.1 ∧
      x.2 ≤ y.2 ∧ zs.length ≤ 0 + spans.length :=
    mergeSpans_head (fun _ h => (List.not_mem_nil h).elim) hspans
  rw [Nat.zero_add] at hlength
  unfold reported
  rw [heq, List.length_cons]
  split
  · rename_i hlong
    cases zs with
    | nil =>
      rw [List.length_nil] at hlong
      omega
    | cons z zs =>
      refine ⟨y, (z :: zs).dropLast, rfl, hlow, hhigh, ?_⟩
      simp only [List.length_cons, List.length_dropLast] at hlength ⊢
      omega
  · exact ⟨y, zs, rfl, hlow, hhigh, by rw [List.length_cons]; omega⟩

theorem reported_sublist {spans : List (ℕ × ℕ)} :
    (reported x spans).Sublist (mergeSpans x [] spans) := by
  unfold reported
  split
  · exact List.dropLast_sublist _
  · exact List.Sublist.refl _

theorem clearSackList_sublist {seq : SequenceNumber32} {blocks blocks' : List SackBlock}
    (h : TcpRxBuffer.clearSackList seq blocks = some blocks') : blocks'.Sublist blocks := by
  induction blocks generalizing blocks' with
  | nil =>
    cases h
    exact List.Sublist.refl _
  | cons b blocks ih =>
    rw [TcpRxBuffer.clearSackList] at h
    split at h
    · obtain ⟨rest, hrest, h⟩ := Option.bind_eq_some_iff.mp h
      cases h
      split
      · exact (ih hrest).cons b
      · exact (ih hrest).cons_cons b
    · cases h

theorem updateNext_sublist {data : List (SequenceNumber32 × List UInt8)}
    {seq : SequenceNumber32} {avail : ℕ} {blocks : List SackBlock}
    {r : SequenceNumber32 × ℕ × List SackBlock}
    (h : TcpRxBuffer.updateNext data seq avail blocks = some r) : r.2.2.Sublist blocks := by
  induction data generalizing seq avail blocks with
  | nil =>
    cases h
    exact List.Sublist.refl _
  | cons i data ih =>
    rw [TcpRxBuffer.updateNext] at h
    split at h
    · exact ih h
    · split at h
      · cases h
        exact List.Sublist.refl _
      · obtain ⟨cleared, hclear, h⟩ := Option.bind_eq_some_iff.mp h
        exact (ih h).trans (clearSackList_sublist hclear)

/-- The next byte stays the next one where no packet begins with it. -/
theorem updateNext_of_gap {es : List (ℕ × ℕ)} (he : Within stream lo es) (hn : lo ≤ n)
    (hn' : n < lo + 2 ^ 31) (hgap : ∀ x ∈ es, x.1 ≠ n) {avail : ℕ} {blocks : List SackBlock} :
    TcpRxBuffer.updateNext (es.map (packet stream init)) (pos (init + n)) avail blocks =
      some (pos (init + n), avail, blocks) := by
  induction es with
  | nil => rfl
  | cons x es ih =>
    obtain ⟨⟨h1, h2, h3, h4⟩, hes⟩ := List.forall_mem_cons.mp he
    obtain ⟨hx, hgap⟩ := List.forall_mem_cons.mp hgap
    rw [List.map_cons, TcpRxBuffer.updateNext]
    dsimp only [packet]
    simp only [lt_window h1 (by omega : x.1 < lo + 2 ^ 31) hn hn',
      gt_window h1 (by omega : x.1 < lo + 2 ^ 31) hn hn', decide_eq_true_eq]
    split
    · exact ih hes hgap
    · rw [if_pos (by omega)]

theorem store_sackList {b b' : TcpRxBuffer} {headSeq tailSeq : SequenceNumber32} {q : List UInt8}
    (h : b.store headSeq tailSeq q = some b') : ∃ blocks next,
      (if headSeq.gt b.m_nextRxSeq then
        TcpRxBuffer.updateSackList b.m_nextRxSeq headSeq tailSeq b.m_sackList
      else some b.m_sackList) = some blocks ∧
      TcpRxBuffer.updateNext b'.m_data b.m_nextRxSeq b.m_availBytes blocks =
        some (next, b'.m_availBytes, b'.m_sackList) := by
  unfold TcpRxBuffer.store at h
  obtain ⟨blocks, hblocks, h⟩ := Option.bind_eq_some_iff.mp h
  obtain ⟨⟨next, avail, blocks'⟩, hnext, h⟩ := Option.bind_eq_some_iff.mp h
  cases h
  exact ⟨blocks, next, hblocks, hnext⟩

namespace RxSession

/-- A block of the list has a byte of the packet. -/
def Reported (s : RxSession) (i : SequenceNumber32 × List UInt8) : Prop :=
  ∃ b ∈ s.buffer.m_sackList, b.1.lt (i.1.add ⟨i.2.length⟩) = true ∧ i.1.lt b.2 = true

/-- The packet ends before the segment and before the receive limit, and begins behind a byte of the
segment that is missing. -/
def Enclosed (init : ℕ) (s : RxSession) (h t : ℕ) (i : SequenceNumber32 × List UInt8) : Prop :=
  s.offset init i.1 + i.2.length < t ∧
    (∀ j ∈ s.buffer.m_data.head?,
      s.offset init i.1 + i.2.length < s.offset init j.1 + s.buffer.m_maxBuffer) ∧
    ∃ k < s.offset init i.1, h ≤ k ∧ ¬s.buffer.Holds init k

/-- A segment that begins above the next byte encloses no packet that is reported. -/
def NoneEnclosed (init : ℕ) (s : RxSession) : RxCall → Prop
  | .add h t => s.received < h → ∀ i ∈ s.buffer.m_data, s.Enclosed init h t i → ¬s.Reported i
  | _ => True

/-- What the SACK list says. -/
structure Described (init : ℕ) (s : RxSession) : Prop where
  length : s.buffer.m_sackList.length ≤ 4
  full : ∀ b ∈ s.buffer.m_sackList, b.1.lt b.2 = true
  above : ∀ b ∈ s.buffer.m_sackList, b.1.gt s.buffer.m_nextRxSeq = true
  received : ∀ b ∈ s.buffer.m_sackList, ∃ x y, b = (pos (init + x), pos (init + y)) ∧ x < y ∧
    s.received < x ∧ ∀ k, x ≤ k → k < y → s.accepted k
  distinct : s.buffer.m_sackList.Pairwise Distinct

/-- A new packet above the next byte is in the first block. -/
def FirstContains (b b' : TcpRxBuffer) : Prop :=
  ∀ i ∈ b'.m_data, i ∉ b.m_data → i.1.gt b.m_nextRxSeq = true → ∃ first rest,
    b'.m_sackList = first :: rest ∧ first.1.le i.1 = true ∧
      (i.1.add ⟨i.2.length⟩).le first.2 = true

variable {M a t : ℕ} {s s' : RxSession} {y : ℕ × ℕ} {spans : List (ℕ × ℕ)}

/-- A packet above the next byte is stored, and its span reported. -/
structure AddsBlock (stream : List UInt8) (init M : ℕ) (s : RxSession) (ds : List (ℕ × ℕ))
    (a t : ℕ) (s' : RxSession) (y : ℕ × ℕ) (spans : List (ℕ × ℕ)) : Prop where
  joins : Joins M s stream ds (overlap stream M s ds a t).kept y a t
  ends : y = ((overlap stream M s ds a t).head, (overlap stream M s ds a t).tail)
  above : s.received < y.1
  old : s.buffer.m_sackList = spans.map (block init)
  inside : ∀ z ∈ spans, Inside s.extracted.length z ∧
    ∀ k, z.1 ≤ k → k < z.2 → Intervals.Covers ds k
  new : s'.buffer.m_sackList = (reported y spans).map (block init)
  data : s'.buffer.m_data =
    (Intervals.insert y (overlap stream M s ds a t).kept).map (packet stream init)

theorem Joins.inside {es : List (ℕ × ℕ)} (j : Joins M s stream ds es y a t)
    (h : Inv stream init M s ds) : Inside s.extracted.length y := by
  have h1 := j.received_le
  have h2 := j.le_bound
  have hM := h.limit
  have hr' : s.extracted.length ≤ s.received := Nat.le_add_right _ _
  exact ⟨by omega, j.lt, by omega⟩

/-- A packet that is new is the one that was stored. -/
theorem eq_of_new {es : List (ℕ × ℕ)} (h : Inv stream init M s ds) (hs : es.Sublist ds)
    (hdata : s'.buffer.m_data = (Intervals.insert y es).map (packet stream init))
    {i : SequenceNumber32 × List UInt8} (hi : i ∈ s'.buffer.m_data) (hnew : i ∉ s.buffer.m_data) :
    i = packet stream init y := by
  rw [hdata] at hi
  obtain ⟨x, hx, rfl⟩ := List.mem_map.mp hi
  rcases List.mem_cons.mp ((Intervals.perm_insert y es).mem_iff.mp hx) with rfl | hx
  · rfl
  · rw [h.data] at hnew
    exact absurd (List.mem_map_of_mem (hs.subset hx)) hnew

theorem Inv.add_sack (h : Inv stream init M s ds) (hl : s.Legal stream (.add a t))
    (hn : s.Near stream init (.add a t)) (hstep : s.step stream init (.add a t) = some s') :
    (s'.buffer.m_sackList.Sublist s.buffer.m_sackList ∧
      ∀ i ∈ s'.buffer.m_data, i ∉ s.buffer.m_data → i.1.gt s.buffer.m_nextRxSeq = false) ∨
    ∃ y spans, AddsBlock stream init M s ds a t s' y spans := by
  have hr' : s.extracted.length ≤ s.received := Nat.le_add_right _ _
  obtain ⟨hr, -⟩ := h.received_le
  rw [h.step_add hl hn rfl] at hstep
  obtain ⟨b', hb', rfl⟩ := Option.map_eq_some_iff.mp hstep
  split at hb'
  · -- nothing is left of the segment
    cases hb'
    refine Or.inl ⟨List.Sublist.refl _, ?_⟩
    intro i hi hnew
    obtain ⟨x, hx, rfl⟩ := List.mem_map.mp hi
    rw [h.data] at hnew
    exact absurd (List.mem_map_of_mem ((Intervals.trim_sublist h.tidy _ _).subset hx)) hnew
  · rename_i hlt
    have j := h.joins hl (not_le.mp hlt)
    obtain ⟨blocks', hstore, -⟩ := j.store_eq h hl rfl
    have hdata : b'.m_data = (Intervals.insert ((overlap stream M s ds a t).head,
        (overlap stream M s ds a t).tail) (overlap stream M s ds a t).kept).map
          (packet stream init) := by
      rw [Option.some.inj (hb'.symm.trans hstore)]
    obtain ⟨blocks, next, hblocks, hnext⟩ := store_sackList hb'
    dsimp only at hblocks hnext
    rw [h.next, j.fin_eq, Nat.add_zero] at hblocks hnext
    generalize hy : ((overlap stream M s ds a t).head, (overlap stream M s ds a t).tail) = y
      at j hdata
    have hhead : (overlap stream M s ds a t).head = y.1 := by rw [← hy]
    have htail : (overlap stream M s ds a t).tail = y.2 := by rw [← hy]
    rw [hhead, htail] at hblocks
    obtain ⟨h1, h2, h3⟩ := j.inside h
    have hle := j.received_le
    rcases hle.lt_or_eq with habove | heq
    · obtain ⟨spans, hold, hspans⟩ := h.sack.exists_spans h.within
      have hgap : ∀ x ∈ Intervals.insert y (overlap stream M s ds a t).kept, x.1 ≠ s.received := by
        intro x hx heq
        rcases List.mem_cons.mp ((Intervals.perm_insert y _).mem_iff.mp hx) with rfl | hx
        · omega
        · have hx := j.sublist.subset hx
          exact h.gap ⟨x, hx, heq.le, heq ▸ h.tidy.2 x hx⟩
      rw [hdata, updateNext_of_gap (j.within h hl) hr' (by omega) hgap] at hnext
      simp only [Option.some.injEq, Prod.mk.injEq] at hnext
      have hgt : (pos (init + y.1)).gt (pos (init + s.received)) = true := by
        rw [gt_window h1 (by omega) hr' (by omega)]
        exact decide_eq_true habove
      rw [hnext.2.2, if_pos hgt, hold,
        updateSackList_map hr' (j.inside h) habove fun z hz => (hspans z hz).1] at hblocks
      exact Or.inr ⟨y, spans, j, hy.symm, habove, hold,
        fun z hz => ⟨(hspans z hz).1, (hspans z hz).2.2⟩, (Option.some.inj hblocks).symm, hdata⟩
    · have hgt : (pos (init + y.1)).gt (pos (init + s.received)) = false := by
        rw [gt_window h1 (by omega) hr' (by omega), heq]
        exact decide_eq_false (lt_irrefl _)
      rw [hgt, if_neg Bool.false_ne_true] at hblocks
      rw [← Option.some.inj hblocks] at hnext
      refine Or.inl ⟨updateNext_sublist hnext, ?_⟩
      intro i hi hnew
      rw [eq_of_new h j.sublist hdata hi hnew, h.next, j.fin_eq, Nat.add_zero]
      exact hgt

/-- The new packet overlaps no span that is reported, if it encloses no reported packet. -/
theorem AddsBlock.apart (hadd : AddsBlock stream init M s ds a t s' y spans)
    (h : Inv stream init M s ds) (hl : s.Legal stream (.add a t))
    (hnone : s.NoneEnclosed init (.add a t)) : ∀ z ∈ spans, Apart y z := by
  intro z hz
  by_contra hover
  rw [Apart, not_or, not_le, not_le] at hover
  have j := hadd.joins
  have hlt := j.lt
  have habove := hadd.above
  have hends := hadd.ends
  obtain ⟨⟨hz1, hz2, hz3⟩, hcov⟩ := hadd.inside z hz
  have hr' : s.extracted.length ≤ s.received := Nat.le_add_right _ _
  -- a byte of both, in a packet that was erased
  obtain ⟨x, hx, hxp⟩ := hcov (max y.1 z.1) (le_max_right _ _) (by omega)
  have hxnot : x ∉ (overlap stream M s ds a t).kept := by
    intro hkept
    have := j.disjoint x hkept
    omega
  have htrimEnds := Intervals.trim_ends h.tidy
    (cutHead M t (max a (s.received + s.fin stream)) ds) (cutTail M t ds)
  rw [← overlap] at htrimEnds
  have hy1 : y.1 = (overlap stream M s ds a t).head := by rw [hends]
  have hy2 : y.2 = (overlap stream M s ds a t).tail := by rw [hends]
  have hcut : cutHead M t (max a (s.received + s.fin stream)) ds < cutTail M t ds := by omega
  obtain ⟨hf, h1, h2, h3, h4⟩ := h.overlap_bounds hl hcut
  obtain ⟨hend, k, hk, hkx, hgap⟩ := Intervals.gap_of_not_kept h.tidy hx hxnot
  have hspec := Intervals.trim_spec h.tidy hcut
  rw [← overlap] at hspec
  have hbounds := h.bounds x hx
  have hM := h.limit
  have hin := h.in_stream x hx
  have hxpos := h.tidy.2 x hx
  -- the segment begins above the next byte
  have hseg : s.received < a := by
    by_contra hle
    have hhead : cutHead M t (max a (s.received + s.fin stream)) ds = s.received := by
      have hmax : max a (s.received + s.fin stream) = s.received := by omega
      rw [hmax] at h1 ⊢
      refine le_antisymm ?_ h1
      cases ds with
      | nil => exact le_rfl
      | cons w ds => exact min_le_left _ _
    have hgap' : ¬Intervals.Covers ds (cutHead M t (max a (s.received + s.fin stream)) ds) := by
      rw [hhead]
      exact h.gap
    have := hspec.head_eq hcut hgap'
    omega
  have hoffset : s.offset init (packet stream init x).1 = x.1 := h.offset_eq hx
  have hlength : (packet stream init x).2.length = x.2 - x.1 := length_segment hin
  refine hnone hseg (packet stream init x) (by rw [h.data]; exact List.mem_map_of_mem hx)
    ⟨?_, ?_, k, ?_, ?_, ?_⟩ ⟨block init z, ?_, ?_, ?_⟩
  · rw [hoffset, hlength]
    omega
  · intro i hi
    cases ds with
    | nil => exact (List.not_mem_nil hx).elim
    | cons w ds =>
      rw [h.data] at hi
      cases hi
      rw [hoffset, hlength, h.offset_eq List.mem_cons_self, h.maxBuffer]
      have hw : x.2 < min t (w.1 + M) := hend
      omega
  · rw [hoffset]
    exact hkx
  · omega
  · rw [holds_iff h.data h.within (by omega) (by omega)]
    exact hgap
  · rw [hadd.old]
    exact List.mem_map_of_mem hz
  · rw [add_length hxpos hin, block, lt_window hz1 (by omega) (by omega) (by omega),
      decide_eq_true_eq]
    omega
  · rw [block, packet, lt_window (by omega) (by omega) (by omega) hz3, decide_eq_true_eq]
    omega

/-- The spans after the call are in the window, too. -/
theorem AddsBlock.inside_new (hadd : AddsBlock stream init M s ds a t s' y spans)
    (h : Inv stream init M s ds) : ∀ z ∈ reported y spans, Inside s.extracted.length z := by
  intro z hz
  refine forall_mergeSpans ?_ (hadd.joins.inside h) (fun _ h => (List.not_mem_nil h).elim)
    (fun z hz => (hadd.inside z hz).1) z (reported_sublist.subset hz)
  rintro x z ⟨h1, h2, h3⟩ ⟨h4, h5, h6⟩ heq
  exact ⟨h1, by dsimp only; omega, h6⟩

theorem AddsBlock.firstContains (hadd : AddsBlock stream init M s ds a t s' y spans)
    (h : Inv stream init M s ds) (hl : s.Legal stream (.add a t))
    (hlen : s.buffer.m_sackList.length ≤ 4) : FirstContains s.buffer s'.buffer := by
  intro i hi hnew _
  have hin : y.2 ≤ stream.length := hadd.joins.le_tail.trans hl.2.1
  obtain ⟨h1, h2, h3⟩ := hadd.joins.inside h
  rw [hadd.old, List.length_map] at hlen
  obtain ⟨w, ws, heq, hlow, hhigh, -⟩ :=
    reported_head (x := y) (fun z hz => (hadd.inside z hz).1.2.1) hlen
  obtain ⟨h4, h5, h6⟩ := hadd.inside_new h w (by rw [heq]; exact List.mem_cons_self)
  refine ⟨block init w, ws.map (block init), by rw [hadd.new, heq, List.map_cons], ?_, ?_⟩
  · rw [eq_of_new h hadd.joins.sublist hadd.data hi hnew, block, packet,
      le_window h4 (by omega) h1 (by omega), decide_eq_true_eq]
    exact hlow
  · rw [eq_of_new h hadd.joins.sublist hadd.data hi hnew, add_length h2 hin, block,
      le_window (by omega) h3 (by omega) h6, decide_eq_true_eq]
    exact hhigh

/-- There are gaps between the at most four blocks. -/
structure Gapped (b : TcpRxBuffer) : Prop where
  length : b.m_sackList.length ≤ 4
  distinct : b.m_sackList.Pairwise Distinct

theorem Gapped.sublist {b b' : TcpRxBuffer} (h : Gapped b)
    (hs : b'.m_sackList.Sublist b.m_sackList) : Gapped b' :=
  ⟨hs.length_le.trans h.length, h.distinct.sublist hs⟩

theorem AddsBlock.gapped (hadd : AddsBlock stream init M s ds a t s' y spans)
    (h : Inv stream init M s ds) (hl : s.Legal stream (.add a t))
    (hnone : s.NoneEnclosed init (.add a t)) (hgapped : Gapped s.buffer) : Gapped s'.buffer := by
  obtain ⟨hlen, hdistinct⟩ := hgapped
  have hinside : ∀ z ∈ spans, Inside s.extracted.length z := fun z hz => (hadd.inside z hz).1
  rw [hadd.old, List.length_map] at hlen
  rw [hadd.old, pairwise_distinct_iff hinside] at hdistinct
  constructor
  · obtain ⟨w, ws, heq, -, -, hlength⟩ :=
      reported_head (x := y) (fun z hz => (hinside z hz).2.1) hlen
    rw [hadd.new, List.length_map, heq]
    exact hlength
  · rw [hadd.new, pairwise_distinct_iff (hadd.inside_new h)]
    refine List.Pairwise.sublist reported_sublist ?_
    exact mergeSpans_separate hadd.joins.lt (fun z hz => (hinside z hz).2.1) hdistinct
      (fun _ h => (List.not_mem_nil h).elim) (hadd.apart h hl hnone)

theorem sackList_setFinSequence (b : TcpRxBuffer) (k : SequenceNumber32) :
    (b.setFinSequence k).m_sackList = b.m_sackList := by
  unfold TcpRxBuffer.setFinSequence
  dsimp only
  split
  · rfl
  · rfl

theorem sackList_extract {b b' : TcpRxBuffer} {n : ℕ} {p : List UInt8}
    (h : b.extract n = some (b', p)) : b'.m_sackList = b.m_sackList := by
  unfold TcpRxBuffer.extract at h
  dsimp only at h
  split at h
  · cases h
    rfl
  · obtain ⟨r, -, h⟩ := Option.bind_eq_some_iff.mp h
    cases h
    rfl

/-- One call keeps the gaps. -/
theorem Gapped.step (hgapped : Gapped s.buffer) (h : Inv stream init M s ds) {c : RxCall}
    (hl : s.Legal stream c) (hn : s.Near stream init c) (hnone : s.NoneEnclosed init c)
    (hstep : s.step stream init c = some s') : Gapped s'.buffer := by
  cases c with
  | add a t =>
    rcases h.add_sack hl hn hstep with ⟨hsub, -⟩ | ⟨y, spans, hadd⟩
    · exact hgapped.sublist hsub
    · exact hadd.gapped h hl hnone hgapped
  | setFinSequence =>
    cases hstep
    refine hgapped.sublist ?_
    rw [sackList_setFinSequence]
  | extract n =>
    obtain ⟨⟨b, p⟩, hb, hstep⟩ := Option.bind_eq_some_iff.mp hstep
    cases hstep
    refine hgapped.sublist ?_
    rw [sackList_extract hb]

theorem Run.gapped (hM : 0 < M) (hM' : M + 1 < 2 ^ 31)
    (h : Run stream init M (fun s c => s.Near stream init c ∧ s.NoneEnclosed init c) s) :
    ∃ ds, Inv stream init M s ds ∧ Gapped s.buffer := by
  induction h with
  | start => exact ⟨[], inv_start hM hM', Nat.zero_le 4, List.Pairwise.nil⟩
  | step _ hl hq hstep ih =>
    obtain ⟨ds, hi, hgapped⟩ := ih
    obtain ⟨s1, ds1, hs1, hi1⟩ := hi.step hl hq.1
    have hgapped1 := hgapped.step hi hl hq.1 hq.2 hstep
    cases hs1.symm.trans hstep
    exact ⟨ds1, hi1, hgapped1⟩

theorem Inv.described (h : Inv stream init M s ds) (hgapped : Gapped s.buffer) :
    Described init s := by
  have hr' : s.extracted.length ≤ s.received := Nat.le_add_right _ _
  have hspan : ∀ b ∈ s.buffer.m_sackList, ∃ x y, b = (pos (init + x), pos (init + y)) ∧ x < y ∧
      s.received < x ∧ y < s.extracted.length + 2 ^ 31 ∧
      ∀ k, x ≤ k → k < y → Intervals.Covers ds k := by
    intro b hb
    obtain ⟨x, y, heq, hxy, hy, hcov⟩ := h.sack b hb
    refine ⟨x, y, heq, hxy, ?_, (h.within.span hxy hcov).2, hcov⟩
    -- the next byte is missing
    by_contra hle
    exact h.gap (hcov s.received (by omega) hy)
  constructor
  case length => exact hgapped.length
  case distinct => exact hgapped.distinct
  case full =>
    intro b hb
    obtain ⟨x, y, rfl, hxy, hx, hy, -⟩ := hspan b hb
    rw [lt_window (by omega : s.extracted.length ≤ x) (by omega) (by omega) hy, decide_eq_true_eq]
    exact hxy
  case above =>
    intro b hb
    obtain ⟨x, y, rfl, hxy, hx, hy, hcov⟩ := hspan b hb
    obtain ⟨z, hz, hxz⟩ := hcov x le_rfl hxy
    have hin := h.in_stream z hz
    have hfin : s.fin stream = 0 := if_neg fun hc => by omega
    rw [h.next, hfin, Nat.add_zero, gt_window (by omega : s.extracted.length ≤ x) (by omega) hr'
      (by omega), decide_eq_true_eq]
    exact hx
  case received =>
    intro b hb
    obtain ⟨x, y, heq, hxy, hx, -, hcov⟩ := hspan b hb
    exact ⟨x, y, heq, hxy, hx, fun k hk hk' => (h.accepted k).mpr (Or.inr (hcov k hk hk'))⟩

instance (b : TcpRxBuffer) (init k : ℕ) : Decidable (b.Holds init k) :=
  inferInstanceAs (Decidable (∃ i ∈ b.m_data, ∃ j < i.2.length, i.1.add ⟨j⟩ = pos (init + k)))

instance (s : RxSession) (i : SequenceNumber32 × List UInt8) : Decidable (s.Reported i) :=
  inferInstanceAs (Decidable (∃ b ∈ s.buffer.m_sackList,
    b.1.lt (i.1.add ⟨i.2.length⟩) = true ∧ i.1.lt b.2 = true))

instance (init : ℕ) (s : RxSession) (h t : ℕ) (i : SequenceNumber32 × List UInt8) :
    Decidable (s.Enclosed init h t i) :=
  inferInstanceAs (Decidable (s.offset init i.1 + i.2.length < t ∧
    (∀ j ∈ s.buffer.m_data.head?,
      s.offset init i.1 + i.2.length < s.offset init j.1 + s.buffer.m_maxBuffer) ∧
    ∃ k < s.offset init i.1, h ≤ k ∧ ¬s.buffer.Holds init k))

instance (init : ℕ) (s : RxSession) : (c : RxCall) → Decidable (s.NoneEnclosed init c)
  | .add h t => inferInstanceAs (Decidable (s.received < h → ∀ i ∈ s.buffer.m_data,
      s.Enclosed init h t i → ¬s.Reported i))
  | .setFinSequence => inferInstanceAs (Decidable True)
  | .extract _ => inferInstanceAs (Decidable True)

deriving instance DecidableEq for TcpRxBuffer.Overlap

/-- `Add` of a segment of which `q` is stored above the next byte. -/
theorem add_stored {b : TcpRxBuffer} {seq : SequenceNumber32} {p q : List UInt8}
    {r : TcpRxBuffer.Overlap} {blocks : List SackBlock}
    (hr : TcpRxBuffer.removeOverlap b.m_data (b.trimToWindow seq (seq.add ⟨p.length⟩)).1
      (b.trimToWindow seq (seq.add ⟨p.length⟩)).2 = r)
    (hlt : ¬r.headSeq.ge r.tailSeq = true)
    (hq : createFragment p (toUint32 (r.headSeq.sub seq)) (toUint32 (r.tailSeq.sub r.headSeq)) =
      some q)
    (hnew : toUint32 (r.tailSeq.sub r.headSeq) = q.length ∧ ∀ i ∈ r.data, i.1 ≠ r.headSeq)
    (hgt : r.headSeq.gt b.m_nextRxSeq = true)
    (hsack : TcpRxBuffer.updateSackList b.m_nextRxSeq r.headSeq r.tailSeq b.m_sackList =
      some blocks)
    (hnext : TcpRxBuffer.updateNext (TcpRxBuffer.assignData r.headSeq q r.data) b.m_nextRxSeq
      b.m_availBytes blocks = some (b.m_nextRxSeq, b.m_availBytes, blocks))
    (hfin : b.m_gotFin = false) :
    b.add seq p = some ({ b with
      m_data := TcpRxBuffer.assignData r.headSeq q r.data
      m_size := (diff b.m_size r.erased + q.length) % 2 ^ 32
      m_sackList := blocks }, true) := by
  unfold TcpRxBuffer.add
  dsimp only
  rw [hr, if_neg hlt, hq]
  dsimp only [Option.bind_eq_bind, Option.bind_some]
  rw [if_pos hnew]
  unfold TcpRxBuffer.store
  dsimp only
  rw [if_pos hgt, hsack]
  dsimp only [Option.bind_eq_bind, Option.bind_some]
  rw [hnext]
  dsimp only [Option.bind_some, Option.pure_def]
  rw [hfin, if_neg fun hc => Bool.false_ne_true hc.1]

theorem updateSackList_nil {seq head tail : SequenceNumber32} (hgt : head.gt seq = true) :
    TcpRxBuffer.updateSackList seq head tail [] = some [(head, tail)] := by
  rw [TcpRxBuffer.updateSackList, if_pos hgt, TcpRxBuffer.mergeBlocks]
  rfl

/-- A segment around a packet leaves two blocks that overlap. -/
theorem sackList_overlaps : ¬∀ (stream : List UInt8) (init M : ℕ) (s : RxSession),
    0 < M → M ≤ 2 ^ 30 → Run stream init M (fun s c => s.Near stream init c) s →
    Described init s := by
  intro h
  have h0 : Run [1, 2, 3, 4, 5] 0 32768 (fun s c => s.Near [1, 2, 3, 4, 5] 0 c) _ := Run.start
  have h1 := h0.add (h := 2) (t := 3) (by decide) (by decide)
    (add_stored (r := ⟨[], ⟨2⟩, ⟨3⟩, 0⟩) (q := [3]) (by decide)
      (by decide) (by decide) (by decide) (by decide)
      (updateSackList_nil (by decide)) (by decide) rfl)
  have hsack : TcpRxBuffer.updateSackList ⟨0⟩ ⟨1⟩ ⟨4⟩ [(⟨2⟩, ⟨3⟩)] =
      some [(⟨1⟩, ⟨4⟩), (⟨2⟩, ⟨3⟩)] := by
    rw [TcpRxBuffer.updateSackList, if_pos (by decide), TcpRxBuffer.mergeBlocks,
      if_neg (by decide), if_neg (by decide), List.nil_append, TcpRxBuffer.mergeBlocks]
    rfl
  have h2 := h1.add (h := 1) (t := 4) (by decide) (by decide)
    (add_stored (r := ⟨[], ⟨1⟩, ⟨4⟩, 1⟩) (q := [2, 3, 4])
      (by decide) (by decide) (by decide) (by decide)
      (by decide) hsack (by decide) rfl)
  have hdistinct := (h _ _ _ _ (by decide) (by decide) h2).distinct
  rcases List.rel_of_pairwise_cons hdistinct List.mem_cons_self with hlt | hlt
  · cases hlt
  · cases hlt

/-- The SACK list describes the buffer in every run in which no segment above the next byte encloses
a reported packet. -/
theorem sackList_describes (stream : List UInt8) (init : ℕ) {M : ℕ} (hM : 0 < M)
    (hM' : M + 1 < 2 ^ 31) {s : RxSession}
    (h : Run stream init M (fun s c => s.Near stream init c ∧ s.NoneEnclosed init c) s) :
    Described init s ∧ ∀ a t s', s.Legal stream (.add a t) → s.Near stream init (.add a t) →
      s.step stream init (.add a t) = some s' → FirstContains s.buffer s'.buffer := by
  obtain ⟨ds, hi, hgapped⟩ := h.gapped hM hM'
  refine ⟨hi.described hgapped, ?_⟩
  intro a t s' hl hn hstep
  rcases hi.add_sack hl hn hstep with ⟨-, hnone⟩ | ⟨y, spans, hadd⟩
  · intro i hi hnew hgt
    rw [hnone i hi hnew] at hgt
    cases hgt
  · exact hadd.firstContains hi hl hgapped.length

/-- Two packets next to each other above the next byte, where the sequence numbers wrap around. -/
theorem sackList_describes_merge : ∃ s,
    Run [1, 2, 3, 4, 5] (2 ^ 32 - 2) 32768 (fun s c => s.Near [1, 2, 3, 4, 5] (2 ^ 32 - 2) c ∧
      s.NoneEnclosed (2 ^ 32 - 2) c) s ∧
    s.buffer.m_sackList = [(⟨2 ^ 32 - 1⟩, ⟨2⟩)] ∧ Described (2 ^ 32 - 2) s := by
  have h0 : Run [1, 2, 3, 4, 5] (2 ^ 32 - 2) 32768
      (fun s c => s.Near [1, 2, 3, 4, 5] (2 ^ 32 - 2) c ∧ s.NoneEnclosed (2 ^ 32 - 2) c) _ :=
    Run.start
  have h1 := h0.add (h := 3) (t := 4) (by decide) (by decide)
    (add_stored (r := ⟨[], ⟨1⟩, ⟨2⟩, 0⟩) (q := [4])
      (by decide) (by decide) (by decide) (by decide)
      (by decide) (updateSackList_nil (by decide)) (by decide) rfl)
  have hsack : TcpRxBuffer.updateSackList ⟨2 ^ 32 - 2⟩ ⟨2 ^ 32 - 1⟩ ⟨1⟩ [(⟨1⟩, ⟨2⟩)] =
      some [(⟨2 ^ 32 - 1⟩, ⟨2⟩)] := by
    rw [TcpRxBuffer.updateSackList, if_pos (by decide), TcpRxBuffer.mergeBlocks,
      if_neg (by decide), if_pos (by decide), if_pos (by decide), List.nil_append,
      TcpRxBuffer.mergeBlocks]
    rfl
  have h2 := h1.add (h := 1) (t := 4) (by decide) (by decide)
    (add_stored (r := ⟨[(⟨1⟩, [4])], ⟨2 ^ 32 - 1⟩, ⟨1⟩, 0⟩) (q := [2, 3])
      (by decide) (by decide) (by decide) (by decide)
      (by decide) hsack (by decide) rfl)
  exact ⟨_, h2, rfl, (sackList_describes [1, 2, 3, 4, 5] (2 ^ 32 - 2) (by decide) (by decide) h2).1⟩

end RxSession

end Ns3.Internet
