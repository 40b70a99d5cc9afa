import Ns3.Internet.TcpRxBuffer
import Ns3.Lib.Intervals

/-!
# The loops of TcpRxBuffer on the offsets of a stream

The packets of the buffer hold parts of one byte stream. While all offsets lie in a window of
`2 ^ 31` bytes, the loops of the buffer are the operations on sorted intervals of offsets.
-/

namespace Ns3.Internet

open Ns3.Network Ns3.Lib SequenceNumber32

/-- The bytes of the stream with the offsets from `h` to before `t`. -/
def segment (stream : List UInt8) (h t : ℕ) : List UInt8 := (stream.drop h).take (t - h)

theorem length_segment {stream : List UInt8} {h t : ℕ} (ht : t ≤ stream.length) :
    (segment stream h t).length = t - h := by
  simp [segment]
  omega

theorem segment_append {stream : List UInt8} {a b c : ℕ} (hab : a ≤ b) (hbc : b ≤ c) :
    segment stream a b ++ segment stream b c = segment stream a c := by
  unfold segment
  rw [show c - a = (b - a) + (c - b) by omega, List.take_add, List.drop_drop,
    show a + (b - a) = b by omega]

theorem take_append_segment {stream : List UInt8} {a b : ℕ} (hab : a ≤ b) :
    stream.take a ++ segment stream a b = stream.take b := by
  have := @segment_append stream 0 a b (Nat.zero_le a) hab
  simpa [segment] using this

theorem drop_segment (stream : List UInt8) (h t n : ℕ) :
    (segment stream h t).drop n = segment stream (h + n) t := by
  unfold segment
  rw [List.drop_take, List.drop_drop, Nat.sub_sub]

theorem take_segment {stream : List UInt8} {h t n : ℕ} (hn : h + n ≤ t) :
    (segment stream h t).take n = segment stream h (h + n) := by
  unfold segment
  rw [List.take_take, show min n (t - h) = h + n - h by omega]

theorem createFragment_segment {stream : List UInt8} {h t a c : ℕ} (ha : h ≤ a) (hac : a ≤ c)
    (hc : c ≤ t) (ht : t ≤ stream.length) :
    createFragment (segment stream h t) (a - h) (c - a) = some (segment stream a c) := by
  unfold createFragment
  rw [if_pos (by rw [length_segment ht]; omega), drop_segment, show h + (a - h) = a by omega,
    take_segment (by omega), show a + (c - a) = c by omega]

/-- A packet of the buffer. -/
def packet (stream : List UInt8) (init : ℕ) (x : ℕ × ℕ) : SequenceNumber32 × List UInt8 :=
  (pos (init + x.1), segment stream x.1 x.2)

variable {stream : List UInt8} {init lo a b : ℕ}

/-! ## Comparisons in a window -/

theorem ge_near (h : a < b + 2 ^ 31) (h' : b < a + 2 ^ 31) :
    (pos (init + a)).ge (pos (init + b)) = decide (a ≥ b) := by
  rw [Bool.eq_iff_iff, pos_ge_iff (by omega) (by omega), decide_eq_true_eq]
  omega

section

variable (ha : lo ≤ a) (ha' : a < lo + 2 ^ 31) (hb : lo ≤ b) (hb' : b < lo + 2 ^ 31)
include ha ha' hb hb'

theorem gt_window : (pos (init + a)).gt (pos (init + b)) = decide (a > b) := by
  rw [Bool.eq_iff_iff, pos_gt_iff (by omega) (by omega), decide_eq_true_eq]
  omega

theorem le_window : (pos (init + a)).le (pos (init + b)) = decide (a ≤ b) := by
  rw [Bool.eq_iff_iff, pos_le_iff (by omega) (by omega), decide_eq_true_eq]
  omega

theorem lt_window : (pos (init + a)).lt (pos (init + b)) = decide (a < b) := by
  rw [Bool.eq_iff_iff, pos_lt_iff (by omega) (by omega), decide_eq_true_eq]
  omega

theorem ge_window : (pos (init + a)).ge (pos (init + b)) = decide (a ≥ b) :=
  ge_near (by omega) (by omega)

theorem eq_window : pos (init + a) = pos (init + b) ↔ a = b := by
  rw [pos_eq_iff (by omega) (by omega)]
  omega

end

/-- The intervals lie in the stream and in the window from `lo`. -/
def Within (stream : List UInt8) (lo : ℕ) (ds : List (ℕ × ℕ)) : Prop :=
  ∀ x ∈ ds, lo ≤ x.1 ∧ x.1 < x.2 ∧ x.2 ≤ stream.length ∧ x.2 < lo + 2 ^ 31

/-- The end of a packet. -/
theorem add_length {x : ℕ × ℕ} (h : x.1 < x.2) (hs : x.2 ≤ stream.length) :
    (packet stream init x).1.add ⟨(packet stream init x).2.length⟩ = pos (init + x.2) := by
  unfold packet
  rw [length_segment hs, pos_add, Nat.add_assoc, show x.1 + (x.2 - x.1) = x.2 by omega]

/-! ## The loops -/

theorem removeOverlap_map {ds : List (ℕ × ℕ)} (hd : Within stream lo ds) {head tail : ℕ}
    (hh : lo ≤ head) (hh' : head < lo + 2 ^ 31) (ht : lo ≤ tail) (ht' : tail < lo + 2 ^ 31) :
    TcpRxBuffer.removeOverlap (ds.map (packet stream init)) (pos (init + head))
        (pos (init + tail)) =
      ⟨(Intervals.trim ds head tail).kept.map (packet stream init),
        pos (init + (Intervals.trim ds head tail).head),
        pos (init + (Intervals.trim ds head tail).tail),
        (Intervals.trim ds head tail).dropped⟩ := by
  induction ds generalizing head tail with
  | nil => rfl
  | cons x ds ih =>
    obtain ⟨⟨h1, h2, h3, h4⟩, hds⟩ := List.forall_mem_cons.mp hd
    have hlen : (packet stream init x).2.length = x.2 - x.1 := length_segment h3
    have hnext := @ih hds (if x.1 ≤ head then x.2 else head)
      (if x.2 ≥ tail then x.1 else tail) (by split <;> omega) (by split <;> omega)
      (by split <;> omega) (by split <;> omega)
    rw [apply_ite (fun y => pos (init + y)), apply_ite (fun y => pos (init + y))] at hnext
    rw [List.map_cons]
    unfold TcpRxBuffer.removeOverlap Intervals.trim
    rw [add_length h2 h3, hlen]
    dsimp only [packet]
    simp only [le_window h1 (by omega) ht ht', gt_window (by omega) h4 hh hh',
      gt_window h1 (by omega) hh hh', lt_window (by omega) h4 ht ht',
      le_window h1 (by omega) hh hh', ge_window (by omega) h4 ht ht', decide_eq_true_eq,
      Bool.and_eq_true, hnext, ih hds hh hh' ht ht']
    split
    · split
      · split
        · rfl
        · rfl
      · rfl
    · rfl

/-- The new packet, at the place of its interval. -/
theorem assignData_map {ds : List (ℕ × ℕ)} (hd : Within stream lo ds) {y : ℕ × ℕ} (hy : lo ≤ y.1)
    (hy' : y.1 < lo + 2 ^ 31) (hne : ∀ x ∈ ds, x.1 ≠ y.1) :
    TcpRxBuffer.assignData (pos (init + y.1)) (segment stream y.1 y.2)
        (ds.map (packet stream init)) =
      (Intervals.insert y ds).map (packet stream init) := by
  induction ds with
  | nil => rfl
  | cons x ds ih =>
    obtain ⟨⟨h1, h2, h3, h4⟩, hds⟩ := List.forall_mem_cons.mp hd
    obtain ⟨hx, hne'⟩ := List.forall_mem_cons.mp hne
    rw [List.map_cons]
    unfold TcpRxBuffer.assignData Intervals.insert
    dsimp only [packet]
    simp only [lt_window hy hy' h1 (by omega : x.1 < lo + 2 ^ 31),
      lt_window h1 (by omega : x.1 < lo + 2 ^ 31) hy hy', decide_eq_true_eq]
    split
    · rfl
    · rw [if_pos (by omega), ih hds hne']
      rfl

/-! ## The SACK list -/

theorem Within.of_covers {ds : List (ℕ × ℕ)} (hd : Within stream lo ds) {k : ℕ}
    (h : Intervals.Covers ds k) : lo ≤ k ∧ k + 1 < lo + 2 ^ 31 := by
  obtain ⟨x, hx, hk⟩ := h
  have := hd x hx
  omega

/-- The blocks are spans of covered offsets that end behind `n`. -/
def Reports (init : ℕ) (ds : List (ℕ × ℕ)) (n : ℕ) (blocks : List SackBlock) : Prop :=
  ∀ block ∈ blocks, ∃ x y, block = (pos (init + x), pos (init + y)) ∧ x < y ∧ n < y ∧
    ∀ k, x ≤ k → k < y → Intervals.Covers ds k

theorem reports_cons {ds : List (ℕ × ℕ)} {n : ℕ} {block : SackBlock} {blocks : List SackBlock} :
    Reports init ds n (block :: blocks) ↔ Reports init ds n [block] ∧ Reports init ds n blocks := by
  simp [Reports]

theorem Reports.append {ds : List (ℕ × ℕ)} {n : ℕ} {xs ys : List SackBlock}
    (hx : Reports init ds n xs) (hy : Reports init ds n ys) : Reports init ds n (xs ++ ys) := by
  intro block hb
  rcases List.mem_append.mp hb with h | h
  · exact hx block h
  · exact hy block h

theorem Reports.subset {ds : List (ℕ × ℕ)} {n : ℕ} {xs ys : List SackBlock}
    (hx : Reports init ds n xs) (h : ys ⊆ xs) : Reports init ds n ys :=
  fun block hb => hx block (h hb)

/-- Other intervals that cover as much. -/
theorem Reports.mono {ds es : List (ℕ × ℕ)} {n : ℕ} {blocks : List SackBlock}
    (h : Reports init ds n blocks)
    (hc : ∀ k, Intervals.Covers ds k → Intervals.Covers es k) : Reports init es n blocks := by
  intro block hb
  obtain ⟨x, y, heq, hxy, hn, hcov⟩ := h block hb
  exact ⟨x, y, heq, hxy, hn, fun k h1 h2 => hc k (hcov k h1 h2)⟩

/-- The bounds of a span. -/
theorem Within.span {ds : List (ℕ × ℕ)} (hd : Within stream lo ds) {x y : ℕ} (hxy : x < y)
    (hcov : ∀ k, x ≤ k → k < y → Intervals.Covers ds k) : lo ≤ x ∧ y < lo + 2 ^ 31 := by
  have h1 := hd.of_covers (hcov x le_rfl hxy)
  have h2 := hd.of_covers (hcov (y - 1) (by omega) (by omega))
  omega

theorem clearSackList_spec {ds : List (ℕ × ℕ)} (hd : Within stream lo ds) {n m : ℕ}
    (hm : lo ≤ m) (hm' : m < lo + 2 ^ 31) {blocks : List SackBlock}
    (h : Reports init ds n blocks) :
    ∃ blocks', TcpRxBuffer.clearSackList (pos (init + m)) blocks = some blocks' ∧
      Reports init ds m blocks' := by
  induction blocks with
  | nil => exact ⟨[], rfl, fun _ hb => absurd hb List.not_mem_nil⟩
  | cons block blocks ih =>
    obtain ⟨hblock, hblocks⟩ := reports_cons.mp h
    obtain ⟨rest, hrest, hrep⟩ := ih hblocks
    obtain ⟨x, y, rfl, hxy, hn, hcov⟩ := hblock block (List.mem_singleton_self _)
    obtain ⟨h1, h2⟩ := hd.span hxy hcov
    unfold TcpRxBuffer.clearSackList
    simp only [lt_window h1 (by omega : x < lo + 2 ^ 31) (by omega : lo ≤ y) h2,
      le_window (by omega : lo ≤ y) h2 hm hm', decide_eq_true_eq]
    rw [if_pos hxy, hrest]
    refine ⟨_, rfl, ?_⟩
    split
    · exact hrep
    · refine reports_cons.mpr ⟨?_, hrep⟩
      intro b hb
      rw [List.mem_singleton.mp hb]
      exact ⟨x, y, rfl, hxy, by omega, hcov⟩

/-- Two spans that touch make one. -/
theorem Reports.join {ds : List (ℕ × ℕ)} (hd : Within stream lo ds) {n : ℕ} {b c : SackBlock}
    (hb : Reports init ds n [b]) (hc : Reports init ds n [c]) (heq : b.2 = c.1) :
    b.1.lt c.2 ∧ Reports init ds n [(b.1, c.2)] := by
  obtain ⟨x, y, rfl, hxy, hy, hcov⟩ := hb b (List.mem_singleton_self _)
  obtain ⟨x', y', rfl, hxy', hy', hcov'⟩ := hc c (List.mem_singleton_self _)
  obtain ⟨h1, h2⟩ := hd.span hxy hcov
  obtain ⟨h3, h4⟩ := hd.span hxy' hcov'
  have hyx : y = x' := (eq_window (by omega) h2 h3 (by omega)).mp heq
  subst hyx
  refine ⟨?_, ?_⟩
  · rw [lt_window h1 (by omega) (by omega) h4, decide_eq_true_eq]
    omega
  · intro block hblock
    rw [List.mem_singleton.mp hblock]
    refine ⟨x, y', rfl, by omega, hy', ?_⟩
    intro k hk hk'
    by_cases hky : k < y
    · exact hcov k hk hky
    · exact hcov' k (by omega) hk'

theorem mergeBlocks_spec {ds : List (ℕ × ℕ)} (hd : Within stream lo ds) {n : ℕ}
    (begin_ : SackBlock) (passed rest : List SackBlock) (hb : Reports init ds n [begin_])
    (hp : Reports init ds n passed) (hr : Reports init ds n rest) :
    ∃ blocks, TcpRxBuffer.mergeBlocks begin_ passed rest = some blocks ∧
      Reports init ds n blocks := by
  induction begin_, passed, rest using TcpRxBuffer.mergeBlocks.induct with
  | case1 begin_ passed =>
    unfold TcpRxBuffer.mergeBlocks
    exact ⟨_, rfl, reports_cons.mpr ⟨hb, hp⟩⟩
  | case2 begin_ passed current rest heq hlt ih =>
    obtain ⟨hc, hr⟩ := reports_cons.mp hr
    unfold TcpRxBuffer.mergeBlocks
    rw [if_pos heq, if_pos hlt]
    exact ih (hc.join hd hb heq.symm).2 (fun _ h => absurd h List.not_mem_nil) (hp.append hr)
  | case3 begin_ passed current rest heq hlt =>
    obtain ⟨hc, hr⟩ := reports_cons.mp hr
    exact absurd (hc.join hd hb heq.symm).1 hlt
  | case4 begin_ passed current rest hne heq hlt ih =>
    obtain ⟨hc, hr⟩ := reports_cons.mp hr
    unfold TcpRxBuffer.mergeBlocks
    rw [if_neg hne, if_pos heq, if_pos hlt]
    exact ih (hb.join hd hc heq).2 (fun _ h => absurd h List.not_mem_nil) (hp.append hr)
  | case5 begin_ passed current rest hne heq hlt =>
    obtain ⟨hc, hr⟩ := reports_cons.mp hr
    exact absurd (hb.join hd hc heq).1 hlt
  | case6 begin_ passed current rest hne hne' ih =>
    obtain ⟨hc, hr⟩ := reports_cons.mp hr
    unfold TcpRxBuffer.mergeBlocks
    rw [if_neg hne, if_neg hne']
    exact ih hb (hp.append hc) hr

/-- A new span behind `n`. -/
theorem updateSackList_spec {ds : List (ℕ × ℕ)} (hd : Within stream lo ds) {n x y : ℕ}
    (hn : lo ≤ n) (hnx : n < x) (hxy : x < y)
    (hcov : ∀ k, x ≤ k → k < y → Intervals.Covers ds k) {blocks : List SackBlock}
    (h : Reports init ds n blocks) :
    ∃ blocks', TcpRxBuffer.updateSackList (pos (init + n)) (pos (init + x)) (pos (init + y))
      blocks = some blocks' ∧ Reports init ds n blocks' := by
  obtain ⟨h1, h2⟩ := hd.span hxy hcov
  have hb : Reports init ds n [(pos (init + x), pos (init + y))] := by
    intro block hblock
    rw [List.mem_singleton.mp hblock]
    exact ⟨x, y, rfl, hxy, by omega, hcov⟩
  obtain ⟨merged, hm, hrep⟩ := mergeBlocks_spec hd _ [] blocks hb
    (fun _ h => absurd h List.not_mem_nil) h
  unfold TcpRxBuffer.updateSackList
  rw [gt_window h1 (by omega) hn (by omega), if_pos (decide_eq_true hnx), hm]
  refine ⟨_, rfl, ?_⟩
  split
  · exact hrep.subset (List.dropLast_subset _)
  · exact hrep

/-! ## The next sequence number -/

theorem updateNext_map {ds es : List (ℕ × ℕ)} (hd : Within stream lo ds) (he : Within stream lo es)
    {n avail : ℕ} (hn : lo ≤ n) (hn' : n < lo + 2 ^ 31)
    (hav : avail + (Intervals.advance es n - n) < 2 ^ 32) {blocks : List SackBlock}
    (h : Reports init ds n blocks) :
    ∃ blocks', TcpRxBuffer.updateNext (es.map (packet stream init)) (pos (init + n)) avail blocks =
        some (pos (init + Intervals.advance es n), avail + (Intervals.advance es n - n), blocks') ∧
      Reports init ds (Intervals.advance es n) blocks' := by
  induction es generalizing n avail blocks with
  | nil =>
    refine ⟨blocks, ?_, h⟩
    simp [TcpRxBuffer.updateNext, Intervals.advance]
  | cons x es ih =>
    obtain ⟨⟨h1, h2, h3, h4⟩, hes⟩ := List.forall_mem_cons.mp he
    unfold Intervals.advance at hav ⊢
    rw [List.map_cons]
    unfold TcpRxBuffer.updateNext
    rw [add_length h2 h3]
    have hlen : (packet stream init x).2.length = x.2 - x.1 := length_segment h3
    rw [hlen]
    dsimp only [packet]
    simp only [lt_window h1 (by omega : x.1 < lo + 2 ^ 31) hn hn',
      gt_window h1 (by omega : x.1 < lo + 2 ^ 31) hn hn', decide_eq_true_eq]
    split
    · next hlt =>
      rw [if_pos hlt] at hav
      exact ih hes hn hn' hav h
    · next hlt =>
      rw [if_neg hlt] at hav
      split
      · refine ⟨blocks, ?_, h⟩
        simp
      · next hgt =>
        rw [if_neg hgt] at hav
        have hle := Intervals.le_advance (fun y hy => (hes y hy).2.1) x.2
        obtain ⟨cleared, hclear, hrep⟩ := clearSackList_spec hd (by omega : lo ≤ x.2) h4 h
        obtain ⟨blocks', hnext, hrep'⟩ :=
          @ih hes x.2 (avail + (x.2 - x.1)) (by omega) h4 (by omega) cleared hrep
        refine ⟨blocks', ?_, hrep'⟩
        rw [hclear]
        dsimp only [Option.bind_eq_bind, Option.bind_some]
        rw [Nat.mod_eq_of_lt (by omega), hnext]
        congr 3
        omega

/-! ## Extraction -/

theorem extractLoop_map {ds : List (ℕ × ℕ)} (hd : Within stream lo ds) (ht : Intervals.Tidy ds)
    {e n r : ℕ} (he : ∀ x ∈ ds, e ≤ x.1) (hr : e + n ≤ r) (hr' : r < lo + 2 ^ 31)
    (hcov : ∀ k, e ≤ k → k < e + n → Intervals.Covers ds k) :
    TcpRxBuffer.extractLoop (pos (init + r)) (ds.map (packet stream init)) n =
      some ((Intervals.cut ds (e + n)).map (packet stream init), segment stream e (e + n)) := by
  induction ds generalizing e n with
  | nil =>
    cases n with
    | zero => simp [TcpRxBuffer.extractLoop, Intervals.cut, segment]
    | succ n => exact absurd (hcov e le_rfl (by omega)) (Intervals.covers_nil e)
  | cons x ds ih =>
    cases n with
    | zero =>
      rw [Nat.add_zero, Intervals.cut_of_le (fun y hy => ⟨he y hy, ht.2 y hy⟩)]
      simp [TcpRxBuffer.extractLoop, segment]
    | succ n =>
      obtain ⟨⟨h1, h2, h3, h4⟩, hds⟩ := List.forall_mem_cons.mp hd
      obtain ⟨-, hlt, htd⟩ := Intervals.tidy_cons.mp ht
      obtain ⟨hex, heds⟩ := List.forall_mem_cons.mp he
      have hlen : (packet stream init x).2.length = x.2 - x.1 := length_segment h3
      -- the first packet begins at the first offset
      have hx : x.1 = e := by
        rcases Intervals.covers_cons.mp (hcov e le_rfl (by omega)) with h | ⟨y, hy, h⟩
        · omega
        · have := hlt y hy
          omega
      rw [List.map_cons]
      unfold TcpRxBuffer.extractLoop Intervals.cut
      rw [hlen, if_pos (by
        rw [packet, le_window h1 (by omega) (by omega) hr', decide_eq_true_eq]
        omega)]
      split
      · next hle =>
        rw [if_pos (by omega)]
        have := @ih hds htd x.2 (n + 1 - (x.2 - x.1)) hlt (by omega) (by
          intro k hk hk'
          rcases Intervals.covers_cons.mp (hcov k (by omega) (by omega)) with h | h
          · omega
          · exact h)
        rw [show x.2 + (n + 1 - (x.2 - x.1)) = e + (n + 1) by omega] at this
        rw [this, ← @segment_append stream e x.2 (e + (n + 1)) (by omega) (by omega), ← hx]
        rfl
      · next hgt =>
        subst hx
        have hne : ∀ z ∈ x :: ds, z.1 ≠ x.1 + (n + 1) := by
          intro z hz
          rcases List.mem_cons.mp hz with rfl | hz
          · omega
          · have := hlt z hz
            omega
        have hins : Intervals.insert (x.1 + (n + 1), x.2) (x :: ds) =
            x :: (x.1 + (n + 1), x.2) :: ds := by
          unfold Intervals.insert
          rw [if_neg (by dsimp only; omega), Intervals.insert_of_lt]
          intro z hz
          have := hlt z hz
          dsimp only
          omega
        have hmap := @assignData_map stream init lo (x :: ds) hd (x.1 + (n + 1), x.2)
          (by dsimp only; omega) (by dsimp only; omega) hne
        rw [hins, List.map_cons] at hmap
        rw [if_neg (by omega), if_pos (by omega)]
        dsimp only [packet] at hmap ⊢
        rw [drop_segment, take_segment (by omega), pos_add, Nat.add_assoc, hmap, List.map_cons]
        unfold List.eraseP
        simp only [packet, decide_true]
        rfl

end Ns3.Internet
