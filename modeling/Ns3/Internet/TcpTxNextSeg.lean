import Ns3.Internet.TcpTxBuffer
import Mathlib.Data.List.Nodup
import Mathlib.Tactic.Tauto
import Mathlib.Tactic.SplitIfs
import Mathlib.Tactic.Cases

/-!
# NextSeg

Rules 1 to 3 of RFC 6675 for the items with their starts, and when `NextSeg` follows them. It misses
the lowest candidate of rule 3 when that one starts at 0, the value that stands for nothing found,
and it returns an empty range where the window is full.
-/

namespace Ns3.Internet

open Ns3.Network SequenceNumber32

/-- The bytes of the items of a list. -/
def total (items : List TcpTxItem) : ℕ := (items.map TcpTxItem.size).sum

@[simp] theorem total_nil : total [] = 0 := rfl

@[simp] theorem total_cons (item : TcpTxItem) (items : List TcpTxItem) :
    total (item :: items) = item.size + total items := rfl

@[simp] theorem total_append (xs ys : List TcpTxItem) : total (xs ++ ys) = total xs + total ys := by
  simp [total]

/-- The items with the sequence numbers they start at. -/
def withStart : SequenceNumber32 → List TcpTxItem → List (SequenceNumber32 × TcpTxItem)
  | _, [] => []
  | start, item :: rest => (start, item) :: withStart (plus start item.size) rest

/-- Neither sacked nor retransmitted. -/
def isOpen (x : SequenceNumber32 × TcpTxItem) : Bool := !x.2.m_retrans && !x.2.m_sacked

def isOpenLost (x : SequenceNumber32 × TcpTxItem) : Bool := isOpen x && x.2.m_lost

namespace TcpTxBuffer

/-- The starts of the lost items that are neither sacked nor retransmitted. -/
def lostStarts (b : TcpTxBuffer) : List SequenceNumber32 :=
  ((withStart b.m_firstByteSeq b.m_sentList).filter isOpenLost).map Prod.fst

/-- The starts of the items that are neither sacked nor retransmitted. -/
def openStarts (b : TcpTxBuffer) : List SequenceNumber32 :=
  ((withStart b.m_firstByteSeq b.m_sentList).filter isOpen).map Prod.fst

def unsent (b : TcpTxBuffer) : ℕ := total b.m_appList

/-- The sizes agree with the lists and fit into their types. -/
structure Sized (b : TcpTxBuffer) : Prop where
  sentSize : b.m_sentSize = total b.m_sentList
  size : b.m_size = b.m_sentSize + b.unsent
  size_lt : b.m_size < 2 ^ 32
  first_lt : b.m_firstByteSeq.m_value < 2 ^ 32
  segment_lt : b.m_segmentSize < 2 ^ 32
  full : ∀ item ∈ b.m_sentList, 0 < item.size

/-- Rules 1 to 3 of RFC 6675. -/
def nextSegRule (b : TcpTxBuffer) (rWnd : ℕ) (isRecovery : Bool) : Option SequenceNumber32 :=
  match b.lostStarts with
  | seq :: _ => some seq
  | [] =>
    if 0 < b.unsent then
      if b.m_sentSize < rWnd then some b.sentEnd else none
    else if isRecovery then b.openStarts.head? else none

/-- `NextSeg` returns what the rules say, and a range that is not empty. -/
def FollowsRules (b : TcpTxBuffer) (rWnd : ℕ) (isRecovery : Bool) : Prop :=
  match b.nextSeg rWnd isRecovery with
  | none => b.nextSegRule rWnd isRecovery = none
  | some (seq, seqHigh) => b.nextSegRule rWnd isRecovery = some seq ∧ seq ≠ seqHigh

/-- `SizeFromSequence` sees the unsent data: less than half of the sequence numbers are between the
two ends of it. -/
def SeesUnsent (b : TcpTxBuffer) : Prop :=
  b.unsent < 2 ^ 31 ∨ (b.unsent = 2 ^ 31 ∧ 2 ^ 31 ≤ b.sentEnd.m_value)

/-- When `NextSeg` follows the rules. -/
def RulesApply (b : TcpTxBuffer) (rWnd : ℕ) (isRecovery : Bool) : Prop :=
  match b.lostStarts with
  | _ :: _ => 0 < b.m_segmentSize
  | [] =>
    if 0 < b.unsent then
      (b.SeesUnsent ∧ (b.m_sentSize < rWnd → 0 < b.m_segmentSize) ∧ b.m_sentSize ≠ rWnd) ∨
        (¬b.SeesUnsent ∧ rWnd ≤ b.m_sentSize ∧ (isRecovery = true → b.openStarts = []))
    else
      isRecovery = true → ∀ seq rest, b.openStarts = seq :: rest →
        0 < b.m_segmentSize ∧ (seq.m_value = 0 → rest = [])

end TcpTxBuffer

open TcpTxBuffer

/-- What the loop saves for rule 3. -/
def savedStart : Option SequenceNumber32 → List SequenceNumber32 → Option SequenceNumber32
  | saved, [] => saved
  | saved, start :: rest =>
    savedStart (if (saved.getD ⟨0⟩).m_value = 0 then some start else saved) rest

theorem savedStart_of_ne_zero {seq : SequenceNumber32} (h : seq.m_value ≠ 0)
    (starts : List SequenceNumber32) : savedStart (some seq) starts = some seq := by
  induction starts with
  | nil => rfl
  | cons start rest ih =>
    have hsaved : ¬((some seq).getD ⟨0⟩).m_value = 0 := h
    rw [savedStart, if_neg hsaved, ih]

theorem nextSegLoop_eq (isRecovery : Bool) (start : SequenceNumber32) (items : List TcpTxItem)
    (saved : Option SequenceNumber32) :
    nextSegLoop isRecovery start items saved =
      match ((withStart start items).filter isOpenLost).map Prod.fst with
      | seq :: _ => .inl seq
      | [] => .inr (if isRecovery then
          savedStart saved (((withStart start items).filter isOpen).map Prod.fst) else saved) := by
  induction items generalizing start saved with
  | nil => simp [nextSegLoop, withStart, savedStart]
  | cons item rest ih =>
    have hopen : isOpen (start, item) = true ↔ item.m_retrans = false ∧ item.m_sacked = false := by
      simp [isOpen]
    have hlost : isOpenLost (start, item) = true ↔
        item.m_retrans = false ∧ item.m_sacked = false ∧ item.m_lost = true := by
      simp [isOpenLost, isOpen, and_assoc]
    rw [nextSegLoop, withStart]
    by_cases hl : isOpenLost (start, item) = true
    · rw [if_pos (hlost.mp hl), List.filter_cons_of_pos hl]
      rfl
    · rw [if_neg (mt hlost.mpr hl), List.filter_cons_of_neg hl]
      by_cases ho : isOpen (start, item) = true
      · obtain ⟨hr, hs⟩ := hopen.mp ho
        rw [List.filter_cons_of_pos ho, List.map_cons, savedStart]
        by_cases hz : (saved.getD ⟨0⟩).m_value = 0 ∧ isRecovery = true
        · rw [if_pos ⟨hr, hs, hz⟩, if_pos hz.1, ih, hz.2]
          rfl
        · rw [if_neg (fun h => hz h.2.2), ih]
          cases isRecovery with
          | false => rfl
          | true => rw [if_neg (fun h => hz ⟨h, rfl⟩)]
      · rw [if_neg (fun h => ho (hopen.mpr ⟨h.1, h.2.1⟩)), ih, List.filter_cons_of_neg ho]

theorem plus_lt (seq : SequenceNumber32) (n : ℕ) : (plus seq n).m_value < 2 ^ 32 :=
  Nat.mod_lt _ (by decide)

theorem plus_plus (seq : SequenceNumber32) (m n : ℕ) : plus (plus seq m) n = plus seq (m + n) := by
  ext
  simp only [plus, SequenceNumber32.add]
  omega

theorem ne_plus_iff {seq : SequenceNumber32} {n : ℕ} (hseq : seq.m_value < 2 ^ 32)
    (hn : n < 2 ^ 32) : seq ≠ plus seq n ↔ 0 < n := by
  rw [ne_eq, plus, SequenceNumber32.add, SequenceNumber32.ext_iff]
  simp only
  omega

/-- `>` of two numbers, the first one `n` above the second. -/
theorem plus_gt_iff {seq : SequenceNumber32} {n : ℕ} (hseq : seq.m_value < 2 ^ 32)
    (hn : n < 2 ^ 32) :
    (plus seq n).gt seq = true ↔ 0 < n ∧ (n < 2 ^ 31 ∨ (n = 2 ^ 31 ∧ 2 ^ 31 ≤ seq.m_value)) := by
  have hvalue : (plus seq n).m_value = (seq.m_value + n) % 2 ^ 32 := rfl
  rw [gt, Bool.or_eq_true, Bool.and_eq_true, Bool.and_eq_true]
  simp only [decide_eq_true_eq]
  rw [diff, diff, halfMaxValue]
  rcases Nat.lt_or_ge (seq.m_value + n) (2 ^ 32) with hno | hwrap
  · have hsum : (plus seq n).m_value = seq.m_value + n := hvalue.trans (Nat.mod_eq_of_lt hno)
    rw [hsum]
    omega
  · have hsum : (plus seq n).m_value = seq.m_value + n - 2 ^ 32 := by omega
    rw [hsum]
    omega

/-- `>=` of two numbers, the first one `n` above the second. -/
theorem plus_ge_iff {seq : SequenceNumber32} {n : ℕ} (hseq : seq.m_value < 2 ^ 32)
    (hn : n < 2 ^ 32) :
    (plus seq n).ge seq = true ↔ n < 2 ^ 31 ∨ (n = 2 ^ 31 ∧ 2 ^ 31 ≤ seq.m_value) := by
  have hne := ne_plus_iff hseq hn
  rw [ge, Bool.or_eq_true, plus_gt_iff hseq hn, beq_iff_eq, eq_comm]
  by_cases hpos : 0 < n
  · have hnot : seq ≠ plus seq n := hne.mpr hpos
    tauto
  · have heq : seq = plus seq n := not_not.mp (mt hne.mp hpos)
    have hzero : n < 2 ^ 31 := by omega
    tauto

theorem toUint32_plus_sub {seq : SequenceNumber32} {n : ℕ} (hseq : seq.m_value < 2 ^ 32)
    (hn : n < 2 ^ 32) : toUint32 ((plus seq n).sub seq) = n := by
  have hvalue : (plus seq n).m_value = (seq.m_value + n) % 2 ^ 32 := rfl
  have hsub := toUint32_sub (plus_lt seq n) hseq
  rw [hvalue, diff] at hsub
  refine hsub.trans ?_
  omega

theorem withStart_lt {start : SequenceNumber32} {items : List TcpTxItem}
    (hstart : start.m_value < 2 ^ 32) : ∀ x ∈ withStart start items, x.1.m_value < 2 ^ 32 := by
  induction items generalizing start with
  | nil =>
    intro x hx
    cases hx
  | cons item rest ih =>
    intro x hx
    rcases List.mem_cons.mp hx with rfl | hx
    · exact hstart
    · exact ih (plus_lt start item.size) x hx

/-- The starts are offsets from the first one. -/
theorem withStart_offset {start : SequenceNumber32} {items : List TcpTxItem} {m : ℕ}
    (hfull : ∀ item ∈ items, 0 < item.size) : ∀ x ∈ withStart (plus start m) items,
      ∃ k, m ≤ k ∧ k < m + total items ∧ x.1 = plus start k := by
  induction items generalizing m with
  | nil =>
    intro x hx
    cases hx
  | cons item rest ih =>
    intro x hx
    have hpos := hfull item List.mem_cons_self
    rw [withStart, plus_plus] at hx
    rw [total_cons]
    rcases List.mem_cons.mp hx with rfl | hx
    · exact ⟨m, le_rfl, by omega, rfl⟩
    · obtain ⟨k, hle, hlt, hk⟩ := ih (fun i hi => hfull i (List.mem_cons_of_mem item hi)) x hx
      exact ⟨k, by omega, by omega, hk⟩

theorem withStart_nodup {start : SequenceNumber32} {items : List TcpTxItem}
    (hstart : start.m_value < 2 ^ 32) (hfull : ∀ item ∈ items, 0 < item.size)
    (hlt : total items < 2 ^ 32) : ((withStart start items).map Prod.fst).Nodup := by
  induction items generalizing start with
  | nil => exact List.nodup_nil
  | cons item rest ih =>
    have hpos := hfull item List.mem_cons_self
    have hfull' : ∀ i ∈ rest, 0 < i.size := fun i hi => hfull i (List.mem_cons_of_mem item hi)
    rw [total_cons] at hlt
    refine List.nodup_cons.mpr ⟨?_, ih (plus_lt start item.size) hfull' (by omega)⟩
    intro hmem
    obtain ⟨x, hx, hxs⟩ := List.mem_map.mp hmem
    obtain ⟨k, hle, hk, heq⟩ := withStart_offset hfull' x hx
    have hne := (ne_plus_iff hstart (n := k) (by omega)).mpr (by omega)
    exact hne (hxs.symm.trans heq)

theorem savedStart_isSome (saved : SequenceNumber32) (starts : List SequenceNumber32) :
    ∃ seq, savedStart (some saved) starts = some seq := by
  induction starts generalizing saved with
  | nil => exact ⟨saved, rfl⟩
  | cons start rest ih =>
    rw [savedStart]
    split
    · exact ih start
    · exact ih saved

theorem savedStart_mem {saved seq : SequenceNumber32} {starts : List SequenceNumber32}
    (h : savedStart (some saved) starts = some seq) : seq ∈ saved :: starts := by
  induction starts generalizing saved with
  | nil =>
    cases h
    exact List.mem_cons_self
  | cons start rest ih =>
    rw [savedStart] at h
    split at h
    · exact List.mem_cons_of_mem saved (ih h)
    · rcases List.mem_cons.mp (ih h) with rfl | hmem
      · exact List.mem_cons_self
      · exact List.mem_cons_of_mem saved (List.mem_cons_of_mem start hmem)

/-- The lowest start is saved, unless it is 0 and there is another one. -/
theorem savedStart_cons {seq : SequenceNumber32} {rest : List SequenceNumber32}
    (hnodup : (seq :: rest).Nodup) :
    savedStart none (seq :: rest) = some seq ↔ (seq.m_value = 0 → rest = []) := by
  have hfirst : savedStart none (seq :: rest) = savedStart (some seq) rest := rfl
  rw [hfirst]
  by_cases hz : seq.m_value = 0
  · cases rest with
    | nil => simp [savedStart]
    | cons next rest =>
      have hne : next ≠ seq := by
        rintro rfl
        exact (List.nodup_cons.mp hnodup).1 List.mem_cons_self
      have hvalue : next.m_value ≠ 0 := by
        intro hnext
        exact hne (SequenceNumber32.ext (hnext.trans hz.symm))
      have hsaved : ((some seq).getD ⟨0⟩).m_value = 0 := hz
      rw [savedStart, if_pos hsaved, savedStart_of_ne_zero hvalue]
      simp [hne, hz]
  · rw [savedStart_of_ne_zero hz]
    simp [hz]

namespace TcpTxBuffer

variable {b : TcpTxBuffer} {rWnd : ℕ} {isRecovery : Bool}

theorem Sized.openStarts_nodup (h : b.Sized) : b.openStarts.Nodup := by
  have hlt : total b.m_sentList < 2 ^ 32 := by
    have := h.sentSize
    have := h.size
    have := h.size_lt
    omega
  exact (withStart_nodup h.first_lt h.full hlt).sublist (List.filter_sublist.map Prod.fst)

theorem Sized.start_lt (h : b.Sized) {seq : SequenceNumber32}
    {keep : SequenceNumber32 × TcpTxItem → Bool}
    (hseq : seq ∈ ((withStart b.m_firstByteSeq b.m_sentList).filter keep).map Prod.fst) :
    seq.m_value < 2 ^ 32 := by
  obtain ⟨x, hx, rfl⟩ := List.mem_map.mp hseq
  exact withStart_lt h.first_lt x (List.mem_filter.mp hx).1

theorem Sized.start_ne_sentEnd (h : b.Sized) {seq : SequenceNumber32}
    (hseq : seq ∈ b.openStarts) : seq ≠ b.sentEnd := by
  obtain ⟨x, hx, rfl⟩ := List.mem_map.mp hseq
  have hzero : b.m_firstByteSeq = plus b.m_firstByteSeq 0 := by
    have hlt := h.first_lt
    ext
    simp only [plus, SequenceNumber32.add]
    omega
  have hmem := (List.mem_filter.mp hx).1
  rw [hzero] at hmem
  obtain ⟨k, -, hk, heq⟩ := withStart_offset h.full x hmem
  have hsent := h.sentSize
  have hsize := h.size
  have hlt := h.size_lt
  have hend : b.sentEnd = plus x.1 (b.m_sentSize - k) := by
    rw [heq, plus_plus, sentEnd]
    congr 1
    omega
  rw [hend]
  exact (ne_plus_iff (heq ▸ plus_lt b.m_firstByteSeq k) (by omega)).mpr (by omega)

theorem Sized.tailSequence_eq (h : b.Sized) : b.tailSequence = plus b.sentEnd b.unsent := by
  rw [tailSequence, sentEnd, plus_plus, h.size]

/-- What `SizeFromSequence` returns for the unsent data. -/
theorem Sized.sizeFromSequence_pos (h : b.Sized) :
    0 < b.sizeFromSequence b.sentEnd ↔ 0 < b.unsent ∧ b.SeesUnsent := by
  have hlt : b.unsent < 2 ^ 32 := by
    have := h.size
    have := h.size_lt
    omega
  have hend : b.sentEnd.m_value < 2 ^ 32 := plus_lt b.m_firstByteSeq b.m_sentSize
  rw [sizeFromSequence, h.tailSequence_eq, SeesUnsent]
  by_cases hge : (plus b.sentEnd b.unsent).ge b.sentEnd = true
  · have hsees := (plus_ge_iff hend hlt).mp hge
    rw [if_pos hge, toUint32_plus_sub hend hlt]
    exact ⟨fun hpos => ⟨hpos, hsees⟩, fun hpos => hpos.1⟩
  · have hsees := mt (plus_ge_iff hend hlt).mpr hge
    rw [if_neg hge]
    exact ⟨fun hpos => absurd hpos (Nat.lt_irrefl 0), fun hpos => absurd hpos.2 hsees⟩

theorem nextSeg_eq (b : TcpTxBuffer) (rWnd : ℕ) (isRecovery : Bool) :
    b.nextSeg rWnd isRecovery =
      match b.lostStarts with
      | seq :: _ => some (seq, plus seq b.m_segmentSize)
      | [] =>
        if 0 < b.sizeFromSequence b.sentEnd then
          if b.m_sentSize ≤ rWnd then
            some (b.sentEnd, plus b.sentEnd (min b.m_segmentSize (takeFrom rWnd b.m_sentSize)))
          else none
        else (if isRecovery then savedStart none b.openStarts else none).map
          fun seq => (seq, plus seq b.m_segmentSize) := by
  rw [nextSeg, nextSegLoop_eq, lostStarts, openStarts]
  cases ((withStart b.m_firstByteSeq b.m_sentList).filter isOpenLost).map Prod.fst <;> rfl

/-- A result of `NextSeg`, compared with the rules. -/
def Agrees (rule : Option SequenceNumber32)
    (result : Option (SequenceNumber32 × SequenceNumber32)) :
    Prop :=
  match result with
  | none => rule = none
  | some (seq, seqHigh) => rule = some seq ∧ seq ≠ seqHigh

theorem followsRules_iff :
    b.FollowsRules rWnd isRecovery ↔
      Agrees (b.nextSegRule rWnd isRecovery) (b.nextSeg rWnd isRecovery) := Iff.rfl

theorem agrees_plus {rule : Option SequenceNumber32} {seq : SequenceNumber32} {n : ℕ}
    (hseq : seq.m_value < 2 ^ 32) (hn : n < 2 ^ 32) :
    Agrees rule (some (seq, plus seq n)) ↔ rule = some seq ∧ 0 < n :=
  and_congr_right fun _ => ne_plus_iff hseq hn

/-- Rule 2, where `SizeFromSequence` sees the unsent data. -/
theorem Sized.agrees_window (h : b.Sized) (hw : rWnd < 2 ^ 32) :
    Agrees (if b.m_sentSize < rWnd then some b.sentEnd else none)
        (if b.m_sentSize ≤ rWnd then
          some (b.sentEnd, plus b.sentEnd (min b.m_segmentSize (takeFrom rWnd b.m_sentSize)))
        else none) ↔
      (b.m_sentSize < rWnd → 0 < b.m_segmentSize) ∧ b.m_sentSize ≠ rWnd := by
  have hend : b.sentEnd.m_value < 2 ^ 32 := plus_lt b.m_firstByteSeq b.m_sentSize
  have hseg := h.segment_lt
  rcases Nat.lt_trichotomy b.m_sentSize rWnd with hlt | heq | hgt
  · have hroom : takeFrom rWnd b.m_sentSize = rWnd - b.m_sentSize := by
      rw [takeFrom, diff]
      omega
    rw [if_pos hlt, if_pos hlt.le, hroom, agrees_plus hend (by omega)]
    constructor
    · intro hpos
      exact ⟨fun _ => by omega, by omega⟩
    · intro hpos
      have hsegment := hpos.1 hlt
      exact ⟨rfl, by omega⟩
  · rw [if_neg (by omega), if_pos heq.le]
    constructor
    · intro hnone
      cases hnone.1
    · intro hne
      exact absurd heq hne.2
  · rw [if_neg (by omega), if_neg (by omega)]
    exact ⟨fun _ => ⟨fun hlt => by omega, by omega⟩, fun _ => rfl⟩

/-- Rule 2, where `SizeFromSequence` does not see the unsent data: rule 3 is tried. -/
theorem Sized.agrees_unseen (h : b.Sized) :
    Agrees (if b.m_sentSize < rWnd then some b.sentEnd else none)
        ((if isRecovery then savedStart none b.openStarts else none).map
          fun seq => (seq, plus seq b.m_segmentSize)) ↔
      rWnd ≤ b.m_sentSize ∧ (isRecovery = true → b.openStarts = []) := by
  have hnone : (if b.m_sentSize < rWnd then some b.sentEnd else none) = none ↔
      rWnd ≤ b.m_sentSize := by
    by_cases hlt : b.m_sentSize < rWnd
    · rw [if_pos hlt]
      exact ⟨fun heq => (nomatch heq), fun hle => absurd hlt (not_lt.mpr hle)⟩
    · rw [if_neg hlt]
      exact ⟨fun _ => not_lt.mp hlt, fun _ => rfl⟩
  cases isRecovery with
  | false =>
    refine hnone.trans ⟨fun hle => ⟨hle, fun hfalse => ?_⟩, fun hle => hle.1⟩
    cases hfalse
  | true =>
    rw [if_pos rfl]
    cases hstarts : b.openStarts with
    | nil => exact hnone.trans ⟨fun hle => ⟨hle, fun _ => rfl⟩, fun hle => hle.1⟩
    | cons seq rest =>
      obtain ⟨saved, hsaved⟩ := savedStart_isSome seq rest
      have hfirst : savedStart none (seq :: rest) = some saved := hsaved
      have hmem : saved ∈ b.openStarts := by
        rw [hstarts]
        exact savedStart_mem hsaved
      rw [hfirst, Option.map_some, agrees_plus (h.start_lt hmem) h.segment_lt]
      constructor
      · rintro ⟨hrule, -⟩
        -- a saved start is below SND.NXT
        split at hrule
        · exact absurd (Option.some.inj hrule).symm (h.start_ne_sentEnd hmem)
        · cases hrule
      · rintro ⟨-, hempty⟩
        cases hempty rfl

/-- Rule 3. -/
theorem Sized.agrees_saved (h : b.Sized) :
    Agrees b.openStarts.head?
        ((savedStart none b.openStarts).map fun seq => (seq, plus seq b.m_segmentSize)) ↔
      ∀ seq rest, b.openStarts = seq :: rest →
        0 < b.m_segmentSize ∧ (seq.m_value = 0 → rest = []) := by
  have hnodup := h.openStarts_nodup
  cases hstarts : b.openStarts with
  | nil =>
    constructor
    · intro _ seq rest hcons
      cases hcons
    · intro _
      rfl
  | cons seq rest =>
    rw [hstarts] at hnodup
    have hcons := savedStart_cons hnodup
    obtain ⟨saved, hsaved⟩ := savedStart_isSome seq rest
    have hfirst : savedStart none (seq :: rest) = some saved := hsaved
    rw [hfirst, Option.some.injEq] at hcons
    have hmem : saved ∈ b.openStarts := by
      rw [hstarts]
      exact savedStart_mem hsaved
    rw [hfirst, Option.map_some, agrees_plus (h.start_lt hmem) h.segment_lt, List.head?_cons,
      Option.some.injEq, eq_comm, hcons]
    constructor
    · rintro ⟨hlow, hpos⟩ seq' rest' heq
      cases heq
      exact ⟨hpos, hlow⟩
    · intro hall
      obtain ⟨hpos, hlow⟩ := hall seq rest rfl
      exact ⟨hlow, hpos⟩

/-- `NextSeg` follows the rules, but for the lowest candidate of rule 3 at 0 with another one behind
it, a full window, segments of no bytes, and unsent data of `2 ^ 31` bytes. -/
theorem nextSeg_follows_iff (h : b.Sized) (hw : rWnd < 2 ^ 32) (isRecovery : Bool) :
    b.FollowsRules rWnd isRecovery ↔ b.RulesApply rWnd isRecovery := by
  rw [followsRules_iff, nextSeg_eq, nextSegRule, RulesApply]
  cases hlost : b.lostStarts with
  | cons seq rest =>
    have hmem : seq ∈ b.lostStarts := by
      rw [hlost]
      exact List.mem_cons_self
    dsimp only
    rw [agrees_plus (h.start_lt hmem) h.segment_lt]
    exact ⟨fun hpos => hpos.2, fun hpos => ⟨rfl, hpos⟩⟩
  | nil =>
    dsimp only
    have hsize := h.sizeFromSequence_pos
    by_cases hunsent : 0 < b.unsent
    · rw [if_pos hunsent, if_pos hunsent]
      by_cases hsees : b.SeesUnsent
      · rw [if_pos (hsize.mpr ⟨hunsent, hsees⟩), h.agrees_window hw]
        constructor
        · exact fun hwindow => Or.inl ⟨hsees, hwindow⟩
        · rintro (⟨-, hwindow⟩ | ⟨hnot, -⟩)
          · exact hwindow
          · exact absurd hsees hnot
      · rw [if_neg (fun hpos => hsees (hsize.mp hpos).2), h.agrees_unseen]
        constructor
        · exact fun hnone => Or.inr ⟨hsees, hnone⟩
        · rintro (⟨hsee, -⟩ | ⟨-, hnone⟩)
          · exact absurd hsee hsees
          · exact hnone
    · rw [if_neg hunsent, if_neg hunsent, if_neg (fun hpos => hunsent (hsize.mp hpos).1)]
      cases isRecovery with
      | false =>
        constructor
        · intro _ hfalse
          cases hfalse
        · intro _
          rfl
      | true =>
        rw [if_pos rfl, if_pos rfl, h.agrees_saved]
        exact ⟨fun hall _ => hall, fun hall => hall rfl⟩

/-- Two items with nothing sent again, the first one at 0. -/
def startAtZero : TcpTxBuffer where
  m_firstByteSeq := ⟨0⟩
  m_sentList := [{ address := 0, m_packet := [1, 2] },
    { address := 1, m_startSeq := ⟨2⟩, m_packet := [3, 4] }]
  m_size := 4
  m_sentSize := 4
  m_segmentSize := 2

/-- A byte that was not sent, and as many bytes sent as the window of the receiver has room for. -/
def fullWindow : TcpTxBuffer :=
  { startAtZero with
    m_appList := [{ address := 2, m_packet := [5] }]
    m_size := 5 }

/-- The second item is returned where the first one is the lowest, and an empty range where the
window is full. -/
theorem rules_broken :
    startAtZero.Sized ∧ ¬startAtZero.FollowsRules 100 true ∧
      fullWindow.Sized ∧ ¬fullWindow.FollowsRules 4 false := by
  refine ⟨⟨rfl, rfl, by decide, by decide, by decide, by decide⟩, ?_,
    ⟨rfl, rfl, by decide, by decide, by decide, by decide⟩, ?_⟩
  · rintro ⟨hrule, -⟩
    exact absurd hrule (by decide)
  · rintro ⟨hrule, -⟩
    exact absurd hrule (by decide)

theorem nextSeg_follows_iff_fullWindow :
    fullWindow.FollowsRules 9 true ↔ fullWindow.RulesApply 9 true :=
  nextSeg_follows_iff ⟨rfl, rfl, by decide, by decide, by decide, by decide⟩ (by decide) true

end TcpTxBuffer

end Ns3.Internet
