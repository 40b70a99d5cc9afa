import Ns3.Nr.Sched.Lcg

/-!
# Buffer status reports

The UE reports for each logical channel group the level of its queue size, and the scheduler turns
the level into bytes again. The level is the least one whose bytes cover the queue, the last level
excepted, which stands for all larger queues.
-/

namespace Ns3.Nr.Sched

/-! ## NrMacShortBsrCe -/

/-- Table 6.1.3-1 of TS 38.321, in both functions. -/
def lookupVector : List Nat :=
  [0, 10, 14, 20, 28, 38, 53, 74, 102, 142, 198, 276, 384, 535, 745, 1038, 1446, 2014, 2806, 3909,
    5446, 7587, 10570, 14726, 20516, 28581, 39818, 55474, 77284, 107669, 150000]

/-- The loop of `FromBytesToLevel` over the rest of the table. -/
def levelLoop (bufferSize : Nat) : List Nat → Nat → Nat
  | [], index => index
  | v :: vs, index => if v < bufferSize then levelLoop bufferSize vs (index + 1) else index

def fromBytesToLevel (bufferSize : Nat) : Nat :=
  if bufferSize > 150000 then 31
  else if bufferSize = 0 then 0
  else levelLoop bufferSize lookupVector 0

def fromLevelToBytes (bufferLevel : Nat) : Nat :=
  if bufferLevel > lookupVector.length - 1 then 150000 * 8
  else lookupVector.getD bufferLevel 0

/-! ## The report -/

/-- The levels that `SendReportBufferStatus` sends for the queues of the four groups. -/
def reportLevels (queue : List Nat) : List Nat := queue.map fromBytesToLevel

/-- The size for `UpdateInfo` in `BSRReceivedFromUe`: with the overhead of the BSR, of a sub-PDU and
of the RLC, unless the group is empty and stays so. -/
def sizeFor (totalSize bsrId : Nat) : Nat :=
  let bufSize := fromLevelToBytes bsrId % 2 ^ 32
  if totalSize > 0 ∨ bufSize > 0 then 5 + 3 + 2 + bufSize else bufSize

/-- One group of `BSRReceivedFromUe`. -/
def bsrForLcg (bufferStatus : List Nat) (ulLCG : Nat → Option Lcg) (lcg : Nat) :
    Result (Nat → Option Lcg) :=
  match bufferStatus[lcg]? with
  | none => .error .outOfRange
  | some bsrId =>
    match ulLCG lcg with
    | none => if fromLevelToBytes bsrId % 2 ^ 32 > 0 then .error .abort else .ok ulLCG
    | some l => do
      let l ← l.updateInfoBsr (sizeFor l.totalSize bsrId)
      return Function.update ulLCG lcg (some l)

def bsrReceivedFromUe (bufferStatus : List Nat) (ulLCG : Nat → Option Lcg) :
    Result (Nat → Option Lcg) :=
  (List.range 4).foldlM (bsrForLcg bufferStatus) ulLCG

/-! ## Levels -/

section Levels

variable {q q' l : Nat}

theorem levelLoop_eq (vs : List Nat) (index : Nat) :
    levelLoop q vs index = index + vs.findIdx fun v => q ≤ v := by
  induction vs generalizing index with
  | nil => rfl
  | cons v vs ih =>
    unfold levelLoop
    rw [List.findIdx_cons]
    by_cases hlt : v < q
    · rw [if_pos hlt, ih, decide_eq_false (not_le.mpr hlt), cond_false]
      omega
    · rw [if_neg hlt, decide_eq_true (not_lt.mp hlt), cond_true, Nat.add_zero]

theorem fromBytesToLevel_of_le (hq : q ≤ 150000) :
    fromBytesToLevel q = lookupVector.findIdx fun v => q ≤ v := by
  unfold fromBytesToLevel
  rw [if_neg (not_lt.mpr hq)]
  split
  · next hzero =>
    rw [hzero]
    rfl
  · rw [levelLoop_eq, Nat.zero_add]

theorem fromBytesToLevel_of_lt (hq : 150000 < q) : fromBytesToLevel q = 31 := if_pos hq

/-- A queue that the table covers has a level of the table. -/
theorem findIdx_lt (hq : q ≤ 150000) : (lookupVector.findIdx fun v => q ≤ v) < 31 := by
  have hex : ∃ v ∈ lookupVector, decide (q ≤ v) = true :=
    ⟨150000, by decide, decide_eq_true hq⟩
  exact List.findIdx_lt_length_of_exists hex

theorem fromBytesToLevel_le (q : Nat) : fromBytesToLevel q ≤ 31 := by
  by_cases hq : q ≤ 150000
  · rw [fromBytesToLevel_of_le hq]
    exact (findIdx_lt hq).le
  · rw [fromBytesToLevel_of_lt (not_le.mp hq)]

theorem fromLevelToBytes_of_lt (hl : l < lookupVector.length) :
    fromLevelToBytes l = lookupVector[l] := by
  unfold fromLevelToBytes
  rw [if_neg (by omega), List.getD_eq_getElem?_getD, List.getElem?_eq_getElem hl,
    Option.getD_some]

theorem fromBytesToLevel_mono (h : q ≤ q') : fromBytesToLevel q ≤ fromBytesToLevel q' := by
  by_cases hq' : q' ≤ 150000
  · rw [fromBytesToLevel_of_le hq', fromBytesToLevel_of_le (h.trans hq')]
    apply List.findIdx_le_findIdx
    intro v _ hv
    rw [decide_eq_true_eq] at *
    exact h.trans hv
  · rw [fromBytesToLevel_of_lt (not_le.mp hq')]
    exact fromBytesToLevel_le q

/-- The bytes of the level cover the queue. -/
theorem le_fromLevelToBytes (hq : q ≤ 150000) : q ≤ fromLevelToBytes (fromBytesToLevel q) := by
  have hlt := findIdx_lt hq
  rw [fromBytesToLevel_of_le hq, fromLevelToBytes_of_lt hlt]
  have hcovers := List.findIdx_getElem (p := fun v => decide (q ≤ v)) (w := hlt)
  exact of_decide_eq_true hcovers

/-- The bytes of no lower level do. -/
theorem fromLevelToBytes_lt (hq : q ≤ 150000) (hl : l < fromBytesToLevel q) :
    fromLevelToBytes l < q := by
  have hlt := findIdx_lt hq
  rw [fromBytesToLevel_of_le hq] at hl
  rw [fromLevelToBytes_of_lt (hl.trans hlt)]
  have hnot := List.not_of_lt_findIdx hl
  rw [decide_eq_false_iff_not, not_le] at hnot
  exact hnot

theorem fromBytesToLevel_fromLevelToBytes (hl : l ≤ 31) :
    fromBytesToLevel (fromLevelToBytes l) = l := by
  have hall : ∀ l < 32, fromBytesToLevel (fromLevelToBytes l) = l := by decide
  exact hall l (by omega)

end Levels

/-! ## Sizes -/

section Sizes

variable {q total l : Nat}

/-- The size that the report `q` of a group with `total` bytes gives to the group. -/
structure Covers (total q size : Nat) : Prop where
  empty : size = 0 ↔ q = 0 ∧ total = 0
  covers : 0 < size → q ≤ 1200010 → q ≤ size
  saturates : 1200010 < q → size = 1200010

theorem fromLevelToBytes_level_eq_zero (q : Nat) :
    fromLevelToBytes (fromBytesToLevel q) = 0 ↔ q = 0 := by
  constructor
  · intro hzero
    by_cases hq : q ≤ 150000
    · have hle := le_fromLevelToBytes hq
      omega
    · rw [fromBytesToLevel_of_lt (not_le.mp hq)] at hzero
      cases hzero
  · rintro rfl
    rfl

theorem fromLevelToBytes_le (l : Nat) : fromLevelToBytes l ≤ 1200000 := by
  by_cases hl : l < 31
  · have hall : ∀ l < 31, fromLevelToBytes l ≤ 1200000 := by decide
    exact hall l hl
  · have hlen : lookupVector.length = 31 := rfl
    unfold fromLevelToBytes
    rw [hlen, if_pos (by omega)]

/-- The bytes of a level fit in the `uint32_t`. -/
theorem sizeFor_eq (total l : Nat) :
    sizeFor total l =
      if total > 0 ∨ fromLevelToBytes l > 0 then 10 + fromLevelToBytes l else 0 := by
  have hle := fromLevelToBytes_le l
  unfold sizeFor
  simp only [Nat.mod_eq_of_lt (show fromLevelToBytes l < 2 ^ 32 by omega)]
  split
  · rfl
  · omega

theorem covers_sizeFor (total q : Nat) : Covers total q (sizeFor total (fromBytesToLevel q)) := by
  have hzero := fromLevelToBytes_level_eq_zero q
  rw [sizeFor_eq]
  constructor
  · split
    · omega
    · omega
  · intro hpos hq
    by_cases hsmall : q ≤ 150000
    · have hle := le_fromLevelToBytes hsmall
      split
      · omega
      · omega
    · rw [fromBytesToLevel_of_lt (not_le.mp hsmall)]
      have htop : fromLevelToBytes 31 = 1200000 := rfl
      rw [htop, if_pos (by omega)]
      omega
  · intro hq
    rw [fromBytesToLevel_of_lt (by omega)]
    have htop : fromLevelToBytes 31 = 1200000 := rfl
    rw [htop, if_pos (by omega)]

end Sizes

/-! ## The groups after a report -/

section Groups

variable {bufferStatus : List Nat} {ulLCG ulLCG' : Nat → Option Lcg} {lcg : Nat} {lcgs : List Nat}

/-- What `BSRReceivedFromUe` does with a group: it gives the size of the reported level to
`UpdateInfo`. -/
def Updated (bufferStatus : List Nat) (ulLCG ulLCG' : Nat → Option Lcg) (lcg : Nat) : Prop :=
  ∀ l, ulLCG lcg = some l → ∃ bsrId l', bufferStatus[lcg]? = some bsrId ∧
    l.updateInfoBsr (sizeFor l.totalSize bsrId) = .ok l' ∧ ulLCG' lcg = some l'

/-- The reports that do not abort: a group with one channel, or no group and no data. -/
def Accepts (bufferStatus : List Nat) (ulLCG : Nat → Option Lcg) (lcg : Nat) : Prop :=
  ∃ bsrId, bufferStatus[lcg]? = some bsrId ∧
    match ulLCG lcg with
    | none => fromLevelToBytes bsrId = 0
    | some l => l.lcMap.length = 1

theorem Lcg.updateInfoBsr_ok_iff {l : Lcg} {size : Nat} :
    (∃ l', l.updateInfoBsr size = .ok l') ↔ l.lcMap.length = 1 := by
  unfold Lcg.updateInfoBsr
  constructor
  · rintro ⟨l', hok⟩
    split at hok
    · cases hok
    · split at hok
      · cases hok
      · omega
  · intro hone
    rw [hone, if_neg (by decide), if_neg (by decide)]
    exact ⟨_, rfl⟩

theorem bsrForLcg_ok_iff :
    (∃ ulLCG', bsrForLcg bufferStatus ulLCG lcg = .ok ulLCG') ↔
      Accepts bufferStatus ulLCG lcg := by
  unfold bsrForLcg Accepts
  cases hstatus : bufferStatus[lcg]? with
  | none => simp
  | some bsrId =>
    have hmod : fromLevelToBytes bsrId % 2 ^ 32 = fromLevelToBytes bsrId :=
      Nat.mod_eq_of_lt ((fromLevelToBytes_le bsrId).trans_lt (by decide))
    cases hl : ulLCG lcg with
    | none =>
      simp only [hmod, Option.some.injEq, exists_eq_left']
      by_cases hzero : fromLevelToBytes bsrId = 0
      · simp [hzero]
      · simp [hzero, Nat.pos_of_ne_zero hzero]
    | some l =>
      have hiff := @Lcg.updateInfoBsr_ok_iff l (sizeFor l.totalSize bsrId)
      cases hupdate : l.updateInfoBsr (sizeFor l.totalSize bsrId) with
      | error e =>
        simp only [hupdate, reduceCtorEq, exists_false, false_iff] at hiff
        simp [hupdate, hiff, bind, Except.bind]
      | ok l' =>
        simp only [hupdate, Except.ok.injEq, exists_eq', true_iff] at hiff
        simp [hupdate, hiff, bind, Except.bind, pure, Except.pure]

theorem bsrForLcg_updated (hok : bsrForLcg bufferStatus ulLCG lcg = .ok ulLCG') :
    Updated bufferStatus ulLCG ulLCG' lcg ∧ ∀ other ≠ lcg, ulLCG' other = ulLCG other := by
  unfold bsrForLcg at hok
  cases hstatus : bufferStatus[lcg]? with
  | none =>
    rw [hstatus] at hok
    cases hok
  | some bsrId =>
    simp only [hstatus] at hok
    cases hl : ulLCG lcg with
    | none =>
      simp only [hl] at hok
      split at hok
      · cases hok
      · cases hok
        refine ⟨?_, fun _ _ => rfl⟩
        intro l hsome
        rw [hl] at hsome
        cases hsome
    | some l =>
      simp only [hl] at hok
      cases hupdate : l.updateInfoBsr (sizeFor l.totalSize bsrId) with
      | error e =>
        rw [hupdate] at hok
        cases hok
      | ok l' =>
        rw [hupdate] at hok
        cases hok
        refine ⟨?_, fun other hne => Function.update_of_ne hne _ _⟩
        intro l₁ hsome
        obtain rfl := Option.some.inj (hl.symm.trans hsome)
        exact ⟨bsrId, l', hstatus, hupdate, Function.update_self ..⟩

/-- A group is updated once, with what it held before the report. -/
theorem foldlM_bsrForLcg_updated (hnodup : lcgs.Nodup)
    (hok : lcgs.foldlM (bsrForLcg bufferStatus) ulLCG = .ok ulLCG') :
    (∀ lcg ∈ lcgs, Updated bufferStatus ulLCG ulLCG' lcg) ∧
      ∀ other ∉ lcgs, ulLCG' other = ulLCG other := by
  induction lcgs generalizing ulLCG with
  | nil =>
    cases hok
    exact ⟨fun _ hmem => absurd hmem List.not_mem_nil, fun _ _ => rfl⟩
  | cons lcg lcgs ih =>
    rw [List.foldlM_cons] at hok
    obtain ⟨hnotMem, hnodup⟩ := List.nodup_cons.mp hnodup
    cases hstep : bsrForLcg bufferStatus ulLCG lcg with
    | error e =>
      rw [hstep] at hok
      cases hok
    | ok ulLCG₁ =>
      rw [hstep] at hok
      obtain ⟨hupdated, hsame⟩ := bsrForLcg_updated hstep
      obtain ⟨hrest, hkept⟩ := ih hnodup hok
      constructor
      · intro other hother
        obtain rfl | hmem := List.mem_cons.mp hother
        · intro l hl
          obtain ⟨bsrId, l', hstatus, hupdate, hl'⟩ := hupdated l hl
          exact ⟨bsrId, l', hstatus, hupdate, (hkept other hnotMem).trans hl'⟩
        · intro l hl
          have hne : other ≠ lcg := fun heq => hnotMem (heq ▸ hmem)
          exact hrest other hmem l ((hsame other hne).trans hl)
      · intro other hother
        rw [List.mem_cons, not_or] at hother
        rw [hkept other hother.2, hsame other hother.1]

theorem foldlM_bsrForLcg_ok_iff (hnodup : lcgs.Nodup) :
    (∃ ulLCG', lcgs.foldlM (bsrForLcg bufferStatus) ulLCG = .ok ulLCG') ↔
      ∀ lcg ∈ lcgs, Accepts bufferStatus ulLCG lcg := by
  induction lcgs generalizing ulLCG with
  | nil => exact ⟨fun _ _ hmem => absurd hmem List.not_mem_nil, fun _ => ⟨ulLCG, rfl⟩⟩
  | cons lcg lcgs ih =>
    obtain ⟨hnotMem, hnodup⟩ := List.nodup_cons.mp hnodup
    rw [List.foldlM_cons, List.forall_mem_cons]
    have hiff : (∃ ulLCG', bsrForLcg bufferStatus ulLCG lcg = .ok ulLCG') ↔
        Accepts bufferStatus ulLCG lcg := bsrForLcg_ok_iff
    cases hstep : bsrForLcg bufferStatus ulLCG lcg with
    | error e =>
      rw [← hiff, hstep]
      simp [bind, Except.bind]
    | ok ulLCG₁ =>
      have hsame : ∀ other ∈ lcgs,
          (Accepts bufferStatus ulLCG₁ other ↔ Accepts bufferStatus ulLCG other) := by
        intro other hmem
        have hne : other ≠ lcg := fun heq => hnotMem (heq ▸ hmem)
        unfold Accepts
        rw [(bsrForLcg_updated hstep).2 other hne]
      rw [← hiff, hstep]
      have hrest := @ih ulLCG₁ hnodup
      rw [forall₂_congr hsame] at hrest
      simpa [bind, Except.bind] using hrest

end Groups

/-! ## Reports cover the queues -/

section Reports

variable {queue : List Nat} {ulLCG ulLCG' : Nat → Option Lcg} {lcg q : Nat} {l : Lcg}

theorem reportLevels_getElem? (hq : queue[lcg]? = some q) :
    (reportLevels queue)[lcg]? = some (fromBytesToLevel q) := by
  rw [reportLevels, List.getElem?_map, hq, Option.map_some]

theorem accepts_reportLevels (hq : queue[lcg]? = some q) :
    Accepts (reportLevels queue) ulLCG lcg ↔
      match ulLCG lcg with
      | none => q = 0
      | some l => l.lcMap.length = 1 := by
  unfold Accepts
  rw [reportLevels_getElem? hq]
  simp only [Option.some.injEq, exists_eq_left']
  cases ulLCG lcg with
  | none => exact fromLevelToBytes_level_eq_zero q
  | some l => exact Iff.rfl

theorem bsrReceivedFromUe_ok_iff (hlen : queue.length = 4) :
    (∃ ulLCG', bsrReceivedFromUe (reportLevels queue) ulLCG = .ok ulLCG') ↔
      ∀ lcg q, queue[lcg]? = some q →
        match ulLCG lcg with
        | none => q = 0
        | some l => l.lcMap.length = 1 := by
  unfold bsrReceivedFromUe
  rw [foldlM_bsrForLcg_ok_iff List.nodup_range]
  constructor
  · intro haccepts lcg q hq
    obtain ⟨hlt, -⟩ := List.getElem?_eq_some_iff.mp hq
    exact (accepts_reportLevels hq).mp (haccepts lcg (List.mem_range.mpr (hlen ▸ hlt)))
  · intro hall lcg hmem
    have hlt : lcg < queue.length := hlen ▸ List.mem_range.mp hmem
    have hq := List.getElem?_eq_getElem hlt
    exact (accepts_reportLevels hq).mpr (hall lcg _ hq)

theorem bsrReceivedFromUe_covers
    (hok : bsrReceivedFromUe (reportLevels queue) ulLCG = .ok ulLCG') (hlcg : lcg < 4)
    (hq : queue[lcg]? = some q) (hl : ulLCG lcg = some l) :
    ∃ size l', l.updateInfoBsr size = .ok l' ∧ ulLCG' lcg = some l' ∧
      Covers l.totalSize q size := by
  obtain ⟨hupdated, -⟩ := foldlM_bsrForLcg_updated List.nodup_range hok
  obtain ⟨bsrId, l', hstatus, hupdate, hl'⟩ := hupdated lcg (List.mem_range.mpr hlcg) l hl
  obtain rfl := Option.some.inj ((reportLevels_getElem? hq).symm.trans hstatus)
  exact ⟨_, l', hupdate, hl', covers_sizeFor l.totalSize q⟩

end Reports

/-- For queues of all sizes the report of the four groups gives each group a size that covers the
queue, up to the bytes of the last level; it is zero just when the queue and the group are empty.
The level is monotone, the least one that covers the queue, and inverse to its bytes. -/
theorem bsr_covers (queue : List Nat) (hlen : queue.length = 4) (ulLCG : Nat → Option Lcg) :
    ((∃ ulLCG', bsrReceivedFromUe (reportLevels queue) ulLCG = .ok ulLCG') ↔
      ∀ lcg q, queue[lcg]? = some q →
        match ulLCG lcg with
        | none => q = 0
        | some l => l.lcMap.length = 1) ∧
    (∀ ulLCG', bsrReceivedFromUe (reportLevels queue) ulLCG = .ok ulLCG' →
      ∀ lcg q l, queue[lcg]? = some q → ulLCG lcg = some l →
        ∃ size l', l.updateInfoBsr size = .ok l' ∧ ulLCG' lcg = some l' ∧
          Covers l.totalSize q size) ∧
    (∀ q q', q ≤ q' → fromBytesToLevel q ≤ fromBytesToLevel q') ∧
    (∀ q ≤ 150000, q ≤ fromLevelToBytes (fromBytesToLevel q) ∧
      ∀ l < fromBytesToLevel q, fromLevelToBytes l < q) ∧
    ∀ l ≤ 31, fromBytesToLevel (fromLevelToBytes l) = l := by
  refine ⟨bsrReceivedFromUe_ok_iff hlen, ?_, fun _ _ h => fromBytesToLevel_mono h, ?_,
    fun _ hl => fromBytesToLevel_fromLevelToBytes hl⟩
  · intro ulLCG' hok lcg q l hq hl
    obtain ⟨hlt, -⟩ := List.getElem?_eq_some_iff.mp hq
    exact bsrReceivedFromUe_covers hok (hlen ▸ hlt) hq hl
  · intro q hq
    exact ⟨le_fromLevelToBytes hq, fun l hl => fromLevelToBytes_lt hq hl⟩

/-- One group, with one channel of 100 bytes. -/
def oneLcg : Nat → Option Lcg :=
  Function.update (fun _ => none) 1 (some ⟨[(4, { rlcTransmissionQueueSize := 100 })], 100⟩)

/-- A queue of 700 bytes is reported as 745. -/
def oneLcgAfter : Nat → Option Lcg :=
  Function.update oneLcg 1 (some ⟨[(4, { rlcTransmissionQueueSize := 755 })], 755⟩)

theorem bsr_covers_one :
    bsrReceivedFromUe (reportLevels [0, 700, 0, 0]) oneLcg = .ok oneLcgAfter ∧
    (∃ size l', (⟨[(4, { rlcTransmissionQueueSize := 100 })], 100⟩ : Lcg).updateInfoBsr size =
      .ok l' ∧ oneLcgAfter 1 = some l' ∧ Covers 100 700 size) := by
  have hok : bsrReceivedFromUe (reportLevels [0, 700, 0, 0]) oneLcg = .ok oneLcgAfter := rfl
  exact ⟨hok, (bsr_covers [0, 700, 0, 0] rfl oneLcg).2.1 oneLcgAfter hok 1 700 _ rfl rfl⟩

theorem Lcg.updateInfoBsr_totalSize {l l' : Lcg} {size : Nat}
    (hok : l.updateInfoBsr size = .ok l') : l'.totalSize = size := by
  unfold Lcg.updateInfoBsr at hok
  split at hok
  · cases hok
  · split at hok
    · cases hok
    · cases hok
      rfl

/-- What the last level gives the group for a larger queue. -/
def oneLcgTop : Nat → Option Lcg :=
  Function.update oneLcg 1 (some ⟨[(4, { rlcTransmissionQueueSize := 1200010 })], 1200010⟩)

/-- A queue beyond the bytes of the last level is reported too small. -/
theorem bsr_covers_fails :
    ¬∀ queue : List Nat, queue.length = 4 → (∀ q ∈ queue, q < 2 ^ 32) →
      ∀ ulLCG ulLCG', bsrReceivedFromUe (reportLevels queue) ulLCG = .ok ulLCG' →
        ∀ lcg q l, queue[lcg]? = some q → ulLCG lcg = some l →
          ∃ size l', l.updateInfoBsr size = .ok l' ∧ ulLCG' lcg = some l' ∧
            (size = 0 ↔ q = 0 ∧ l.totalSize = 0) ∧ (0 < size → q ≤ size) := by
  intro hclaim
  have hok : bsrReceivedFromUe (reportLevels [0, 1200011, 0, 0]) oneLcg = .ok oneLcgTop := rfl
  obtain ⟨size, l', hupdate, hl', -, hcovers⟩ :=
    hclaim [0, 1200011, 0, 0] rfl (by decide) oneLcg oneLcgTop hok 1 1200011 _ rfl rfl
  have htotal := Lcg.updateInfoBsr_totalSize hupdate
  have hone : oneLcgTop 1 = some ⟨[(4, { rlcTransmissionQueueSize := 1200010 })], 1200010⟩ := rfl
  obtain rfl := Option.some.inj (hone.symm.trans hl')
  simp only at htotal
  omega

end Ns3.Nr.Sched
