import Ns3.Lte.RlcAmHeader

/-!
# STATUS PDUs of the acknowledged mode

A receiver reports the numbers from VR(R) on that it misses, as many as the transmission opportunity
has room for, and acknowledges up to the first one that it does not report.

The report is right in every state (`Truthful`). `OneMoreNackWouldFitIn` asks for one byte where the
next NACK takes two and for two where it takes one: the PDU is one byte too long when the
opportunity is a multiple of three and there are enough numbers to report (`statusPdu_fits_iff`).
-/

namespace Ns3.Lte

open Ns3.Lib

/-! ## Embedding -/

/-- `PduBuffer`; its segments are not read for a STATUS PDU. -/
structure PduBuffer where
  pduComplete : Bool
deriving DecidableEq, Repr

/-- The members of `LteRlcAm` that a STATUS PDU depends on. -/
structure AmReceiver where
  vrR : SequenceNumber10 := .ofValue 0
  vrMs : SequenceNumber10 := .ofValue 0
  rxonBuffer : Nat → Option PduBuffer := fun _ => none
  statusPduRequested : Bool := false
  statusPduBufferSize : Nat := 0
  statusProhibitTimer : Bool := false

namespace AmReceiver

/-- The PDU of the number is not received, or not all of it. -/
def missing (u : AmReceiver) (sn : Nat) : Bool :=
  match u.rxonBuffer sn with
  | some pdu => !pdu.pduComplete
  | none => true

/-- The loop over the NACKs: the number and the header after it. -/
def nackLoop (u : AmReceiver) (bytes : Nat) : Nat → SequenceNumber10 → LteRlcAmHeader →
    Option (SequenceNumber10 × LteRlcAmHeader)
  | 0, _, _ => none
  | fuel + 1, sn, h =>
    if sn.lt u.vrMs then
      if !h.oneMoreNackWouldFitIn bytes then some (sn, h)
      else
        nackLoop u bytes fuel sn.succ (if u.missing sn.value then h.pushNack sn.value else h)
    else some (sn, h)

/-- The loop for the number to acknowledge. -/
def ackLoop (u : AmReceiver) : Nat → SequenceNumber10 → Option SequenceNumber10
  | 0, _ => none
  | fuel + 1, sn =>
    if sn.lt u.vrMs ∧ !u.missing sn.value then ackLoop u fuel sn.succ else some sn

/-- The header of the STATUS PDU; a loop over all numbers ends. -/
def statusPdu (u : AmReceiver) (lsf bytes : Nat) : Option LteRlcAmHeader := do
  let (sn, h) ← u.nackLoop bytes 1025 u.vrR ((LteRlcAmHeader.fresh lsf).setControlPdu 0)
  let sn ← u.ackLoop 1025 sn
  return h.setAckSn sn

/-- The state after a STATUS PDU. -/
def statusSent (u : AmReceiver) : AmReceiver :=
  { u with statusPduRequested := false, statusPduBufferSize := 0, statusProhibitTimer := true }

/-- `DoNotifyTxOpportunity` when it sends a STATUS PDU: the header and the state after it. -/
def notifyTxOpportunity (u : AmReceiver) (lsf bytes : Nat) : Option (LteRlcAmHeader × AmReceiver) :=
  if bytes < 4 then none
  else if u.statusPduRequested ∧ !u.statusProhibitTimer then
    if bytes < u.statusPduBufferSize then none
    else (u.statusPdu lsf bytes).map fun h => (h, u.statusSent)
  else none

/-! ## The numbers of the window -/

/-- VR(MS) is at most 512 numbers behind VR(R), which is the base of both. -/
structure Window (u : AmReceiver) (w : Nat) : Prop where
  vrR : u.vrR = .pos u.vrR.value u.vrR.value
  vrMs : u.vrMs = .pos (u.vrR.value + w) u.vrR.value
  le : w ≤ 512
  statusPduBufferSize : u.statusPduBufferSize ≤ 4

/-- The number `k` behind VR(R). -/
def snAt (u : AmReceiver) (k : Nat) : Nat := (u.vrR.value + k) % 1024

/-- The numbers before the offset `a` that are missing. -/
def missingBefore (u : AmReceiver) (a : Nat) : List Nat :=
  ((List.range a).filter fun k => u.missing (u.snAt k)).map u.snAt

/-- The header acknowledges a number of the window, up to VR(MS) or the first one missing that is
not reported, and reports just the missing ones before it. -/
def Truthful (u : AmReceiver) (w : Nat) (h : LteRlcAmHeader) : Prop :=
  ∃ a ≤ w, h.ackSn.value = u.snAt a ∧ h.nackSnList = u.missingBefore a ∧
    (a = w ∨ u.missing (u.snAt a) = true)

/-! ## The report is right -/

section Report

variable {u : AmReceiver} {w k bytes lsf : Nat}

/-- The header with these NACKs. -/
def report (lsf : Nat) (nacks : List Nat) : LteRlcAmHeader :=
  nacks.foldl LteRlcAmHeader.pushNack ((LteRlcAmHeader.fresh lsf).setControlPdu 0)

@[simp] theorem nackSnList_report (lsf : Nat) (nacks : List Nat) :
    (report lsf nacks).nackSnList = nacks := by
  have hpush : ∀ h : LteRlcAmHeader, (nacks.foldl LteRlcAmHeader.pushNack h).nackSnList =
      h.nackSnList ++ nacks := by
    induction nacks with
    | nil => simp
    | cons nack nacks ih => simp [ih, LteRlcAmHeader.pushNack]
  exact hpush _

/-- A window of NACKs is far from a length that wraps. -/
theorem headerLength_report (lsf : Nat) {nacks : List Nat} (hle : nacks.length ≤ 512) :
    (report lsf nacks).headerLength = 2 + nacks.length + (nacks.length + 1) / 2 := by
  have hnil : ((LteRlcAmHeader.fresh lsf).setControlPdu 0).nackSnList.length = 0 := rfl
  have hcount := LteRlcAmHeader.headerLength_nacks hnil rfl nacks
  rw [Nat.zero_add, Nat.mod_eq_of_lt (by omega)] at hcount
  exact hcount

theorem report_append (lsf : Nat) (nacks : List Nat) (nack : Nat) :
    report lsf (nacks ++ [nack]) = (report lsf nacks).pushNack nack := by
  simp [report]

theorem control_report (lsf : Nat) (nacks : List Nat) :
    (report lsf nacks).dataControlBit = 0 ∧ (report lsf nacks).controlPduType = 0 := by
  have hpush : ∀ h : LteRlcAmHeader,
      (nacks.foldl LteRlcAmHeader.pushNack h).dataControlBit = h.dataControlBit ∧
      (nacks.foldl LteRlcAmHeader.pushNack h).controlPduType = h.controlPduType := by
    induction nacks with
    | nil => exact fun _ => ⟨rfl, rfl⟩
    | cons nack nacks ih => exact fun h => ih (h.pushNack nack)
  exact hpush _

/-- `OneMoreNackWouldFitIn` for a header with `n` NACKs. -/
def OneMore (bytes n : Nat) : Prop :=
  if n % 2 = 0 then 2 + n + (n + 1) / 2 < bytes % 2 ^ 16
  else 2 + n + (n + 1) / 2 + 1 < bytes % 2 ^ 16

theorem oneMoreNackWouldFitIn_report (lsf : Nat) {nacks : List Nat} (hle : nacks.length ≤ 512)
    (bytes : Nat) : (report lsf nacks).oneMoreNackWouldFitIn bytes = true ↔
    OneMore bytes nacks.length := by
  unfold LteRlcAmHeader.oneMoreNackWouldFitIn OneMore
  rw [nackSnList_report, headerLength_report lsf hle]
  split
  · rw [decide_eq_true_eq]
  · rw [decide_eq_true_eq]
    omega

/-- The number `k` behind VR(R), with VR(R) as base. -/
def number (u : AmReceiver) (k : Nat) : SequenceNumber10 := .pos (u.vrR.value + k) u.vrR.value

@[simp] theorem value_number (u : AmReceiver) (k : Nat) : (u.number k).value = u.snAt k := by
  simp only [number, SequenceNumber10.pos, snAt]
  omega

@[simp] theorem succ_number (u : AmReceiver) (k : Nat) : (u.number k).succ = u.number (k + 1) := by
  rw [number, SequenceNumber10.pos_succ, number]
  push_cast
  rw [add_assoc]

theorem Window.lt_vrMs (h : u.Window w) (hk : k < 1024) :
    (u.number k).lt u.vrMs = decide (k < w) := by
  have hle := h.le
  rw [h.vrMs, number, SequenceNumber10.pos_lt (by omega) (by omega) (by omega) (by omega),
    decide_eq_decide]
  omega

theorem Window.vrR_eq (h : u.Window w) : u.vrR = u.number 0 := by
  rw [number, Nat.cast_zero, add_zero]
  exact h.vrR

theorem missingBefore_succ (u : AmReceiver) (k : Nat) :
    u.missingBefore (k + 1) =
      if u.missing (u.snAt k) then u.missingBefore k ++ [u.snAt k] else u.missingBefore k := by
  unfold missingBefore
  rw [List.range_succ, List.filter_append, List.map_append]
  split
  · next hmissing => simp [hmissing]
  · next hmissing => simp [hmissing]

theorem missingBefore_prefix (u : AmReceiver) {a b : Nat} (hab : a ≤ b) :
    u.missingBefore a <+: u.missingBefore b := by
  induction hab with
  | refl => exact List.prefix_refl _
  | step _ ih =>
    rw [missingBefore_succ]
    split
    · exact ih.trans (List.prefix_append _ _)
    · exact ih

theorem length_missingBefore_le (u : AmReceiver) (k : Nat) : (u.missingBefore k).length ≤ k := by
  have hfilter := List.length_filter_le (fun k => u.missing (u.snAt k)) (List.range k)
  rw [List.length_range] at hfilter
  unfold missingBefore
  rwa [List.length_map]

/-- Where the loop over the NACKs stops: the numbers before are reported as far as they are missing,
each when there seemed to be room. -/
theorem nackLoop_spec (h : u.Window w) (fuel : Nat) (hk : k ≤ w) (hfuel : w < k + fuel)
    (hroom : ∀ n < (u.missingBefore k).length, OneMore bytes n) :
    ∃ j, k ≤ j ∧ j ≤ w ∧
      u.nackLoop bytes fuel (u.number k) (report lsf (u.missingBefore k)) =
        some (u.number j, report lsf (u.missingBefore j)) ∧
      (∀ n < (u.missingBefore j).length, OneMore bytes n) ∧
      (j = w ∨ ¬OneMore bytes (u.missingBefore j).length) := by
  have hle := h.le
  induction fuel generalizing k with
  | zero => omega
  | succ fuel ih =>
    unfold nackLoop
    rw [h.lt_vrMs (by omega)]
    have hfew := u.length_missingBefore_le k
    by_cases hlt : k < w
    · rw [if_pos (decide_eq_true hlt)]
      by_cases hone : OneMore bytes (u.missingBefore k).length
      · have hfit := (oneMoreNackWouldFitIn_report lsf (hfew.trans (by omega)) bytes).mpr hone
        have hnext : (if u.missing (u.number k).value = true then
            (report lsf (u.missingBefore k)).pushNack (u.number k).value
            else report lsf (u.missingBefore k)) = report lsf (u.missingBefore (k + 1)) := by
          rw [value_number, missingBefore_succ]
          split
          · rw [report_append]
          · rfl
        have hroom' : ∀ n < (u.missingBefore (k + 1)).length, OneMore bytes n := by
          intro n hn
          by_cases hlast : n < (u.missingBefore k).length
          · exact hroom n hlast
          · rw [missingBefore_succ] at hn
            split at hn
            · rw [List.length_append, List.length_singleton] at hn
              have heq : n = (u.missingBefore k).length := by omega
              exact heq ▸ hone
            · exact absurd hn hlast
        obtain ⟨j, hkj, hjw, hloop, hrest⟩ := ih hlt (by omega) hroom'
        refine ⟨j, by omega, hjw, ?_, hrest⟩
        rw [hfit, hnext, succ_number]
        exact hloop
      · have hfull : (report lsf (u.missingBefore k)).oneMoreNackWouldFitIn bytes = false := by
          rw [← Bool.not_eq_true, oneMoreNackWouldFitIn_report lsf (hfew.trans (by omega))]
          exact hone
        rw [hfull]
        exact ⟨k, Nat.le_refl k, hk, rfl, hroom, Or.inr hone⟩
    · rw [if_neg (by rw [decide_eq_true_eq]; exact hlt)]
      exact ⟨k, Nat.le_refl k, hk, rfl, hroom, Or.inl (by omega)⟩

/-- The number to acknowledge is the first one missing from there on, or VR(MS). -/
theorem ackLoop_spec (h : u.Window w) (fuel : Nat) (hk : k ≤ w) (hfuel : w < k + fuel) :
    ∃ a, k ≤ a ∧ a ≤ w ∧ u.ackLoop fuel (u.number k) = some (u.number a) ∧
      u.missingBefore a = u.missingBefore k ∧ (a = w ∨ u.missing (u.snAt a) = true) := by
  have hle := h.le
  induction fuel generalizing k with
  | zero => omega
  | succ fuel ih =>
    unfold ackLoop
    rw [h.lt_vrMs (by omega), value_number]
    by_cases hlt : k < w
    · cases hmissing : u.missing (u.snAt k) with
      | false =>
        obtain ⟨a, hka, haw, hloop, hsame, hstop⟩ := ih hlt (by omega)
        refine ⟨a, by omega, haw, ?_, ?_, hstop⟩
        · simp [hlt, hloop]
        · rw [hsame, missingBefore_succ, hmissing]
          rfl
      | true =>
        refine ⟨k, Nat.le_refl k, hk, ?_, rfl, Or.inr hmissing⟩
        simp
    · refine ⟨k, Nat.le_refl k, hk, ?_, rfl, Or.inl (by omega)⟩
      simp [hlt]

theorem Window.snAt_lt (_ : u.Window w) (k : Nat) : u.snAt k < 1024 := Nat.mod_lt _ (by decide)

/-- The report is right, and its length is that of the NACKs for which there seemed to be room. -/
theorem statusPdu_spec (h : u.Window w) (lsf bytes : Nat) :
    ∃ hd j, u.statusPdu lsf bytes = some hd ∧ u.Truthful w hd ∧ j ≤ w ∧
      hd.serialize.length = 2 + (u.missingBefore j).length + ((u.missingBefore j).length + 1) / 2 ∧
      (∀ n < (u.missingBefore j).length, OneMore bytes n) ∧
      (j = w ∨ ¬OneMore bytes (u.missingBefore j).length) := by
  have hle := h.le
  obtain ⟨j, -, hjw, hnacks, hroom, hfull⟩ :=
    @nackLoop_spec _ _ _ bytes lsf h 1025 (Nat.zero_le w) (by omega) nofun
  obtain ⟨a, -, haw, hack, hsame, hstop⟩ := ackLoop_spec h 1025 hjw (by omega)
  have hpdu : u.statusPdu lsf bytes =
      some ((report lsf (u.missingBefore j)).setAckSn (u.number a)) := by
    unfold statusPdu
    rw [h.vrR_eq]
    have hnil : (LteRlcAmHeader.fresh lsf).setControlPdu 0 = report lsf (u.missingBefore 0) := rfl
    rw [hnil, hnacks, Option.bind_eq_bind, Option.bind_some]
    simp only [hack, Option.bind_eq_bind, Option.bind_some]
    rfl
  refine ⟨_, j, hpdu, ⟨a, haw, value_number u a, ?_, hstop⟩, hjw, ?_, hroom, hfull⟩
  · exact (nackSnList_report lsf _).trans hsame.symm
  · obtain ⟨hcontrol, htype⟩ := control_report lsf (u.missingBefore j)
    have hlist := nackSnList_report lsf (u.missingBefore j)
    have hfew := u.length_missingBefore_le j
    rw [LteRlcAmHeader.length_serialize_nacks]
    · exact congrArg (fun nacks => 2 + nacks.length + (nacks.length + 1) / 2) hlist
    · constructor
      · exact hcontrol
      · exact lt_of_eq_of_lt htype (by decide)
      · exact lt_of_eq_of_lt (value_number u a) (h.snAt_lt a)
      · intro nack hnack
        have hmem : nack ∈ u.missingBefore j := hlist ▸ hnack
        obtain ⟨k, -, rfl⟩ := List.mem_map.mp hmem
        exact h.snAt_lt k
      · change _ = (LteRlcAmHeader.pushNacks
          (report lsf (u.missingBefore j)).nackSnList).headerLength
        rw [hlist, LteRlcAmHeader.headerLength_pushNacks, Nat.mod_eq_of_lt (by omega)]
        exact headerLength_report lsf (by omega)

/-- One NACK too many has room by `OneMoreNackWouldFitIn`, when the bytes are a multiple of three
and there are enough NACKs. -/
theorem length_le_iff {n total : Nat} (hbytes : 4 ≤ bytes) (hle : n ≤ total) (htotal : total ≤ 512)
    (hroom : ∀ i < n, OneMore bytes i) (hfull : n = total ∨ ¬OneMore bytes n) :
    2 + n + (n + 1) / 2 ≤ bytes ↔ ¬(bytes % 3 = 0 ∧ 2 * (bytes / 3) ≤ total + 1) := by
  constructor
  · rintro hfits ⟨hthree, hmany⟩
    have hsmall : bytes % 2 ^ 16 = bytes := Nat.mod_eq_of_lt (by omega)
    obtain hlt | heq | hgt := Nat.lt_trichotomy n (2 * (bytes / 3) - 1)
    · obtain heq | hno := hfull
      · omega
      · -- with fewer NACKs there is room for one more
        apply hno
        unfold OneMore
        rw [hsmall]
        split <;> omega
    · omega
    · have hodd := hroom (2 * (bytes / 3) - 1) hgt
      unfold OneMore at hodd
      rw [if_neg (by omega), hsmall] at hodd
      omega
  · intro hcond
    by_contra hlong
    have hpos : 0 < n := by
      by_contra hzero
      omega
    have hlast := hroom (n - 1) (by omega)
    have hmod : bytes % 2 ^ 16 ≤ bytes := Nat.mod_le _ _
    unfold OneMore at hlast
    split at hlast
    · exact hcond ⟨by omega, by omega⟩
    · omega

end Report

/-- There is an octet to spare for the NACK that `OneMoreNackWouldFitIn` lets in. -/
def Roomy (u : AmReceiver) (w bytes : Nat) : Prop :=
  ¬(bytes % 3 = 0 ∧ 2 * (bytes / 3) ≤ (u.missingBefore w).length + 1)

/-- The STATUS PDU is right in every state, and it fits in the opportunity just when the bytes are
no multiple of three or the missing numbers are fewer. -/
theorem statusPdu_fits_iff (u : AmReceiver) (w lsf bytes : Nat) (h : u.Window w)
    (hbytes : 4 ≤ bytes) (hrequested : u.statusPduRequested = true)
    (hprohibit : u.statusProhibitTimer = false) :
    ∃ hd, u.notifyTxOpportunity lsf bytes = some (hd, u.statusSent) ∧ u.Truthful w hd ∧
      (hd.serialize.length ≤ bytes ∧ u.Truthful w hd ↔ u.Roomy w bytes) := by
  have hle := h.le
  obtain ⟨hd, j, hpdu, htruthful, hjw, hlen, hroom, hfull⟩ := statusPdu_spec h lsf bytes
  have hprefix := (u.missingBefore_prefix hjw).length_le
  have htotal : (u.missingBefore w).length ≤ 512 := (u.length_missingBefore_le w).trans hle
  have hfull' : (u.missingBefore j).length = (u.missingBefore w).length ∨
      ¬OneMore bytes (u.missingBefore j).length := by
    obtain rfl | hno := hfull
    · exact Or.inl rfl
    · exact Or.inr hno
  refine ⟨hd, ?_, htruthful, ?_⟩
  · unfold notifyTxOpportunity
    rw [if_neg (by omega), if_pos (by simp [hrequested, hprohibit]),
      if_neg (by have := h.statusPduBufferSize; omega), hpdu]
    rfl
  · rw [hlen, and_iff_left htruthful]
    exact length_le_iff hbytes hprefix htotal hroom hfull'

/-- The number 3 arrives first, and t-Reordering has expired. -/
def threeMissing : AmReceiver :=
  { vrMs := .ofValue 4
    rxonBuffer := fun sn => if sn = 3 then some ⟨true⟩ else none
    statusPduRequested := true
    statusPduBufferSize := 4 }

theorem threeMissing_window : threeMissing.Window 4 := ⟨rfl, rfl, by decide, by decide⟩

theorem statusPdu_fits_seven :
    ∃ hd, threeMissing.notifyTxOpportunity 0 7 = some (hd, threeMissing.statusSent) ∧
      hd.serialize.length ≤ 7 ∧ threeMissing.Truthful 4 hd := by
  obtain ⟨hd, hnotify, -, hiff⟩ :=
    statusPdu_fits_iff threeMissing 4 0 7 threeMissing_window (by decide) rfl rfl
  exact ⟨hd, hnotify, hiff.mpr fun hcond => absurd hcond.1 (by decide)⟩

/-- With six bytes there is a third NACK, in a PDU of seven bytes. -/
theorem statusPdu_fits_fails :
    ¬∀ (u : AmReceiver) (w lsf bytes : Nat), u.Window w → 4 ≤ bytes →
      u.statusPduRequested = true → u.statusProhibitTimer = false →
      ∃ hd, u.notifyTxOpportunity lsf bytes = some (hd, u.statusSent) ∧
        hd.serialize.length ≤ bytes ∧ u.Truthful w hd := by
  intro hclaim
  obtain ⟨hd, hnotify, hfits, -⟩ :=
    hclaim threeMissing 4 0 6 threeMissing_window (by decide) rfl rfl
  have hlen : (threeMissing.notifyTxOpportunity 0 6).map (·.1.serialize.length) = some 7 := by
    decide
  rw [hnotify] at hlen
  have hseven : hd.serialize.length = 7 := Option.some.inj hlen
  omega

end AmReceiver

end Ns3.Lte
