import Ns3.Nr.Sched.DlData
import Ns3.Nr.Sched.Lcg

/-!
# The bytes of the logical channels

`AssignBytesToLC` divides a transport block evenly among the channels of a UE that have data, in all
groups. `DoScheduleDlData` does so for every stream and takes the sub-header off each share. That a
transport block has seven bytes does not leave a share room for it (`assignBytes_iff`).
-/

namespace Ns3.Nr.Sched

/-! ## Embedding -/

/-- `NrMacSchedulerNs3::Assignation`. -/
structure Assignation where
  lcg : Nat
  lcId : Nat
  bytes : Nat
deriving DecidableEq, Repr

/-- The channels with data, in the order in which the groups and their channels are visited. -/
def pendingLcs (ueLCG : List (Nat × Lcg)) : List (Nat × Nat) :=
  ueLCG.flatMap fun el =>
    (el.2.lcMap.filter fun lc => 0 < lc.2.getTotalSize).map fun lc => (el.1, lc.1)

def assignBytesToLC (ueLCG : List (Nat × Lcg)) (tbs : Nat) : List Assignation :=
  let activeLc := (pendingLcs ueLCG).length
  if activeLc = 0 then []
  else (pendingLcs ueLCG).map fun lc => ⟨lc.1, lc.2, tbs / activeLc⟩

/-- One stream in the loop of `DoScheduleDlData` that fills `bytesPerLcPerStream`. -/
def addStream (bytesPerLcPerStream : List (List Assignation))
    (distributedBytes : List Assignation) :
    List (List Assignation) :=
  let bytesPerLcPerStream :=
    if bytesPerLcPerStream.length = 0 then List.replicate distributedBytes.length []
    else bytesPerLcPerStream
  List.zipWith (fun perLc a => perLc ++ [a]) bytesPerLcPerStream distributedBytes

/-- `bytesPerLcPerStream` for a DCI with the transport blocks `tbSize`. -/
def bytesPerLcPerStream (ueLCG : List (Nat × Lcg)) (tbSize : List Nat) : List (List Assignation) :=
  tbSize.foldl (fun perLc tb => addStream perLc (assignBytesToLC ueLCG tb)) []

/-- The assertion before the sub-header is taken off; a share of zero bytes is not used. -/
def subHeaderFits (ueLCG : List (Nat × Lcg)) (tbSize : List Nat) : Bool :=
  (bytesPerLcPerStream ueLCG tbSize).all fun perLc =>
    perLc.all fun a => a.bytes = 0 || 3 ≤ a.bytes

/-! ## The shares -/

/-- The shares of a transport block are equal, one for every channel with data, and sum to at most
its size. -/
structure EvenShares (ueLCG : List (Nat × Lcg)) (tbs : Nat) (shares : List Assignation) : Prop where
  sum_le : (shares.map Assignation.bytes).sum ≤ tbs
  channels : shares.map (fun a => (a.lcg, a.lcId)) = pendingLcs ueLCG
  equal : ∀ a ∈ shares, ∀ b ∈ shares, a.bytes = b.bytes

section

variable {ueLCG : List (Nat × Lcg)} {tbs : Nat}

theorem assignBytesToLC_eq (ueLCG : List (Nat × Lcg)) (tbs : Nat) :
    assignBytesToLC ueLCG tbs =
      (pendingLcs ueLCG).map fun lc => ⟨lc.1, lc.2, tbs / (pendingLcs ueLCG).length⟩ := by
  unfold assignBytesToLC
  dsimp only
  split
  · next h => rw [List.length_eq_zero_iff.mp h, List.map_nil]
  · rfl

theorem evenShares (ueLCG : List (Nat × Lcg)) (tbs : Nat) :
    EvenShares ueLCG tbs (assignBytesToLC ueLCG tbs) := by
  rw [assignBytesToLC_eq]
  constructor
  case sum_le =>
    rw [List.map_map, Function.comp_def, List.map_const', List.sum_replicate_nat]
    exact Nat.mul_div_le tbs _
  case channels =>
    rw [List.map_map]
    exact List.map_id _
  case equal =>
    intro a ha b hb
    obtain ⟨x, -, rfl⟩ := List.mem_map.mp ha
    obtain ⟨y, -, rfl⟩ := List.mem_map.mp hb
    rfl

theorem length_assignBytesToLC (ueLCG : List (Nat × Lcg)) (tbs : Nat) :
    (assignBytesToLC ueLCG tbs).length = (pendingLcs ueLCG).length := by
  rw [assignBytesToLC_eq, List.length_map]

theorem forall_zipWith_append {P : Assignation → Prop} {perLc : List (List Assignation)}
    {shares : List Assignation} (h : perLc.length = shares.length) :
    (∀ l ∈ List.zipWith (fun perLc a => perLc ++ [a]) perLc shares, ∀ a ∈ l, P a) ↔
      (∀ l ∈ perLc, ∀ a ∈ l, P a) ∧ ∀ a ∈ shares, P a := by
  induction perLc generalizing shares with
  | nil =>
    obtain rfl := List.length_eq_zero_iff.mp h.symm
    simp
  | cons l perLc ih =>
    obtain ⟨a, shares, rfl⟩ := List.exists_cons_of_length_eq_add_one h.symm
    rw [List.zipWith_cons_cons, List.forall_mem_cons, List.forall_mem_append,
      ih (Nat.succ.inj h), List.forall_mem_singleton, List.forall_mem_cons, List.forall_mem_cons]
    exact and_and_and_comm

/-- The shares after one more stream. -/
theorem forall_addStream {P : Assignation → Prop} {perLc : List (List Assignation)}
    {shares : List Assignation} (h : perLc.length = 0 ∨ perLc.length = shares.length) :
    (∀ l ∈ addStream perLc shares, ∀ a ∈ l, P a) ↔
      (∀ l ∈ perLc, ∀ a ∈ l, P a) ∧ ∀ a ∈ shares, P a := by
  unfold addStream
  dsimp only
  split
  · next hzero =>
    rw [forall_zipWith_append List.length_replicate, List.length_eq_zero_iff.mp hzero]
    apply and_congr_left
    intro _
    constructor
    · exact fun _ l hl => absurd hl List.not_mem_nil
    · intro _ l hl a ha
      rw [List.eq_of_mem_replicate hl] at ha
      exact absurd ha List.not_mem_nil
  · next hne => exact forall_zipWith_append (h.resolve_left hne)

theorem length_addStream {perLc : List (List Assignation)} {shares : List Assignation}
    (h : perLc.length = 0 ∨ perLc.length = shares.length) :
    (addStream perLc shares).length = shares.length := by
  unfold addStream
  dsimp only
  rw [List.length_zipWith]
  split
  · rw [List.length_replicate, min_self]
  · next hne => rw [h.resolve_left hne, min_self]

/-- The shares of all streams. -/
theorem forall_bytesPerLcPerStream {P : Assignation → Prop} (tbSize : List Nat) :
    (∀ l ∈ bytesPerLcPerStream ueLCG tbSize, ∀ a ∈ l, P a) ↔
      ∀ tb ∈ tbSize, ∀ a ∈ assignBytesToLC ueLCG tb, P a := by
  have hrun : ∀ perLc : List (List Assignation),
      perLc.length = 0 ∨ perLc.length = (pendingLcs ueLCG).length →
      ((∀ l ∈ tbSize.foldl (fun perLc tb => addStream perLc (assignBytesToLC ueLCG tb)) perLc,
        ∀ a ∈ l, P a) ↔
      (∀ l ∈ perLc, ∀ a ∈ l, P a) ∧ ∀ tb ∈ tbSize, ∀ a ∈ assignBytesToLC ueLCG tb, P a) := by
    induction tbSize with
    | nil => simp
    | cons tb tbSize ih =>
      intro perLc h
      have hlen := length_assignBytesToLC ueLCG tb
      rw [List.foldl_cons, ih _ (Or.inr ((length_addStream (hlen ▸ h)).trans hlen)),
        forall_addStream (hlen ▸ h), List.forall_mem_cons, and_assoc]
  rw [bytesPerLcPerStream, hrun [] (Or.inl rfl)]
  simp

theorem subHeaderFits_iff (tbSize : List Nat) :
    subHeaderFits ueLCG tbSize = true ↔
      ∀ tb ∈ tbSize, tb < (pendingLcs ueLCG).length ∨ 3 * (pendingLcs ueLCG).length ≤ tb := by
  have hfits : subHeaderFits ueLCG tbSize = true ↔
      ∀ l ∈ bytesPerLcPerStream ueLCG tbSize, ∀ a ∈ l, a.bytes = 0 ∨ 3 ≤ a.bytes := by
    simp [subHeaderFits]
  rw [hfits, forall_bytesPerLcPerStream]
  apply forall₂_congr
  intro tb _
  rw [assignBytesToLC_eq, List.forall_mem_map]
  rcases Nat.eq_zero_or_pos (pendingLcs ueLCG).length with hzero | hpos
  · rw [List.length_eq_zero_iff.mp hzero]
    simp
  · obtain ⟨lc, hlc⟩ := List.exists_mem_of_length_pos hpos
    rw [← Nat.le_div_iff_mul_le hpos, ← Nat.div_eq_zero_iff_lt hpos]
    constructor
    · exact fun h => h lc hlc
    · exact fun h _ _ => h

end

/-- The transport blocks of a DCI are divided evenly, and every share has room for the sub-header,
exactly when no block gives the channels with data one or two bytes each. -/
theorem assignBytes_iff (ueLCG : List (Nat × Lcg)) (tbSize : List Nat) :
    ((∀ tb ∈ tbSize, EvenShares ueLCG tb (assignBytesToLC ueLCG tb)) ∧
      subHeaderFits ueLCG tbSize = true) ↔
    ∀ tb ∈ tbSize, tb < (pendingLcs ueLCG).length ∨ 3 * (pendingLcs ueLCG).length ≤ tb := by
  rw [subHeaderFits_iff]
  exact and_iff_right fun tb _ => evenShares ueLCG tb

/-- Three channels with data in two groups. -/
def threeLcs : List (Nat × Lcg) :=
  [(1, ⟨[(3, ⟨100, 0, 0⟩), (4, ⟨50, 0, 0⟩)], 150⟩), (2, ⟨[(5, ⟨0, 20, 0⟩), (6, {})], 20⟩)]

/-- One RBG gives seven bytes. -/
def sevenBytes : DlConf := ⟨4, 1, [], fun _ nprb => 7 * nprb, 0, false⟩

/-- A DCI with the smallest transport block leaves each of three channels two bytes. -/
theorem sevenBytes_share :
    ∃ dci, (ofdmaCreateDlDci sevenBytes ⟨0, 1⟩ { rnti := 1, dlRBG := 1, dlTbSize := [7] } 1).1 =
        some dci ∧ dci.tbSize = [7] ∧
      (assignBytesToLC threeLcs 7).map Assignation.bytes = [2, 2, 2] ∧
      ¬ ((∀ tb ∈ dci.tbSize, EvenShares threeLcs tb (assignBytesToLC threeLcs tb)) ∧
        subHeaderFits threeLcs dci.tbSize = true) := by
  refine ⟨_, rfl, rfl, by decide, ?_⟩
  rintro ⟨-, hfits⟩
  exact absurd hfits (by decide)

end Ns3.Nr.Sched
