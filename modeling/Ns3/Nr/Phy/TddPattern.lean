import Ns3.Lib.Cyclic
import Ns3.Nr.Alloc
import Mathlib.Data.List.Flatten
import Mathlib.Data.List.Perm.Basic

/-!
# The TDD pattern and the slot indications

`GenerateStructuresFromPattern` computes from a TDD pattern in which slots the gNB sends the
DCIs for a slot and in which slots it asks the MAC to prepare them;
`CallMacForSlotIndication` then asks in every slot. `slot_indications` states for a whole
run that every slot is indicated once for each of its directions, early enough, and with
the UL first.

The tables of the code are instances of `Lib.Cyclic.dueAt` (`Duplex.generate_perm_dueAt`).
-/

namespace Ns3.Nr.Phy

open Lib

/-! ## Embedding -/

/-- `static_cast<int>` of an integer, and what an `int` holds after an operation. -/
def castInt (n : Int) : Int := n.bmod (2 ^ 32)

/-- The loop of `modulo` for a negative number. -/
def moduloLoop (m : Nat) : Nat → Int → Int
  | 0, n => n
  | fuel + 1, n => if n < 0 then moduloLoop m fuel (castInt (n + m)) else n

def modulo (n : Int) (m : Nat) : Nat :=
  if 0 ≤ n then n.toNat % m else (moduloLoop m n.natAbs n).toNat

def slotType (pattern : List LteNrTddSlotType) (pos : Nat) : LteNrTddSlotType :=
  pattern.getD pos .F

def isTdd (pattern : List LteNrTddSlotType) : Bool :=
  pattern.any (· = .F) || !(pattern.any (· = .UL) ^^ pattern.any (· = .DL))

def hasUlSlot (pattern : List LteNrTddSlotType) : Bool :=
  pattern.any fun v => v = .F || v = .UL

/-- The loop of `ReturnHarqSlot`; `none` is a loop that has not ended after `fuel` tests. -/
def returnHarqSlotLoop (pattern : List LteNrTddSlotType) (pos : Nat) : Nat → Int → Option Int
  | 0, _ => none
  | fuel + 1, k1 =>
    let index := modulo (castInt (castInt pos + k1)) pattern.length
    if (slotType pattern index).val < LteNrTddSlotType.F.val then
      returnHarqSlotLoop pattern pos fuel (castInt (k1 + 1))
    else some k1

/-- The index moves on by one position at a test, but where the `int` wraps: within two lengths
of the pattern it has met every position, so the loop ends within as many tests or never. -/
def returnHarqSlot (pattern : List LteNrTddSlotType) (pos : Nat) (n1 : Nat) : Option Int :=
  returnHarqSlotLoop pattern pos (2 * pattern.length) (castInt n1)

structure DciKPair where
  indexDci : Nat := 0
  k : Nat := 0
deriving DecidableEq, Repr

def returnDciSlotLoop (pattern : List LteNrTddSlotType) (pos : Nat) : Nat → Nat → Option DciKPair
  | 0, _ => none
  | fuel + 1, k =>
    let indexDci := modulo (castInt (castInt pos - castInt k)) pattern.length
    if (slotType pattern indexDci).val > LteNrTddSlotType.F.val then
      returnDciSlotLoop pattern pos fuel ((k + 1) % 2 ^ 32)
    else some ⟨indexDci, k⟩

def returnDciSlot (pattern : List LteNrTddSlotType) (pos n : Nat) : Option DciKPair :=
  returnDciSlotLoop pattern pos (2 * pattern.length) n

/-- `std::map<uint32_t, std::vector<uint32_t>>`, read with `operator[]`. -/
abbrev SlotMap := Nat → List Nat

def SlotMap.pushBack (m : SlotMap) (pos k : Nat) : SlotMap :=
  Function.update m pos (m pos ++ [k])

/-- `GenerateDciMaps` on the pair of `toSend` and `generate`. -/
def generateDciMaps (pattern : List LteNrTddSlotType) (pos n l1l2CtrlLatency : Nat)
    (maps : SlotMap × SlotMap) : Option (SlotMap × SlotMap) := do
  let dciSlot ← returnDciSlot pattern pos n
  let indexGen := modulo (castInt (castInt dciSlot.indexDci - castInt l1l2CtrlLatency))
    pattern.length
  let kWithCtrlLatency := (dciSlot.k + l1l2CtrlLatency) % 2 ^ 32
  return (maps.1.pushBack dciSlot.indexDci dciSlot.k, maps.2.pushBack indexGen kWithCtrlLatency)

/-- The tables `SetTddPattern` fills. `dl` and `ul` are pairs of `toSend` and `generate`. -/
structure Structures where
  dl : SlotMap × SlotMap := (fun _ => [], fun _ => [])
  ul : SlotMap × SlotMap := (fun _ => [], fun _ => [])
  dlHarqfbPosition : Nat → Option Nat := fun _ => none

namespace Structures

def generateDl (st : Structures) : SlotMap := st.dl.2

def generateUl (st : Structures) : SlotMap := st.ul.2

/-- `insert` of the pair, whose `int32_t` becomes a `uint32_t`. -/
def insertHarq (st : Structures) (pos : Nat) (k1 : Int) : Structures :=
  { st with
    dlHarqfbPosition := Function.update st.dlHarqfbPosition pos
      ((st.dlHarqfbPosition pos).or (some (k1 % 2 ^ 32).toNat)) }

end Structures

/-- The parameters of `GenerateStructuresFromPattern`. -/
structure Delays where
  n0 : Nat := 0
  n2 : Nat
  n1 : Nat
  l1l2CtrlLatency : Nat

/-- One position of the loop over the pattern. -/
def generatePosition (pattern generationPattern : List LteNrTddSlotType) (d : Delays)
    (st : Structures) (i : Nat) : Option Structures := do
  if slotType generationPattern i = .UL then
    let ul ← generateDciMaps generationPattern i d.n2 d.l1l2CtrlLatency st.ul
    return { st with ul := ul }
  else if slotType generationPattern i = .DL ∨ slotType pattern i = .S then
    let dl ← generateDciMaps generationPattern i d.n0 d.l1l2CtrlLatency st.dl
    let k1 ← returnHarqSlot generationPattern i d.n1
    return { st with dl := dl }.insertHarq i k1
  else if slotType generationPattern i = .F then
    let dl ← generateDciMaps generationPattern i d.n0 d.l1l2CtrlLatency st.dl
    let ul ← generateDciMaps generationPattern i d.n2 d.l1l2CtrlLatency st.ul
    let k1 ← returnHarqSlot generationPattern i d.n1
    return { st with dl := dl, ul := ul }.insertHarq i k1
  else
    return st

def SlotMap.sorted (m : SlotMap) : SlotMap := fun pos => (m pos).mergeSort (· ≤ ·)

def generateStructuresFromPattern (pattern : List LteNrTddSlotType) (d : Delays) :
    Option Structures := do
  let generationPattern :=
    if isTdd pattern then pattern else List.replicate pattern.length .F
  let st ← (List.range pattern.length).foldlM (generatePosition pattern generationPattern d) {}
  let st :=
    if isTdd pattern then st
    else if hasUlSlot pattern then { st with dl := (st.dl.1, fun _ => []) }
    else { st with ul := (st.ul.1, fun _ => []) }
  return { st with
    dl := (st.dl.1, st.dl.2.sorted)
    ul := (st.ul.1, st.ul.2.sorted) }

/-- A call into the MAC. -/
inductive SlotIndication
  | slotUlIndication (sfn : SfnSf) (type : LteNrTddSlotType)
  | slotDlIndication (sfn : SfnSf) (type : LteNrTddSlotType)
deriving DecidableEq, Repr

def callMacForSlotIndication (tddPattern : List LteNrTddSlotType) (st : Structures)
    (currentSlot : SfnSf) : List SlotIndication :=
  let currentSlotN := currentSlot.normalize % tddPattern.length
  let target (k : Nat) := currentSlot.add k
  let type (k : Nat) := slotType tddPattern ((target k).normalize % tddPattern.length)
  (st.generateUl currentSlotN).map (fun k => .slotUlIndication (target k) (type k)) ++
    (st.generateDl currentSlotN).map (fun k => .slotDlIndication (target k) (type k))

/-- The calls of a run of `R` slots from slot 0 of frame 0, each with the slot on air. -/
def indications (mu : Nat) (tddPattern : List LteNrTddSlotType) (st : Structures) (R : Nat) :
    List (SfnSf × SlotIndication) :=
  (List.range R).flatMap fun t =>
    (callMacForSlotIndication tddPattern st (SfnSf.slotAt mu t)).map (Prod.mk (SfnSf.slotAt mu t))

/-! ## Signed 32-bit numbers -/

theorem castInt_of_mem {n : Int} (h : -2 ^ 31 ≤ n) (h' : n < 2 ^ 31) : castInt n = n := by
  apply Int.bmod_eq_of_le_mul_two <;> omega

theorem castInt_eq_iff {a b : Int} : castInt a = castInt b ↔ a % 2 ^ 32 = b % 2 ^ 32 := by
  unfold castInt
  constructor
  · intro h
    have ha : a.bmod (2 ^ 32) % (2 ^ 32 : Nat) = a % (2 ^ 32 : Nat) := Int.bmod_emod
    have hb : b.bmod (2 ^ 32) % (2 ^ 32 : Nat) = b % (2 ^ 32 : Nat) := Int.bmod_emod
    omega
  · intro h
    rw [Int.bmod_def, Int.bmod_def]
    split <;> split <;> omega

@[simp]
theorem castInt_sub_castInt (a b : Int) : castInt (castInt a - castInt b) = castInt (a - b) := by
  unfold castInt
  rw [Int.bmod_sub_bmod, Int.sub_bmod_bmod]

@[simp]
theorem castInt_add_castInt (a b : Int) : castInt (castInt a + castInt b) = castInt (a + b) := by
  unfold castInt
  rw [Int.bmod_add_bmod, Int.add_bmod_bmod]

theorem castInt_ge (n : Int) : -2 ^ 31 ≤ castInt n := by
  have := Int.le_bmod (x := n) (m := 2 ^ 32) (by decide)
  unfold castInt
  omega

theorem castInt_lt (n : Int) : castInt n < 2 ^ 31 := by
  have := Int.bmod_lt (x := n) (m := 2 ^ 32) (by decide)
  unfold castInt
  omega

/-- In twice as many consecutive numbers there are `m` that do not wrap. -/
theorem exists_castInt_run (x : Int) {m : Nat} (hm : m ≤ 2 ^ 31) :
    ∃ o ≤ m, ∀ j < m, castInt (x + (o + j : Nat)) = castInt (x + o) + j := by
  have hlt := castInt_lt x
  have hle := castInt_ge x
  have hmod : castInt x % 2 ^ 32 = x % 2 ^ 32 := Int.bmod_emod
  by_cases hwrap : castInt x + m ≤ 2 ^ 31
  · refine ⟨0, Nat.zero_le m, ?_⟩
    intro j hj
    rw [Nat.zero_add, Nat.cast_zero, add_zero,
      ← castInt_of_mem (n := castInt x + j) (by omega) (by omega), castInt_eq_iff]
    omega
  · -- the wrap comes before the last number
    obtain ⟨o, ho⟩ := Int.eq_ofNat_of_zero_le (show 0 ≤ 2 ^ 31 - castInt x by omega)
    have hstart : castInt (x + o) = -2 ^ 31 := by
      rw [← castInt_of_mem (n := -2 ^ 31) (by omega) (by omega), castInt_eq_iff]
      omega
    refine ⟨o, by omega, ?_⟩
    intro j hj
    rw [hstart, ← castInt_of_mem (n := -2 ^ 31 + j) (by omega) (by omega), castInt_eq_iff]
    omega

/-! ## The scanning loops -/

theorem moduloLoop_spec {m : Nat} (hm : 0 < m) (hm' : m ≤ 2 ^ 31) {fuel : Nat} {n : Int}
    (hneg : n < 0) (hge : -2 ^ 31 ≤ n) (hfuel : n.natAbs ≤ fuel) :
    0 ≤ moduloLoop m fuel n ∧ moduloLoop m fuel n < m ∧ moduloLoop m fuel n % m = n % m := by
  induction fuel generalizing n with
  | zero => omega
  | succ fuel ih =>
    rw [moduloLoop, if_pos hneg, castInt_of_mem (by omega) (by omega)]
    by_cases hnext : n + m < 0
    · obtain ⟨h1, h2, h3⟩ := ih hnext (by omega) (by omega)
      refine ⟨h1, h2, ?_⟩
      rw [h3, Int.add_emod_right]
    · have hstop : moduloLoop m fuel (n + m) = n + m := by
        cases fuel with
        | zero => rfl
        | succ fuel => rw [moduloLoop, if_neg hnext]
      rw [hstop]
      refine ⟨by omega, by omega, ?_⟩
      rw [Int.add_emod_right]

theorem modulo_eq {m : Nat} (hm : 0 < m) (hm' : m ≤ 2 ^ 31) {n : Int} (hn : -2 ^ 31 ≤ n) :
    (modulo n m : Int) = n % m := by
  unfold modulo
  split
  · rename_i hn
    rw [Int.natCast_mod, Int.toNat_of_nonneg hn]
  · rename_i hneg
    obtain ⟨h1, h2, h3⟩ := moduloLoop_spec hm hm' (by omega) hn (le_refl n.natAbs)
    rw [Int.toNat_of_nonneg h1, ← h3, Int.emod_eq_of_lt h1 h2]

/-- The type of the slot at a place of the repeated pattern. -/
def slotAt (pattern : List LteNrTddSlotType) (x : Int) : LteNrTddSlotType :=
  slotType pattern (x % pattern.length).toNat

section Loops

variable {pattern : List LteNrTddSlotType} {pos : Nat}

theorem modulo_castInt {m : Nat} (hm : 0 < m) (hm' : m ≤ 2 ^ 31) (n : Int) :
    modulo (castInt n) m = (castInt n % m).toNat := by
  have h := modulo_eq hm hm' (castInt_ge n)
  omega

theorem emod_toNat_lt {m : Nat} (hm : 0 < m) (n : Int) : (n % m).toNat < m := by
  have := Int.emod_lt_of_pos n (show (0 : Int) < m by omega)
  omega

theorem slotAt_natCast (n : Nat) : slotAt pattern n = slotType pattern (n % pattern.length) := by
  rw [slotAt, ← Int.natCast_mod, Int.toNat_natCast]

/-- Within one length of the pattern every position is met. -/
theorem exists_emod_eq {m j : Nat} (hj : j < m) (x : Int) : ∃ d < m, (x + (d : Nat)) % m = j := by
  have hm : (0 : Int) < m := by omega
  refine ⟨(((j : Int) - x) % m).toNat, emod_toNat_lt (by omega) _, ?_⟩
  rw [Int.toNat_of_nonneg (Int.emod_nonneg _ hm.ne'), Int.add_emod_emod, add_sub_cancel]
  exact Int.emod_eq_of_lt (by omega) (by omega)

/-- Within two lengths of the pattern every position is met, also where the `int` wraps. -/
theorem exists_slotAt_forward {j : Nat} (hj : j < pattern.length) (hm : pattern.length ≤ 2 ^ 31)
    (x : Int) :
    ∃ d < 2 * pattern.length, slotAt pattern (castInt (x + (d : Nat))) = slotType pattern j := by
  obtain ⟨o, ho, hrun⟩ := exists_castInt_run x hm
  obtain ⟨d, hd, hdj⟩ := exists_emod_eq hj (castInt (x + o))
  refine ⟨o + d, by omega, ?_⟩
  rw [hrun d hd, slotAt, hdj, Int.toNat_natCast]

theorem exists_slotAt_backward {j : Nat} (hj : j < pattern.length) (hm : pattern.length ≤ 2 ^ 31)
    (x : Int) :
    ∃ d < 2 * pattern.length, slotAt pattern (castInt (x - (d : Nat))) = slotType pattern j := by
  obtain ⟨d, hd, hdj⟩ := exists_slotAt_forward hj hm (x - (2 * pattern.length - 1 : Nat))
  refine ⟨2 * pattern.length - 1 - d, by omega, ?_⟩
  rw [← hdj]
  congr 2
  omega

theorem val_gt_F_iff (t : LteNrTddSlotType) : t.val > LteNrTddSlotType.F.val ↔ t = .UL := by
  cases t <;> decide

theorem val_lt_F_iff (t : LteNrTddSlotType) :
    t.val < LteNrTddSlotType.F.val ↔ t = .DL ∨ t = .S := by
  cases t <;> decide

/-- The test of `ReturnDciSlot` is about the slot `k` slots before the position. -/
theorem dciIndex_eq (hm : 0 < pattern.length) (hm' : pattern.length ≤ 2 ^ 31) (k : Nat) :
    slotType pattern (modulo (castInt (castInt pos - castInt k)) pattern.length) =
      slotAt pattern (castInt (pos - k)) := by
  rw [castInt_sub_castInt, modulo_castInt hm hm']
  rfl

theorem returnDciSlotLoop_isSome (hm : 0 < pattern.length) (hm' : pattern.length ≤ 2 ^ 31)
    {fuel k d : Nat} (hd : d < fuel)
    (h : slotAt pattern (castInt ((pos : Int) - k - (d : Nat))) ≠ .UL) :
    (returnDciSlotLoop pattern pos fuel k).isSome := by
  induction fuel generalizing k d with
  | zero => omega
  | succ fuel ih =>
    rw [returnDciSlotLoop]
    rw [dciIndex_eq hm hm']
    split
    · rename_i hul
      rw [gt_iff_lt, ← gt_iff_lt, val_gt_F_iff] at hul
      cases d with
      | zero =>
        rw [Nat.cast_zero, sub_zero] at h
        exact absurd hul h
      | succ d =>
        have hnext : castInt ((pos : Int) - ((k + 1) % 2 ^ 32 : Nat) - (d : Nat)) =
            castInt ((pos : Int) - k - (d + 1 : Nat)) := by
          rw [castInt_eq_iff]
          omega
        exact ih (Nat.lt_of_succ_lt_succ hd) (by rwa [hnext])
    · rfl

/-- The loop of `ReturnDciSlot` ends at the first slot that is no UL slot. -/
theorem returnDciSlotLoop_spec (hm : 0 < pattern.length) (hm' : pattern.length ≤ 2 ^ 31)
    {fuel k : Nat} (hk : k + fuel ≤ 2 ^ 32) {r : DciKPair}
    (h : returnDciSlotLoop pattern pos fuel k = some r) :
    r.indexDci = modulo (castInt (pos - r.k)) pattern.length ∧
      slotAt pattern (castInt (pos - r.k)) ≠ .UL ∧ k ≤ r.k ∧
      ∀ k', k ≤ k' → k' < r.k → slotAt pattern (castInt (pos - (k' : Nat))) = .UL := by
  induction fuel generalizing k with
  | zero => cases h
  | succ fuel ih =>
    rw [returnDciSlotLoop] at h
    rw [dciIndex_eq hm hm'] at h
    split at h
    · next hul =>
      have hfuel : fuel ≠ 0 := by
        rintro rfl
        cases h
      rw [Nat.mod_eq_of_lt (by omega)] at h
      obtain ⟨hidx, hne, hle, hall⟩ := ih (by omega) h
      refine ⟨hidx, hne, by omega, ?_⟩
      intro k' hk hlt
      rcases hk.eq_or_lt with rfl | hk
      · exact (val_gt_F_iff _).mp hul
      · exact hall k' hk hlt
    · next hul =>
      obtain rfl := Option.some.inj h
      refine ⟨by rw [castInt_sub_castInt], fun heq => hul ((val_gt_F_iff _).mpr heq), le_rfl, ?_⟩
      intro k' hk hlt
      exact absurd hlt (not_lt.mpr hk)

/-- The test of `ReturnHarqSlot` is about the slot `k1` slots after the position. -/
theorem harqIndex_eq (hm : 0 < pattern.length) (hm' : pattern.length ≤ 2 ^ 31) (k : Int) :
    slotType pattern (modulo (castInt (castInt pos + castInt k)) pattern.length) =
      slotAt pattern (castInt (pos + k)) := by
  rw [castInt_add_castInt, modulo_castInt hm hm']
  rfl

theorem returnHarqSlotLoop_isSome (hm : 0 < pattern.length) (hm' : pattern.length ≤ 2 ^ 31)
    {fuel d : Nat} {k : Int} (hd : d < fuel)
    (h : slotAt pattern (castInt (pos + k + (d : Nat))) = .F ∨
      slotAt pattern (castInt (pos + k + (d : Nat))) = .UL) :
    (returnHarqSlotLoop pattern pos fuel (castInt k)).isSome := by
  induction fuel generalizing k d with
  | zero => omega
  | succ fuel ih =>
    rw [returnHarqSlotLoop]
    rw [harqIndex_eq hm hm']
    split
    · rename_i hlt
      rw [val_lt_F_iff] at hlt
      cases d with
      | zero =>
        rw [Nat.cast_zero, add_zero] at h
        rcases h with h | h <;> simp [h] at hlt
      | succ d =>
        have hnext : castInt ((pos : Int) + (castInt k + 1) + (d : Nat)) =
            castInt (pos + k + (d + 1 : Nat)) := by
          have hmod : castInt k % 2 ^ 32 = k % 2 ^ 32 := Int.bmod_emod
          rw [castInt_eq_iff]
          omega
        exact ih (Nat.lt_of_succ_lt_succ hd) (by rwa [hnext])
    · rfl

/-- The loop of `ReturnHarqSlot` ends at the first slot that can carry UL. -/
theorem returnHarqSlotLoop_spec (hm : 0 < pattern.length) (hm' : pattern.length ≤ 2 ^ 31)
    {fuel k : Nat} (hk : k + fuel ≤ 2 ^ 31) {r : Int}
    (h : returnHarqSlotLoop pattern pos fuel k = some r) :
    ∃ k1 : Nat, r = k1 ∧ k ≤ k1 ∧ k1 < k + fuel ∧
      (slotAt pattern (castInt (pos + k1)) = .F ∨ slotAt pattern (castInt (pos + k1)) = .UL) ∧
      ∀ k' : Nat, k ≤ k' → k' < k1 → slotAt pattern (castInt (pos + k')) ≠ .F ∧
        slotAt pattern (castInt (pos + k')) ≠ .UL := by
  have htype : ∀ t : LteNrTddSlotType, t.val < LteNrTddSlotType.F.val ↔ t ≠ .F ∧ t ≠ .UL := by
    intro t
    cases t <;> decide
  induction fuel generalizing k with
  | zero => cases h
  | succ fuel ih =>
    rw [returnHarqSlotLoop] at h
    rw [← castInt_of_mem (n := k) (by omega) (by omega), harqIndex_eq hm hm',
      castInt_of_mem (n := k) (by omega) (by omega)] at h
    split at h
    · next hlow =>
      have hfuel : fuel ≠ 0 := by
        rintro rfl
        cases h
      rw [castInt_of_mem (by omega) (by omega), ← Nat.cast_one, ← Nat.cast_add] at h
      obtain ⟨k1, hr, hle, hlt, hul, hall⟩ := ih (by omega) h
      refine ⟨k1, hr, by omega, by omega, hul, ?_⟩
      intro k' hk hlt
      rcases hk.eq_or_lt with rfl | hk
      · exact (htype _).mp hlow
      · exact hall k' hk hlt
    · next hlow =>
      refine ⟨k, (Option.some.inj h).symm, le_rfl, by omega, ?_, ?_⟩
      · rw [htype, not_and_or, not_not, not_not] at hlow
        exact hlow
      · intro k' hk hlt
        exact absurd hlt (not_lt.mpr hk)

end Loops

/-! ## The tables of a TDD pattern -/

/-- A pattern with slots for both directions. -/
def Duplex (pattern : List LteNrTddSlotType) : Prop :=
  .F ∈ pattern ∨ (.DL ∈ pattern ∧ .UL ∈ pattern)

theorem exists_slotType_of_mem {pattern : List LteNrTddSlotType} {t : LteNrTddSlotType}
    (h : t ∈ pattern) : ∃ j < pattern.length, slotType pattern j = t := by
  obtain ⟨j, hj, rfl⟩ := List.mem_iff_getElem.mp h
  refine ⟨j, hj, ?_⟩
  rw [slotType, List.getD_eq_getElem?_getD, List.getElem?_eq_getElem hj, Option.getD_some]

def hasUl (pattern : List LteNrTddSlotType) (pos : Nat) : Bool :=
  slotType pattern pos = .UL || slotType pattern pos = .F

def hasDl (pattern : List LteNrTddSlotType) (pos : Nat) : Bool :=
  slotType pattern pos ≠ .UL

/-- The `k` of `ReturnDciSlot`. -/
def dciOffset (pattern : List LteNrTddSlotType) (n pos : Nat) : Nat :=
  ((returnDciSlot pattern pos n).map DciKPair.k).getD 0

/-- How many slots ahead the MAC prepares the slots at a position. -/
def generateOffset (pattern : List LteNrTddSlotType) (n l1l2CtrlLatency pos : Nat) : Nat :=
  dciOffset pattern n pos + l1l2CtrlLatency

/-- `toSend` and `generate` hold what is due for the positions `ps`, where the delays keep the
32-bit numbers of the code below `2 ^ 31`. -/
def Due (pattern : List LteNrTddSlotType) (n L : Nat) (ps : List Nat) (maps : SlotMap × SlotMap) :
    Prop :=
  n + L + pattern.length ≤ 2 ^ 31 → ∀ g,
    maps.1 g = Cyclic.dueAt pattern.length ps (dciOffset pattern n) g ∧
      maps.2 g = Cyclic.dueAt pattern.length ps (generateOffset pattern n L) g

/-- What the tables hold before they are sorted, after the positions `ps`. -/
structure Holds (pattern : List LteNrTddSlotType) (d : Delays) (ps : List Nat) (st : Structures) :
    Prop where
  ul : Due pattern d.n2 d.l1l2CtrlLatency (ps.filter (hasUl pattern)) st.ul
  dl : Due pattern d.n0 d.l1l2CtrlLatency (ps.filter (hasDl pattern)) st.dl
  harq : ∀ i, st.dlHarqfbPosition i = if i ∈ ps.filter (hasDl pattern) then
    (returnHarqSlot pattern i d.n1).map fun k1 => (k1 % 2 ^ 32).toNat else none

theorem pushBack_apply (m : SlotMap) (pos k g : Nat) :
    m.pushBack pos k g = m g ++ if pos = g then [k] else [] := by
  unfold SlotMap.pushBack
  by_cases h : pos = g
  · subst h
    simp
  · simp [h, Ne.symm h]

section Tables

variable {pattern : List LteNrTddSlotType}

theorem Duplex.isTdd (h : Duplex pattern) : isTdd pattern = true := by
  rcases h with h | ⟨h1, h2⟩
  · simp [Phy.isTdd, h]
  · have hul : pattern.any (· = .UL) = true := by simpa using h2
    have hdl : pattern.any (· = .DL) = true := by simpa using h1
    rw [Phy.isTdd, hul, hdl]
    simp

theorem Duplex.exists_not_UL (h : Duplex pattern) :
    ∃ j < pattern.length, slotType pattern j ≠ .UL := by
  rcases h with h | ⟨h, -⟩
  · obtain ⟨j, hj, ht⟩ := exists_slotType_of_mem h
    exact ⟨j, hj, by rw [ht]; decide⟩
  · obtain ⟨j, hj, ht⟩ := exists_slotType_of_mem h
    exact ⟨j, hj, by rw [ht]; decide⟩

theorem Duplex.exists_F_or_UL (h : Duplex pattern) :
    ∃ j < pattern.length, slotType pattern j = .F ∨ slotType pattern j = .UL := by
  rcases h with h | ⟨-, h⟩
  · obtain ⟨j, hj, ht⟩ := exists_slotType_of_mem h
    exact ⟨j, hj, Or.inl ht⟩
  · obtain ⟨j, hj, ht⟩ := exists_slotType_of_mem h
    exact ⟨j, hj, Or.inr ht⟩

theorem Duplex.length_pos (h : Duplex pattern) : 0 < pattern.length := by
  obtain ⟨j, hj, -⟩ := h.exists_not_UL
  omega

theorem Duplex.returnDciSlot_isSome (h : Duplex pattern) (hm : pattern.length ≤ 2 ^ 31)
    (pos n : Nat) : (returnDciSlot pattern pos n).isSome := by
  obtain ⟨j, hj, hne⟩ := h.exists_not_UL
  obtain ⟨d, hd, hdj⟩ := exists_slotAt_backward hj hm ((pos : Int) - n)
  apply returnDciSlotLoop_isSome h.length_pos hm hd
  rwa [hdj]

theorem Duplex.returnHarqSlot_isSome (h : Duplex pattern) (hm : pattern.length ≤ 2 ^ 31)
    (pos n1 : Nat) : (returnHarqSlot pattern pos n1).isSome := by
  obtain ⟨j, hj, ht⟩ := h.exists_F_or_UL
  obtain ⟨d, hd, hdj⟩ := exists_slotAt_forward hj hm ((pos : Int) + n1)
  apply returnHarqSlotLoop_isSome h.length_pos hm hd
  rwa [hdj]

/-- Where the delay does not wrap, `ReturnDciSlot` finds the nearest slot that is no UL slot. -/
theorem Duplex.returnDciSlot_eq (h : Duplex pattern) {pos n : Nat} (hpos : pos < pattern.length)
    (hn : n + pattern.length ≤ 2 ^ 31) :
    returnDciSlot pattern pos n = some ⟨(((pos : Int) - dciOffset pattern n pos) %
        pattern.length).toNat, dciOffset pattern n pos⟩ ∧
      n ≤ dciOffset pattern n pos ∧ dciOffset pattern n pos < n + pattern.length ∧
      slotAt pattern (pos - dciOffset pattern n pos) ≠ .UL ∧
      ∀ k, n ≤ k → k < dciOffset pattern n pos → slotAt pattern (pos - (k : Nat)) = .UL := by
  have hm : pattern.length ≤ 2 ^ 31 := by omega
  obtain ⟨r, hr⟩ := Option.isSome_iff_exists.mp (h.returnDciSlot_isSome hm pos n)
  obtain ⟨hidx, hne, hle, hall⟩ := returnDciSlotLoop_spec h.length_pos hm (by omega) hr
  have hoff : dciOffset pattern n pos = r.k := by
    rw [dciOffset, hr]
    rfl
  have hfit : ∀ k : Nat, k < 2 ^ 31 → castInt ((pos : Int) - k) = pos - k := by
    intro k hk
    exact castInt_of_mem (by omega) (by omega)
  -- some slot within one length of the pattern is no UL slot
  have hlt : r.k < n + pattern.length := by
    obtain ⟨j, hj, hnot⟩ := h.exists_not_UL
    obtain ⟨d, hd, hdj⟩ := exists_emod_eq hj ((pos : Int) - n - (pattern.length - 1 : Nat))
    by_contra hge
    have hul := hall (n + (pattern.length - 1 - d)) (by omega) (by omega)
    rw [hfit _ (by omega)] at hul
    have hsame : (pos : Int) - (n + (pattern.length - 1 - d) : Nat) =
        pos - n - (pattern.length - 1 : Nat) + d := by omega
    rw [hsame, slotAt, hdj, Int.toNat_natCast] at hul
    exact hnot hul
  rw [hoff]
  rw [hfit _ (by omega)] at hne
  refine ⟨?_, hle, hlt, hne, ?_⟩
  · rw [hr]
    congr 1
    cases r
    dsimp only at hidx ⊢
    rw [hidx, modulo_castInt h.length_pos hm, hfit _ (by dsimp only at hlt; omega)]
  · intro k hk hkr
    have hul := hall k hk hkr
    rwa [hfit _ (by omega)] at hul

/-- Where the delay does not wrap, `ReturnHarqSlot` finds the nearest slot that can carry UL. -/
theorem Duplex.returnHarqSlot_eq (h : Duplex pattern) {pos n1 : Nat} (hpos : pos < pattern.length)
    (hn : n1 + 3 * pattern.length ≤ 2 ^ 31) :
    ∃ k1 : Nat, returnHarqSlot pattern pos n1 = some (k1 : Int) ∧ n1 ≤ k1 ∧ k1 < 2 ^ 31 ∧
      hasUl pattern ((pos + k1) % pattern.length) = true ∧
      ∀ k, n1 ≤ k → hasUl pattern ((pos + k) % pattern.length) = true → k1 ≤ k := by
  have hm : pattern.length ≤ 2 ^ 31 := by omega
  obtain ⟨r, hr⟩ := Option.isSome_iff_exists.mp (h.returnHarqSlot_isSome hm pos n1)
  have hloop := hr
  rw [returnHarqSlot, castInt_of_mem (by omega) (by omega)] at hloop
  obtain ⟨k1, rfl, hle, hlt, hul, hall⟩ := returnHarqSlotLoop_spec h.length_pos hm (by omega) hloop
  have hfit : ∀ k : Nat, k ≤ k1 → slotAt pattern (castInt (pos + k)) =
      slotType pattern ((pos + k) % pattern.length) := by
    intro k hk
    rw [castInt_of_mem (by omega) (by omega), ← Nat.cast_add, slotAt_natCast]
  refine ⟨k1, hr, hle, by omega, ?_, ?_⟩
  · rw [hfit k1 le_rfl] at hul
    rcases hul with hul | hul <;> simp [hasUl, hul]
  · intro k hk hkul
    by_contra hnot
    obtain ⟨hF, hUL⟩ := hall k hk (by omega)
    rw [hfit k (by omega)] at hF hUL
    simp [hasUl, hF, hUL] at hkul

/-- A position that is no UL slot carries its own DCI. -/
theorem dciOffset_zero (h : Duplex pattern) (hm : pattern.length ≤ 2 ^ 31) {pos : Nat}
    (hpos : pos < pattern.length) (ht : slotType pattern pos ≠ .UL) :
    dciOffset pattern 0 pos = 0 := by
  obtain ⟨-, -, -, -, hall⟩ := h.returnDciSlot_eq hpos (n := 0) (by omega)
  by_contra hne
  have hul := hall 0 le_rfl (by omega)
  rw [Nat.cast_zero, sub_zero, slotAt_natCast, Nat.mod_eq_of_lt hpos] at hul
  exact ht hul

theorem Duplex.generateDciMaps_isSome (h : Duplex pattern) (hm : pattern.length ≤ 2 ^ 31)
    (pos n L : Nat) (maps : SlotMap × SlotMap) : (generateDciMaps pattern pos n L maps).isSome := by
  obtain ⟨r, hr⟩ := Option.isSome_iff_exists.mp (h.returnDciSlot_isSome hm pos n)
  rw [generateDciMaps, hr]
  rfl

/-- One position more. -/
theorem Due.generate (h : Duplex pattern) {n L i : Nat} (hi : i < pattern.length)
    {can : Nat → Bool} {ps : List Nat} {maps maps' : SlotMap × SlotMap}
    (hdue : Due pattern n L (ps.filter can) maps) (hcan : can i = true)
    (heq : generateDciMaps pattern i n L maps = some maps') :
    Due pattern n L ((ps ++ [i]).filter can) maps' := by
  intro hfit g
  obtain ⟨hret, -, hlt, -⟩ := h.returnDciSlot_eq hi (n := n) (by omega)
  have hpos := h.length_pos
  have hmem := emod_toNat_lt hpos ((i : Int) - dciOffset pattern n i)
  have hfirst : ((((i : Int) - dciOffset pattern n i) % pattern.length).toNat : Int) =
      ((i : Int) - dciOffset pattern n i) % pattern.length :=
    Int.toNat_of_nonneg (Int.emod_nonneg _ (by omega))
  rw [generateDciMaps, hret] at heq
  obtain rfl := Option.some.inj heq
  obtain ⟨hsend, hgen⟩ := hdue hfit g
  dsimp only
  rw [pushBack_apply, pushBack_apply, hsend, hgen, List.filter_append, List.filter_singleton, hcan,
    Bool.cond_true, Cyclic.dueAt_append, Cyclic.dueAt_append]
  constructor
  · rw [Cyclic.dueAt_singleton hfirst.symm]
  · have hearlier : ((modulo (castInt (castInt (((i : Int) - dciOffset pattern n i) %
          pattern.length).toNat - castInt L)) pattern.length : Nat) : Int) =
        ((i : Int) - generateOffset pattern n L i) % pattern.length := by
      rw [castInt_sub_castInt, castInt_of_mem (by omega) (by omega), modulo_eq hpos (by omega)
        (by omega), hfirst, Int.emod_sub_emod, generateOffset, Nat.cast_add, sub_sub]
    rw [Cyclic.dueAt_singleton hearlier.symm, Nat.mod_eq_of_lt (by omega), generateOffset]

theorem Due.keep {n L i : Nat} {can : Nat → Bool} {ps : List Nat} {maps : SlotMap × SlotMap}
    (hdue : Due pattern n L (ps.filter can) maps) (hcan : can i = false) :
    Due pattern n L ((ps ++ [i]).filter can) maps := by
  rwa [List.filter_append, List.filter_singleton, hcan, Bool.cond_false, List.append_nil]

/-- The feedback position of one more position. -/
theorem Holds.insertHarq {d : Delays} {ps : List Nat} {st st' : Structures} {i : Nat} {k1 : Int}
    (h : Holds pattern d ps st) (hst : st'.dlHarqfbPosition = st.dlHarqfbPosition)
    (hdl : hasDl pattern i = true) (hk1 : returnHarqSlot pattern i d.n1 = some k1) (j : Nat) :
    (st'.insertHarq i k1).dlHarqfbPosition j = if j ∈ (ps ++ [i]).filter (hasDl pattern) then
      (returnHarqSlot pattern j d.n1).map fun k1 => (k1 % 2 ^ 32).toNat else none := by
  have hmem : j ∈ (ps ++ [i]).filter (hasDl pattern) ↔ j ∈ ps.filter (hasDl pattern) ∨ j = i := by
    rw [List.filter_append, List.mem_append, List.filter_singleton, hdl]
    simp
  change Function.update st'.dlHarqfbPosition i _ j = _
  rw [hst, Function.update_apply, h.harq i, h.harq j]
  by_cases hj : j = i
  · rw [if_pos hj, if_pos (hmem.mpr (Or.inr hj)), hj, hk1]
    split <;> rfl
  · rw [if_neg hj]
    simp only [hmem, hj, or_false]

theorem Holds.position (h : Duplex pattern) (hm : pattern.length ≤ 2 ^ 31) {d : Delays}
    {ps : List Nat} {st : Structures} (hst : Holds pattern d ps st) {i : Nat}
    (hi : i < pattern.length) :
    ∃ st', generatePosition pattern pattern d st i = some st' ∧
      Holds pattern d (ps ++ [i]) st' := by
  obtain ⟨ul, hul⟩ := Option.isSome_iff_exists.mp
    (h.generateDciMaps_isSome hm i d.n2 d.l1l2CtrlLatency st.ul)
  obtain ⟨dl, hdl⟩ := Option.isSome_iff_exists.mp
    (h.generateDciMaps_isSome hm i d.n0 d.l1l2CtrlLatency st.dl)
  obtain ⟨k1, hk1⟩ := Option.isSome_iff_exists.mp (h.returnHarqSlot_isSome hm i d.n1)
  unfold generatePosition
  rw [hul, hdl, hk1]
  cases ht : slotType pattern i with
  | DL =>
    have hcan : hasUl pattern i = false ∧ hasDl pattern i = true := by simp [hasUl, hasDl, ht]
    exact ⟨_, rfl, hst.ul.keep hcan.1, hst.dl.generate h hi hcan.2 hdl,
      hst.insertHarq rfl hcan.2 hk1⟩
  | S =>
    have hcan : hasUl pattern i = false ∧ hasDl pattern i = true := by simp [hasUl, hasDl, ht]
    exact ⟨_, rfl, hst.ul.keep hcan.1, hst.dl.generate h hi hcan.2 hdl,
      hst.insertHarq rfl hcan.2 hk1⟩
  | F =>
    have hcan : hasUl pattern i = true ∧ hasDl pattern i = true := by simp [hasUl, hasDl, ht]
    exact ⟨_, rfl, hst.ul.generate h hi hcan.1 hul, hst.dl.generate h hi hcan.2 hdl,
      hst.insertHarq rfl hcan.2 hk1⟩
  | UL =>
    have hcan : hasUl pattern i = true ∧ hasDl pattern i = false := by simp [hasUl, hasDl, ht]
    refine ⟨_, rfl, hst.ul.generate h hi hcan.1 hul, hst.dl.keep hcan.2, ?_⟩
    rw [List.filter_append, List.filter_singleton, hcan.2, Bool.cond_false, List.append_nil]
    exact hst.harq

theorem Holds.positions (h : Duplex pattern) (hm : pattern.length ≤ 2 ^ 31) {d : Delays}
    {ps : List Nat} {st : Structures} (hst : Holds pattern d ps st) {qs : List Nat}
    (hqs : ∀ i ∈ qs, i < pattern.length) :
    ∃ st', qs.foldlM (generatePosition pattern pattern d) st = some st' ∧
      Holds pattern d (ps ++ qs) st' := by
  induction qs generalizing ps st with
  | nil => exact ⟨st, rfl, by rwa [List.append_nil]⟩
  | cons i qs ih =>
    obtain ⟨st₁, h₁, hst₁⟩ := hst.position h hm (hqs i List.mem_cons_self)
    obtain ⟨st₂, h₂, hst₂⟩ := ih hst₁ fun j hj => hqs j (List.mem_cons_of_mem i hj)
    refine ⟨st₂, ?_, ?_⟩
    · rw [List.foldlM_cons, h₁]
      exact h₂
    · rwa [List.append_assoc] at hst₂

/-- For a pattern with both directions the tables are built: they are those of all positions, the
`generate` lists sorted. -/
theorem Duplex.generate_holds (h : Duplex pattern) (hm : pattern.length ≤ 2 ^ 31) (d : Delays) :
    ∃ st, Holds pattern d (List.range pattern.length) st ∧
      generateStructuresFromPattern pattern d = some { st with
        dl := (st.dl.1, st.dl.2.sorted), ul := (st.ul.1, st.ul.2.sorted) } := by
  have hempty : Holds pattern d [] {} :=
    ⟨fun _ _ => ⟨rfl, rfl⟩, fun _ _ => ⟨rfl, rfl⟩, fun _ => rfl⟩
  obtain ⟨st, hst, hholds⟩ := hempty.positions h hm fun i hi => List.mem_range.mp hi
  refine ⟨st, hholds, ?_⟩
  unfold generateStructuresFromPattern
  rw [h.isTdd]
  simp only [if_true]
  rw [hst]
  rfl

/-- Each `generate` list is what is due at its position, in some order. -/
theorem Duplex.generate_perm_dueAt (h : Duplex pattern) {d : Delays}
    (hul : d.n2 + d.l1l2CtrlLatency + pattern.length ≤ 2 ^ 31)
    (hdl : d.n0 + d.l1l2CtrlLatency + pattern.length ≤ 2 ^ 31) :
    ∃ st, generateStructuresFromPattern pattern d = some st ∧
      (∀ g, (st.generateUl g).Perm
        (Cyclic.dueAt pattern.length ((List.range pattern.length).filter (hasUl pattern))
          (generateOffset pattern d.n2 d.l1l2CtrlLatency) g)) ∧
      ∀ g, (st.generateDl g).Perm
        (Cyclic.dueAt pattern.length ((List.range pattern.length).filter (hasDl pattern))
          (generateOffset pattern d.n0 d.l1l2CtrlLatency) g) := by
  obtain ⟨st, hst, heq⟩ := h.generate_holds (by omega) d
  refine ⟨_, heq, ?_, ?_⟩
  · intro g
    rw [← (hst.ul hul g).2]
    exact List.mergeSort_perm _ _
  · intro g
    rw [← (hst.dl hdl g).2]
    exact List.mergeSort_perm _ _

end Tables

/-! ## Runs -/

namespace SlotIndication

def sfn : SlotIndication → SfnSf
  | slotUlIndication sfn _ => sfn
  | slotDlIndication sfn _ => sfn

def type : SlotIndication → LteNrTddSlotType
  | slotUlIndication _ type => type
  | slotDlIndication _ type => type

def isUlFor (target : SfnSf) : SlotIndication → Bool
  | slotUlIndication sfn _ => sfn = target
  | slotDlIndication _ _ => false

def isDlFor (target : SfnSf) : SlotIndication → Bool
  | slotUlIndication _ _ => false
  | slotDlIndication sfn _ => sfn = target

end SlotIndication

/-- What is expected of the calls of a run of `R` slots: from slot `bound` on, one
indication for each slot and each of its directions, none in a direction the slot does not
have, all at least `L` slots ahead, and in flexible slots the UL before the DL. -/
structure IndicatesOnce (mu : Nat) (pattern : List LteNrTddSlotType) (R bound L : Nat)
    (calls : List (SfnSf × SlotIndication)) : Prop where
  dl_once : ∀ s, bound ≤ s → s < R → slotType pattern (s % pattern.length) ≠ .UL →
    calls.countP (fun c => c.2.isDlFor (SfnSf.slotAt mu s)) = 1
  dl_never : ∀ s < SfnSf.totalSlots mu, slotType pattern (s % pattern.length) = .UL →
    calls.countP (fun c => c.2.isDlFor (SfnSf.slotAt mu s)) = 0
  ul_once : ∀ s, bound ≤ s → s < R → (slotType pattern (s % pattern.length) = .UL ∨
    slotType pattern (s % pattern.length) = .F) →
    calls.countP (fun c => c.2.isUlFor (SfnSf.slotAt mu s)) = 1
  ul_never : ∀ s < SfnSf.totalSlots mu, (slotType pattern (s % pattern.length) = .DL ∨
    slotType pattern (s % pattern.length) = .S) →
    calls.countP (fun c => c.2.isUlFor (SfnSf.slotAt mu s)) = 0
  ahead : ∀ c ∈ calls, ∃ t s, c.1 = SfnSf.slotAt mu t ∧ c.2.sfn = SfnSf.slotAt mu s ∧
    t < R ∧ t + L ≤ s ∧ s < SfnSf.totalSlots mu ∧
    c.2.type = slotType pattern (s % pattern.length)
  ul_first : ∀ s, bound ≤ s → s < R → slotType pattern (s % pattern.length) = .F →
    ∃ t t', [(SfnSf.slotAt mu t, .slotUlIndication (SfnSf.slotAt mu s) .F),
      (SfnSf.slotAt mu t', .slotDlIndication (SfnSf.slotAt mu s) .F)].Sublist calls

section Runs

variable {pattern : List LteNrTddSlotType} {mu R : Nat} {st : Structures}

/-- The calls of one slot of the run, with the slots counted from the start of the run. -/
theorem callMacForSlotIndication_slotAt (hmu : mu ≤ 11) {t : Nat} (ht : t < SfnSf.totalSlots mu)
    (hul : ∀ k ∈ st.generateUl (t % pattern.length), t + k < SfnSf.totalSlots mu)
    (hdl : ∀ k ∈ st.generateDl (t % pattern.length), t + k < SfnSf.totalSlots mu) :
    callMacForSlotIndication pattern st (SfnSf.slotAt mu t) =
      (st.generateUl (t % pattern.length)).map (fun k => .slotUlIndication
        (SfnSf.slotAt mu (t + k)) (slotType pattern ((t + k) % pattern.length))) ++
      (st.generateDl (t % pattern.length)).map (fun k => .slotDlIndication
        (SfnSf.slotAt mu (t + k)) (slotType pattern ((t + k) % pattern.length))) := by
  unfold callMacForSlotIndication
  dsimp only
  rw [SfnSf.slotAt_normalize hmu ht]
  congr 1
  · apply List.map_congr_left
    intro k hk
    rw [SfnSf.add_slotAt hmu (hul k hk), SfnSf.slotAt_normalize hmu (hul k hk)]
  · apply List.map_congr_left
    intro k hk
    rw [SfnSf.add_slotAt hmu (hdl k hk), SfnSf.slotAt_normalize hmu (hdl k hk)]

/-- All slots of a run, on air or indicated, are below the wrap of the frame number. -/
structure NoWrap (mu R : Nat) (pattern : List LteNrTddSlotType) (st : Structures) : Prop where
  numerology : mu ≤ 11
  onAir : R ≤ SfnSf.totalSlots mu
  ul : ∀ t < R, ∀ k ∈ st.generateUl (t % pattern.length), t + k < SfnSf.totalSlots mu
  dl : ∀ t < R, ∀ k ∈ st.generateDl (t % pattern.length), t + k < SfnSf.totalSlots mu

theorem NoWrap.callMac (h : NoWrap mu R pattern st) {t : Nat} (ht : t < R) :
    callMacForSlotIndication pattern st (SfnSf.slotAt mu t) =
      (st.generateUl (t % pattern.length)).map (fun k => .slotUlIndication
        (SfnSf.slotAt mu (t + k)) (slotType pattern ((t + k) % pattern.length))) ++
      (st.generateDl (t % pattern.length)).map (fun k => .slotDlIndication
        (SfnSf.slotAt mu (t + k)) (slotType pattern ((t + k) % pattern.length))) :=
  callMacForSlotIndication_slotAt h.numerology (ht.trans_le h.onAir) (h.ul t ht) (h.dl t ht)

theorem NoWrap.countP_ul (h : NoWrap mu R pattern st) {s : Nat} (hs : s < SfnSf.totalSlots mu) :
    (indications mu pattern st R).countP (fun c => c.2.isUlFor (SfnSf.slotAt mu s)) =
      ((List.range R).map fun t =>
        (st.generateUl (t % pattern.length)).countP fun k => t + k = s).sum := by
  rw [indications, List.countP_flatMap]
  congr 1
  apply List.map_congr_left
  intro t ht
  have htR := List.mem_range.mp ht
  rw [Function.comp_apply, h.callMac htR, List.map_append, List.countP_append, List.map_map,
    List.map_map, List.countP_map, List.countP_map]
  have hdl : (st.generateDl (t % pattern.length)).countP (fun _ => false) = 0 :=
    List.countP_eq_zero.mpr fun _ _ => Bool.false_ne_true
  refine Eq.trans (congrArg₂ (· + ·) ?_ hdl) (Nat.add_zero _)
  apply List.countP_congr
  intro k hk
  simp only [Function.comp_apply, SlotIndication.isUlFor, decide_eq_true_eq]
  constructor
  · intro he
    exact SfnSf.slotAt_inj h.numerology (h.ul t htR k hk) hs he
  · intro he
    rw [he]

theorem NoWrap.countP_dl (h : NoWrap mu R pattern st) {s : Nat} (hs : s < SfnSf.totalSlots mu) :
    (indications mu pattern st R).countP (fun c => c.2.isDlFor (SfnSf.slotAt mu s)) =
      ((List.range R).map fun t =>
        (st.generateDl (t % pattern.length)).countP fun k => t + k = s).sum := by
  rw [indications, List.countP_flatMap]
  congr 1
  apply List.map_congr_left
  intro t ht
  have htR := List.mem_range.mp ht
  rw [Function.comp_apply, h.callMac htR, List.map_append, List.countP_append, List.map_map,
    List.map_map, List.countP_map, List.countP_map]
  have hul : (st.generateUl (t % pattern.length)).countP (fun _ => false) = 0 :=
    List.countP_eq_zero.mpr fun _ _ => Bool.false_ne_true
  refine Eq.trans (congrArg₂ (· + ·) hul ?_) (Nat.zero_add _)
  apply List.countP_congr
  intro k hk
  simp only [Function.comp_apply, SlotIndication.isDlFor, decide_eq_true_eq]
  constructor
  · intro he
    exact SfnSf.slotAt_inj h.numerology (h.dl t htR k hk) hs he
  · intro he
    rw [he]

theorem sum_countP_of_perm {m : SlotMap} {n : Nat} {has : Nat → Bool} {K : Nat → Nat}
    (hperm : ∀ g, (m g).Perm (Cyclic.dueAt n ((List.range n).filter has) K g)) (hn : 0 < n)
    (R s : Nat) :
    ((List.range R).map fun t => (m (t % n)).countP fun k => t + k = s).sum =
      if has (s % n) = true ∧ K (s % n) ≤ s ∧ s - K (s % n) < R then 1 else 0 := by
  have hcount : ∀ t, (m (t % n)).countP (fun k => t + k = s) =
      (Cyclic.dueAt n ((List.range n).filter has) K (t % n)).countP fun k => t + k = s :=
    fun t => (hperm _).countP_eq _
  have hlt : ∀ i ∈ (List.range n).filter has, i < n := by
    intro i hi
    exact List.mem_range.mp (List.mem_filter.mp hi).1
  simp only [hcount]
  rw [Cyclic.sum_countP_dueAt (List.nodup_range.filter _) hlt]
  simp [Nat.mod_lt s hn]

theorem mem_of_due {m : SlotMap} {n : Nat} {has : Nat → Bool} {K : Nat → Nat}
    (hperm : ∀ g, (m g).Perm (Cyclic.dueAt n ((List.range n).filter has) K g)) (hn : 0 < n)
    {s : Nat} (hhas : has (s % n) = true) (hK : K (s % n) ≤ s) :
    K (s % n) ∈ m ((s - K (s % n)) % n) := by
  rw [(hperm _).mem_iff, Cyclic.mem_dueAt]
  refine ⟨s % n, List.mem_filter.mpr ⟨List.mem_range.mpr (Nat.mod_lt s hn), hhas⟩, ?_, rfl⟩
  exact (Cyclic.due_iff (Nat.mod_lt s hn) (Nat.sub_add_cancel hK)).mpr rfl

theorem pair_sublist_range {t t' R : Nat} (h : t < t') (h' : t' < R) :
    [t, t'].Sublist (List.range R) := by
  have hfirst : [t].Sublist (List.range t') := List.singleton_sublist.mpr (List.mem_range.mpr h)
  have hboth : [t, t'].Sublist (List.range (t' + 1)) := by
    rw [List.range_succ]
    exact hfirst.append_right [t']
  exact hboth.trans (List.range_sublist.mpr h')

theorem pair_sublist_append {β : Type} {a b : β} {l l' : List β} (ha : a ∈ l) (hb : b ∈ l') :
    [a, b].Sublist (l ++ l') := by
  change ([a] ++ [b]).Sublist (l ++ l')
  exact (List.singleton_sublist.mpr ha).append (List.singleton_sublist.mpr hb)

/-- The UL call of slot `t + k` and the DL call of slot `t' + k'` come in this order. -/
theorem NoWrap.ul_before_dl (h : NoWrap mu R pattern st) {t t' k k' : Nat} (hle : t ≤ t')
    (ht' : t' < R) (hk : k ∈ st.generateUl (t % pattern.length))
    (hk' : k' ∈ st.generateDl (t' % pattern.length)) :
    [(SfnSf.slotAt mu t, SlotIndication.slotUlIndication (SfnSf.slotAt mu (t + k))
        (slotType pattern ((t + k) % pattern.length))),
      (SfnSf.slotAt mu t', .slotDlIndication (SfnSf.slotAt mu (t' + k'))
        (slotType pattern ((t' + k') % pattern.length)))].Sublist
      (indications mu pattern st R) := by
  unfold indications
  rcases hle.lt_or_eq with hlt | rfl
  · refine List.Sublist.trans ?_ ((pair_sublist_range hlt ht').flatMap _)
    rw [List.flatMap_cons, List.flatMap_singleton, h.callMac (hlt.trans ht'), h.callMac ht']
    apply pair_sublist_append
    · apply List.mem_map_of_mem
      exact List.mem_append_left _ (List.mem_map_of_mem hk)
    · apply List.mem_map_of_mem
      exact List.mem_append_right _ (List.mem_map_of_mem hk')
  · have hone : [t].Sublist (List.range R) :=
      List.singleton_sublist.mpr (List.mem_range.mpr ht')
    refine List.Sublist.trans ?_ (hone.flatMap _)
    rw [List.flatMap_singleton, h.callMac ht', List.map_append]
    apply pair_sublist_append
    · exact List.mem_map_of_mem (List.mem_map_of_mem hk)
    · exact List.mem_map_of_mem (List.mem_map_of_mem hk')

/-- Every call of a run is for a slot that comes as many slots later as its entry says. -/
theorem NoWrap.mem_indications (h : NoWrap mu R pattern st) {c : SfnSf × SlotIndication}
    (hc : c ∈ indications mu pattern st R) :
    ∃ t < R, ∃ k, (k ∈ st.generateUl (t % pattern.length) ∨
        k ∈ st.generateDl (t % pattern.length)) ∧
      c.1 = SfnSf.slotAt mu t ∧ c.2.sfn = SfnSf.slotAt mu (t + k) ∧
      c.2.type = slotType pattern ((t + k) % pattern.length) := by
  obtain ⟨t, ht, hc⟩ := List.mem_flatMap.mp hc
  have htR := List.mem_range.mp ht
  rw [h.callMac htR] at hc
  obtain ⟨ind, hind, rfl⟩ := List.mem_map.mp hc
  rcases List.mem_append.mp hind with hind | hind
  · obtain ⟨k, hk, rfl⟩ := List.mem_map.mp hind
    exact ⟨t, htR, k, Or.inl hk, rfl, rfl, rfl⟩
  · obtain ⟨k, hk, rfl⟩ := List.mem_map.mp hind
    exact ⟨t, htR, k, Or.inr hk, rfl, rfl, rfl⟩

end Runs

theorem generateOffset_mem {pattern : List LteNrTddSlotType} (h : Duplex pattern) {n L i : Nat}
    (hn : n + pattern.length ≤ 2 ^ 31) (hi : i < pattern.length) :
    n + L ≤ generateOffset pattern n L i ∧
    generateOffset pattern n L i < n + L + pattern.length := by
  obtain ⟨-, hle, hlt, -⟩ := h.returnDciSlot_eq hi hn
  unfold generateOffset
  omega

theorem le_of_mem_dueAt {pattern : List LteNrTddSlotType} (h : Duplex pattern) {n L g k : Nat}
    (hn : n + pattern.length ≤ 2 ^ 31) {has : Nat → Bool}
    (hk : k ∈ Cyclic.dueAt pattern.length ((List.range pattern.length).filter has)
      (generateOffset pattern n L) g) :
    n + L ≤ k ∧ k < n + L + pattern.length := by
  obtain ⟨i, hi, -, rfl⟩ := Cyclic.mem_dueAt.mp hk
  exact generateOffset_mem h hn (List.mem_range.mp (List.mem_filter.mp hi).1)

theorem totalSlots_le {mu : Nat} (hmu : mu ≤ 11) : SfnSf.totalSlots mu ≤ 2 ^ 31 := by
  have hpow : 2 ^ mu ≤ 2 ^ 11 := Nat.pow_le_pow_right Nat.two_pos hmu
  unfold SfnSf.totalSlots
  omega

/-- For every pattern with both directions and all delays, the tables can be built, and in
every run from slot 0 of frame 0 whose slots, on air or indicated, are below frame 65536,
every slot from a bound on is indicated as it should be. -/
theorem slot_indications {pattern : List LteNrTddSlotType} (h : Duplex pattern)
    {mu n1 n2 L R : Nat} (hmu : mu ≤ 11)
    (hR : R + (n2 + L + pattern.length) ≤ SfnSf.totalSlots mu) :
    ∃ st, generateStructuresFromPattern pattern
        { n0 := 0, n2 := n2, n1 := n1, l1l2CtrlLatency := L } = some st ∧
      IndicatesOnce mu pattern R (n2 + L + pattern.length) L (indications mu pattern st R) := by
  have hfit := totalSlots_le hmu
  have hfitUl : (⟨0, n2, n1, L⟩ : Delays).n2 + L + pattern.length ≤ 2 ^ 31 := by
    dsimp only
    omega
  obtain ⟨st, hst, hul, hdl⟩ := h.generate_perm_dueAt hfitUl (by dsimp only; omega)
  dsimp only at hul hdl
  have hulk : ∀ {g k}, k ∈ st.generateUl g → n2 + L ≤ k ∧ k < n2 + L + pattern.length := by
    intro g k hk
    exact le_of_mem_dueAt h (by omega) ((hul g).mem_iff.mp hk)
  have hdlk : ∀ {g k}, k ∈ st.generateDl g → 0 + L ≤ k ∧ k < 0 + L + pattern.length := by
    intro g k hk
    exact le_of_mem_dueAt h (by omega) ((hdl g).mem_iff.mp hk)
  have hwrap : NoWrap mu R pattern st := by
    refine ⟨hmu, by omega, ?_, ?_⟩
    · intro t ht k hk
      have := hulk hk
      omega
    · intro t ht k hk
      have := hdlk hk
      omega
  have hpos := h.length_pos
  have hulOff : ∀ s, L ≤ generateOffset pattern n2 L (s % pattern.length) ∧
      generateOffset pattern n2 L (s % pattern.length) < n2 + L + pattern.length := by
    intro s
    have := generateOffset_mem h (n := n2) (L := L) (by omega) (Nat.mod_lt s hpos)
    omega
  have hdlOff : ∀ s, generateOffset pattern 0 L (s % pattern.length) < L + pattern.length := by
    intro s
    have := generateOffset_mem h (n := 0) (L := L) (by omega) (Nat.mod_lt s hpos)
    omega
  refine ⟨st, hst, ?_, ?_, ?_, ?_, ?_, ?_⟩
  · intro s hb hs ht
    rw [hwrap.countP_dl (by omega), sum_countP_of_perm hdl hpos, if_pos]
    have := hdlOff s
    exact ⟨by simp [hasDl, ht], by omega, by omega⟩
  · intro s hs ht
    rw [hwrap.countP_dl hs, sum_countP_of_perm hdl hpos, if_neg]
    simp [hasDl, ht]
  · intro s hb hs ht
    rw [hwrap.countP_ul (by omega), sum_countP_of_perm hul hpos, if_pos]
    have := hulOff s
    exact ⟨by simpa [hasUl] using ht, by omega, by omega⟩
  · intro s hs ht
    rw [hwrap.countP_ul hs, sum_countP_of_perm hul hpos, if_neg]
    rcases ht with ht | ht <;> simp [hasUl, ht]
  · intro c hc
    obtain ⟨t, ht, k, hk, h1, h2, h3⟩ := hwrap.mem_indications hc
    refine ⟨t, t + k, h1, h2, ht, ?_, ?_, h3⟩
    · rcases hk with hk | hk
      · have := hulk hk
        omega
      · have := hdlk hk
        omega
    · rcases hk with hk | hk
      · exact hwrap.ul t ht k hk
      · exact hwrap.dl t ht k hk
  · intro s hb hs ht
    have hmod := Nat.mod_lt s hpos
    obtain ⟨hle', hkul⟩ := hulOff s
    have hkdl : generateOffset pattern 0 L (s % pattern.length) = L := by
      rw [generateOffset, dciOffset_zero h (by omega) hmod (by rw [ht]; decide), Nat.zero_add]
    have hmul := mem_of_due hul hpos (s := s) (by simp [hasUl, ht]) (by omega)
    have hmdl := mem_of_due hdl hpos (s := s) (by simp [hasDl, ht]) (by omega)
    have hord := hwrap.ul_before_dl (by omega) (by omega) hmul hmdl
    rw [Nat.sub_add_cancel (by omega), Nat.sub_add_cancel (by omega), ht] at hord
    exact ⟨_, _, hord⟩

theorem slot_indications_lte_pattern :
    ∃ st, generateStructuresFromPattern [.DL, .S, .UL, .F, .DL]
        { n0 := 0, n2 := 2, n1 := 4, l1l2CtrlLatency := 2 } = some st ∧
      IndicatesOnce 0 [.DL, .S, .UL, .F, .DL] 200 (2 + 2 + 5) 2
        (indications 0 [.DL, .S, .UL, .F, .DL] st 200) :=
  slot_indications (Or.inl (by decide)) (by decide) (by decide)

end Ns3.Nr.Phy
