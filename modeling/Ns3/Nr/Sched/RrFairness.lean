import Ns3.Nr.Sched.OfdmaDlPlacement
import Mathlib.Algebra.BigOperators.Ring.List

/-!
# Round robin in the downlink

`NrMacSchedulerOfdmaRR` sorts the UEs of a beam by their RBGs before each step and gives the symbols
of the beam in one more RBG to the first UE whose transport block does not cover its buffer. A UE
that is covered once stays covered, so whatever the sizes of the blocks are, those that are never
covered share evenly (`rr_dl_fair`).
-/

namespace Ns3.Nr.Sched

open Lib

/-! ## Embedding -/

/-- `NrMacSchedulerUeInfoRR::CompareUeWeightsDl`. -/
def compareUeWeightsDl (lue rue : DlUeInfo × Nat) : Bool := decide (lue.1.dlRBG < rue.1.dlRBG)

/-- `NrMacSchedulerOfdmaRR`: `std::sort` leaves no UE behind one that it is less than. Its other
virtual functions do nothing. -/
structure RrDlConf extends DlOfdmaConf where
  not_pf : pf = false
  sorted : ∀ n ues, (sortUes n ues).Pairwise fun lue rue => compareUeWeightsDl rue lue = false

/-- A UE with one stream and no resources. -/
structure DlUeInfo.SingleStream (ue : DlUeInfo) : Prop where
  ri : ue.ri = .one
  dlMcs : ue.dlMcs.length = 1
  dlTbSize : ue.dlTbSize.length = 1
  dlRBG : ue.dlRBG = 0

/-- The UE after `k` steps, in which it got the symbols of the beam in one RBG each. -/
def DlUeInfo.steps (c : DlConf) (beamSym k : Nat) (ue : DlUeInfo) : DlUeInfo :=
  (DlUeInfo.giveRbg c beamSym)^[k] ue

/-! ## Steps of a UE -/

section Steps

variable {c : DlConf} {beamSym k : Nat} {ue : DlUeInfo}

theorem steps_succ (c : DlConf) (beamSym k : Nat) (ue : DlUeInfo) :
    ue.steps c beamSym (k + 1) = (ue.steps c beamSym k).giveRbg c beamSym :=
  Function.iterate_succ_apply' _ _ _

theorem dlRBG_steps (c : DlConf) (beamSym k : Nat) (ue : DlUeInfo) :
    (ue.steps c beamSym k).dlRBG = ue.dlRBG + k * beamSym := by
  induction k with
  | zero => simp [DlUeInfo.steps]
  | succ k ih =>
    rw [steps_succ, Nat.succ_mul, ← Nat.add_assoc, ← ih]
    rfl

theorem rnti_steps (c : DlConf) (beamSym k : Nat) (ue : DlUeInfo) :
    (ue.steps c beamSym k).rnti = ue.rnti := by
  induction k with
  | zero => rfl
  | succ k ih =>
    rw [steps_succ, ← ih]
    rfl

/-- A UE with one stream keeps one, and its block is that of its RBGs. -/
theorem steps_singleStream (h : ue.SingleStream) (hsym : 0 < beamSym) (k : Nat) :
    (ue.steps c beamSym k).ri = .one ∧ (ue.steps c beamSym k).dlMcs = ue.dlMcs ∧
      (ue.steps c beamSym k).dlTbSize =
        if k = 0 then ue.dlTbSize
        else [c.dlTbs (ue.dlMcs.getD 0 0) (k * beamSym * c.numRbPerRbg)] := by
  induction k with
  | zero => exact ⟨h.ri, rfl, rfl⟩
  | succ k ih =>
    obtain ⟨hri, hmcs, htb⟩ := ih
    have hrbg := dlRBG_steps c beamSym k ue
    have hlen : (ue.steps c beamSym k).dlTbSize.length = 1 := by
      rw [htb]
      split
      · exact h.dlTbSize
      · rfl
    rw [steps_succ]
    refine ⟨hri, hmcs, ?_⟩
    have hpos : k * beamSym + beamSym ≠ 0 := by omega
    obtain ⟨t, ht⟩ := List.length_eq_one_iff.mp hlen
    rw [if_neg (Nat.succ_ne_zero k), Nat.succ_mul]
    simp only [DlUeInfo.giveRbg, DlUeInfo.updateDlMetric, hri, hmcs, h.dlMcs, ht,
      hrbg, h.dlRBG, Nat.zero_add]
    rw [if_neg hpos]
    rfl

end Steps

/-! ## The steps of a beam -/

/-- A UE of the sorted vector has taken so many steps from the one with its RNTI, and before the
last of them its buffer was not covered. -/
def Stepped (c : DlConf) (beamSym : Nat) (before : List (DlUeInfo × Nat)) (ue : DlUeInfo × Nat) :
    Prop :=
  ∃ ue₀ ∈ before, ∃ k, ue = (ue₀.1.steps c beamSym k, ue₀.2) ∧
    (0 < k → unmetDl (ue₀.1.steps c beamSym (k - 1), ue₀.2) = true)

section Beam

variable {c : RrDlConf} {beamSym n : Nat} {ues : List (DlUeInfo × Nat)} {ue : DlUeInfo × Nat}

theorem miss_rr (ue : DlUeInfo × Nat) :
    (dlRbgService c.toDlOfdmaConf beamSym).miss ue = ue := by
  change c.notAssignedDlResources ue = ue
  rw [DlConf.notAssignedDlResources, c.not_pf]
  rfl

theorem Stepped.pass (hues : ∀ ue ∈ ues, ue.1.SingleStream) (hsym : 0 < beamSym)
    (h : Stepped c.toDlConf beamSym ues ue) : passDl ue = ue := by
  obtain ⟨ue₀, hue₀, k, rfl, -⟩ := h
  have htb := (steps_singleStream (c := c.toDlConf) (hues ue₀ hue₀) hsym k).2.2
  have hlen : (ue₀.1.steps c.toDlConf beamSym k).dlTbSize.length = 1 := by
    rw [htb]
    split
    · exact (hues ue₀ hue₀).dlTbSize
    · rfl
  unfold passDl
  rw [if_neg (by simp [hlen])]

theorem Stepped.give (h : Stepped c.toDlConf beamSym ues ue) (hunmet : unmetDl ue = true) :
    Stepped c.toDlConf beamSym ues ((dlRbgService c.toDlOfdmaConf beamSym).give ue) := by
  obtain ⟨ue₀, hue₀, k, rfl, -⟩ := h
  refine ⟨ue₀, hue₀, k + 1, ?_, fun _ => hunmet⟩
  rw [steps_succ]
  rfl

theorem Stepped.start (hue : ue ∈ ues) : Stepped c.toDlConf beamSym ues ue :=
  ⟨ue, hue, 0, rfl, fun h => absurd h (Nat.lt_irrefl 0)⟩

theorem stepped_run (hues : ∀ ue ∈ ues, ue.1.SingleStream) (hsym : 0 < beamSym) (n : Nat) :
    ∀ ue ∈ (dlRbgService c.toDlOfdmaConf beamSym).run n ues, Stepped c.toDlConf beamSym ues ue := by
  apply Service.run_forall_of_unmet
  · exact fun ue h hunmet => h.give hunmet
  · intro ue h _
    have hpass : (dlRbgService c.toDlOfdmaConf beamSym).pass ue = ue := h.pass hues hsym
    rw [hpass]
    exact h
  · intro ue h
    rw [miss_rr]
    exact h
  · exact fun ue hue => .start hue

theorem dlUnits_give (hsym : 0 < beamSym) (ue : DlUeInfo × Nat) :
    dlUnits beamSym ((dlRbgService c.toDlOfdmaConf beamSym).give ue) = dlUnits beamSym ue + 1 :=
  Nat.add_div_right _ hsym

/-- The units of the UEs that are not covered are even. -/
theorem even_rr (hues : ∀ ue ∈ ues, ue.1.SingleStream) (hsym : 0 < beamSym) (n : Nat) :
    (dlRbgService c.toDlOfdmaConf beamSym).Even (dlUnits beamSym)
      ((dlRbgService c.toDlOfdmaConf beamSym).run n ues) := by
  apply Service.even_run (P := Stepped c.toDlConf beamSym ues)
  · exact fun ue h => h.pass hues hsym
  · exact miss_rr
  · exact fun ue h hunmet => h.give hunmet
  · exact dlUnits_give hsym
  · intro n l
    apply (c.sorted n l).imp
    intro lue rue hle
    apply Nat.div_le_div_right
    simpa [compareUeWeightsDl] using hle
  · exact fun ue hue => .start hue
  · intro a ha b hb _ _
    rw [dlUnits, (hues a ha).dlRBG, Nat.zero_div]
    exact Nat.zero_le _

/-- The loop ends when all UEs are covered or there are no RBGs left. -/
theorem met_or_used_rr (hues : ∀ ue ∈ ues, ue.1.SingleStream) (hsym : 0 < beamSym) (n : Nat) :
    (∀ ue ∈ (dlRbgService c.toDlOfdmaConf beamSym).run n ues, unmetDl ue = false) ∨
      (((dlRbgService c.toDlOfdmaConf beamSym).run n ues).map (dlUnits beamSym)).sum = n := by
  have hzero : (ues.map (dlUnits beamSym)).sum = 0 := by
    rw [List.sum_eq_zero_iff]
    intro x hx
    obtain ⟨ue, hue, rfl⟩ := List.mem_map.mp hx
    rw [dlUnits, (hues ue hue).dlRBG, Nat.zero_div]
  have hrun := Service.met_or_sum_run (s := dlRbgService c.toDlOfdmaConf beamSym)
    (P := Stepped c.toDlConf beamSym ues) (fun ue h => h.pass hues hsym) miss_rr
    (fun ue h hunmet => h.give hunmet) (dlUnits_give hsym)
    (fun ue => congrArg (· / beamSym) (passDl_dlRBG ue)) n fun ue hue => .start hue
  rwa [hzero, Nat.zero_add] at hrun

/-- The UEs of the beam in their own order. -/
theorem stepped_find (hues : ∀ ue ∈ ues, ue.1.SingleStream) (hsym : 0 < beamSym) (n : Nat)
    (hnodup : (ues.map fun ue => ue.1.rnti).Nodup) (hue : ue ∈ ues) :
    ∃ k, (((dlRbgService c.toDlOfdmaConf beamSym).run n ues).find?
        fun u => u.1.rnti = ue.1.rnti).getD ue = (ue.1.steps c.toDlConf beamSym k, ue.2) ∧
      (0 < k → unmetDl (ue.1.steps c.toDlConf beamSym (k - 1), ue.2) = true) := by
  cases hfind : ((dlRbgService c.toDlOfdmaConf beamSym).run n ues).find?
      (fun u => u.1.rnti = ue.1.rnti) with
  | none => exact ⟨0, rfl, fun h => absurd h (Nat.lt_irrefl 0)⟩
  | some u =>
    obtain ⟨ue₀, hue₀, k, rfl, hunmet⟩ :=
      stepped_run hues hsym n u (List.mem_of_find?_eq_some hfind)
    have hrnti : ue₀.1.rnti = ue.1.rnti := by
      have hfound := List.find?_some hfind
      rw [decide_eq_true_eq] at hfound
      exact (rnti_steps c.toDlConf beamSym k ue₀.1).symm.trans hfound
    obtain rfl : ue₀ = ue := List.inj_on_of_nodup_map hnodup hue₀ hue hrnti
    exact ⟨k, rfl, hunmet⟩

end Beam

/-! ## Fairness -/

/-- The UEs of a beam with `beamSym` symbols before and after the assignment. -/
structure RrFair (c : DlConf) (beamSym : Nat) (before after : List (DlUeInfo × Nat)) : Prop where
  length_eq : after.length = before.length
  steps : ∀ i (hi : i < before.length) (hi' : i < after.length), ∃ k,
    after[i] = (before[i].1.steps c beamSym k, before[i].2) ∧ after[i].1.dlRBG = k * beamSym ∧
      (0 < k → unmetDl (before[i].1.steps c beamSym (k - 1), before[i].2) = true)
  even : ∀ a ∈ after, ∀ b ∈ after, unmetDl a = true → unmetDl b = true →
    a.1.dlRBG ≤ b.1.dlRBG + beamSym
  complete : (∀ ue ∈ after, unmetDl ue = false) ∨
    (after.map fun ue => ue.1.dlRBG).sum = c.dlMask.count 1 * beamSym

/-- Each beam with symbols is shared fairly, whatever the sizes of the transport blocks are and
however `std::sort` orders UEs with the same number of RBGs. -/
theorem rr_dl_fair (c : RrDlConf) (symAvail : Nat) (active : BeamMap DlUeInfo)
    (hues : ∀ el ∈ active, ∀ ue ∈ el.2, ue.1.SingleStream)
    (hnodup : ∀ el ∈ active, (el.2.map fun ue => ue.1.rnti).Nodup) (j : Nat)
    (el : Nat × List (DlUeInfo × Nat)) (beam : DlBeam) (hel : active[j]? = some el)
    (hbeam : (ofdmaAssignDLRBG c.toDlOfdmaConf symAvail active)[j]? = some beam)
    (hsym : 0 < beam.sym) : RrFair c.toDlConf beam.sym el.2 beam.ues := by
  have hmem := List.mem_of_getElem? hel
  have hsingle := hues el hmem
  unfold ofdmaAssignDLRBG at hbeam
  rw [List.getElem?_zipWith] at hbeam
  cases hb : (getSymPerBeam c.minBeam symAvail active)[j]? with
  | none => simp [hel, hb] at hbeam
  | some beamSym =>
    simp only [hel, hb, Option.some.injEq] at hbeam
    subst hbeam
    change 0 < beamSym at hsym
    have hperm := ofdmaUes_perm c.toDlOfdmaConf beamSym (c.dlMask.count 1) (hnodup el hmem)
    have hmultiple : ∀ ue ∈ (dlRbgService c.toDlOfdmaConf beamSym).run (c.dlMask.count 1) el.2,
        ue.1.dlRBG = dlUnits beamSym ue * beamSym := by
      intro ue hue
      have hdvd := dlRbgService_multiple c.toDlOfdmaConf beamSym _
        (fun ue hue => (hsingle ue hue).dlRBG) ue hue
      exact (Nat.div_mul_cancel hdvd).symm
    constructor
    · exact List.length_map _
    · intro i hi hi'
      obtain ⟨k, heq, hunmet⟩ := stepped_find (c := c) hsingle hsym (c.dlMask.count 1)
        (hnodup el hmem) (List.getElem_mem hi)
      have hget := (List.getElem_map _ (h := hi')).trans heq
      refine ⟨k, hget, ?_, hunmet⟩
      apply (congrArg (fun ue : DlUeInfo × Nat => ue.1.dlRBG) hget).trans
      simp only [dlRBG_steps, (hsingle _ (List.getElem_mem hi)).dlRBG, Nat.zero_add]
    · intro a ha b hb hua hub
      have hra := hperm.mem_iff.mp ha
      have hrb := hperm.mem_iff.mp hb
      have hle := even_rr hsingle hsym _ a hra b hrb hua hub
      rw [hmultiple a hra, hmultiple b hrb, ← Nat.succ_mul]
      exact Nat.mul_le_mul_right beamSym hle
    · rcases met_or_used_rr (c := c) hsingle hsym (c.dlMask.count 1) with hmet | hused
      · exact Or.inl fun ue hue => hmet ue (hperm.mem_iff.mp hue)
      · refine Or.inr ?_
        rw [(hperm.map fun ue => ue.1.dlRBG).sum_eq, List.map_congr_left hmultiple,
          List.sum_map_mul_right, hused]

/-- A stable sort, and transport blocks that do not grow with the RBGs. -/
def rrConf : RrDlConf where
  bandwidthInRbg := 5
  numRbPerRbg := 1
  dlNotchedRbgMask := [1, 0, 1, 1, 0]
  dlTbs _ rbs := if rbs = 2 then 30 else 20
  minBeam := MinChoice.first
  not_pf := rfl
  sortUes _ ues := ues.mergeSort fun lue rue => lue.1.dlRBG ≤ rue.1.dlRBG
  sortUes_perm _ ues := List.mergeSort_perm ues _
  sorted n ues := by
    have hsorted := @List.pairwise_mergeSort _
      (fun lue rue : DlUeInfo × Nat => decide (lue.1.dlRBG ≤ rue.1.dlRBG)) (by simp; omega)
      (by simp; omega) ues
    apply hsorted.imp
    simp [compareUeWeightsDl]

/-- Two UEs in one beam, of which the second is covered after its first step. -/
def rrUes : List (DlUeInfo × Nat) := [({ rnti := 1 }, 100), ({ rnti := 2 }, 25)]

theorem rr_dl_fair_two :
    ∃ beam, (ofdmaAssignDLRBG rrConf.toDlOfdmaConf 2 [(0, rrUes)])[0]? = some beam ∧
      RrFair rrConf.toDlConf 2 rrUes beam.ues := by
  have hsyms : getSymPerBeam rrConf.minBeam 2 [(0, rrUes)] = [2] := by decide +kernel
  have hbeam : ∃ ues, (ofdmaAssignDLRBG rrConf.toDlOfdmaConf 2 [(0, rrUes)])[0]? =
      some ⟨0, 2, ues⟩ := by
    unfold ofdmaAssignDLRBG
    rw [hsyms]
    exact ⟨_, rfl⟩
  obtain ⟨ues, hues⟩ := hbeam
  refine ⟨_, hues, rr_dl_fair rrConf 2 [(0, rrUes)] ?_ ?_ 0 _ _ rfl hues Nat.zero_lt_two⟩
  · intro el hel ue hue
    obtain rfl := List.mem_singleton.mp hel
    simp only [rrUes, List.mem_cons, List.not_mem_nil, or_false] at hue
    rcases hue with rfl | rfl
    · exact ⟨rfl, rfl, rfl, rfl⟩
    · exact ⟨rfl, rfl, rfl, rfl⟩
  · simp [rrUes]

end Ns3.Nr.Sched
