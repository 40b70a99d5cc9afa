import Ns3.Lib.Groups
import Ns3.Nr.Sched.Beams
import Ns3.Nr.Sched.HarqVector

/-!
# The UEs with data

`ComputeActiveUe` lists the UEs that have data and room for a HARQ process by their beam. No beam
of the list is empty (`computeActiveUe_grouped`). Then the UEs that have an allocation are taken
out, but the beams stay, and the data phase looks at the number of beams only.

`GetSymPerBeam` divides by the data of all UEs. What it needs (`DemandDefined`) holds exactly when
every beam keeps a UE (`demandDefined_iff`).
-/

namespace Ns3.Nr.Sched

open Lib

/-! ## Embedding -/

/-- The part of `NrMacSchedulerUeInfo` that decides whether a UE is active in one direction. `ue`
is the part that the assignment of resources uses; `lcgSizes` are the sizes of the LCGs. -/
structure SchedUe (U : Type) where
  ue : U
  beamConfId : Nat
  lcgSizes : List Nat
  harq : HarqVector

variable {U : Type}

/-- `totBuffer`, a `uint32_t`. -/
def SchedUe.totBuffer (ue : SchedUe U) : Nat :=
  ue.lcgSizes.foldl (fun tot size => (tot + size) % 2 ^ 32) 0

def SchedUe.active (ue : SchedUe U) : Bool := 0 < ue.totBuffer && ue.harq.canInsert

/-- `ComputeActiveUe`. -/
def computeActiveUe (ueMap : List (SchedUe U)) : BeamMap U :=
  ueMap.foldl (fun active ue =>
    if ue.active then insertGroup active ue.beamConfId (ue.ue, ue.totBuffer) else active) []

/-- `bufTotal`. -/
def bufTotal (active : BeamMap U) : Nat := (active.map bufOfBeam).sum

/-- `GetSymPerBeam` in exact arithmetic. There is no result when it divides by 0. -/
def getSymPerBeamExact (minBeam : MinChoice) (symAvail : Nat) (active : BeamMap U) :
    Option (List Nat) :=
  if bufTotal active = 0 then none
  else
    let syms := active.map fun el =>
      ⌊((bufOfBeam el % 2 ^ 32 : Nat) : ℚ) * (symAvail / bufTotal active)⌋₊
    let symUsed := syms.foldl (fun used sym => (used + sym) % 256) 0
    some (raiseMin minBeam ((symAvail - symUsed) % 256) syms)

/-- What the assignment of resources relies on: there is a demand to divide by, no beam is empty,
and all symbols are given to beams. -/
structure DemandDefined (minBeam : MinChoice) (symAvail : Nat) (active : BeamMap U) : Prop where
  bufTotal_pos : 0 < bufTotal active
  ues_ne_nil : ∀ el ∈ active, el.2 ≠ []
  sum_eq : ∃ syms, getSymPerBeamExact minBeam symAvail active = some syms ∧ syms.sum = symAvail

/-- Every beam with an active UE has one with another RNTI than the `served` ones. -/
def KeepsUes (rnti : U → Nat) (served : List Nat) (ueMap : List (SchedUe U)) : Prop :=
  ∀ ue ∈ ueMap, ue.active → ∃ other ∈ ueMap,
    other.active ∧ other.beamConfId = ue.beamConfId ∧ rnti other.ue ∉ served

/-! ## Exact shares -/

section Exact

variable {minBeam : MinChoice} {symAvail : Nat} {active : BeamMap U}

/-- The exact shares are within the available symbols. -/
theorem sum_floor_le (symAvail : Nat) {bufs : List Nat} {total : Nat} (htotal : 0 < total)
    (hbufs : bufs.sum ≤ total) :
    (bufs.map fun buf : Nat => ⌊(buf : ℚ) * (symAvail / total)⌋₊).sum ≤ symAvail := by
  have hT : (0 : ℚ) < total := by exact_mod_cast htotal
  have hsum : ((bufs.map fun buf : Nat => ⌊(buf : ℚ) * (symAvail / total)⌋₊).sum : ℚ) ≤
      bufs.sum * (symAvail / total) := by
    clear hbufs
    induction bufs with
    | nil => simp
    | cons buf bufs ih =>
      have hfloor : ((⌊(buf : ℚ) * (symAvail / total)⌋₊ : Nat) : ℚ) ≤ buf * (symAvail / total) :=
        Nat.floor_le (by positivity)
      rw [List.map_cons, List.sum_cons, List.sum_cons, Nat.cast_add, Nat.cast_add, add_mul]
      exact add_le_add hfloor ih
  have hshare : (bufs.sum : ℚ) * (symAvail / total) ≤ symAvail := by
    rw [← mul_div_assoc, div_le_iff₀ hT, mul_comm]
    have : (bufs.sum : ℚ) ≤ total := by exact_mod_cast hbufs
    gcongr
  exact_mod_cast hsum.trans hshare

/-- With a demand, all symbols are given to beams. -/
theorem sum_getSymPerBeamExact (hsym : symAvail < 256) (hpos : 0 < bufTotal active) :
    ∃ syms, getSymPerBeamExact minBeam symAvail active = some syms ∧ syms.sum = symAvail := by
  unfold getSymPerBeamExact
  rw [if_neg hpos.ne']
  refine ⟨_, rfl, ?_⟩
  have hle := sum_floor_le symAvail hpos (sum_map_mod_le bufOfBeam active (2 ^ 32))
  rw [List.map_map] at hle
  generalize hsyms : (active.map fun el =>
    ⌊((bufOfBeam el % 2 ^ 32 : Nat) : ℚ) * (symAvail / bufTotal active)⌋₊) = syms
  have hsum : syms.sum ≤ symAvail := hsyms ▸ hle
  have hused := foldl_add_mod 256 syms 0
  rw [Nat.zero_mod, Nat.zero_add, Nat.mod_eq_of_lt (by omega)] at hused
  have hne : syms ≠ [] := by
    rintro rfl
    rw [List.map_eq_nil_iff] at hsyms
    rw [hsyms] at hpos
    exact absurd hpos (lt_irrefl 0)
  rw [hused, sum_raiseMin _ hne, Nat.mod_eq_of_lt (by omega)]
  omega

end Exact

/-! ## The UEs of a beam -/

section Active

variable {rnti : U → Nat} {ueMap : List (SchedUe U)} {active : BeamMap U}
  {allocs : List VarTtiAllocInfo} {served : List Nat}

theorem computeActiveUe_grouped (ueMap : List (SchedUe U)) :
    Grouped SchedUe.beamConfId (fun ue => (ue.ue, ue.totBuffer)) (ueMap.filter SchedUe.active)
      (computeActiveUe ueMap) := by
  have h := grouped_foldl SchedUe.beamConfId (fun ue : SchedUe U => (ue.ue, ue.totBuffer))
    (ueMap.filter SchedUe.active)
  rw [List.foldl_filter] at h
  exact h

/-- With different RNTIs, a beam keeps the UEs that have no allocation. -/
theorem removeScheduled_eq (h : ∀ el ∈ active, (el.2.map fun ue => rnti ue.1).Nodup)
    (allocs : List VarTtiAllocInfo) :
    removeScheduled rnti allocs active = active.map fun el =>
      (el.1, el.2.filter fun ue => rnti ue.1 ∉ allocs.map fun alloc => alloc.dci.rnti) := by
  induction allocs generalizing active with
  | nil =>
    change active = _
    rw [List.map_congr_left (g := id), List.map_id]
    intro el _
    simp
  | cons alloc allocs ih =>
    have herase : ∀ el ∈ active, (el.2.eraseP fun ue => rnti ue.1 = alloc.dci.rnti) =
        el.2.filter fun ue => rnti ue.1 ≠ alloc.dci.rnti :=
      fun el hel => eraseP_eq_filter (h el hel) _
    have hstep : (active.map fun el =>
        (el.1, el.2.eraseP fun ue => rnti ue.1 = alloc.dci.rnti)) = active.map fun el =>
        (el.1, el.2.filter fun ue => rnti ue.1 ≠ alloc.dci.rnti) :=
      List.map_congr_left fun el hel => by rw [herase el hel]
    rw [removeScheduled, List.foldl_cons, hstep]
    refine (ih ?_).trans ?_
    · intro el hel
      obtain ⟨el, hmem, rfl⟩ := List.mem_map.mp hel
      exact (h el hmem).sublist (List.filter_sublist.map _)
    · rw [List.map_map]
      refine List.map_congr_left fun el _ => ?_
      simp only [Function.comp_apply, List.filter_filter]
      congr 1
      refine List.filter_congr fun ue _ => ?_
      rw [List.map_cons, ← Bool.decide_and, decide_eq_decide, List.mem_cons, not_or, and_comm]

/-- A UE of a beam is one of the active UEs of the map. -/
theorem mem_beam_iff (hperm : active.Perm (computeActiveUe ueMap)) {el : Nat × List (U × Nat)}
    (hel : el ∈ active) {x : U × Nat} :
    x ∈ el.2 ↔ ∃ ue ∈ ueMap, ue.active ∧ ue.beamConfId = el.1 ∧ (ue.ue, ue.totBuffer) = x := by
  rw [((computeActiveUe_grouped ueMap).perm hperm).group el hel, List.mem_map]
  simp only [List.mem_filter, decide_eq_true_eq, and_assoc]

theorem removeScheduled_active (hnd : (ueMap.map fun ue => rnti ue.ue).Nodup)
    (hperm : active.Perm (computeActiveUe ueMap)) (allocs : List VarTtiAllocInfo) :
    removeScheduled rnti allocs active = active.map fun el =>
      (el.1, el.2.filter fun ue => rnti ue.1 ∉ allocs.map fun alloc => alloc.dci.rnti) := by
  apply removeScheduled_eq
  intro el hel
  apply ((computeActiveUe_grouped ueMap).perm hperm).nodup_group (f := fun x => rnti x.1) _ hel
  exact hnd.sublist (List.filter_sublist.map _)

/-- The demand is defined exactly when every beam keeps a UE. -/
theorem demandDefined_iff (minBeam : MinChoice) {symAvail : Nat}
    (hnd : (ueMap.map fun ue => rnti ue.ue).Nodup)
    (hperm : active.Perm (computeActiveUe ueMap)) (hsym : symAvail < 256)
    (hserved : ∀ n, (n ∈ allocs.map fun alloc => alloc.dci.rnti) ↔ n ∈ served)
    (hne : removeScheduled rnti allocs active ≠ []) :
    DemandDefined minBeam symAvail (removeScheduled rnti allocs active) ↔
      KeepsUes rnti served ueMap := by
  have hgrouped := (computeActiveUe_grouped ueMap).perm hperm
  rw [removeScheduled_active hnd hperm allocs] at hne ⊢
  constructor
  · intro h ue hue hact
    -- the beam of the UE
    obtain ⟨el, hel, hbeam⟩ := List.mem_map.mp
      (hgrouped.complete ue (List.mem_filter.mpr ⟨hue, hact⟩))
    obtain ⟨x, hx⟩ := List.exists_mem_of_ne_nil _ (h.ues_ne_nil _ (List.mem_map_of_mem hel))
    obtain ⟨hx, hfree⟩ := List.mem_filter.mp hx
    obtain ⟨other, hother, hact', hbeam', rfl⟩ := (mem_beam_iff hperm hel).mp hx
    refine ⟨other, hother, hact', hbeam'.trans hbeam, ?_⟩
    rw [← hserved]
    exact of_decide_eq_true hfree
  · intro h
    have hues : ∀ el ∈ active, ∃ x ∈ el.2,
        (rnti x.1 ∉ allocs.map fun alloc => alloc.dci.rnti) ∧ 0 < x.2 := by
      intro el hel
      obtain ⟨y, hy⟩ := List.exists_mem_of_ne_nil _ (hgrouped.ne_nil el hel)
      obtain ⟨ue, hue, hact, hbeam, -⟩ := (mem_beam_iff hperm hel).mp hy
      obtain ⟨other, hother, hact', hbeam', hfree⟩ := h ue hue hact
      have hmem := (mem_beam_iff hperm hel).mpr ⟨other, hother, hact', hbeam'.trans hbeam, rfl⟩
      refine ⟨_, hmem, fun hin => hfree ((hserved _).mp hin), ?_⟩
      rw [SchedUe.active, Bool.and_eq_true, decide_eq_true_eq] at hact'
      exact hact'.1
    have hmem : ∀ el ∈ active, ∃ x, 0 < x.2 ∧ x ∈ el.2.filter fun ue =>
        rnti ue.1 ∉ allocs.map fun alloc => alloc.dci.rnti := by
      intro el hel
      obtain ⟨x, hx, hfree, hpos⟩ := hues el hel
      exact ⟨x, hpos, List.mem_filter.mpr ⟨hx, decide_eq_true hfree⟩⟩
    have hpos : 0 < bufTotal (active.map fun el => (el.1, el.2.filter fun ue =>
        rnti ue.1 ∉ allocs.map fun alloc => alloc.dci.rnti)) := by
      obtain ⟨el', hel'⟩ := List.exists_mem_of_ne_nil _ hne
      obtain ⟨el, hel, rfl⟩ := List.mem_map.mp hel'
      obtain ⟨x, hx, hin⟩ := hmem el hel
      have hbeam := List.single_le_sum (fun _ _ => Nat.zero_le _) _
        (List.mem_map_of_mem (f := Prod.snd) hin)
      have htotal := List.single_le_sum (fun _ _ => Nat.zero_le _) _
        (List.mem_map_of_mem (f := bufOfBeam) hel')
      exact hx.trans_le (hbeam.trans htotal)
    refine ⟨hpos, ?_, sum_getSymPerBeamExact hsym hpos⟩
    intro el' hel'
    obtain ⟨el, hel, rfl⟩ := List.mem_map.mp hel'
    obtain ⟨x, -, hin⟩ := hmem el hel
    exact List.ne_nil_of_mem hin

end Active

end Ns3.Nr.Sched
