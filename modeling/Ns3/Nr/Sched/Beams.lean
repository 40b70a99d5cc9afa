import Mathlib.Algebra.Order.Ring.Int
import Ns3.Lib.Double
import Ns3.Lib.Share
import Ns3.Nr.Alloc

/-!
# UEs grouped by beam

The UEs with data are grouped by the beam that serves them. `GetSymPerBeam` splits the
symbols among the beams in proportion to their data and hands out the rest one by one
(`sum_getSymPerBeam`), and a UE that has an allocation already is taken out of its beam.
-/

namespace Ns3.Nr.Sched

open Lib

/-- `ActiveUeMap`: the UEs with data by beam, each with the size of its buffer. -/
abbrev BeamMap (U : Type) := List (Nat × List (U × Nat))

/-- The UEs that have an allocation are taken out. -/
def removeScheduled {U : Type} (rnti : U → Nat) (allocs : List VarTtiAllocInfo)
    (active : BeamMap U) : BeamMap U :=
  allocs.foldl (fun active alloc =>
    active.map fun el => (el.1, el.2.eraseP fun ue => rnti ue.1 = alloc.dci.rnti)) active

theorem mem_removeScheduled {U : Type} {rnti : U → Nat} {allocs : List VarTtiAllocInfo}
    {active : BeamMap U} {P : U × Nat → Prop} (h : ∀ el ∈ active, ∀ ue ∈ el.2, P ue) :
    ∀ el ∈ removeScheduled rnti allocs active, ∀ ue ∈ el.2, P ue := by
  induction allocs generalizing active with
  | nil => exact h
  | cons alloc allocs ih =>
    rw [removeScheduled, List.foldl_cons]
    apply ih
    intro el hel ue hue
    obtain ⟨el, hmem, rfl⟩ := List.mem_map.mp hel
    exact h el hmem ue (List.mem_of_mem_eraseP hue)

/-- `static_cast<uint32_t> (bufSizeBeam * (symAvail / bufTotal))` in double precision. -/
def symForBeam (symAvail bufTotal bufSizeBeam : Nat) : Nat :=
  ⌊roundDouble (bufSizeBeam * roundDouble (symAvail / bufTotal))⌋₊

def bufSizes {U : Type} (ues : List (U × Nat)) : List Nat := ues.map Prod.snd

/-- `GetSymPerBeam`, in the order of the beams. The sum of all sizes is a `double`, in which
it is exact; the sum of a beam is a `uint32_t`. -/
def getSymPerBeam {U : Type} (minBeam : MinChoice) (symAvail : Nat) (active : BeamMap U) :
    List Nat :=
  let bufTotal := (active.map fun el => (bufSizes el.2).sum).sum
  let syms := active.map fun el => symForBeam symAvail bufTotal ((bufSizes el.2).sum % 2 ^ 32)
  let symUsed := syms.foldl (fun used sym => (used + sym) % 256) 0
  raiseMin minBeam ((symAvail - symUsed) % 256) syms

/-! ## The symbols of the beams -/

/-- The rounding error of a share, as a factor. -/
def shareError : ℚ := (1 + 1 / 2 ^ 53) ^ 2

theorem symForBeam_le (symAvail bufTotal buf : Nat) :
    (symForBeam symAvail bufTotal buf : ℚ) ≤ buf * (symAvail / bufTotal) * shareError := by
  have hnonneg : (0 : ℚ) ≤ symAvail / bufTotal := by positivity
  have hround := roundDouble_nonneg hnonneg
  have hprod : (0 : ℚ) ≤ buf * roundDouble (symAvail / bufTotal) := by positivity
  calc (symForBeam symAvail bufTotal buf : ℚ)
      ≤ roundDouble (buf * roundDouble (symAvail / bufTotal)) :=
        Nat.floor_le (roundDouble_nonneg hprod)
    _ ≤ buf * roundDouble (symAvail / bufTotal) * (1 + 1 / 2 ^ 53) := roundDouble_le hprod
    _ ≤ buf * (symAvail / bufTotal * (1 + 1 / 2 ^ 53)) * (1 + 1 / 2 ^ 53) := by
        have := roundDouble_le hnonneg
        gcongr
    _ = buf * (symAvail / bufTotal) * shareError := by
        rw [shareError]
        ring

theorem sum_symForBeam_le (symAvail bufTotal : Nat) (bufs : List Nat) :
    (((bufs.map (symForBeam symAvail bufTotal)).sum : Nat) : ℚ) ≤
      (bufs.sum : Nat) * (symAvail / bufTotal) * shareError := by
  induction bufs with
  | nil => simp
  | cons buf bufs ih =>
    have hbuf := symForBeam_le symAvail bufTotal buf
    rw [List.map_cons, List.sum_cons, List.sum_cons]
    rw [Nat.cast_add, Nat.cast_add, add_mul, add_mul]
    exact add_le_add hbuf ih

/-- The shares are within the available symbols. -/
theorem sum_symForBeam_le_symAvail {symAvail bufTotal : Nat} {bufs : List Nat}
    (hsym : symAvail < 256) (hbufs : bufs.sum ≤ bufTotal) :
    (bufs.map (symForBeam symAvail bufTotal)).sum ≤ symAvail := by
  have hsum := sum_symForBeam_le symAvail bufTotal bufs
  have hshare : ((bufs.sum : Nat) : ℚ) * (symAvail / bufTotal) ≤ symAvail := by
    rcases Nat.eq_zero_or_pos bufTotal with hzero | hpos
    · rw [hzero, Nat.cast_zero, div_zero, mul_zero]
      positivity
    · have hT : (0 : ℚ) < bufTotal := by exact_mod_cast hpos
      rw [← mul_div_assoc, div_le_iff₀ hT, mul_comm]
      have : ((bufs.sum : Nat) : ℚ) ≤ bufTotal := by exact_mod_cast hbufs
      gcongr
  have herror : (0 : ℚ) ≤ shareError := by
    rw [shareError]
    positivity
  have hA : (symAvail : ℚ) < 256 := by exact_mod_cast hsym
  have hlt : (((bufs.map (symForBeam symAvail bufTotal)).sum : Nat) : ℚ) < symAvail + 1 := by
    calc (((bufs.map (symForBeam symAvail bufTotal)).sum : Nat) : ℚ)
        ≤ symAvail * shareError := hsum.trans (mul_le_mul_of_nonneg_right hshare herror)
      _ < symAvail + 1 := by
          rw [shareError]
          have : (0 : ℚ) ≤ symAvail := by positivity
          nlinarith
  have : (bufs.map (symForBeam symAvail bufTotal)).sum < symAvail + 1 := by exact_mod_cast hlt
  omega

/-- A beam that is not the only one with data does not get all symbols at once. -/
theorem symForBeam_lt {symAvail bufTotal buf : Nat} (hpos : 0 < symAvail) (hbuf : buf < 2 ^ 32)
    (hlt : buf < bufTotal) : symForBeam symAvail bufTotal buf < symAvail := by
  have hle := symForBeam_le symAvail bufTotal buf
  have hT : (0 : ℚ) < bufTotal := by exact_mod_cast (Nat.zero_le buf).trans_lt hlt
  have hA : (0 : ℚ) < symAvail := by exact_mod_cast hpos
  have hshare : (buf : ℚ) * shareError < bufTotal := by
    have hb : (buf : ℚ) < 2 ^ 32 := by exact_mod_cast hbuf
    have hb0 : (0 : ℚ) ≤ buf := by positivity
    have hsucc : (buf : ℚ) + 1 ≤ bufTotal := by exact_mod_cast hlt
    rw [shareError]
    nlinarith
  have hreal : (symForBeam symAvail bufTotal buf : ℚ) < symAvail := by
    calc (symForBeam symAvail bufTotal buf : ℚ)
        ≤ buf * (symAvail / bufTotal) * shareError := hle
      _ = buf * shareError * symAvail / bufTotal := by ring
      _ < symAvail := by
          rw [div_lt_iff₀ hT, mul_comm]
          exact mul_lt_mul_of_pos_left hshare hA
  exact_mod_cast hreal

section SymPerBeam

variable {U : Type} {minBeam : MinChoice} {symAvail : Nat} {active : BeamMap U}

/-- The data of a beam. -/
def bufOfBeam (el : Nat × List (U × Nat)) : Nat := (bufSizes el.2).sum

/-- The shares before the rest is handed out. -/
def shares (symAvail : Nat) (active : BeamMap U) : List Nat :=
  (active.map fun el => bufOfBeam el % 2 ^ 32).map
    (symForBeam symAvail (active.map bufOfBeam).sum)

theorem sum_map_mod_le {α : Type} (f : α → Nat) (l : List α) (m : Nat) :
    (l.map fun a => f a % m).sum ≤ (l.map f).sum := by
  induction l with
  | nil => exact le_rfl
  | cons a l ih =>
    rw [List.map_cons, List.map_cons, List.sum_cons, List.sum_cons]
    exact Nat.add_le_add (Nat.mod_le _ _) ih

theorem sum_shares_le (active : BeamMap U) (hsym : symAvail < 256) :
    (shares symAvail active).sum ≤ symAvail :=
  sum_symForBeam_le_symAvail hsym (sum_map_mod_le _ _ _)

theorem getSymPerBeam_eq (minBeam : MinChoice) (active : BeamMap U) (hsym : symAvail < 256) :
    getSymPerBeam minBeam symAvail active =
      raiseMin minBeam (symAvail - (shares symAvail active).sum) (shares symAvail active) := by
  have hsyms : (active.map fun el => symForBeam symAvail
      (active.map fun el => (bufSizes el.2).sum).sum ((bufSizes el.2).sum % 2 ^ 32)) =
      shares symAvail active := by
    rw [shares, List.map_map]
    rfl
  have hle := sum_shares_le active hsym
  have hused := foldl_add_mod 256 (shares symAvail active) 0
  rw [Nat.zero_mod, Nat.zero_add, Nat.mod_eq_of_lt (by omega)] at hused
  unfold getSymPerBeam
  simp only
  rw [hsyms, hused, Nat.mod_eq_of_lt (by omega)]

theorem length_getSymPerBeam (minBeam : MinChoice) (active : BeamMap U)
    (hsym : symAvail < 256) :
    (getSymPerBeam minBeam symAvail active).length = active.length := by
  rw [getSymPerBeam_eq minBeam active hsym, length_raiseMin, shares, List.length_map,
    List.length_map]

theorem shares_ne_nil (symAvail : Nat) (hne : active ≠ []) : shares symAvail active ≠ [] := by
  rw [shares, ne_eq, List.map_eq_nil_iff, List.map_eq_nil_iff]
  exact hne

/-- All symbols are given to beams. -/
theorem sum_getSymPerBeam (minBeam : MinChoice) (hsym : symAvail < 256) (hne : active ≠ []) :
    (getSymPerBeam minBeam symAvail active).sum = symAvail := by
  have hle := sum_shares_le active hsym
  rw [getSymPerBeam_eq minBeam active hsym, sum_raiseMin _ (shares_ne_nil symAvail hne)]
  omega

theorem sum_getSymPerBeam_le (minBeam : MinChoice) (active : BeamMap U) (hsym : symAvail < 256) :
    (getSymPerBeam minBeam symAvail active).sum ≤ symAvail := by
  by_cases hne : active = []
  · have hlen := length_getSymPerBeam minBeam active hsym
    rw [hne, List.length_nil, List.length_eq_zero_iff] at hlen
    rw [hne, hlen]
    exact Nat.zero_le _
  · exact (sum_getSymPerBeam minBeam hsym hne).le

/-- When every beam has data, more than one beam gets symbols as soon as there are two beams and
two symbols. -/
theorem positives_getSymPerBeam_le_one_iff (hsym : symAvail < 256) (hne : active ≠ [])
    (hdata : ∀ el ∈ active, 0 < bufOfBeam el) :
    positives (getSymPerBeam minBeam symAvail active) ≤ 1 ↔ active.length ≤ 1 ∨ symAvail ≤ 1 := by
  have hlen := length_getSymPerBeam minBeam active hsym
  have hsum := sum_getSymPerBeam minBeam hsym hne
  constructor
  · intro hone
    by_contra hnot
    rw [not_or] at hnot
    rw [getSymPerBeam_eq minBeam active hsym] at hone
    have hraise := positives_raiseMin (c := minBeam)
      (symAvail - (shares symAvail active).sum) (shares_ne_nil symAvail hne)
    have hlen' : (shares symAvail active).length = active.length := by
      rw [shares, List.length_map, List.length_map]
    have hle := sum_shares_le active hsym
    -- no share is everything
    have hshare : ∀ x ∈ shares symAvail active, x < symAvail := by
      intro x hx
      obtain ⟨buf, hbuf, rfl⟩ := List.mem_map.mp hx
      obtain ⟨el, hel, rfl⟩ := List.mem_map.mp hbuf
      refine symForBeam_lt (by omega) (Nat.mod_lt _ (by norm_num)) ?_
      exact (Nat.mod_le _ _).trans_lt (lt_sum_of_mem hdata (by omega) hel)
    rcases Nat.lt_or_ge (symAvail - (shares symAvail active).sum) 2 with hrest | hrest
    · rcases Nat.eq_zero_or_pos (symAvail - (shares symAvail active).sum) with hzero | hpos
      · have htwo : ¬ positives (shares symAvail active) ≤ 1 := by
          intro hle'
          have := sum_lt_of_positives_le_one (by omega) hle' hshare
          omega
        omega
      · have := positives_pos_of_sum_pos (show 0 < (shares symAvail active).sum by omega)
        omega
    · omega
  · rintro (h | h)
    · exact List.countP_le_length.trans (hlen.trans_le h)
    · exact (positives_le_sum _).trans (hsum.trans_le h)

end SymPerBeam

end Ns3.Nr.Sched
