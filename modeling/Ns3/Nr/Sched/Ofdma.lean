import Ns3.Nr.Sched.UlData

/-!
# The OFDMA scheduler in the uplink

`NrMacSchedulerOfdma` splits the symbols among the beams by the sizes of their buffers
(`getSymPerBeam`) and, in the mode with `schOFDMA = 1`, the RBGs of a beam among its UEs
(`assignULRBG`). A DCI takes the next usable RBGs of the beam (`createUlDci`).

Within a beam this is collision free. Between beams it is not: `createUlDci` moves the
starting point forward when the bandwidth is used up, and `changeUlBeam` moves it back by
the symbols of the beam. `ofdma_collision_free_iff` shows that the DCIs are apart and in the
available symbols exactly when at most one beam with UEs is given symbols.
-/

namespace Ns3.Nr.Sched

open Lib

/-! ## Embedding -/

/-- `schOFDMA` is `m_schType_OFDMA`; `minBeam` is the beam with the fewest symbols that is met
first in the order of the `BeamSymbolMap`. `assignOther` stands for what `AssignULRBG` assigns in
the modes with another `schOFDMA` than 1, which have rules of their own. -/
structure OfdmaConf extends SchedConf where
  schOFDMA : Nat
  minBeam : MinChoice
  assignOther : Nat → ActiveUeMap → List AssignedBeam

/-- One RBG in all symbols of the beam for a UE. -/
def UeInfo.giveRbg (c : SchedConf) (beamSym : Nat) (ue : UeInfo) : UeInfo :=
  UeInfo.updateUlMetric c { ue with ulRBG := ue.ulRBG + beamSym, ulSym := beamSym % 256 }

/-- The RBGs of a beam go one by one to the first UE that needs more. -/
def rbgService (c : SchedConf) (beamSym : Nat) : Service (UeInfo × Nat) where
  unmet := unmetUl
  give ue := (ue.1.giveRbg c beamSym, ue.2)
  pass := id
  miss := c.notAssignedUlResources
  arrange _ := id
  arrange_perm _ _ := List.Perm.refl _

/-- `AssignULRBG`. -/
def assignULRBG (c : OfdmaConf) (symAvail : Nat) (activeUl : ActiveUeMap) : List AssignedBeam :=
  if c.schOFDMA = 1 then
    List.zipWith (fun el beamSym =>
      ⟨el.1, beamSym, (rbgService c.toSchedConf beamSym).run (c.ulMask.count 1) el.2⟩)
      activeUl (getSymPerBeam c.minBeam symAvail activeUl)
  else c.assignOther symAvail activeUl

/-- The loop over the mask in `CreateUlDci`, from the position `i` on: `num` RBGs from `rbg` on
are taken, the others are cleared. The result is the mask, what is left of `num`, and the last
RBG taken. -/
def placeRbgs (rbg : Nat) : (i num lastRbg : Nat) → List Nat → List Nat × Nat × Nat
  | _, num, lastRbg, [] => ([], num, lastRbg)
  | i, num, lastRbg, b :: mask =>
    if rbg ≤ i ∧ 0 < num ∧ b = 1 then
      let r := placeRbgs rbg (i + 1) (num - 1) i mask
      (1 :: r.1, r.2)
    else
      let r := placeRbgs rbg (i + 1) num lastRbg mask
      (0 :: r.1, r.2)

/-- `CreateUlDci` of the OFDMA scheduler (and `CreateUlCGConfig`, which is the same). -/
def ofdmaCreateUlDci (c : OfdmaConf) (spoint : PointInFTPlane) (ue : UeInfo) (_maxSym : Nat) :
    Option DciInfoElementTdma × PointInFTPlane :=
  let rbgNum := ue.ulRBG / ue.ulSym
  let spoint : PointInFTPlane :=
    if c.schOFDMA ≠ 1 ∧ c.bandwidthInRbg - spoint.rbg < rbgNum then
      ⟨0, (spoint.sym + 1) % 256⟩
    else spoint
  let r := placeRbgs spoint.rbg 0 rbgNum spoint.rbg c.ulMask
  let dci : DciInfoElementTdma :=
    { rnti := ue.rnti
      format := .UL
      symStart := spoint.sym
      numSym := ue.ulSym
      mcs := [ue.ulMcs]
      tbSize := [c.ulTbs ue.ulMcs (ue.ulRBG * c.numRbPerRbg)]
      ndi := [1]
      rv := [0]
      type := .DATA
      bwpIndex := c.bwpId
      rbgBitmask := r.1
      tpc := 1 }
  if r.2.2 + 1 = c.bandwidthInRbg then (some dci, ⟨0, (spoint.sym + ue.ulSym) % 256⟩)
  else (some dci, ⟨r.2.2 + 1, spoint.sym⟩)

/-- `ChangeUlBeam`; the symbol is a `uint8_t`. -/
def ofdmaChangeUlBeam (spoint : PointInFTPlane) (symOfBeam : Nat) : PointInFTPlane :=
  ⟨0, (spoint.sym + 256 - symOfBeam % 256) % 256⟩

def ofdmaUl (c : OfdmaConf) : UlScheduler where
  assignULRBG := assignULRBG c
  createUlDci := ofdmaCreateUlDci c
  changeUlBeam := ofdmaChangeUlBeam
  getScheduler := c.schOFDMA

/-! ## The mask of a DCI -/

/-- The usable RBGs from `rbg` on among those from the position `i` on. -/
def usableFrom (rbg : Nat) : (i : Nat) → List Nat → Nat
  | _, [] => 0
  | i, b :: mask => (if rbg ≤ i ∧ b = 1 then 1 else 0) + usableFrom rbg (i + 1) mask

theorem usableFrom_of_le {rbg rbg' i : Nat} (h : rbg ≤ i) (h' : rbg' ≤ i) (mask : List Nat) :
    usableFrom rbg i mask = usableFrom rbg' i mask := by
  induction mask generalizing i with
  | nil => rfl
  | cons b mask ih =>
    rw [usableFrom, usableFrom, ih (Nat.le_succ_of_le h) (Nat.le_succ_of_le h')]
    simp [h, h']

theorem usableFrom_zero (i : Nat) (mask : List Nat) : usableFrom 0 i mask = mask.count 1 := by
  induction mask generalizing i with
  | nil => rfl
  | cons b mask ih =>
    rw [usableFrom, ih, List.count_cons]
    simp [Nat.add_comm]

theorem usableFrom_end {rbg i : Nat} {mask : List Nat} (h : i + mask.length ≤ rbg) :
    usableFrom rbg i mask = 0 := by
  induction mask generalizing i with
  | nil => rfl
  | cons b mask ih =>
    rw [List.length_cons] at h
    rw [usableFrom, if_neg (by omega), ih (by omega)]

theorem placeRbgs_zero (rbg i lastRbg : Nat) (mask : List Nat) :
    placeRbgs rbg i 0 lastRbg mask = (List.replicate mask.length 0, 0, lastRbg) := by
  induction mask generalizing i with
  | nil => rfl
  | cons b mask ih =>
    rw [placeRbgs, if_neg (by omega), ih]
    rfl

/-- A DCI takes the usable RBGs from `rbg` up to some `l`, and what is behind `l` is left. -/
theorem placeRbgs_spec {rbg i num : Nat} (lastRbg : Nat) {mask : List Nat} (hpos : 0 < num)
    (hnum : num ≤ usableFrom rbg i mask) :
    ∃ m l, placeRbgs rbg i num lastRbg mask = (m, 0, l) ∧ rbg ≤ l ∧ i ≤ l ∧ l < i + mask.length ∧
      mask[l - i]? = some 1 ∧
      (∀ j : Nat, m[j]? = some 1 ↔ rbg ≤ i + j ∧ i + j ≤ l ∧ mask[j]? = some 1) ∧
      usableFrom (l + 1) i mask + num = usableFrom rbg i mask := by
  induction mask generalizing i num lastRbg with
  | nil =>
    rw [usableFrom] at hnum
    omega
  | cons b mask ih =>
    rw [usableFrom] at hnum
    rw [placeRbgs]
    by_cases htake : rbg ≤ i ∧ 0 < num ∧ b = 1
    · rw [if_pos htake]
      obtain ⟨hle, -, rfl⟩ := htake
      rw [if_pos ⟨hle, rfl⟩] at hnum
      rcases Nat.eq_zero_or_pos (num - 1) with hone | hmore
      · -- the last RBG
        rw [hone, placeRbgs_zero]
        refine ⟨_, i, rfl, hle, le_rfl, ?_, by rw [Nat.sub_self]; rfl, ?_, ?_⟩
        · rw [List.length_cons]
          omega
        · intro j
          cases j with
          | zero => simp [hle]
          | succ j =>
            rw [List.getElem?_cons_succ, List.getElem?_replicate]
            constructor
            · intro h
              split at h <;> cases h
            · rintro ⟨-, h, -⟩
              omega
        · rw [usableFrom, usableFrom, if_neg (by omega), if_pos ⟨hle, rfl⟩,
            usableFrom_of_le (le_refl (i + 1)) (Nat.le_succ_of_le hle)]
          omega
      · obtain ⟨m, l, heq, hrbg, hil, hlt, hlast, hmem, hrest⟩ := ih i hmore
          (show num - 1 ≤ usableFrom rbg (i + 1) mask by omega)
        refine ⟨1 :: m, l, by rw [heq], hrbg, by omega, ?_, ?_, ?_, ?_⟩
        · rw [List.length_cons]
          omega
        · rw [show l - i = l - (i + 1) + 1 by omega, List.getElem?_cons_succ, hlast]
        · intro j
          cases j with
          | zero =>
            simp only [List.getElem?_cons_zero, Nat.add_zero, and_true, true_iff]
            omega
          | succ j =>
            rw [List.getElem?_cons_succ, List.getElem?_cons_succ, hmem j]
            constructor <;> rintro ⟨h1, h2, h3⟩ <;> exact ⟨by omega, by omega, h3⟩
        · rw [usableFrom, usableFrom, if_neg (by omega), if_pos ⟨hle, rfl⟩]
          omega
    · rw [if_neg htake]
      have hskip : ¬ (rbg ≤ i ∧ b = 1) := fun h => htake ⟨h.1, hpos, h.2⟩
      rw [if_neg hskip] at hnum
      obtain ⟨m, l, heq, hrbg, hil, hlt, hlast, hmem, hrest⟩ := ih lastRbg hpos
        (show num ≤ usableFrom rbg (i + 1) mask by omega)
      refine ⟨0 :: m, l, by rw [heq], hrbg, by omega, ?_, ?_, ?_, ?_⟩
      · rw [List.length_cons]
        omega
      · rw [show l - i = l - (i + 1) + 1 by omega, List.getElem?_cons_succ, hlast]
      · intro j
        cases j with
        | zero =>
          constructor
          · intro h
            cases h
          · rintro ⟨h1, -, h3⟩
            exact absurd ⟨h1, Option.some.inj h3⟩ hskip
        | succ j =>
          rw [List.getElem?_cons_succ, List.getElem?_cons_succ, hmem j]
          constructor <;> rintro ⟨h1, h2, h3⟩ <;> exact ⟨by omega, by omega, h3⟩
      · rw [usableFrom, usableFrom, if_neg (by omega), if_neg hskip]
        omega

/-! ## One beam -/

/-- A UE of a beam with `b` symbols: its RBGs are multiples of them. -/
def BeamUe (b : Nat) (ue : UeInfo × Nat) : Prop :=
  b ∣ ue.1.ulRBG ∧ (ue.1.ulRBG ≠ 0 → ue.1.ulSym = b)

/-- The RBGs of a UE in each symbol. -/
def rbgsOf (b : Nat) (ue : UeInfo × Nat) : Nat := ue.1.ulRBG / b

theorem BeamUe.rbgsOf_eq_zero_iff {b : Nat} {ue : UeInfo × Nat} (h : BeamUe b ue) (hb : 0 < b) :
    rbgsOf b ue = 0 ↔ ue.1.ulRBG = 0 := by
  obtain ⟨k, hk⟩ := h.1
  rw [rbgsOf, hk, Nat.mul_div_cancel_left k hb, Nat.mul_eq_zero]
  omega

theorem UlBeamState.foldl_of_ulRBG_eq_zero (c : SchedConf) (s : UlScheduler) (b : Nat)
    (st : UlBeamState) {ues : List (UeInfo × Nat)} (h : ∀ ue ∈ ues, ue.1.ulRBG = 0) :
    ues.foldl (UlBeamState.step c s b) st = st := by
  induction ues with
  | nil => rfl
  | cons ue ues ih =>
    rw [List.foldl_cons, UlBeamState.step, if_pos (h ue List.mem_cons_self)]
    exact ih fun u hu => h u (List.mem_cons_of_mem _ hu)

/-- Allocations of one beam: all of them start at `sym` and have `b` symbols, their RBGs are
usable ones from `rbg` on, and no two share an RBG. -/
structure BeamPlaced (mask : List Nat) (b sym rbg : Nat) (allocs : List VarTtiAllocInfo) :
    Prop where
  sym : ∀ a ∈ allocs, a.dci.symStart = sym ∧ a.dci.numSym = b
  rows : ∀ a ∈ allocs, ∀ i ∈ maskRows a.dci.rbgBitmask, rbg ≤ i ∧ i ∈ maskRows mask
  apart : allocs.Pairwise fun a a' =>
    Disjoint (maskRows a.dci.rbgBitmask) (maskRows a'.dci.rbgBitmask)
  type : ∀ a ∈ allocs, a.dci.format = .UL ∧ a.dci.type = .DATA

/-- The symbols of a beam are counted when its first DCI is made. -/
def UlBeamState.Counted (b sym : Nat) (st : UlBeamState) : Prop :=
  if st.assigned then sym ∈ st.symbStartDci ∧ st.allocSym = b
  else st.symbStartDci = [] ∧ st.allocSym = 0

section Beam

variable {c : OfdmaConf} {b sym rbg : Nat}

/-- The DCI of a UE that has RBGs. -/
theorem ofdmaCreateUlDci_spec (sym maxSym : Nat) (hsch : c.schOFDMA = 1)
    (hmask : c.ulMask.length = c.bandwidthInRbg)
    (hb : 0 < b) {ue : UeInfo × Nat} (hue : BeamUe b ue) (hrbg : ue.1.ulRBG ≠ 0)
    (hfit : rbgsOf b ue ≤ usableFrom rbg 0 c.ulMask) :
    ∃ dci l, ofdmaCreateUlDci c ⟨rbg, sym⟩ ue.1 maxSym =
        (some dci, if l + 1 = c.bandwidthInRbg then ⟨0, (sym + b) % 256⟩ else ⟨l + 1, sym⟩) ∧
      dci.symStart = sym ∧ dci.numSym = b ∧ dci.format = .UL ∧ dci.type = .DATA ∧
      rbg ≤ l ∧ l < c.bandwidthInRbg ∧ l ∈ maskRows c.ulMask ∧
      (∀ i, i ∈ maskRows dci.rbgBitmask ↔ rbg ≤ i ∧ i ≤ l ∧ i ∈ maskRows c.ulMask) ∧
      usableFrom (l + 1) 0 c.ulMask + rbgsOf b ue = usableFrom rbg 0 c.ulMask := by
  have hpos : 0 < rbgsOf b ue :=
    Nat.pos_of_ne_zero fun h => hrbg ((hue.rbgsOf_eq_zero_iff hb).mp h)
  obtain ⟨m, l, hplace, hle, -, hlt, hlast, hmem, hrest⟩ := placeRbgs_spec rbg hpos hfit
  have hnum : ue.1.ulRBG / b = rbgsOf b ue := rfl
  have hstay : ¬ (c.schOFDMA ≠ 1 ∧ c.bandwidthInRbg - rbg < rbgsOf b ue) := fun h => h.1 hsch
  unfold ofdmaCreateUlDci
  simp only [hue.2 hrbg, hnum, if_neg hstay, hplace]
  refine ⟨_, l, (apply_ite _ _ _ _).symm, rfl, rfl, rfl, rfl, hle, ?_, hlast, ?_, hrest⟩
  · omega
  · intro i
    change m[i]? = some 1 ↔ _
    rw [hmem i, Nat.zero_add]
    rfl

/-- The smallest usable RBG from `rbg` on. -/
def FirstUsable (mask : List Nat) (rbg f : Nat) : Prop :=
  rbg ≤ f ∧ f ∈ maskRows mask ∧ ∀ i ∈ maskRows mask, rbg ≤ i → f ≤ i

/-- What the UEs of a beam that need `need` RBGs do to the variables of the loop. -/
structure BeamDone (mask : List Nat) (b sym rbg need : Nat) (st st' : UlBeamState)
    (allocs : List VarTtiAllocInfo) : Prop where
  allocated : st'.varTtiAllocInfo = allocs ++ st.varTtiAllocInfo
  placed : BeamPlaced mask b sym rbg allocs
  point : st'.spoint.sym = sym ∨ st'.spoint.sym = (sym + b) % 256
  counted : st'.Counted b sym
  assigned : st'.assigned = (st.assigned || decide (0 < need))
  first : 0 < need → ∀ f, FirstUsable mask rbg f → ∃ a ∈ allocs, f ∈ maskRows a.dci.rbgBitmask

theorem UlBeamState.Counted.push {st : UlBeamState} (h : st.Counted b sym)
    {dci : DciInfoElementTdma} (hsym : dci.symStart = sym) (hnum : dci.numSym = b)
    (spoint : PointInFTPlane) : (st.push dci spoint).Counted b sym := by
  rw [UlBeamState.Counted] at h ⊢
  rw [if_pos (show (st.push dci spoint).assigned = true from rfl)]
  refine ⟨hsym ▸ List.mem_cons_self, ?_⟩
  change (if st.symbStartDci.contains dci.symStart then st.allocSym
    else st.allocSym + dci.numSym) = b
  split at h
  · rw [hsym, if_pos (List.contains_iff_mem.mpr h.1), h.2]
  · rw [h.1, h.2, hnum]
    simp

theorem BeamDone.nil {mask : List Nat} {st : UlBeamState} (hpoint : st.spoint.sym = sym ∨
      st.spoint.sym = (sym + b) % 256) (h : st.Counted b sym) :
    BeamDone mask b sym rbg 0 st st [] where
  allocated := rfl
  placed := ⟨by simp, by simp, List.Pairwise.nil, by simp⟩
  point := hpoint
  counted := h
  assigned := by simp
  first h := absurd h (lt_irrefl 0)

/-- A DCI on the RBGs up to `l`, then the others behind it. -/
theorem BeamDone.cons {mask : List Nat} {need num l : Nat} {st st' : UlBeamState}
    {allocs : List VarTtiAllocInfo} {dci : DciInfoElementTdma} {spoint : PointInFTPlane}
    (h : BeamDone mask b sym (l + 1) need (st.push dci spoint) st' allocs)
    (hsym : dci.symStart = sym) (hnum : dci.numSym = b)
    (htype : dci.format = .UL ∧ dci.type = .DATA) (hle : rbg ≤ l) (hpos : 0 < num)
    (hlast : ∀ f, FirstUsable mask rbg f → f ≤ l)
    (hrows : ∀ i, i ∈ maskRows dci.rbgBitmask ↔ rbg ≤ i ∧ i ≤ l ∧ i ∈ maskRows mask) :
    BeamDone mask b sym rbg (num + need) st st' (allocs ++ [{ dci := dci }]) where
  allocated := by
    rw [h.allocated, List.append_assoc]
    rfl
  placed := by
    refine ⟨?_, ?_, ?_, ?_⟩
    · intro a ha
      rcases List.mem_append.mp ha with ha | ha
      · exact h.placed.sym a ha
      · obtain rfl := List.mem_singleton.mp ha
        exact ⟨hsym, hnum⟩
    · intro a ha i hi
      rcases List.mem_append.mp ha with ha | ha
      · obtain ⟨h1, h2⟩ := h.placed.rows a ha i hi
        exact ⟨by omega, h2⟩
      · obtain rfl := List.mem_singleton.mp ha
        obtain ⟨h1, -, h3⟩ := (hrows i).mp hi
        exact ⟨h1, h3⟩
    · refine List.pairwise_append.mpr ⟨h.placed.apart, List.pairwise_singleton _ _, ?_⟩
      intro a ha a' ha'
      obtain rfl := List.mem_singleton.mp ha'
      rw [Set.disjoint_left]
      intro i hi hi'
      have h1 := (h.placed.rows a ha i hi).1
      have h2 := ((hrows i).mp hi').2.1
      omega
    · intro a ha
      rcases List.mem_append.mp ha with ha | ha
      · exact h.placed.type a ha
      · obtain rfl := List.mem_singleton.mp ha
        exact htype
  point := h.point
  counted := h.counted
  assigned := by
    rw [h.assigned]
    have hp : 0 < num + need := by omega
    simp [UlBeamState.push, hp]
  first := by
    intro _ f hf
    exact ⟨_, List.mem_append_right _ (List.mem_singleton.mpr rfl),
      (hrows f).mpr ⟨hf.1, hlast f hf, hf.2.1⟩⟩

/-- The DCIs of a beam are placed side by side; if there is one, then one of them has the first
usable RBG. -/
theorem UlBeamState.foldl_step_done (hsch : c.schOFDMA = 1)
    (hmask : c.ulMask.length = c.bandwidthInRbg) (hb : 0 < b) {ues : List (UeInfo × Nat)}
    (hues : ∀ ue ∈ ues, BeamUe b ue) {st : UlBeamState} (hst : st.spoint = ⟨rbg, sym⟩)
    (hcount : st.Counted b sym)
    (hfit : (ues.map (rbgsOf b)).sum ≤ usableFrom rbg 0 c.ulMask) :
    ∃ allocs, BeamDone c.ulMask b sym rbg (ues.map (rbgsOf b)).sum st
      (ues.foldl (UlBeamState.step c.toSchedConf (ofdmaUl c) b) st) allocs := by
  induction ues generalizing st rbg with
  | nil => exact ⟨[], BeamDone.nil (Or.inl (by rw [hst])) hcount⟩
  | cons ue ues ih =>
    have hue := hues ue List.mem_cons_self
    have hues' : ∀ u ∈ ues, BeamUe b u := fun u hu => hues u (List.mem_cons_of_mem _ hu)
    rw [List.map_cons, List.sum_cons] at hfit ⊢
    rw [List.foldl_cons]
    by_cases hzero : ue.1.ulRBG = 0
    · have hnone := (hue.rbgsOf_eq_zero_iff hb).mpr hzero
      rw [UlBeamState.step, if_pos hzero, hnone, Nat.zero_add]
      exact ih hues' hst hcount (by omega)
    · obtain ⟨dci, l, hcreate, hsym, hnum, hformat, htype, hle, hlt, hlast, hrows, hrest⟩ :=
        ofdmaCreateUlDci_spec sym b hsch hmask hb hue hzero
          (show rbgsOf b ue ≤ usableFrom rbg 0 c.ulMask by omega)
      have hnum' : 0 < rbgsOf b ue :=
        Nat.pos_of_ne_zero fun h => hzero ((hue.rbgsOf_eq_zero_iff hb).mp h)
      have hstep : UlBeamState.step c.toSchedConf (ofdmaUl c) b st ue = st.push dci
          (if l + 1 = c.bandwidthInRbg then ⟨0, (sym + b) % 256⟩ else ⟨l + 1, sym⟩) := by
        unfold UlBeamState.step
        rw [if_neg hzero]
        simp only [ofdmaUl, hst, hcreate, hsch, ne_eq, not_true, false_and, if_false]
      rw [hstep]
      have hcount' := hcount.push hsym hnum
        (if l + 1 = c.bandwidthInRbg then ⟨0, (sym + b) % 256⟩ else ⟨l + 1, sym⟩)
      have hfirst : ∀ f, FirstUsable c.ulMask rbg f → f ≤ l := fun f hf => hf.2.2 l hlast hle
      suffices hdone : ∃ allocs, BeamDone c.ulMask b sym (l + 1) (ues.map (rbgsOf b)).sum
          (st.push dci (if l + 1 = c.bandwidthInRbg then ⟨0, (sym + b) % 256⟩ else ⟨l + 1, sym⟩))
          (ues.foldl (UlBeamState.step c.toSchedConf (ofdmaUl c) b) (st.push dci
            (if l + 1 = c.bandwidthInRbg then ⟨0, (sym + b) % 256⟩ else ⟨l + 1, sym⟩))) allocs by
        obtain ⟨allocs, hdone⟩ := hdone
        exact ⟨_, hdone.cons hsym hnum ⟨hformat, htype⟩ hle hnum' hfirst hrows⟩
      by_cases hfull : l + 1 = c.bandwidthInRbg
      · -- the bandwidth is used up, so the other UEs have nothing
        rw [if_pos hfull] at hcount' ⊢
        have hend := usableFrom_end (show 0 + c.ulMask.length ≤ l + 1 by omega)
        have hnone : (ues.map (rbgsOf b)).sum = 0 := by omega
        have hskip : ∀ u ∈ ues, u.1.ulRBG = 0 := by
          intro u hu
          refine ((hues' u hu).rbgsOf_eq_zero_iff hb).mp ?_
          exact List.sum_eq_zero_iff.mp hnone _ (List.mem_map_of_mem hu)
        rw [UlBeamState.foldl_of_ulRBG_eq_zero _ _ _ _ hskip, hnone]
        exact ⟨[], BeamDone.nil (Or.inr rfl) hcount'⟩
      · rw [if_neg hfull] at hcount' ⊢
        exact ih hues' rfl hcount' (by omega)

theorem sum_rbgsOf_fresh {ues : List (UeInfo × Nat)} (h : Fresh ues) :
    (ues.map (rbgsOf b)).sum = 0 := by
  rw [List.sum_eq_zero_iff]
  intro x hx
  obtain ⟨ue, hue, rfl⟩ := List.mem_map.mp hx
  rw [rbgsOf, (h ue hue).1, Nat.zero_div]

theorem rbgService_run (c : SchedConf) (hb : 0 < b) (hb256 : b < 256) (n : Nat)
    {ues : List (UeInfo × Nat)} (h : Fresh ues) :
    (∀ ue ∈ (rbgService c b).run n ues, BeamUe b ue) ∧
      (((rbgService c b).run n ues).map (rbgsOf b)).sum ≤ n ∧
      (ues ≠ [] → 0 < n → 0 < (((rbgService c b).run n ues).map (rbgsOf b)).sum) := by
  have hgive : ∀ ue, rbgsOf b ((rbgService c b).give ue) = rbgsOf b ue + 1 :=
    fun ue => Nat.add_div_right _ hb
  have hpass : ∀ ue, rbgsOf b ((rbgService c b).pass ue) = rbgsOf b ue := fun _ => rfl
  have hmiss : ∀ ue, rbgsOf b ((rbgService c b).miss ue) = rbgsOf b ue :=
    fun ue => congrArg (· / b) (notAssignedUlResources_ulRBG c ue)
  refine ⟨?_, ?_, ?_⟩
  · apply Service.run_forall
    · rintro ue ⟨hdvd, -⟩
      refine ⟨dvd_add hdvd dvd_rfl, fun _ => ?_⟩
      exact Nat.mod_eq_of_lt hb256
    · exact fun _ hue => hue
    · intro ue hue
      rw [BeamUe]
      change b ∣ (c.notAssignedUlResources ue).1.ulRBG ∧
        ((c.notAssignedUlResources ue).1.ulRBG ≠ 0 → (c.notAssignedUlResources ue).1.ulSym = b)
      rw [notAssignedUlResources_ulRBG, notAssignedUlResources_ulSym]
      exact hue
    · intro ue hue
      rw [BeamUe, (h ue hue).1]
      exact ⟨dvd_zero b, fun hne => absurd rfl hne⟩
  · have := Service.sum_run_le hgive hpass hmiss n ues
    rw [sum_rbgsOf_fresh h] at this
    omega
  · intro hne hn
    obtain ⟨ue, ues', rfl⟩ := List.exists_cons_of_ne_nil hne
    have hunmet : (rbgService c b).unmet ue = true := by
      change decide (ue.1.ulTbSize < max ue.2 7) = true
      rw [(h ue List.mem_cons_self).2, decide_eq_true_eq]
      omega
    exact Nat.lt_of_le_of_lt (Nat.zero_le _)
      (Service.lt_sum_run hgive hpass hmiss hn List.mem_cons_self hunmet)

end Beam

/-! ## All beams -/

/-- A beam that gets DCIs: it has symbols and UEs. -/
def AssignedBeam.live (beam : AssignedBeam) : Bool := 0 < beam.sym && !beam.ues.isEmpty

/-- A beam as the assignment leaves it. -/
structure AssignedBeam.Ready (c : OfdmaConf) (beam : AssignedBeam) : Prop where
  ues : ∀ ue ∈ beam.ues, BeamUe beam.sym ue
  fit : (beam.ues.map (rbgsOf beam.sym)).sum ≤ c.ulMask.count 1
  served : beam.ues ≠ [] → 0 < (beam.ues.map (rbgsOf beam.sym)).sum

section Beams

variable {c : OfdmaConf} {beam : AssignedBeam} {st : UlDataState} {sym : Nat}

theorem UlDataState.step_of_not_live (c : SchedConf) (s : UlScheduler) (st : UlDataState)
    (h : beam.live = false) : st.step c s beam = st := by
  unfold UlDataState.step
  rw [AssignedBeam.live, Bool.and_eq_false_iff] at h
  rcases h with h | h
  · rw [if_pos (Nat.eq_zero_of_not_pos (of_decide_eq_false h))]
  · rw [Bool.not_eq_false', List.isEmpty_iff] at h
    rw [h]
    split
    · rfl
    · rfl

theorem UlDataState.foldl_of_not_live (c : SchedConf) (s : UlScheduler) {beams : List AssignedBeam}
    (h : ∀ beam ∈ beams, beam.live = false) (st : UlDataState) :
    beams.foldl (UlDataState.step c s) st = st := by
  induction beams with
  | nil => rfl
  | cons beam beams ih =>
    rw [List.foldl_cons, UlDataState.step_of_not_live c s st (h beam List.mem_cons_self)]
    exact ih fun b hb => h b (List.mem_cons_of_mem _ hb)

/-- A beam with UEs places its DCIs at the starting point, and leaves it there or puts it back
by its symbols. -/
theorem UlDataState.step_of_live (st : UlDataState) (hsch : c.schOFDMA = 1)
    (hmask : c.ulMask.length = c.bandwidthInRbg) (hready : beam.Ready c) (hlive : beam.live = true)
    (hsym : sym < 256) (hbeam : beam.sym < 256) (hst : st.spoint = ⟨0, sym⟩) :
    ∃ allocs, (st.step c.toSchedConf (ofdmaUl c) beam).varTtiAllocInfo =
        allocs ++ st.varTtiAllocInfo ∧
      BeamPlaced c.ulMask beam.sym sym 0 allocs ∧
      ((st.step c.toSchedConf (ofdmaUl c) beam).spoint = ⟨0, sym⟩ ∨
        (st.step c.toSchedConf (ofdmaUl c) beam).spoint = ⟨0, (sym + 256 - beam.sym) % 256⟩) ∧
      (st.step c.toSchedConf (ofdmaUl c) beam).usedSym = (st.usedSym + beam.sym) % 256 ∧
      ∀ f, FirstUsable c.ulMask 0 f → ∃ a ∈ allocs, f ∈ maskRows a.dci.rbgBitmask := by
  rw [AssignedBeam.live, Bool.and_eq_true, decide_eq_true_eq, Bool.not_eq_true',
    List.isEmpty_eq_false_iff] at hlive
  have hserved := hready.served hlive.2
  have hfit := hready.fit
  rw [← usableFrom_zero 0] at hfit
  have hstart : UlBeamState.Counted beam.sym sym
      { spoint := st.spoint, varTtiAllocInfo := st.varTtiAllocInfo } := ⟨rfl, rfl⟩
  obtain ⟨allocs, hdone⟩ :=
    UlBeamState.foldl_step_done hsch hmask hlive.1 hready.ues hst hstart hfit
  have hassigned := hdone.assigned
  rw [decide_eq_true hserved, Bool.or_true] at hassigned
  have hcounted := hdone.counted
  rw [UlBeamState.Counted, if_pos hassigned] at hcounted
  unfold UlDataState.step
  rw [if_neg hlive.1.ne', if_pos hassigned]
  refine ⟨allocs, hdone.allocated, hdone.placed, ?_, ?_, hdone.first hserved⟩
  · change ofdmaChangeUlBeam _ _ = _ ∨ ofdmaChangeUlBeam _ _ = _
    rcases hdone.point with hpoint | hpoint
    · right
      rw [ofdmaChangeUlBeam, hpoint, Nat.mod_eq_of_lt hbeam]
    · left
      rw [ofdmaChangeUlBeam, hpoint, Nat.mod_eq_of_lt hbeam]
      congr 1
      omega
  · change (st.usedSym + _) % 256 = _
    rw [hcounted.2]

theorem BeamPlaced.packed {mask : List Nat} {b rbg : Nat} {allocs : List VarTtiAllocInfo}
    (h : BeamPlaced mask b sym rbg allocs) : Packed sym (sym + b) (allocs.map allocBlock) := by
  refine ⟨List.pairwise_map.mpr (h.apart.imp fun hd => Block.disjoint_of_rows hd), ?_⟩
  intro block hblock
  obtain ⟨a, ha, rfl⟩ := List.mem_map.mp hblock
  obtain ⟨hs, hn⟩ := h.sym a ha
  change sym ≤ a.dci.symStart ∧ a.dci.symStart + a.dci.numSym ≤ sym + b
  omega

theorem exists_firstUsable {mask : List Nat} (h : 0 < mask.count 1) :
    ∃ f, FirstUsable mask 0 f := by
  classical
  have hex : ∃ i, i ∈ maskRows mask := List.mem_iff_getElem?.mp (List.count_pos_iff.mp h)
  refine ⟨Nat.find hex, Nat.zero_le _, Nat.find_spec hex, ?_⟩
  intro i hi _
  exact Nat.find_min' hex hi

/-- Two beams with UEs collide, or the second is placed outside the available symbols. -/
theorem not_packed_of_two_live (hsch : c.schOFDMA = 1)
    (hmask : c.ulMask.length = c.bandwidthInRbg) (husable : 0 < c.ulMask.count 1)
    {first second : AssignedBeam} {between rest : List AssignedBeam} {symAvail : Nat}
    (hfirst : first.Ready c) (hlive : first.live = true) (hsecond : second.Ready c)
    (hlive' : second.live = true) (hbetween : ∀ beam ∈ between, beam.live = false)
    (hslot : sym + symAvail ≤ 128) (hle : first.sym + second.sym ≤ symAvail)
    (hst : st.spoint = ⟨0, sym⟩) :
    ¬ Packed sym (sym + symAvail) (((first :: (between ++ second :: rest)).foldl
      (UlDataState.step c.toSchedConf (ofdmaUl c)) st).varTtiAllocInfo.map allocBlock) := by
  intro hpacked
  obtain ⟨f, hf⟩ := exists_firstUsable husable
  obtain ⟨allocs, halloc, hplaced, hpoint, -, huse⟩ :=
    UlDataState.step_of_live st hsch hmask hfirst hlive (by omega) (by omega) hst
  rw [List.foldl_cons, List.foldl_append, UlDataState.foldl_of_not_live _ _ hbetween,
    List.foldl_cons] at hpacked
  generalize hst₁ : st.step c.toSchedConf (ofdmaUl c) first = st₁ at hpacked halloc hpoint
  have hfirstPos : 0 < first.sym := by
    rw [AssignedBeam.live, Bool.and_eq_true, decide_eq_true_eq] at hlive
    exact hlive.1
  have hsecondPos : 0 < second.sym := by
    rw [AssignedBeam.live, Bool.and_eq_true, decide_eq_true_eq] at hlive'
    exact hlive'.1
  -- the DCIs of the second beam are among the allocations, behind those of the first
  have hsecondAt : ∀ s, s < 256 → st₁.spoint = ⟨0, s⟩ → ∃ a a', a.dci.symStart = sym ∧
      a.dci.numSym = first.sym ∧ f ∈ maskRows a.dci.rbgBitmask ∧ a'.dci.symStart = s ∧
      a'.dci.numSym = second.sym ∧ f ∈ maskRows a'.dci.rbgBitmask ∧
      (sym ≤ s ∧ s + second.sym ≤ sym + symAvail) ∧
      Disjoint (allocBlock a').cells (allocBlock a).cells := by
    intro s hs hpoint'
    obtain ⟨allocs', halloc', hplaced', -, -, huse'⟩ :=
      UlDataState.step_of_live st₁ hsch hmask hsecond hlive' hs (by omega) hpoint'
    obtain ⟨new, hnew⟩ := UlDataState.foldl_step_suffix c.toSchedConf (ofdmaUl c) rest
      (st₁.step c.toSchedConf (ofdmaUl c) second)
    rw [hnew, halloc', halloc, List.map_append, List.map_append, List.map_append] at hpacked
    have hboth := hpacked.of_append_right
    obtain ⟨a, ha, hfa⟩ := huse f hf
    obtain ⟨a', ha', hfa'⟩ := huse' f hf
    have hmem' := List.mem_map_of_mem (f := allocBlock) ha'
    have hwithin := hboth.within _ (List.mem_append_left _ hmem')
    have hdisj := (List.pairwise_append.mp hboth.disjoint).2.2 _ hmem' _
      (List.mem_append_left _ (List.mem_map_of_mem (f := allocBlock) ha))
    obtain ⟨hs1, hn1⟩ := hplaced.sym a ha
    obtain ⟨hs2, hn2⟩ := hplaced'.sym a' ha'
    change sym ≤ a'.dci.symStart ∧ a'.dci.symStart + a'.dci.numSym ≤ sym + symAvail at hwithin
    rw [hs2, hn2] at hwithin
    exact ⟨a, a', hs1, hn1, hfa, hs2, hn2, hfa', hwithin, hdisj⟩
  rcases hpoint with hpoint | hpoint
  · -- back at the starting point: both beams have the first RBG of its symbol
    obtain ⟨a, a', hs1, hn1, hfa, hs2, hn2, hfa', -, hdisj⟩ := hsecondAt sym (by omega) hpoint
    have hcell : (sym, f) ∈ (allocBlock a).cells := by
      refine ⟨?_, hfa⟩
      change a.dci.symStart ≤ sym ∧ sym < a.dci.symStart + a.dci.numSym
      omega
    have hcell' : (sym, f) ∈ (allocBlock a').cells := by
      refine ⟨?_, hfa'⟩
      change a'.dci.symStart ≤ sym ∧ sym < a'.dci.symStart + a'.dci.numSym
      omega
    exact Block.not_disjoint hcell' hcell hdisj
  · -- in front of the starting point, or wrapped to the end of the range of the symbol
    obtain ⟨-, -, -, -, -, -, -, -, hwithin, -⟩ := hsecondAt _ (Nat.mod_lt _ (by omega)) hpoint
    omega

end Beams

/-! ## When the DCIs are apart -/

/-- The beams with UEs that are given symbols. -/
def servedBeams (c : OfdmaConf) (symAvail : Nat) (activeUl : ActiveUeMap) :
    List ((Nat × List (UeInfo × Nat)) × Nat) :=
  (activeUl.zip (getSymPerBeam c.minBeam symAvail activeUl)).filter fun beam =>
    0 < beam.2 && !beam.1.2.isEmpty

section Main

variable {c : OfdmaConf} {sym symAvail : Nat} {activeUl : ActiveUeMap}

theorem assignULRBG_eq (hsch : c.schOFDMA = 1) (symAvail : Nat) (activeUl : ActiveUeMap) :
    assignULRBG c symAvail activeUl =
      (activeUl.zip (getSymPerBeam c.minBeam symAvail activeUl)).map fun beam =>
        ⟨beam.1.1, beam.2,
          (rbgService c.toSchedConf beam.2).run (c.ulMask.count 1) beam.1.2⟩ := by
  rw [assignULRBG, if_pos hsch, List.zip, List.map_zipWith]

theorem length_filter_live (hsch : c.schOFDMA = 1) (symAvail : Nat) (activeUl : ActiveUeMap) :
    ((assignULRBG c symAvail activeUl).filter AssignedBeam.live).length =
      (servedBeams c symAvail activeUl).length := by
  rw [assignULRBG_eq hsch, List.filter_map, List.length_map, servedBeams]
  congr 1
  apply List.filter_congr
  intro beam _
  change (0 < beam.2 && !((rbgService c.toSchedConf beam.2).run _ beam.1.2).isEmpty) = _
  rw [Service.isEmpty_run]

theorem map_sym_assignULRBG (hsch : c.schOFDMA = 1) (hsym : symAvail < 256) :
    (assignULRBG c symAvail activeUl).map AssignedBeam.sym =
      getSymPerBeam c.minBeam symAvail activeUl := by
  rw [assignULRBG_eq hsch, List.map_map]
  exact List.map_snd_zip (length_getSymPerBeam _ _ hsym).le

theorem ready_of_live (hsch : c.schOFDMA = 1) (hfresh : ∀ el ∈ activeUl, Fresh el.2)
    (husable : 0 < c.ulMask.count 1)
    {beam : AssignedBeam} (hmem : beam ∈ assignULRBG c symAvail activeUl)
    (hlive : beam.live = true) (hlt : beam.sym < 256) : beam.Ready c := by
  rw [assignULRBG_eq hsch] at hmem
  obtain ⟨el, hel, rfl⟩ := List.mem_map.mp hmem
  rw [AssignedBeam.live, Bool.and_eq_true, decide_eq_true_eq] at hlive
  obtain ⟨hues, hfit, hserved⟩ := rbgService_run c.toSchedConf hlive.1 hlt (c.ulMask.count 1)
    (hfresh el.1 (List.of_mem_zip hel).1)
  refine ⟨hues, hfit, fun hne => hserved ?_ husable⟩
  intro hnil
  have hempty := Service.isEmpty_run (s := rbgService c.toSchedConf el.2)
    (c.ulMask.count 1) el.1.2
  exact hne (List.isEmpty_iff.mp (hempty.trans (List.isEmpty_iff.mpr hnil)))

/-- The DCIs that `DoScheduleUlData` makes from the symbol `sym` on. -/
def ofdmaUlAllocs (c : OfdmaConf) (sym symAvail : Nat) (activeUl : ActiveUeMap) :
    List VarTtiAllocInfo :=
  (doScheduleUlData c.toSchedConf (ofdmaUl c) ⟨0, sym⟩ symAvail activeUl []).varTtiAllocInfo

/-- One beam with UEs that is given symbols places its DCIs side by side. -/
theorem ofdma_placed (hsch : c.schOFDMA = 1) (hmask : c.ulMask.length = c.bandwidthInRbg)
    (husable : 0 < c.ulMask.count 1) (hfresh : ∀ el ∈ activeUl, Fresh el.2)
    (hslot : sym + symAvail ≤ 128) (hone : (servedBeams c symAvail activeUl).length ≤ 1) :
    UlPlaced sym symAvail
      (doScheduleUlData c.toSchedConf (ofdmaUl c) ⟨0, sym⟩ symAvail activeUl []) := by
  rw [← length_filter_live hsch] at hone
  have hsyms : ((assignULRBG c symAvail activeUl).map AssignedBeam.sym).sum ≤ symAvail := by
    rw [map_sym_assignULRBG hsch (by omega)]
    exact sum_getSymPerBeam_le _ _ (by omega)
  have hready : ∀ beam ∈ assignULRBG c symAvail activeUl, beam.live = true → beam.sym < 256 →
      beam.Ready c := fun beam hmem => ready_of_live hsch hfresh husable hmem
  unfold doScheduleUlData
  rw [show (ofdmaUl c).assignULRBG symAvail activeUl = assignULRBG c symAvail activeUl from rfl]
  generalize assignULRBG c symAvail activeUl = beams at hsyms hready hone ⊢
  cases hfind : beams.find? AssignedBeam.live with
  | none =>
    have hnone : ∀ beam ∈ beams, beam.live = false := fun beam hbeam =>
      Bool.not_eq_true _ ▸ List.find?_eq_none.mp hfind beam hbeam
    rw [UlDataState.foldl_of_not_live _ _ hnone]
    exact ⟨Packed.nil, by simp, by simp, rfl, Nat.zero_le _, by simp⟩
  | some first =>
    obtain ⟨hlive, pre, rest, rfl, hpre⟩ := List.find?_eq_some_iff_append.mp hfind
    have hpre' : ∀ beam ∈ pre, beam.live = false := fun beam hbeam => by simpa using hpre beam hbeam
    have hrest : ∀ beam ∈ rest, beam.live = false := by
      rw [List.filter_append, List.filter_cons_of_pos hlive, List.length_append,
        List.length_cons] at hone
      have hnil : rest.filter AssignedBeam.live = [] := List.length_eq_zero_iff.mp (by omega)
      simpa using List.filter_eq_nil_iff.mp hnil
    rw [List.map_append, List.sum_append, List.map_cons, List.sum_cons] at hsyms
    have hfirst := hready first (List.mem_append_right _ List.mem_cons_self) hlive (by omega)
    obtain ⟨allocs, halloc, hplaced, -, hused, hcell⟩ :=
      UlDataState.step_of_live { spoint := ⟨0, sym⟩, varTtiAllocInfo := [] } hsch hmask hfirst
        hlive (by omega) (by omega) rfl
    rw [List.foldl_append, UlDataState.foldl_of_not_live _ _ hpre', List.foldl_cons,
      UlDataState.foldl_of_not_live _ _ hrest]
    have hpos : 0 < first.sym := by
      rw [AssignedBeam.live, Bool.and_eq_true, decide_eq_true_eq] at hlive
      exact hlive.1
    have hne : allocs ≠ [] := by
      obtain ⟨f, hf⟩ := exists_firstUsable husable
      obtain ⟨a, ha, -⟩ := hcell f hf
      exact List.ne_nil_of_mem ha
    rw [Nat.zero_add, Nat.mod_eq_of_lt (by omega)] at hused
    rw [List.append_nil] at halloc
    refine ⟨?_, ?_, ?_, ?_, by omega, ?_⟩
    · rw [halloc]
      exact hplaced.packed.mono (by omega)
    · rw [halloc]
      intro a ha
      rw [(hplaced.sym a ha).2]
      exact hpos
    · rw [halloc]
      intro hne
      obtain ⟨a, ha⟩ := List.exists_mem_of_ne_nil allocs hne
      exact ⟨a, ha, (hplaced.sym a ha).1⟩
    · rw [halloc, hused]
      have hbeside : ∀ b ∈ allocs.map allocBlock, b.start = sym ∧ b.len = first.sym := by
        intro b hb
        obtain ⟨a, ha, rfl⟩ := List.mem_map.mp hb
        exact hplaced.sym a ha
      exact (tally_beside (by simpa using hne) hbeside).symm
    · rw [halloc]
      exact hplaced.type

theorem packed_iff_servedBeams (hsch : c.schOFDMA = 1)
    (hmask : c.ulMask.length = c.bandwidthInRbg) (husable : 0 < c.ulMask.count 1)
    (hne : activeUl ≠ []) (hfresh : ∀ el ∈ activeUl, Fresh el.2) (hslot : sym + symAvail ≤ 128) :
    Packed sym (sym + symAvail) ((ofdmaUlAllocs c sym symAvail activeUl).map allocBlock) ↔
      (servedBeams c symAvail activeUl).length ≤ 1 := by
  refine ⟨fun hpacked => ?_, fun h => (ofdma_placed hsch hmask husable hfresh hslot h).packed⟩
  by_contra hmore
  rw [← length_filter_live hsch] at hmore
  have hsyms : ((assignULRBG c symAvail activeUl).map AssignedBeam.sym).sum = symAvail := by
    rw [map_sym_assignULRBG hsch (by omega), sum_getSymPerBeam _ (by omega) hne]
  have hready : ∀ beam ∈ assignULRBG c symAvail activeUl, beam.live = true → beam.sym < 256 →
      beam.Ready c := fun beam hmem => ready_of_live hsch hfresh husable hmem
  unfold ofdmaUlAllocs doScheduleUlData at hpacked
  rw [show (ofdmaUl c).assignULRBG symAvail activeUl = assignULRBG c symAvail activeUl from rfl]
    at hpacked
  generalize assignULRBG c symAvail activeUl = beams at hsyms hready hmore hpacked
  -- the first two beams that have both symbols and UEs
  cases hfind : beams.find? AssignedBeam.live with
  | none =>
    rw [List.filter_eq_nil_iff.mpr (List.find?_eq_none.mp hfind)] at hmore
    exact hmore (Nat.zero_le _)
  | some first =>
    obtain ⟨hlive, pre, rest, rfl, hpre⟩ := List.find?_eq_some_iff_append.mp hfind
    have hpre' : ∀ beam ∈ pre, beam.live = false := fun beam hbeam => by simpa using hpre beam hbeam
    rw [List.map_append, List.sum_append, List.map_cons, List.sum_cons] at hsyms
    rw [List.foldl_append, UlDataState.foldl_of_not_live _ _ hpre'] at hpacked
    rw [List.filter_append, List.filter_eq_nil_iff.mpr (by simpa using hpre'), List.nil_append,
      List.filter_cons_of_pos hlive] at hmore
    have hfirst := hready first (List.mem_append_right _ List.mem_cons_self) hlive (by omega)
    cases hfind' : rest.find? AssignedBeam.live with
    | none =>
      rw [List.filter_eq_nil_iff.mpr (List.find?_eq_none.mp hfind')] at hmore
      exact hmore le_rfl
    | some second =>
      obtain ⟨hlive', between, rest', rfl, hbetween⟩ := List.find?_eq_some_iff_append.mp hfind'
      rw [List.map_append, List.sum_append, List.map_cons, List.sum_cons] at hsyms
      have hsecond := hready second (by simp) hlive' (by omega)
      exact not_packed_of_two_live hsch hmask husable hfirst hlive hsecond hlive'
        (fun beam hbeam => by simpa using hbetween beam hbeam) hslot (by omega) rfl hpacked

theorem length_servedBeams (hsym : symAvail < 256)
    (hdata : ∀ el ∈ activeUl, 0 < (bufSizes el.2).sum) :
    (servedBeams c symAvail activeUl).length =
      positives (getSymPerBeam c.minBeam symAvail activeUl) := by
  have hfilter : servedBeams c symAvail activeUl =
      (activeUl.zip (getSymPerBeam c.minBeam symAvail activeUl)).filter fun beam => 0 < beam.2 := by
    apply List.filter_congr
    intro beam hbeam
    have hues : beam.1.2.isEmpty = false := by
      rw [List.isEmpty_eq_false_iff]
      intro hnil
      have := hdata beam.1 (List.of_mem_zip hbeam).1
      rw [hnil] at this
      exact lt_irrefl 0 this
    rw [hues, Bool.not_false, Bool.and_true]
  have hsnd := List.map_snd_zip (length_getSymPerBeam c.minBeam activeUl hsym).le
  rw [hfilter, ← List.countP_eq_length_filter, positives]
  conv_rhs => rw [← hsnd, List.countP_map]
  rfl

/-- The DCIs are apart and in the available symbols exactly when at most one beam with UEs is
given symbols. When every beam has a UE with data, this is the case exactly when there is only
one beam or only one symbol. -/
theorem ofdma_collision_free_iff (hsch : c.schOFDMA = 1)
    (hmask : c.ulMask.length = c.bandwidthInRbg) (husable : 0 < c.ulMask.count 1)
    (hne : activeUl ≠ []) (hfresh : ∀ el ∈ activeUl, Fresh el.2) (hslot : sym + symAvail ≤ 128) :
    (Packed sym (sym + symAvail) ((ofdmaUlAllocs c sym symAvail activeUl).map allocBlock) ↔
      (servedBeams c symAvail activeUl).length ≤ 1) ∧
    ((∀ el ∈ activeUl, 0 < (bufSizes el.2).sum) →
      (Packed sym (sym + symAvail) ((ofdmaUlAllocs c sym symAvail activeUl).map allocBlock) ↔
        activeUl.length ≤ 1 ∨ symAvail ≤ 1)) := by
  have hiff := packed_iff_servedBeams hsch hmask husable hne hfresh hslot
  refine ⟨hiff, fun hdata => hiff.trans ?_⟩
  rw [length_servedBeams (by omega) hdata]
  exact positives_getSymPerBeam_le_one_iff (by omega) hne hdata

end Main

/-- Two RBGs of which all may be used, and one byte for each of their RBs. -/
def OfdmaConf.twoRbgs : OfdmaConf where
  bandwidthInRbg := 2
  numRbPerRbg := 1
  ulNotchedRbgMask := []
  ulTbs := fun _ rbs => rbs
  schOFDMA := 1
  minBeam := .first
  assignOther _ _ := []

/-- One beam with two UEs. -/
def oneBeam : ActiveUeMap := [(0, [({ rnti := 1 }, 9), ({ rnti := 2 }, 9)])]

/-- Two beams with a UE each. -/
def twoBeams : ActiveUeMap := [(0, [({ rnti := 1 }, 9)]), (1, [({ rnti := 2 }, 9)])]

theorem ofdma_collision_free_iff_oneBeam :
    Packed 1 4 ((ofdmaUlAllocs .twoRbgs 1 3 oneBeam).map allocBlock) := by
  have hfresh : ∀ el ∈ oneBeam, Fresh el.2 := by decide
  have hdata : ∀ el ∈ oneBeam, 0 < (bufSizes el.2).sum := by simp [oneBeam, bufSizes]
  have hiff := (ofdma_collision_free_iff (c := .twoRbgs) rfl rfl (by decide)
    (show oneBeam ≠ [] by simp [oneBeam]) hfresh (show 1 + 3 ≤ 128 by decide)).2 hdata
  exact hiff.mpr (Or.inl le_rfl)

/-- In two symbols both DCIs are placed at the first of them. -/
theorem ofdma_two_beams_collide :
    ¬ Packed 1 3 ((ofdmaUlAllocs .twoRbgs 1 2 twoBeams).map allocBlock) := by
  have hfresh : ∀ el ∈ twoBeams, Fresh el.2 := by decide
  have hdata : ∀ el ∈ twoBeams, 0 < bufOfBeam el := by simp [twoBeams, bufOfBeam, bufSizes]
  have hne : twoBeams ≠ [] := by simp [twoBeams]
  intro hpacked
  have hserved := (packed_iff_servedBeams (c := .twoRbgs) rfl rfl (by decide) hne hfresh
    (show 1 + 2 ≤ 128 by decide)).mp hpacked
  rw [length_servedBeams (by decide) hdata] at hserved
  have hone := (positives_getSymPerBeam_le_one_iff (by decide) hne hdata).mp hserved
  exact absurd hone (by decide)

end Ns3.Nr.Sched
