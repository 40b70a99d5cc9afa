import Ns3.Nr.GnbMac.ConfiguredGrant

/-!
# The MACs of a simulation

The end of the configuration window and the position in the table are static variables of
`DoSlotUlIndication`, so all `NrGnbMac` objects of a simulation share them. The first MAC
with a request opens the window of all, and a request of another MAC moves the position in
the table of the first. The requests of a MAC keep their schedules if the window is its own
(`OwnWindow`): other MACs may be indicated in any slot but have no requests in it.
-/

namespace Ns3.Nr.GnbMac

open Lib

/-! ## Embedding -/

/-- The MACs of the simulation and the static variables. -/
structure Macs where
  mac : Nat → NrGnbMac
  statics : SlotStatics := {}

namespace Macs

def scope (s : Macs) (i : Nat) : MacScope := ⟨s.mac i, s.statics⟩

def put (s : Macs) (i : Nat) (m : MacScope) : Macs where
  mac := Function.update s.mac i m.toNrGnbMac
  statics := m.toSlotStatics

@[simp] theorem scope_put_self (s : Macs) (i : Nat) (m : MacScope) : (s.put i m).scope i = m := by
  change (⟨Function.update s.mac i m.toNrGnbMac i, m.toSlotStatics⟩ : MacScope) = m
  rw [Function.update_self]

theorem scope_put_of_ne {s : Macs} {i j : Nat} (h : i ≠ j) (m : MacScope) :
    (s.put j m).scope i = { s.scope i with toSlotStatics := m.toSlotStatics } := by
  change (⟨Function.update s.mac j m.toNrGnbMac i, m.toSlotStatics⟩ : MacScope) = _
  rw [Function.update_of_ne h]
  rfl

/-- A slot of one MAC. -/
def runMac (s : Macs) (slot : SfnSf) (e : Nat × SlotInput) : Option (List (Nat × Cgr) × Macs) := do
  let (calls, m) ← runSlot (s.scope e.1) slot e.2
  return (calls.map (Prod.mk e.1), s.put e.1 m)

/-- A slot of the MACs, in the order in which they are served. -/
def runMacs (slot : SfnSf) : List (Nat × SlotInput) → Macs → Option (List (Nat × Cgr) × Macs)
  | [], s => some ([], s)
  | e :: es, s => do
    let (calls, s) ← s.runMac slot e
    let (rest, s) ← runMacs slot es s
    return (calls ++ rest, s)

end Macs

/-- The run of the slots before `t` and the calls of `UlReceiveCgr` made in each slot. -/
def run (configurationTime : Nat → Nat) (mu : Nat) (input : Nat → List (Nat × SlotInput)) :
    Nat → Option ((Nat → List (Nat × Cgr)) × Macs)
  | 0 => some (fun _ => [], ⟨fun i => ⟨configurationTime i, ⟨0, 0, 0, mu⟩, {}, fun _ => {}, 0⟩, {}⟩)
  | t + 1 => do
    let (log, s) ← run configurationTime mu input t
    let (calls, s) ← Macs.runMacs (SfnSf.slotAt mu t) (input t) s
    return (Function.update log t calls, s)

/-- The MAC `a` gets its input `own`, and no other MAC gets requests before the end of the
window that the first request of `a`, in slot `r₀`, opens. -/
structure OwnWindow (configurationTime mu : Nat) (input : Nat → List (Nat × SlotInput))
    (a : Nat) (own : Nat → SlotInput) (r₀ : Nat) : Prop where
  served : ∀ t, (input t).filter (fun e => e.1 = a) = [(a, own t)]
  quiet : ∀ t < r₀ + slotsConfiguration configurationTime mu, ∀ e ∈ input t, e.1 ≠ a →
    e.2.requests = []

/-! ## MACs without requests -/

/-- A MAC that has stored nothing, and in the window has no requests. -/
structure Idle (window : Prop) (m : NrGnbMac) : Prop where
  paramsCG : m.paramsCG = fun _ => {}
  countCGSlots : m.countCGSlots = 0
  srRntiList : window → m.requests.srRntiList = []

section Slot

variable {C mu r₀ t t' a n : Nat} {own : Nat → SlotInput} {mac m : MacScope} {s : Macs}

/-- After the window the position in the table does not matter. -/
theorem Inv.set_posCG (hi : Inv C mu own r₀ t' mac) (hend : r₀ + slotsConfiguration C mu ≤ t')
    (pos : Nat) : Inv C mu own r₀ t' { mac with posCG := pos } :=
  ⟨hi.time, hi.holds, hi.configuration, hi.configurationSlot, hi.count,
    fun hlt => absurd hlt (by omega), hi.entry, hi.fresh⟩

theorem sameSlot_zero {t : Nat} (hmu : mu ≤ 11) (hpos : 0 < t) (ht : t < SfnSf.totalSlots mu) :
    (⟨0, 0, 0, 0⟩ : SfnSf).sameSlot (SfnSf.slotAt mu t) = false := by
  have hne : ¬ (SfnSf.slotAt mu 0).sameSlot (SfnSf.slotAt mu t) = true := by
    rw [SfnSf.sameSlot_slotAt hmu (by omega) ht]
    omega
  exact Bool.eq_false_iff.mpr hne

/-- An indication of an idle MAC calls nothing and changes no static variable in the window. -/
theorem Inv.indication_idle (h : Separable C mu own r₀) (hi : Inv C mu own r₀ t' mac)
    (hle : t ≤ t') (hle' : t' ≤ t + 1) (hwrap : t' + 256 < SfnSf.totalSlots mu)
    (hidle : Idle (t < r₀ + slotsConfiguration C mu) m.toNrGnbMac)
    (hst : m.toSlotStatics = mac.toSlotStatics) (hcur : m.currentSlot = SfnSf.slotAt mu t) :
    ∃ out m', m.doSlotUlIndication = some (out, m') ∧ out.ulReceiveCgr = [] ∧
      m'.currentSlot = SfnSf.slotAt mu t ∧
      Idle (t < r₀ + slotsConfiguration C mu) m'.toNrGnbMac ∧
      Inv C mu own r₀ t' { mac with toSlotStatics := m'.toSlotStatics } := by
  have hconf : m.cgrConfiguration = mac.cgrConfiguration :=
    congrArg SlotStatics.cgrConfiguration hst
  have hslot : m.cgrConfigurationSlot = mac.cgrConfigurationSlot :=
    congrArg SlotStatics.cgrConfigurationSlot hst
  have hmu : mu ≤ 11 := h.numerology.trans (by norm_num)
  unfold MacScope.doSlotUlIndication
  dsimp only
  rw [hconf, hslot, hcur]
  by_cases hwin : t < r₀ + slotsConfiguration C mu
  · rw [hi.configuring h hwin hwrap, if_pos rfl, hidle.srRntiList hwin]
    refine ⟨_, _, rfl, rfl, hcur, ⟨hidle.paramsCG, hidle.countCGSlots, fun _ => rfl⟩, ?_⟩
    change Inv C mu own r₀ t' { mac with toSlotStatics := m.toSlotStatics }
    rw [hst]
    exact hi
  · have hwindow := h.window
    rw [hi.replaying h (by omega) (by omega) (by omega), if_neg Bool.false_ne_true]
    have hfind : m.findDue = none := by
      unfold MacScope.findDue
      rw [hidle.countCGSlots, hidle.paramsCG, hcur]
      simp [sameSlot_zero hmu (show 0 < t by omega) (show t < SfnSf.totalSlots mu by omega)]
    rw [replay_of_findDue_none hfind (by rw [hidle.countCGSlots]; decide)]
    refine ⟨_, _, rfl, rfl, hcur, ⟨hidle.paramsCG, hidle.countCGSlots, fun hlt => absurd hlt hwin⟩,
      ?_⟩
    have hset := hi.set_posCG (by omega) ((m.countCGSlots + 1) % 256)
    change Inv C mu own r₀ t' { mac with toSlotStatics := { m.toSlotStatics with posCG := _ } }
    rw [hst]
    exact hset

theorem Inv.indicate_idle (h : Separable C mu own r₀) (hi : Inv C mu own r₀ t' mac)
    (hle : t ≤ t') (hle' : t' ≤ t + 1) (hwrap : t' + 256 < SfnSf.totalSlots mu)
    (hidle : Idle (t < r₀ + slotsConfiguration C mu) m.toNrGnbMac)
    (hst : m.toSlotStatics = mac.toSlotStatics) (hcur : m.currentSlot = SfnSf.slotAt mu t) :
    ∃ m', indicate n m = some ([], m') ∧
      Idle (t < r₀ + slotsConfiguration C mu) m'.toNrGnbMac ∧
      Inv C mu own r₀ t' { mac with toSlotStatics := m'.toSlotStatics } := by
  induction n generalizing mac m with
  | zero =>
    refine ⟨m, rfl, hidle, ?_⟩
    rw [hst]
    exact hi
  | succ n ih =>
    obtain ⟨out, m₁, h₁, hout, hcur₁, hidle₁, hi₁⟩ :=
      hi.indication_idle h hle hle' hwrap hidle hst hcur
    obtain ⟨m₂, h₂, hidle₂, hi₂⟩ := ih hi₁ hidle₁ rfl hcur₁
    refine ⟨m₂, ?_, hidle₂, hi₂⟩
    rw [indicate, h₁]
    simp [h₂, hout]

/-- A slot of an idle MAC. -/
theorem Inv.runMac_idle (h : Separable C mu own r₀) (hi : Inv C mu own r₀ t' (s.scope a))
    (hle : t ≤ t') (hle' : t' ≤ t + 1) (hwrap : t' + 256 < SfnSf.totalSlots mu)
    (hidle : ∀ i ≠ a, Idle (t < r₀ + slotsConfiguration C mu) (s.mac i)) {e : Nat × SlotInput}
    (hne : e.1 ≠ a) (hquiet : t < r₀ + slotsConfiguration C mu → e.2.requests = []) :
    ∃ s', s.runMac (SfnSf.slotAt mu t) e = some ([], s') ∧ Inv C mu own r₀ t' (s'.scope a) ∧
      ∀ i ≠ a, Idle (t < r₀ + slotsConfiguration C mu) (s'.mac i) := by
  have he := hidle e.1 hne
  have hidle₀ : Idle (t < r₀ + slotsConfiguration C mu)
      (e.2.requests.foldl MacScope.ulReceiveCgr
        { s.scope e.1 with currentSlot := SfnSf.slotAt mu t }).toNrGnbMac := by
    rw [foldl_ulReceiveCgr]
    refine ⟨he.paramsCG, he.countCGSlots, ?_⟩
    intro hwin
    rw [hquiet hwin]
    exact he.srRntiList hwin
  obtain ⟨m', hm', hidle', hi'⟩ := hi.indicate_idle (n := e.2.indications) h hle hle' hwrap hidle₀
    (by rw [foldl_ulReceiveCgr]; rfl) (by rw [foldl_ulReceiveCgr])
  refine ⟨s.put e.1 m', ?_, ?_, ?_⟩
  · have hslot : GnbMac.runSlot (s.scope e.1) (SfnSf.slotAt mu t) e.2 = some ([], m') := hm'
    rw [Macs.runMac, hslot]
    rfl
  · rw [Macs.scope_put_of_ne hne.symm]
    exact hi'
  · intro i hia
    change Idle _ (Function.update s.mac e.1 m'.toNrGnbMac i)
    by_cases heq : i = e.1
    · subst heq
      rw [Function.update_self]
      exact hidle'
    · rw [Function.update_of_ne heq]
      exact hidle i hia

theorem Inv.runMacs_idle (h : Separable C mu own r₀) (hi : Inv C mu own r₀ t' (s.scope a))
    (hle : t ≤ t') (hle' : t' ≤ t + 1) (hwrap : t' + 256 < SfnSf.totalSlots mu)
    (hidle : ∀ i ≠ a, Idle (t < r₀ + slotsConfiguration C mu) (s.mac i))
    {es : List (Nat × SlotInput)} (hne : ∀ e ∈ es, e.1 ≠ a)
    (hquiet : t < r₀ + slotsConfiguration C mu → ∀ e ∈ es, e.2.requests = []) :
    ∃ s', Macs.runMacs (SfnSf.slotAt mu t) es s = some ([], s') ∧
      Inv C mu own r₀ t' (s'.scope a) ∧
      ∀ i ≠ a, Idle (t < r₀ + slotsConfiguration C mu) (s'.mac i) := by
  induction es generalizing s with
  | nil => exact ⟨s, rfl, hi, hidle⟩
  | cons e es ih =>
    obtain ⟨s₁, h₁, hi₁, hidle₁⟩ := hi.runMac_idle h hle hle' hwrap hidle
      (hne e List.mem_cons_self) fun hwin => hquiet hwin e List.mem_cons_self
    obtain ⟨s₂, h₂, hi₂, hidle₂⟩ :=
      ih hi₁ hidle₁ (fun e' he' => hne e' (List.mem_cons_of_mem _ he'))
      fun hwin e' he' => hquiet hwin e' (List.mem_cons_of_mem _ he')
    refine ⟨s₂, ?_, hi₂, hidle₂⟩
    rw [Macs.runMacs, h₁]
    simp [h₂]

theorem Macs.runMacs_append (slot : SfnSf) (es fs : List (Nat × SlotInput)) (s : Macs) :
    Macs.runMacs slot (es ++ fs) s = (Macs.runMacs slot es s).bind fun x =>
      (Macs.runMacs slot fs x.2).map fun y => (x.1 ++ y.1, y.2) := by
  induction es generalizing s with
  | nil =>
    simp [Macs.runMacs]
  | cons e es ih =>
    rw [List.cons_append, Macs.runMacs, Macs.runMacs]
    cases s.runMac slot e with
    | none => rfl
    | some x =>
      simp only [Option.bind_eq_bind, Option.bind_some, ih]
      cases Macs.runMacs slot es x.2 with
      | none => rfl
      | some y =>
        simp only [Option.bind_some, Option.pure_def, Option.bind_map]
        cases Macs.runMacs slot fs y.2 with
        | none => rfl
        | some z => simp

/-! ## Runs -/

/-- The state of the run at the start of slot `t`, for the MAC `a`. -/
structure MacsInv (configurationTime mu : Nat) (own : Nat → SlotInput) (r₀ t a : Nat)
    (s : Macs) : Prop where
  inv : Inv configurationTime mu own r₀ t (s.scope a)
  idle : ∀ i ≠ a, Idle (t < r₀ + slotsConfiguration configurationTime mu) (s.mac i)

/-- A slot of all MACs. -/
theorem MacsInv.step (h : Separable C mu own r₀) {input : Nat → List (Nat × SlotInput)}
    (ho : OwnWindow C mu input a own r₀) (hi : MacsInv C mu own r₀ t a s)
    (hwrap : t + 1 + 256 < SfnSf.totalSlots mu) :
    ∃ calls s', Macs.runMacs (SfnSf.slotAt mu t) (input t) s = some (calls.map (Prod.mk a), s') ∧
      MacsInv C mu own r₀ (t + 1) a s' ∧ CallsOf C mu own r₀ t calls := by
  obtain ⟨before, after, hsplit, hbefore, -, hafter⟩ := List.filter_eq_cons_iff.mp (ho.served t)
  have hne : ∀ e ∈ before, e.1 ≠ a := by
    intro e he heq
    exact hbefore e he (decide_eq_true heq)
  have hne' : ∀ e ∈ after, e.1 ≠ a := by
    intro e he heq
    exact List.filter_eq_nil_iff.mp hafter e he (decide_eq_true heq)
  have hquiet : t < r₀ + slotsConfiguration C mu → ∀ e ∈ before ++ after, e.2.requests = [] := by
    intro hwin e he
    refine ho.quiet t hwin e ?_ ?_
    · rw [hsplit]
      rcases List.mem_append.mp he with he | he
      · exact List.mem_append_left _ he
      · exact List.mem_append_right _ (List.mem_cons_of_mem _ he)
    · rcases List.mem_append.mp he with he | he
      · exact hne e he
      · exact hne' e he
  obtain ⟨s₁, h₁, hi₁, hidle₁⟩ :=
    hi.inv.runMacs_idle h le_rfl (Nat.le_succ t) (by omega) hi.idle hne
    fun hwin e he => hquiet hwin e (List.mem_append_left _ he)
  obtain ⟨calls, m, hm, him, hcalls⟩ := hi₁.runSlot h hwrap
  have hidle₂ : ∀ i ≠ a, Idle (t < r₀ + slotsConfiguration C mu) ((s₁.put a m).mac i) := by
    intro i hia
    change Idle _ (Function.update s₁.mac a m.toNrGnbMac i)
    rw [Function.update_of_ne hia]
    exact hidle₁ i hia
  rw [← Macs.scope_put_self s₁ a m] at him
  obtain ⟨s₃, h₃, hi₃, hidle₃⟩ := him.runMacs_idle h (Nat.le_succ t) le_rfl hwrap hidle₂ hne'
    fun hwin e he => hquiet hwin e (List.mem_append_right _ he)
  refine ⟨calls, s₃, ?_, ⟨hi₃, ?_⟩, hcalls⟩
  · rw [hsplit, Macs.runMacs_append, h₁, Option.bind_some, Macs.runMacs, Macs.runMac, hm]
    simp [h₃]
  · intro i hia
    have hi' := hidle₃ i hia
    exact ⟨hi'.paramsCG, hi'.countCGSlots, fun hlt => hi'.srRntiList (by omega)⟩

end Slot

end Ns3.Nr.GnbMac
