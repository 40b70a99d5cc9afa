import Ns3.Lte.RlcUmWindow

/-!
# The receiver of the unacknowledged mode

Between two events the buffer lies inside the window, and everything before it was passed on. The
invariant needs that a PDU behind the window does not leave older ones under greater numbers:
`ReassembleOutsideWindow` stops at the first entry of the map inside the window.
-/

namespace Ns3.Lte

open Ns3.Lib

namespace LteRlcUm

variable {pdus : List (List UInt8)} {segs : List (Segment UInt8)} {u : LteRlcUm}
  {next ur uh high : Nat} {base base' : Int}

/-- The buffer holds the PDU of the position `p`. -/
def Has (u : LteRlcUm) (p : Nat) : Prop := ∃ e ∈ u.rxBuffer.entries, e.2.uid = p

/-- VR(UR) passes the PDUs that follow it without a gap. -/
theorem reassembleInSequence_spec (hs : Sender pdus segs) (h : Delivering segs u next)
    (hlow : Holds pdus u ur high) (hhigh : high ≤ ur + 1024) (hnext : next ≤ ur)
    (hnear : Near u next) (hur : u.vrUr = .pos ur base) (hbase : base ≤ ur)
    (hgap : ∀ w : Nat, (∀ q, ur ≤ q → q < w → u.Has q) → w < base + 1024) :
    ∃ u' ur' next', u.reassembleInSequence = some u' ∧ ur ≤ ur' ∧
      (∀ q, ur ≤ q → q < ur' → u.Has q) ∧ u'.vrUr = .pos ur' base ∧ u'.vrUh = u.vrUh ∧
      Drained segs { u with vrUr := .pos ur' base } u' next next' ur' := by
  unfold reassembleInSequence
  rw [hur, SequenceNumber10.value_pos_natCast]
  by_cases hfind : (u.rxBuffer.find? (ur % 1024)).isSome
  · rw [if_pos hfind]
    have hhas := (hlow.mem_of_find? hhigh (Nat.le_refl _) (by omega)).mp hfind
    obtain ⟨w, hw, hvw, hall⟩ := firstMissing_spec 1025 hlow hhigh
      (v := ur + 1) (by omega) (by omega) (by omega)
    have hstart : ur % 1024 + (ur + 1 - ur) = ur % 1024 + 1 := by omega
    rw [hstart] at hw
    have hall' : ∀ q, ur ≤ q → q < w → u.Has q := by
      intro q hq hqw
      by_cases hqu : q = ur
      · exact hqu ▸ hhas
      · exact hall q (by omega) hqw
    have hassign : (SequenceNumber10.pos ur base).assign (ur % 1024 + (w - ur)) = .pos w base := by
      simp only [SequenceNumber10.assign, SequenceNumber10.pos, SequenceNumber10.mk.injEq, and_true]
      omega
    have hw_base := hgap w hall'
    obtain ⟨u', next', hu', huh, hdr⟩ := drained_snIntervalLoop (u := { u with
      vrUr := .pos w base }) base w 1024 hs ⟨h.settled, h.expected, h.follows, h.increasing,
        h.passed_lt⟩ hlow hhigh hnext hnear hbase (by omega) hw_base (by omega)
    refine ⟨u', w, next', ?_, by omega, hall', hdr.window.vrUr, huh, hdr⟩
    simpa [hw, hassign, reassembleSnInterval] using hu'
  · rw [if_neg hfind]
    refine ⟨u, ur, next, rfl, Nat.le_refl _, fun q hq hq' => absurd hq' (Nat.not_lt.mpr hq), hur,
      rfl, ?_⟩
    rw [← hur]
    exact .refl h hlow hnext hnear

/-- What the timer is set to does not change the rest. -/
structure TimerSet (u u' : LteRlcUm) (uh ur : Nat) : Prop where
  vrUh : u'.vrUh = .pos uh (uh - 512 : Int)
  vrUr : u'.vrUr = .pos ur (uh - 512 : Int)
  vrUx : u'.reorderingTimer = true →
    ∃ ux : Nat, u'.vrUx = .pos ux (uh - 512 : Int) ∧ ur < ux ∧ ux ≤ uh
  rxBuffer : u'.rxBuffer = u.rxBuffer
  reassembly : u'.reassembly = u.reassembly
  passed : u'.passed = u.passed
  placed : u'.placed = u.placed

theorem timerSet_startTimer (huh : u.vrUh = .pos uh (uh - 512 : Int))
    (hur : u.vrUr = .pos ur (uh - 512 : Int)) (hle : ur ≤ uh) (hwindow : uh ≤ ur + 512)
    (hux : u.reorderingTimer = true →
      ∃ ux : Nat, u.vrUx = .pos ux (uh - 512 : Int) ∧ ur < ux ∧ ux ≤ uh) :
    TimerSet u u.startTimer uh ur := by
  have hgt : u.vrUh.gt u.vrUr = decide (ur < uh) := by
    rw [huh, hur, SequenceNumber10.pos_gt (by omega) (by omega) (by omega) (by omega),
      decide_eq_decide]
    omega
  unfold startTimer
  by_cases hstart : (!u.reorderingTimer) = true ∧ u.vrUh.gt u.vrUr = true
  · rw [if_pos hstart]
    rw [hgt, decide_eq_true_eq] at hstart
    exact ⟨huh, hur, fun _ => ⟨uh, huh, hstart.2, Nat.le_refl _⟩, rfl, rfl, rfl, rfl⟩
  · rw [if_neg hstart]
    exact ⟨huh, hur, hux, rfl, rfl, rfl, rfl⟩

/-- t-Reordering goes on only for a position behind VR(UR). -/
theorem stopTimer_spec {ux : Nat} (huh : u.vrUh = .pos uh (uh - 512 : Int))
    (hur : u.vrUr = .pos ur (uh - 512 : Int)) (hux : u.vrUx = .pos ux (uh - 512 : Int))
    (hle : ur ≤ uh) (hwindow : uh ≤ ur + 512) (hux_le : ux ≤ uh) (hux_lt : uh < ux + 1024) :
    u.stopTimer = { u with reorderingTimer := u.reorderingTimer && decide (ur < ux) } := by
  have hinside : u.isInsideReorderingWindow u.vrUx = decide (uh ≤ ux + 512 ∧ ux < uh) := by
    rw [hux, isInside_pos huh (by omega) (by omega)]
  have heq : u.vrUx.eq u.vrUh = decide (ux = uh) := by
    rw [hux, huh, SequenceNumber10.eq_pos (by omega) (by omega), decide_eq_decide]
    omega
  have hstop : (u.vrUx.le u.vrUr = true ∨ (!u.isInsideReorderingWindow u.vrUx) = true ∧
      (!u.vrUx.eq u.vrUh) = true) ↔ ¬ ur < ux := by
    by_cases hin : uh ≤ ux + 512
    · have hcmp : u.vrUx.le u.vrUr = decide (ux ≤ ur) := by
        rw [hux, hur, SequenceNumber10.pos_le (by omega) (by omega) (by omega) (by omega),
          decide_eq_decide]
        omega
      rw [hcmp, hinside, heq]
      simp only [decide_eq_true_eq, Bool.not_eq_eq_eq_not, Bool.not_true, decide_eq_false_iff_not]
      omega
    · rw [hinside, heq]
      simp only [Bool.not_eq_eq_eq_not, Bool.not_true, decide_eq_false_iff_not]
      omega
  unfold stopTimer
  by_cases hrun : u.reorderingTimer = true
  · by_cases hlt : ur < ux
    · rw [if_neg (fun h => hstop.mp h.2 hlt)]
      cases u
      simp_all
    · rw [if_pos ⟨hrun, hstop.mpr hlt⟩]
      simp [hlt]
  · rw [if_neg (fun h => hrun h.1)]
    cases u
    simp_all

/-- t-Reordering runs for a position inside the window behind VR(UR), or for its end. -/
theorem timerSet_updateTimer (huh : u.vrUh = .pos uh base) (hur : u.vrUr = .pos ur base')
    (hle : ur ≤ uh) (hwindow : uh ≤ ur + 512)
    (hux : u.reorderingTimer = true →
      ∃ ux : Nat, u.vrUx.value = ux % 1024 ∧ ux ≤ uh ∧ uh < ux + 1024) :
    TimerSet u u.setBases.stopTimer.startTimer uh ur := by
  have hbase : u.vrUh.sub umWindowSize = .pos (uh - 512 : Int) base := by
    rw [huh]
    exact SequenceNumber10.pos_sub _ _ (by decide)
  have huh' : u.setBases.vrUh = .pos uh (uh - 512 : Int) := by
    show u.vrUh.setModulusBase (u.vrUh.sub umWindowSize) = _
    rw [hbase, huh, SequenceNumber10.pos_setModulusBase]
  have hur' : u.setBases.vrUr = .pos ur (uh - 512 : Int) := by
    show u.vrUr.setModulusBase (u.vrUh.sub umWindowSize) = _
    rw [hbase, hur, SequenceNumber10.pos_setModulusBase]
  cases hrun : u.reorderingTimer with
  | false =>
    have hstop : u.setBases.stopTimer = u.setBases := by simp [stopTimer, setBases, hrun]
    rw [hstop]
    have hset := timerSet_startTimer huh' hur' hle hwindow fun h => by simp [setBases, hrun] at h
    exact ⟨hset.vrUh, hset.vrUr, hset.vrUx, hset.rxBuffer, hset.reassembly, hset.passed,
      hset.placed⟩
  | true =>
    obtain ⟨ux, hval, hux_le, hux_lt⟩ := hux hrun
    have hux' : u.setBases.vrUx = .pos ux (uh - 512 : Int) := by
      simp only [setBases, hbase]
      exact SequenceNumber10.setModulusBase_pos hval _ _
    rw [stopTimer_spec huh' hur' hux' hle hwindow hux_le hux_lt]
    have hset := timerSet_startTimer (u := { u.setBases with
      reorderingTimer := u.setBases.reorderingTimer && decide (ur < ux) }) huh' hur' hle hwindow
      fun h => by
        rw [Bool.and_eq_true, decide_eq_true_eq] at h
        exact ⟨ux, hux', h.2, hux_le⟩
    exact ⟨hset.vrUh, hset.vrUr, hset.vrUx, hset.rxBuffer, hset.reassembly, hset.passed,
      hset.placed⟩

/-! ## A new PDU -/

/-- A PDU at or behind VR(UR) goes to the buffer. -/
theorem holds_place (hlow : Holds pdus u ur uh) (hwindow : uh ≤ ur + 512) {p : Packet}
    (hp : Sent pdus p) (hur : ur ≤ p.uid) (hnear : p.uid < uh + 512) :
    Holds pdus (u.place (p.uid % 1024) p) ur (max uh (p.uid + 1)) ∧
      ∀ q, (u.place (p.uid % 1024) p).Has q ↔ q = p.uid ∨ u.Has q := by
  constructor
  · intro e he
    rcases OrderedMap.mem_insert.mp he with rfl | ⟨-, he⟩
    · exact ⟨hp, rfl, hur, by simp⟩
    · obtain ⟨hsent, hkey, hle, hlt⟩ := hlow e he
      exact ⟨hsent, hkey, hle, lt_max_of_lt_left hlt⟩
  · intro q
    constructor
    · rintro ⟨e, he, rfl⟩
      rcases OrderedMap.mem_insert.mp he with rfl | ⟨-, he⟩
      · exact Or.inl rfl
      · exact Or.inr ⟨e, he, rfl⟩
    · rintro (rfl | ⟨e, he, rfl⟩)
      · exact ⟨_, OrderedMap.mem_insert.mpr (Or.inl rfl), rfl⟩
      · by_cases hkey : e.1 = p.uid % 1024
        · -- the entry with that number is the same PDU
          obtain ⟨-, hkey_e, hle, hlt⟩ := hlow e he
          have huid : p.uid = e.2.uid := by omega
          exact ⟨_, OrderedMap.mem_insert.mpr (Or.inl rfl), huid⟩
        · exact ⟨e, OrderedMap.mem_insert.mpr (Or.inr ⟨hkey, he⟩), rfl⟩

/-- Each PDU that a reception puts outside the window has a lower number than the received one. -/
def InOrder (u : LteRlcUm) (sn : Nat) : Prop :=
  u.isInsideReorderingWindow (.ofValue sn) = false → ∀ e ∈ u.rxBuffer.entries,
    isInsideReorderingWindow { u with vrUh := (SequenceNumber10.ofValue sn).add 1 }
      (.ofValue e.1) = false → e.1 < sn

/-- A PDU behind the window moves it, and VR(UR) with its start. -/
theorem moveWindow_outside (hs : Sender pdus segs) {x : Nat} (h : Delivering segs u next)
    (hlow : Holds pdus u ur (x + 1)) (hnext : next ≤ ur) (hnear : Near u next)
    (huh : u.vrUh = .pos uh (uh - 512 : Int)) (hur : u.vrUr = .pos ur (uh - 512 : Int))
    (hle : ur ≤ uh) (hwindow : uh ≤ ur + 512) (hx : uh ≤ x) (hx' : x < uh + 512) (hhas : u.Has x)
    (horder : ∀ e ∈ u.rxBuffer.entries, e.2.uid + 512 ≤ x → e.1 < x % 1024) :
    ∃ u' ur' next' base', u.moveWindow (.pos x (uh - 512 : Int)) = some u' ∧
      u'.vrUh = .pos (x + 1 : Nat) (x + 1 - 512 : Int) ∧ u'.vrUr = .pos (ur' : Nat) base' ∧
      (base' = uh - 512 ∧ ur' = ur ∨ base' = x + 1 - 512 ∧ (ur' : Int) = x + 1 - 512) ∧
      ur ≤ ur' ∧ x + 1 ≤ ur' + 512 ∧ ur' ≤ x + 1 ∧
      Drained segs { u with vrUr := .pos ur' base' } u' next next' ur' := by
  have hout : u.isInsideReorderingWindow (.pos x (uh - 512 : Int)) = false := by
    rw [isInside_pos huh (by omega) (by omega)]
    exact decide_eq_false (by omega)
  have hadd : (SequenceNumber10.pos x (uh - 512 : Int)).add 1 =
      .pos (x + 1 : Nat) (uh - 512 : Int) := by
    rw [SequenceNumber10.pos_add]
    rfl
  obtain ⟨u', next', hu', huh', hdr⟩ := drained_outsideLoop
    (u := { u.setWindowBase with vrUh := .pos (x + 1 : Nat) (uh - 512 : Int) }) hs rfl
    ⟨h.settled, h.expected, h.follows, h.increasing, h.passed_lt⟩ hlow (by omega) hnext hnear rfl
    hhas horder
  have hur' : u'.vrUr = .pos ur (uh - 512 : Int) := hdr.window.vrUr.trans hur
  have hinside := isInside_pos (p := ur) huh' (by omega) (by omega) (uh - 512 : Int)
  have hmove : u.moveWindow (.pos x (uh - 512 : Int)) =
      some (if u'.isInsideReorderingWindow u'.vrUr then u'.setWindowBase
        else { u'.setWindowBase with vrUr := u'.setWindowBase.vrUh.sub umWindowSize }) := by
    simp only [moveWindow, hout, hadd, reassembleOutsideWindow, Bool.false_eq_true, if_false]
    exact congrArg (fun o => o.bind fun v => some (if v.isInsideReorderingWindow v.vrUr then
      v.setWindowBase else { v.setWindowBase with vrUr := v.setWindowBase.vrUh.sub umWindowSize }))
      hu'
  rw [hmove, hur', hinside]
  have huh'' : u'.setWindowBase.vrUh = .pos (x + 1 : Nat) (x + 1 - 512 : Int) := by
    rw [setWindowBase_pos huh']
    rfl
  by_cases hin : x + 1 ≤ ur + 512
  · have hdec : decide (x + 1 ≤ ur + 512 ∧ ur < x + 1) = true := decide_eq_true ⟨hin, by omega⟩
    have hmax : max ur (x + 1 - 512) = ur := by omega
    rw [hmax] at hdr
    rw [if_pos hdec]
    refine ⟨_, ur, next', uh - 512, rfl, huh'', hur', Or.inl ⟨rfl, rfl⟩, Nat.le_refl _, hin,
      by omega, ?_⟩
    rw [← hur]
    exact ⟨hdr.delivering.setWindowBase, hdr.entries, hdr.passed, hdr.passed_mono, hdr.next_le,
      hdr.next_le_bound, hdr.near, hdr.window.vrUr, hdr.window.vrUx, hdr.window.reorderingTimer,
      hdr.window.placed⟩
  · have hdec : decide (x + 1 ≤ ur + 512 ∧ ur < x + 1) = false := decide_eq_false fun h => hin h.1
    have hmax : max ur (x + 1 - 512) = x + 1 - 512 := by omega
    rw [hmax] at hdr
    have hsub : u'.setWindowBase.vrUh.sub umWindowSize =
        .pos (x + 1 - 512 : Nat) (x + 1 - 512 : Int) := by
      rw [huh'', show umWindowSize = 512 from rfl, SequenceNumber10.pos_sub _ _ (by decide)]
      congr 1
      omega
    rw [hdec, hsub, if_neg (by simp)]
    refine ⟨_, x + 1 - 512, next', x + 1 - 512, rfl, huh'', rfl, Or.inr ⟨rfl, by omega⟩, by omega,
      by omega, by omega, ?_⟩
    exact ⟨⟨hdr.delivering.settled, hdr.delivering.expected, hdr.delivering.follows,
      hdr.delivering.increasing, hdr.delivering.passed_lt⟩, hdr.entries, hdr.passed,
      hdr.passed_mono, hdr.next_le, hdr.next_le_bound, hdr.near.of_eq rfl, rfl, hdr.window.vrUx,
      hdr.window.reorderingTimer, hdr.window.placed⟩

/-! ## The invariant -/

/-- Between two events. `uh` is one past the highest position received. -/
structure Inv (pdus : List (List UInt8)) (segs : List (Segment UInt8)) (u : LteRlcUm)
    (uh ur next : Nat) (base : Int) : Prop where
  vrUh : u.vrUh = .pos uh base
  vrUr : u.vrUr = .pos ur base
  timer : u.reorderingTimer = true →
    base = uh - 512 ∧ ∃ ux : Nat, u.vrUx = .pos ux base ∧ ur < ux ∧ ux ≤ uh
  ur_le : ur ≤ uh
  window : uh ≤ ur + 512
  holds : Holds pdus u ur uh
  delivering : Delivering segs u next
  next_le : next ≤ ur
  last : next = uh ∨ (∃ e ∈ u.rxBuffer.entries, e.2.uid + 1 = uh) ∧
    ∃ e ∈ u.rxBuffer.entries, e.2.uid < next + 1024
  placed : ∀ p ∈ u.placed, p ∈ u.passed ∨ u.Has p

theorem Inv.near (h : Inv pdus segs u uh ur next base) : Near u next := by
  rcases h.last with hnext | ⟨-, hnear⟩
  · left
    by_contra hne
    obtain ⟨e, he⟩ := List.exists_mem_of_ne_nil _ hne
    have hle := (h.holds e he).2.2
    have := h.next_le
    omega
  · exact Or.inr hnear

theorem Inv.start : Inv pdus segs {} 0 0 0 0 where
  vrUh := rfl
  vrUr := rfl
  timer := nofun
  ur_le := Nat.le_refl _
  window := by omega
  holds := fun e he => absurd he OrderedMap.mem_empty
  delivering := ⟨⟨rfl, nofun⟩, rfl, Follows.zero, .nil, nofun⟩
  next_le := Nat.le_refl _
  last := Or.inl rfl
  placed := nofun

/-- What remains when PDUs were passed on up to VR(UR). -/
theorem Drained.last {u' : LteRlcUm} {next' ur' : Nat} (hdr : Drained segs u u' next next' ur')
    (hle : ur' ≤ high)
    (htop : next = high ∨ ∃ e ∈ u.rxBuffer.entries, e.2.uid + 1 = high) :
    next' = high ∨ (∃ e ∈ u'.rxBuffer.entries, e.2.uid + 1 = high) ∧
      ∃ e ∈ u'.rxBuffer.entries, e.2.uid < next' + 1024 := by
  have hle' := hdr.next_le_bound
  rcases htop with hnext | ⟨e, he, htop⟩
  · have := hdr.next_le
    left
    omega
  · by_cases hlt : e.2.uid < ur'
    · have := (hdr.passed e he hlt).2
      left
      omega
    · have he' := (hdr.entries e).mpr ⟨he, Nat.not_lt.mp hlt⟩
      refine Or.inr ⟨⟨e, he', htop⟩, ?_⟩
      rcases hdr.near with hempty | hnear
      · rw [hempty] at he'
        cases he'
      · exact hnear

theorem Drained.placed {u' : LteRlcUm} {next' bound : Nat}
    (hdr : Drained segs u u' next next' bound)
    (hplaced : ∀ p ∈ u.placed, p ∈ u.passed ∨ u.Has p) :
    ∀ p ∈ u'.placed, p ∈ u'.passed ∨ u'.Has p := by
  intro p hp
  rw [hdr.window.placed] at hp
  rcases hplaced p hp with hp | ⟨e, he, rfl⟩
  · exact Or.inl (hdr.passed_mono p hp)
  · by_cases hlt : e.2.uid < bound
    · exact Or.inl (hdr.passed e he hlt).1
    · exact Or.inr ⟨e, (hdr.entries e).mpr ⟨he, Nat.not_lt.mp hlt⟩, rfl⟩

/-- From a new PDU in the buffer to the end of the reception. -/
theorem inv_finish (hs : Sender pdus segs) (h : Delivering segs u next)
    (hlow : Holds pdus u ur uh) (hnext : next ≤ ur) (hnear : Near u next)
    (huh : u.vrUh = .pos uh (uh - 512 : Int)) (hur : u.vrUr = .pos ur base) (hbase : base ≤ ur)
    (hle : ur ≤ uh) (hwindow : uh ≤ ur + 512)
    (hgap : ∀ w : Nat, (∀ q, ur ≤ q → q < w → u.Has q) → w < base + 1024)
    (htop : next = uh ∨ ∃ e ∈ u.rxBuffer.entries, e.2.uid + 1 = uh)
    (hplaced : ∀ p ∈ u.placed, p ∈ u.passed ∨ u.Has p)
    (hux : u.reorderingTimer = true →
      ∃ ux : Nat, u.vrUx.value = ux % 1024 ∧ ux ≤ uh ∧ uh < ux + 1024) :
    ∃ u' ur' next', u.reassembleInSequence = some u' ∧
      Inv pdus segs u'.setBases.stopTimer.startTimer uh ur' next' (uh - 512) := by
  obtain ⟨u', ur', next', hu', hur_le, hall, hur', huh', hdr⟩ :=
    reassembleInSequence_spec hs h hlow (by omega) hnext hnear hur hbase hgap
  have hle' : ur' ≤ uh := by
    by_contra hgt
    obtain ⟨e, he, heq⟩ := hall uh hle (by omega)
    have := (hlow e he).2.2.2
    omega
  have hlow' : Holds pdus u' ur' uh := hdr.holds hlow
  have hset := timerSet_updateTimer (huh'.trans huh) hur' hle' (by omega)
    (by
      rw [hdr.window.reorderingTimer, hdr.window.vrUx]
      exact hux)
  have hlast := hdr.last hle' htop
  have hplaced' := hdr.placed hplaced
  refine ⟨u', ur', next', hu', hset.vrUh, hset.vrUr, fun hrun => ⟨rfl, hset.vrUx hrun⟩, hle',
    by omega, ?_, ?_, hdr.next_le_bound, ?_, ?_⟩
  · unfold Holds
    rw [hset.rxBuffer]
    exact hlow'
  · obtain ⟨hd1, hd2, hd3, hd4, hd5⟩ := hdr.delivering
    rw [← hset.reassembly] at hd1 hd2 hd3
    rw [← hset.passed] at hd4 hd5
    exact ⟨hd1, hd2, hd3, hd4, hd5⟩
  · rw [hset.rxBuffer]
    exact hlast
  · rw [hset.placed, hset.passed]
    unfold Has
    rw [hset.rxBuffer]
    exact hplaced'

/-! ## Reception -/

theorem discards_pos (hlow : Holds pdus u ur uh) (huh : u.vrUh = .pos uh (uh - 512 : Int))
    (hur : u.vrUr = .pos ur (uh - 512 : Int)) (hle : ur ≤ uh) (hwindow : uh ≤ ur + 512) {x : Nat}
    (hx : x < uh + 512) (hx' : uh < x + 512) :
    u.discards (.pos x (uh - 512 : Int)) = true ↔ x < ur ∨ ur < x ∧ x < uh ∧ u.Has x := by
  have hsub : u.vrUh.sub umWindowSize = .pos (uh - 512 : Int) (uh - 512 : Int) := by
    rw [huh]
    exact SequenceNumber10.pos_sub _ _ (by decide)
  have hfind : ur ≤ x → x < uh → ((u.rxBuffer.find? (x % 1024)).isSome ↔ u.Has x) :=
    fun h1 h2 => hlow.mem_of_find? (by omega) h1 (by omega)
  unfold discards
  rw [hsub, huh, hur, SequenceNumber10.value_pos_natCast,
    SequenceNumber10.pos_lt (by omega) (by omega) (by omega) (by omega),
    SequenceNumber10.pos_lt (by omega) (by omega) (by omega) (by omega),
    SequenceNumber10.pos_lt (by omega) (by omega) (by omega) (by omega),
    SequenceNumber10.pos_le (by omega) (by omega) (by omega) (by omega)]
  simp only [Bool.or_eq_true, Bool.and_eq_true, decide_eq_true_eq, Nat.cast_lt]
  constructor
  · rintro (⟨⟨h1, h2⟩, h3⟩ | ⟨h1, h2⟩)
    · exact Or.inr ⟨h1, h2, (hfind (Nat.le_of_lt h1) h2).mp h3⟩
    · exact Or.inl h2
  · rintro (h | ⟨h1, h2, h3⟩)
    · exact Or.inr ⟨by omega, h⟩
    · exact Or.inl ⟨⟨h1, h2⟩, (hfind (Nat.le_of_lt h1) h2).mpr h3⟩

/-- The modulus bases that a reception begins with. -/
def rebase (u : LteRlcUm) : LteRlcUm :=
  { u with
    vrUr := u.vrUr.setModulusBase (u.vrUh.sub umWindowSize)
    vrUh := u.vrUh.setModulusBase (u.vrUh.sub umWindowSize) }

theorem Inv.rebase (h : Inv pdus segs u uh ur next base) :
    Inv pdus segs u.rebase uh ur next (uh - 512) := by
  have hbase : u.vrUh.sub umWindowSize = .pos (uh - 512 : Int) base := by
    rw [h.vrUh]
    exact SequenceNumber10.pos_sub _ _ (by decide)
  refine ⟨?_, ?_, ?_, h.ur_le, h.window, h.holds, ?_, h.next_le, h.last, h.placed⟩
  · simp only [LteRlcUm.rebase, hbase]
    rw [h.vrUh, SequenceNumber10.pos_setModulusBase]
  · simp only [LteRlcUm.rebase, hbase]
    rw [h.vrUr, SequenceNumber10.pos_setModulusBase]
  · intro hrun
    obtain ⟨hb, ux, hux, hlt, hle⟩ := h.timer hrun
    exact ⟨rfl, ux, hb ▸ hux, hlt, hle⟩
  · exact ⟨h.delivering.settled, h.delivering.expected, h.delivering.follows,
      h.delivering.increasing, h.delivering.passed_lt⟩

/-- A PDU at or behind VR(UR) is placed in the buffer. -/
theorem Inv.place (hs : Sender pdus segs) (h : Inv pdus segs u uh ur next (uh - 512)) {p : Packet}
    (hp : Sent pdus p) (hx : p.uid < uh + 512) (hge : ur ≤ p.uid)
    (horder : uh ≤ p.uid → ∀ e ∈ u.rxBuffer.entries, e.2.uid + 512 ≤ p.uid → e.1 < p.uid % 1024) :
    ∃ u1 u2 ur' next',
      (u.place (p.uid % 1024) p).moveWindow (.pos p.uid (uh - 512 : Int)) = some u1 ∧
      u1.reassembleInSequence = some u2 ∧
      Inv pdus segs u2.setBases.stopTimer.startTimer (max uh (p.uid + 1)) ur' next'
        ((max uh (p.uid + 1) : Nat) - 512) := by
  obtain ⟨hlow, hhas⟩ := holds_place h.holds h.window hp hge hx
  have hur_le := h.ur_le
  have hwindow := h.window
  have hnext_le := h.next_le
  have hdel : Delivering segs (u.place (p.uid % 1024) p) next :=
    ⟨h.delivering.settled, h.delivering.expected, h.delivering.follows, h.delivering.increasing,
      h.delivering.passed_lt⟩
  have hplaced : ∀ q ∈ (u.place (p.uid % 1024) p).placed,
      q ∈ (u.place (p.uid % 1024) p).passed ∨ (u.place (p.uid % 1024) p).Has q := by
    intro q hq
    rw [hhas]
    rcases List.mem_append.mp hq with hq | hq
    · rcases h.placed q hq with hq | hq
      · exact Or.inl hq
      · exact Or.inr (Or.inr hq)
    · exact Or.inr (Or.inl (List.mem_singleton.mp hq))
  have hnear : Near (u.place (p.uid % 1024) p) next := by
    rcases h.last with hnext | ⟨-, e, he, hlt⟩
    · obtain ⟨e, he, heq⟩ := (hhas p.uid).mpr (Or.inl rfl)
      exact Or.inr ⟨e, he, by omega⟩
    · obtain ⟨f, hf, heq⟩ := (hhas e.2.uid).mpr (Or.inr ⟨e, he, rfl⟩)
      exact Or.inr ⟨f, hf, by omega⟩
  by_cases hin : p.uid < uh
  · have hmax : max uh (p.uid + 1) = uh := by omega
    rw [hmax] at hlow ⊢
    have hinside : (u.place (p.uid % 1024) p).isInsideReorderingWindow
        (.pos p.uid (uh - 512 : Int)) = true := by
      rw [isInside_pos (u := u.place (p.uid % 1024) p) h.vrUh (by omega) (by omega)]
      exact decide_eq_true (by omega)
    have htop : next = uh ∨ ∃ e ∈ (u.place (p.uid % 1024) p).rxBuffer.entries,
        e.2.uid + 1 = uh := by
      rcases h.last with hnext | ⟨⟨e, he, htop⟩, -⟩
      · exact Or.inl hnext
      · obtain ⟨f, hf, heq⟩ := (hhas e.2.uid).mpr (Or.inr ⟨e, he, rfl⟩)
        exact Or.inr ⟨f, hf, by omega⟩
    have hgap : ∀ w : Nat, (∀ q, ur ≤ q → q < w → (u.place (p.uid % 1024) p).Has q) →
        w < (uh - 512 : Int) + 1024 := by
      intro w hall
      by_contra hw
      obtain ⟨e, he, heq⟩ := hall uh hur_le (by omega)
      have := (hlow e he).2.2.2
      omega
    have hux : u.reorderingTimer = true →
        ∃ ux : Nat, u.vrUx.value = ux % 1024 ∧ ux ≤ uh ∧ uh < ux + 1024 := by
      intro hrun
      obtain ⟨-, ux, hux, hlt, hle⟩ := h.timer hrun
      exact ⟨ux, by rw [hux, SequenceNumber10.value_pos_natCast], hle, by omega⟩
    obtain ⟨u2, ur', next', hu2, hinv⟩ := inv_finish (u := (u.place (p.uid % 1024) p).setWindowBase)
      hs hdel.setWindowBase hlow hnext_le hnear (setWindowBase_pos h.vrUh) h.vrUr (by omega) hur_le
      hwindow hgap htop hplaced hux
    exact ⟨_, u2, ur', next', by simp only [moveWindow, hinside, if_true], hu2, hinv⟩
  · have hmax : max uh (p.uid + 1) = p.uid + 1 := by omega
    rw [hmax] at hlow ⊢
    have hxhas := (hhas p.uid).mpr (Or.inl rfl)
    have horder' : ∀ e ∈ (u.place (p.uid % 1024) p).rxBuffer.entries, e.2.uid + 512 ≤ p.uid →
        e.1 < p.uid % 1024 := by
      intro e he hle
      rcases OrderedMap.mem_insert.mp he with rfl | ⟨-, he⟩
      · simp only at hle
        omega
      · exact horder (Nat.not_lt.mp hin) e he hle
    obtain ⟨u1, ur1, next1, base1, hu1, huh1, hur1, hbase1, hge1, hwin1, hle1, hdr⟩ :=
      moveWindow_outside hs hdel hlow hnext_le hnear h.vrUh h.vrUr hur_le hwindow
        (Nat.not_lt.mp hin) hx hxhas horder'
    have hlow1 : Holds pdus u1 ur1 (p.uid + 1) := hdr.holds hlow
    have htop : next1 = p.uid + 1 ∨ ∃ e ∈ u1.rxBuffer.entries, e.2.uid + 1 = p.uid + 1 := by
      obtain ⟨e, he, heq⟩ := hxhas
      rcases hdr.last hle1 (Or.inr ⟨e, he, by omega⟩) with h1 | ⟨h1, -⟩
      · exact Or.inl h1
      · exact Or.inr h1
    have hhas1 : ∀ q, u1.Has q → q = p.uid ∨ u.Has q := by
      rintro q ⟨e, he, heq⟩
      exact (hhas q).mp ⟨e, ((hdr.entries e).mp he).1, heq⟩
    have hgap : ∀ w : Nat, (∀ q, ur1 ≤ q → q < w → u1.Has q) → w < base1 + 1024 := by
      intro w hall
      by_contra hw
      rcases hbase1 with ⟨hb, hur⟩ | ⟨hb, hur⟩
      · -- a run of PDUs without a gap reaches behind `uh` only if it ends there
        have hnot : ∀ q, uh ≤ q → q < w → q = p.uid := by
          intro q hq hqw
          rcases hhas1 q (hall q (by omega) hqw) with hq' | ⟨e, he, heq⟩
          · exact hq'
          · have := (h.holds e he).2.2.2
            omega
        have h1 := hnot uh (Nat.le_refl _) (by omega)
        have h2 := hnot (uh + 1) (by omega) (by omega)
        omega
      · obtain ⟨e, he, heq⟩ := hall (p.uid + 1) hle1 (by omega)
        have := (hlow1 e he).2.2.2
        omega
    have hux : u1.reorderingTimer = true →
        ∃ ux : Nat, u1.vrUx.value = ux % 1024 ∧ ux ≤ p.uid + 1 ∧ p.uid + 1 < ux + 1024 := by
      intro hrun
      rw [hdr.window.reorderingTimer] at hrun
      obtain ⟨-, ux, hux, hlt, hle⟩ := h.timer hrun
      refine ⟨ux, ?_, by omega, by omega⟩
      rw [hdr.window.vrUx, ← SequenceNumber10.value_pos_natCast ux (uh - 512 : Int), ← hux]
      rfl
    have huh1' : u1.vrUh = .pos (p.uid + 1 : Nat) ((p.uid + 1 : Nat) - 512 : Int) := huh1
    obtain ⟨u2, ur', next', hu2, hinv⟩ := inv_finish hs hdr.delivering hlow1
      hdr.next_le_bound hdr.near huh1' hur1 (by omega) hle1 hwin1 hgap htop (hdr.placed hplaced) hux
    exact ⟨u1, u2, ur', next', hu1, hu2, hinv⟩

/-- What `InOrder` says of positions. -/
theorem InOrder.lt_of_outside (h : Inv pdus segs u uh ur next base) {x : Nat}
    (horder : u.InOrder (x % 1024)) (hx : uh ≤ x) (hx' : x < uh + 512)
    {e : Nat × Packet} (he : e ∈ u.rxBuffer.entries) (hout : e.2.uid + 512 ≤ x) :
    e.1 < x % 1024 := by
  obtain ⟨-, hkey, hle, hlt⟩ := h.holds e he
  have hwindow := h.window
  have hadd : (SequenceNumber10.ofValue (x % 1024)).add 1 = .pos (x + 1 : Nat) 0 := by
    rw [SequenceNumber10.ofValue_mod, SequenceNumber10.pos_add]
    rfl
  have hadd' : ({ u with vrUh := .pos (x + 1 : Nat) 0 } : LteRlcUm).vrUh = .pos (x + 1 : Nat) 0 :=
    rfl
  apply horder ?_ e he ?_
  · rw [SequenceNumber10.ofValue_mod, isInside_pos h.vrUh (by omega) (by omega)]
    exact decide_eq_false (by omega)
  · rw [hadd, hkey, SequenceNumber10.ofValue_mod, isInside_pos hadd' (by omega)
      (by omega)]
    exact decide_eq_false (by omega)

/-- The reception of a PDU that is less than 512 positions away from `uh`. -/
theorem Inv.doReceivePdu (hs : Sender pdus segs) (h : Inv pdus segs u uh ur next base) {p : Packet}
    (hp : Sent pdus p) (hx : p.uid < uh + 512) (hx' : uh < p.uid + 512)
    (horder : u.InOrder (p.uid % 1024)) :
    ∃ u' ur' next' base', u.doReceivePdu p = some u' ∧
      Inv pdus segs u' (max uh (p.uid + 1)) ur' next' base' := by
  obtain ⟨hlt, hbytes⟩ := List.getElem?_eq_some_iff.mp hp
  have hc := hs.carries p.uid (hs.length_eq ▸ hlt) hlt
  rw [hbytes] at hc
  obtain ⟨rlcHeader, hdes, -, hsn, -⟩ := hc.header
  have hbase : u.vrUh.sub umWindowSize = .pos (uh - 512 : Int) base := by
    rw [h.vrUh]
    exact SequenceNumber10.pos_sub _ _ (by decide)
  have hseq : rlcHeader.sequenceNumber.setModulusBase (u.vrUh.sub umWindowSize) =
      .pos p.uid (uh - 512 : Int) := by
    rw [hsn, hbase, SequenceNumber10.pos_setModulusBase]
  have hre := h.rebase
  have hdis := discards_pos hre.holds hre.vrUh hre.vrUr h.ur_le h.window hx hx'
  have hreceive : u.doReceivePdu p =
      if u.rebase.discards (.pos p.uid (uh - 512 : Int)) then some u.rebase
      else ((u.rebase.place (p.uid % 1024) p).moveWindow (.pos p.uid (uh - 512 : Int))).bind
        fun u1 => u1.reassembleInSequence.bind fun u2 =>
          some u2.setBases.stopTimer.startTimer := by
    unfold LteRlcUm.doReceivePdu
    simp only [hdes, Option.bind_eq_bind, Option.bind_some, hseq,
      SequenceNumber10.value_pos_natCast]
    rfl
  rw [hreceive]
  by_cases hd : u.rebase.discards (.pos p.uid (uh - 512 : Int)) = true
  · rw [if_pos hd]
    have hmax : max uh (p.uid + 1) = uh := by
      have := h.ur_le
      rcases hdis.mp hd with h1 | ⟨-, h1, -⟩ <;> omega
    rw [hmax]
    exact ⟨u.rebase, ur, next, uh - 512, rfl, hre⟩
  · rw [if_neg hd]
    have hge : ur ≤ p.uid := by
      by_contra hlt'
      exact hd (hdis.mpr (Or.inl (Nat.not_le.mp hlt')))
    obtain ⟨u1, u2, ur', next', hu1, hu2, hinv⟩ := hre.place hs hp hx hge fun hle e he hout =>
      horder.lt_of_outside h hle hx he hout
    exact ⟨_, ur', next', _, by rw [hu1, Option.bind_some, hu2, Option.bind_some], hinv⟩

/-- The expiry of t-Reordering. -/
theorem Inv.expireReorderingTimer (hs : Sender pdus segs) (h : Inv pdus segs u uh ur next base) :
    ∃ u' ur' next', u.expireReorderingTimer = some u' ∧ Inv pdus segs u' uh ur' next' base := by
  unfold LteRlcUm.expireReorderingTimer
  by_cases hrun : u.reorderingTimer = true
  · rw [if_pos hrun]
    obtain ⟨hbase, ux, hux, hlt, hle⟩ := h.timer hrun
    have hur_le := h.ur_le
    have hwindow := h.window
    obtain ⟨w, hw, hge, hw_le⟩ := firstMissingSn_spec (u := { u with reorderingTimer := false })
      base 1024 h.holds (by omega) (v := ux) (by omega) hle (by omega)
    obtain ⟨u', next', hu', huh, hdr⟩ := drained_snIntervalLoop (u := { u with
      reorderingTimer := false, vrUr := .pos w base }) base w 1024 hs
      ⟨h.delivering.settled, h.delivering.expected, h.delivering.follows, h.delivering.increasing,
        h.delivering.passed_lt⟩ h.holds (by omega) h.next_le h.near (by omega) (by omega) (by omega)
      (by omega)
    have hgt : u'.vrUh.gt u'.vrUr = decide (w < uh) := by
      rw [huh, hdr.window.vrUr]
      simp only [h.vrUh]
      rw [SequenceNumber10.pos_gt (by omega) (by omega) (by omega) (by omega), decide_eq_decide]
      omega
    have hlast := hdr.last hw_le (h.last.imp id And.left)
    refine ⟨if u'.vrUh.gt u'.vrUr then { u' with reorderingTimer := true, vrUx := u'.vrUh } else u',
      w, next', ?_, ?_⟩
    · rw [← hux] at hw
      rw [← h.vrUr] at hu'
      simp only [hw, reassembleSnInterval, Option.bind_eq_bind, Option.bind_some, hu']
    · have huh' : u'.vrUh = .pos uh base := huh.trans h.vrUh
      by_cases hgo : w < uh
      · rw [if_pos (hgt.trans (decide_eq_true hgo))]
        exact ⟨huh', hdr.window.vrUr, fun _ => ⟨hbase, uh, huh', hgo, Nat.le_refl _⟩,
          hw_le, by omega, hdr.holds h.holds, ⟨hdr.delivering.settled, hdr.delivering.expected,
          hdr.delivering.follows, hdr.delivering.increasing, hdr.delivering.passed_lt⟩,
          hdr.next_le_bound, hlast, hdr.placed h.placed⟩
      · rw [if_neg (by rw [hgt]; simpa using hgo)]
        have hstopped : u'.reorderingTimer = false := hdr.window.reorderingTimer
        exact ⟨huh', hdr.window.vrUr, fun hr => by simp [hstopped] at hr, hw_le, by omega,
          hdr.holds h.holds, hdr.delivering, hdr.next_le_bound, hlast, hdr.placed h.placed⟩
  · rw [if_neg hrun]
    exact ⟨u, ur, next, rfl, h⟩

end LteRlcUm

end Ns3.Lte
