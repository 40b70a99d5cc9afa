import Ns3.Lte.RlcUmDelivery

/-!
# The numbers in the reception buffer

What the state variables, the timer and the numbers in the buffer are after each reception, for PDUs
of any number and any content, so also from several senders.

Two walks go wrong where the numbers wrap around: `ReassembleOutsideWindow` stops at the first entry
of the map inside the window (`InOrder`), and the walk for the new VR(UR) counts in `uint16_t` and
ends at 1024 (`Wraps`). In a run without them VR(UR) is in the window and is not in the buffer, the
buffer lies between VR(UR) and VR(UH), and t-Reordering runs while these differ
(`Reached.inWindow`).
-/

namespace Ns3.Lte

open Ns3.Lib

namespace LteRlcUm

/-! ## The property -/

/-- How far the number is behind VR(UH) - 512, in order modulo 1024. -/
def offset (u : LteRlcUm) (sn : Nat) : Nat := (sn + 1536 - u.vrUh.value) % 1024

/-- The state after a reception. VR(UH) has the offset 512. -/
structure InWindow (u : LteRlcUm) : Prop where
  vrUr_missing : u.rxBuffer.find? u.vrUr.value = none
  buffer : ∀ e ∈ u.rxBuffer.entries, u.offset u.vrUr.value ≤ u.offset e.1 ∧ u.offset e.1 < 512
  vrUr_le : u.offset u.vrUr.value ≤ 512
  timer : u.reorderingTimer = true ↔ u.offset u.vrUr.value < 512

/-- Where the walk for the new VR(UR) begins. -/
def walkStart (u : LteRlcUm) (sn : Nat) : Nat :=
  if u.isInsideReorderingWindow (.ofValue sn) ||
    isInsideReorderingWindow { u with vrUh := (SequenceNumber10.ofValue sn).add 1 } u.vrUr
  then u.vrUr.value else (((SequenceNumber10.ofValue sn).add 1).sub umWindowSize).value

/-- The walk passes the number 1023, and 0 is received too. -/
def Wraps (u : LteRlcUm) (sn : Nat) : Prop :=
  (∀ q, u.walkStart sn ≤ q → q < 1024 → (u.rxBuffer.find? q).isSome ∨ q = sn) ∧
    ((u.rxBuffer.find? 0).isSome ∨ sn = 0)

/-- The receptions in which both walks see the numbers in order. -/
def Orderly (u : LteRlcUm) (p : Packet) : Prop :=
  ∀ rlcHeader, LteRlcHeader.deserialize p.bytes = some rlcHeader →
    u.InOrder rlcHeader.sequenceNumber.value ∧ ¬u.Wraps rlcHeader.sequenceNumber.value

instance (u : LteRlcUm) (sn : Nat) : Decidable (u.InOrder sn) :=
  inferInstanceAs (Decidable (_ = false → ∀ e ∈ u.rxBuffer.entries, _ = false → e.1 < sn))

instance (u : LteRlcUm) (sn : Nat) : Decidable (u.Wraps sn) :=
  decidable_of_iff (((u.rxBuffer.find? 0).isSome ∨ sn = 0) ∧
      ∀ q < 1024, u.walkStart sn ≤ q → (u.rxBuffer.find? q).isSome ∨ q = sn)
    (and_comm.trans (and_congr_left fun _ => forall_congr' fun _ => forall_comm))

instance (u : LteRlcUm) (p : Packet) : Decidable (u.Orderly p) :=
  inferInstanceAs (Decidable (∀ rlcHeader ∈ LteRlcHeader.deserialize p.bytes,
    u.InOrder rlcHeader.sequenceNumber.value ∧ ¬u.Wraps rlcHeader.sequenceNumber.value))

/-- The states of a receiver of any PDUs. `Q` is the condition on each reception. -/
inductive Reached (Q : LteRlcUm → Packet → Prop) : LteRlcUm → Prop
  | start : Reached Q {}
  | receive {u u' : LteRlcUm} {p : Packet} (h : Reached Q u) (hQ : Q u p)
    (hu' : u.doReceivePdu p = some u') : Reached Q u'
  | expire {u u' : LteRlcUm} (h : Reached Q u) (hu' : u.expireReorderingTimer = some u') :
    Reached Q u'

/-! ## What passing PDUs on leaves -/

section Frame

variable {u u' : LteRlcUm} {p : Packet} {base : Int} {low bound high x : Nat}

/-- All that the window depends on, the buffer excepted, is as it was. -/
structure SameNumbers (u u' : LteRlcUm) : Prop where
  vrUr : u'.vrUr = u.vrUr
  vrUx : u'.vrUx = u.vrUx
  vrUh : u'.vrUh = u.vrUh
  reorderingTimer : u'.reorderingTimer = u.reorderingTimer

theorem SameNumbers.refl (u : LteRlcUm) : SameNumbers u u := ⟨rfl, rfl, rfl, rfl⟩

theorem SameNumbers.trans {u'' : LteRlcUm} (h : SameNumbers u u') (h' : SameNumbers u' u'') :
    SameNumbers u u'' :=
  ⟨h'.vrUr.trans h.vrUr, h'.vrUx.trans h.vrUx, h'.vrUh.trans h.vrUh,
    h'.reorderingTimer.trans h.reorderingTimer⟩

theorem sameNumbers_reassembleAndDeliver (hok : u.reassembleAndDeliver p = some u') :
    SameNumbers u u' ∧ u'.rxBuffer = u.rxBuffer := by
  unfold reassembleAndDeliver at hok
  obtain ⟨rlcHeader, -, hok⟩ := Option.bind_eq_some_iff.mp hok
  obtain ⟨reassembly, -, hok⟩ := Option.bind_eq_some_iff.mp hok
  cases hok
  exact ⟨⟨rfl, rfl, rfl, rfl⟩, rfl⟩

/-- From `u` to `u'`, the numbers from `low` on and before `bound` were removed. -/
structure Removed (u u' : LteRlcUm) (low bound : Nat) : Prop where
  same : SameNumbers u u'
  entries : ∀ e, e ∈ u'.rxBuffer.entries ↔
    e ∈ u.rxBuffer.entries ∧ ∀ q, low ≤ q → q < bound → e.1 ≠ q % 1024

theorem Removed.refl (u : LteRlcUm) (hle : bound ≤ low) : Removed u u low bound where
  same := .refl u
  entries := fun _ => ⟨fun he => ⟨he, fun _ hq hqb => absurd (hle.trans hq) (Nat.not_le.mpr hqb)⟩,
    And.left⟩

/-- A number that the buffer does not have is removed. -/
theorem Removed.of_missing (h : Removed u u' (low + 1) bound)
    (hfind : u.rxBuffer.find? (low % 1024) = none) : Removed u u' low bound where
  same := h.same
  entries := by
    intro e
    refine (h.entries e).trans (and_congr_right fun he => ⟨fun hall q hq hqb => ?_, fun hall q hq =>
      hall q (by omega)⟩)
    by_cases heq : q = low
    · intro hkey
      apply OrderedMap.find?_eq_none.mp hfind e.2
      rw [← heq, ← hkey]
      exact he
    · exact hall q (by omega) hqb

/-- A number is removed, then those behind it. -/
theorem Removed.of_erase {u1 : LteRlcUm} (hsame : SameNumbers u u1) (hlt : low < bound)
    (hentries : u1.rxBuffer = u.rxBuffer.erase (low % 1024)) (h : Removed u1 u' (low + 1) bound) :
    Removed u u' low bound where
  same := hsame.trans h.same
  entries := by
    intro e
    rw [h.entries, hentries, OrderedMap.mem_erase, and_assoc]
    refine and_congr_right fun _ => ⟨?_, ?_⟩
    · rintro ⟨hne, hall⟩ q hq hqb
      by_cases heq : q = low
      · exact heq ▸ hne
      · exact hall q (by omega) hqb
    · intro hall
      exact ⟨hall low (Nat.le_refl low) hlt, fun q hq => hall q (by omega)⟩

/-- The loop of `ReassembleSnInterval` removes the numbers from `low` on and before `bound`. -/
theorem removed_snIntervalLoop (fuel : Nat) (hbase : base ≤ low) (hle : low ≤ bound)
    (hbound : bound < base + 1024)
    (hok : u.snIntervalLoop (.pos low base) (.pos bound base) fuel = some u') :
    Removed u u' low bound := by
  have hlt : ∀ low : Nat, base ≤ low → low ≤ bound →
      (SequenceNumber10.pos low base).lt (.pos bound base) = decide (low < bound) := by
    intro low hbase hle
    rw [SequenceNumber10.pos_lt (by omega) (by omega) (by omega) (by omega), decide_eq_decide]
    omega
  have hsucc : ∀ low : Nat, (SequenceNumber10.pos low base).succ = .pos (low + 1 : Nat) base := by
    simp
  induction fuel generalizing u low with
  | zero =>
    unfold snIntervalLoop at hok
    rw [hlt low hbase hle] at hok
    split at hok
    · cases hok
    · next hnot =>
      cases hok
      exact .refl _ (by simpa using hnot)
  | succ fuel ih =>
    unfold snIntervalLoop at hok
    rw [hlt low hbase hle] at hok
    by_cases hgo : low < bound
    · rw [if_pos (decide_eq_true hgo), SequenceNumber10.value_pos_natCast, hsucc] at hok
      cases hfind : u.rxBuffer.find? (low % 1024) with
      | none =>
        rw [hfind] at hok
        exact (ih (by omega) (by omega) hok).of_missing hfind
      | some p =>
        rw [hfind] at hok
        obtain ⟨u1, hu1, hok⟩ := Option.bind_eq_some_iff.mp hok
        obtain ⟨hsame1, hbuffer1⟩ := sameNumbers_reassembleAndDeliver hu1
        have hrest := ih (by omega) (by omega) hok
        refine Removed.of_erase ?_ hgo ?_ hrest
        · exact ⟨hsame1.vrUr, hsame1.vrUx, hsame1.vrUh, hsame1.reorderingTimer⟩
        · rw [hbuffer1]
    · rw [if_neg (by simpa using hgo)] at hok
      cases hok
      exact .refl _ (Nat.not_lt.mp hgo)

/-- The numbers in the buffer are those of positions from `low` on and before `high`. -/
def Numbered (u : LteRlcUm) (low high : Nat) : Prop :=
  ∀ e ∈ u.rxBuffer.entries, ∃ q, e.1 = q % 1024 ∧ low ≤ q ∧ q < high

/-- The loop of `ReassembleOutsideWindow` leaves what is inside the window that ends behind the
position `x`, when each number outside is below that of `x`. -/
theorem outsideLoop_numbers {es : List (Nat × Packet)} (hes : u.rxBuffer.entries = es)
    (hlow : u.Numbered low (x + 1)) (hhigh : x < low + 1024)
    (huh : u.vrUh = .pos (x + 1 : Nat) base) (hx : ∃ e ∈ es, e.1 = x % 1024)
    (horder : ∀ e ∈ es, ∀ q, e.1 = q % 1024 → low ≤ q → q + 512 ≤ x → e.1 < x % 1024)
    (hok : u.outsideLoop es = some u') :
    u'.vrUh = .pos (x + 1 : Nat) (x + 1 - 512 : Int) ∧ u'.vrUr = u.vrUr ∧ u'.vrUx = u.vrUx ∧
      u'.reorderingTimer = u.reorderingTimer ∧ u'.Numbered (max low (x + 1 - 512)) (x + 1) ∧
      ∀ e ∈ u'.rxBuffer.entries, e ∈ u.rxBuffer.entries := by
  induction es generalizing u base with
  | nil =>
    obtain ⟨e, he, -⟩ := hx
    cases he
  | cons e es ih =>
    obtain ⟨k, p⟩ := e
    have hp : (k, p) ∈ u.rxBuffer.entries := hes ▸ List.mem_cons_self
    obtain ⟨q, hkey, hlow_q, hhigh_q⟩ := hlow _ hp
    simp only at hkey
    have hsorted := u.rxBuffer.sorted
    rw [hes, List.pairwise_cons] at hsorted
    have hinside := isInside_pos (p := q) huh (by omega) (by omega) 0
    rw [← SequenceNumber10.ofValue_mod, ← hkey] at hinside
    unfold outsideLoop at hok
    rw [hinside] at hok
    by_cases hin : x + 1 ≤ q + 512
    · rw [if_pos (decide_eq_true ⟨hin, hhigh_q⟩)] at hok
      cases hok
      refine ⟨setWindowBase_pos huh, rfl, rfl, rfl, ?_, fun _ he => he⟩
      -- an entry behind has a greater number, so it is inside too
      intro f hf
      obtain ⟨qf, hkey_f, hlow_f, hhigh_f⟩ := hlow f hf
      refine ⟨qf, hkey_f, max_le hlow_f ?_, hhigh_f⟩
      have hmem : f ∈ (k, p) :: es := hes ▸ hf
      obtain rfl | hf' := List.mem_cons.mp hmem
      · simp only at hkey_f
        omega
      · by_contra hout
        have hbelow := horder f hmem qf hkey_f hlow_f (by omega)
        have habove := hsorted.1 f hf'
        simp only at habove
        omega
    · rw [if_neg (by rw [decide_eq_true_eq]; exact fun h => hin h.1)] at hok
      obtain ⟨u1, hu1, hok⟩ := Option.bind_eq_some_iff.mp hok
      obtain ⟨hsame1, hbuffer1⟩ := sameNumbers_reassembleAndDeliver hu1
      have hes1 : (u1.rxBuffer.erase k).entries = es := by
        rw [hbuffer1]
        exact erase_head (u := u.setWindowBase) hes
      have hsub : ∀ f ∈ (u1.rxBuffer.erase k).entries, f ∈ u.rxBuffer.entries := by
        intro f hf
        rw [hes1] at hf
        exact hes ▸ List.mem_cons_of_mem _ hf
      have hx1 : ∃ e ∈ es, e.1 = x % 1024 := by
        obtain ⟨e, he, hex⟩ := hx
        obtain rfl | he := List.mem_cons.mp he
        · simp only at hex
          omega
        · exact ⟨e, he, hex⟩
      obtain ⟨huh', hur', hux', htimer', hnum', hsub'⟩ := ih (u := { u1 with
        rxBuffer := u1.rxBuffer.erase k }) hes1 (fun f hf => hlow f (hsub f hf))
        (hsame1.vrUh.trans (setWindowBase_pos huh)) hx1
        (fun f hf => horder f (List.mem_cons_of_mem _ hf)) hok
      exact ⟨huh', hur'.trans hsame1.vrUr, hux'.trans hsame1.vrUx,
        htimer'.trans hsame1.reorderingTimer, hnum', fun f hf => hsub f (hsub' f hf)⟩

/-- The loop over the `uint16_t` stops at the first number that is not in the buffer, or at 1024. -/
theorem firstMissing_numbers (hnum : ∀ e ∈ u.rxBuffer.entries, e.1 < 1024) (fuel : Nat) {v n : Nat}
    (hv : v ≤ 1024) (hok : u.firstMissing v fuel = some n) :
    v ≤ n ∧ n ≤ 1024 ∧ u.rxBuffer.find? n = none ∧
      ∀ q, v ≤ q → q < n → (u.rxBuffer.find? q).isSome := by
  induction fuel generalizing v with
  | zero => cases hok
  | succ fuel ih =>
    unfold firstMissing at hok
    by_cases hfind : (u.rxBuffer.find? v).isSome
    · rw [if_pos hfind] at hok
      have hlt : v < 1024 := by
        obtain ⟨packet, hpacket⟩ := Option.isSome_iff_exists.mp hfind
        exact hnum _ (OrderedMap.find?_eq_some.mp hpacket)
      rw [Nat.mod_eq_of_lt (by omega)] at hok
      obtain ⟨hle, hle', hnone, hall⟩ := ih hlt hok
      refine ⟨by omega, hle', hnone, fun q hq hqn => ?_⟩
      by_cases heq : q = v
      · exact heq ▸ hfind
      · exact hall q (by omega) hqn
    · rw [if_neg hfind] at hok
      obtain rfl : v = n := Option.some.inj hok
      refine ⟨Nat.le_refl v, hv, by simpa using hfind, fun q hq hqn => ?_⟩
      omega

/-- The loop from VR(UX) on stops at the first number that is not in the buffer. -/
theorem firstMissingSn_numbers (fuel : Nat) {v : Nat} {sn : SequenceNumber10}
    (hok : u.firstMissingSn (.pos v base) fuel = some sn) :
    ∃ w : Nat, sn = .pos w base ∧ v ≤ w ∧ u.rxBuffer.find? (w % 1024) = none ∧
      ∀ q, v ≤ q → q < w → (u.rxBuffer.find? (q % 1024)).isSome := by
  induction fuel generalizing v with
  | zero => cases hok
  | succ fuel ih =>
    unfold firstMissingSn at hok
    rw [SequenceNumber10.value_pos_natCast] at hok
    by_cases hfind : (u.rxBuffer.find? (v % 1024)).isSome
    · have hsucc : (SequenceNumber10.pos v base).succ = .pos (v + 1 : Nat) base := by simp
      rw [if_pos hfind, hsucc] at hok
      obtain ⟨w, hw, hle, hnone, hall⟩ := ih hok
      refine ⟨w, hw, by omega, hnone, fun q hq hqw => ?_⟩
      by_cases heq : q = v
      · exact heq ▸ hfind
      · exact hall q (by omega) hqw
    · rw [if_neg hfind] at hok
      refine ⟨v, (Option.some.inj hok).symm,
        Nat.le_refl v, by simpa using hfind, fun q hq hqv => ?_⟩
      omega

/-- A run of numbers in the buffer ends before the position `high`. -/
theorem Numbered.le_of_run (hnum : u.Numbered low high) (hhigh : high < low + 1024) {v w : Nat}
    (hv : low ≤ v) (hv' : v ≤ high)
    (hall : ∀ q, v ≤ q → q < w → (u.rxBuffer.find? (q % 1024)).isSome) : w ≤ high := by
  by_contra hgt
  obtain ⟨packet, hpacket⟩ := Option.isSome_iff_exists.mp (hall high hv' (Nat.not_le.mp hgt))
  obtain ⟨q, hkey, hle, hlt⟩ := hnum _ (OrderedMap.find?_eq_some.mp hpacket)
  simp only at hkey
  omega

/-- VR(UR) passes the numbers that follow it without a gap, unless they wrap around to 0. -/
theorem reassembleInSequence_numbers {ur : Nat} (hnum : u.Numbered ur high)
    (hle : ur ≤ high) (hhigh : high ≤ ur + 512) (hur : u.vrUr = .pos ur base) (hbase : base ≤ ur)
    (hgap : ∀ w : Nat, (∀ q, ur ≤ q → q < w → (u.rxBuffer.find? (q % 1024)).isSome) →
      w < base + 1024)
    (hwrap : ¬((∀ q, ur % 1024 ≤ q → q < 1024 → (u.rxBuffer.find? q).isSome) ∧
      (u.rxBuffer.find? 0).isSome))
    (hok : u.reassembleInSequence = some u') :
    ∃ ur', ur ≤ ur' ∧ ur' ≤ high ∧ u'.vrUr = .pos ur' base ∧ u'.vrUh = u.vrUh ∧
      u'.vrUx = u.vrUx ∧ u'.reorderingTimer = u.reorderingTimer ∧
      u'.rxBuffer.find? (ur' % 1024) = none ∧
      (∀ q, ur ≤ q → q < ur' → (u.rxBuffer.find? (q % 1024)).isSome) ∧ u'.Numbered ur' high := by
  have hkeys : ∀ e ∈ u.rxBuffer.entries, e.1 < 1024 := by
    intro e he
    obtain ⟨q, hkey, -⟩ := hnum e he
    omega
  unfold reassembleInSequence at hok
  rw [hur, SequenceNumber10.value_pos_natCast] at hok
  by_cases hfind : (u.rxBuffer.find? (ur % 1024)).isSome
  · rw [if_pos hfind] at hok
    obtain ⟨n, hn, hok⟩ := Option.bind_eq_some_iff.mp hok
    obtain ⟨hn_ge, hn_le, hnone, hall⟩ := firstMissing_numbers hkeys 1025 (by omega) hn
    -- the position of the new VR(UR)
    obtain ⟨w, hw⟩ : ∃ w, w = ur + (n - ur % 1024) := ⟨_, rfl⟩
    have hrun : ∀ q, ur ≤ q → q < w → (u.rxBuffer.find? (q % 1024)).isSome := by
      intro q hq hqw
      by_cases heq : q = ur
      · exact heq ▸ hfind
      · have hmod : q % 1024 = ur % 1024 + (q - ur) := by omega
        rw [hmod]
        exact hall _ (by omega) (by omega)
    have hassign : (SequenceNumber10.pos ur base).assign n = .pos w base := by
      simp only [SequenceNumber10.assign, SequenceNumber10.pos, SequenceNumber10.mk.injEq, and_true]
      omega
    have hmissing : u.rxBuffer.find? (w % 1024) = none := by
      by_cases hlast : n = 1024
      · have hzero : w % 1024 = 0 := by omega
        rw [hzero]
        by_contra hsome
        apply hwrap
        refine ⟨fun q hq hqn => ?_, Option.isSome_iff_ne_none.mpr hsome⟩
        by_cases heq : q = ur % 1024
        · exact heq ▸ hfind
        · exact hall q (by omega) (by omega)
      · have hmod : w % 1024 = n := by omega
        rw [hmod]
        exact hnone
    have hw_high := hnum.le_of_run (by omega) (Nat.le_refl ur) hle hrun
    have hw_base := hgap w hrun
    simp only [hassign, reassembleSnInterval] at hok
    have hremoved := removed_snIntervalLoop 1024 hbase (by omega) hw_base hok
    refine ⟨w, by omega, hw_high, hremoved.same.vrUr, hremoved.same.vrUh, hremoved.same.vrUx,
      hremoved.same.reorderingTimer, ?_, hrun, ?_⟩
    · rw [OrderedMap.find?_eq_none] at hmissing ⊢
      exact fun v hv => hmissing v ((hremoved.entries _).mp hv).1
    · intro e he
      obtain ⟨he', hout⟩ := (hremoved.entries e).mp he
      obtain ⟨q, hkey, hle_q, hlt_q⟩ := hnum e he'
      refine ⟨q, hkey, ?_, hlt_q⟩
      by_contra hbelow
      exact hout q hle_q (Nat.not_le.mp hbelow) hkey
  · rw [if_neg hfind] at hok
    cases hok
    refine ⟨ur, Nat.le_refl ur, hle, hur, rfl, rfl,
      rfl, by simpa using hfind, fun q hq hqu => ?_, hnum⟩
    omega

end Frame

/-! ## The invariant -/

section Invariant

variable {u u' : LteRlcUm} {uh ur x : Nat} {base : Int} {p : Packet}

/-- The positions of VR(UH) and VR(UR), and of the numbers in the buffer between them. -/
structure Tracked (u : LteRlcUm) (uh ur : Nat) (base : Int) : Prop where
  vrUh : u.vrUh = .pos uh base
  vrUr : u.vrUr = .pos ur base
  timer : u.reorderingTimer = true →
    base = uh - 512 ∧ ∃ ux : Nat, u.vrUx = .pos ux base ∧ ur < ux ∧ ux ≤ uh
  runs : ur < uh → u.reorderingTimer = true
  ur_le : ur ≤ uh
  window : uh ≤ ur + 512
  past : 512 ≤ uh
  numbered : u.Numbered (ur + 1) uh

theorem Tracked.start : Tracked {} 1024 1024 1024 where
  vrUh := rfl
  vrUr := rfl
  timer := nofun
  runs := by omega
  ur_le := Nat.le_refl _
  window := by omega
  past := by omega
  numbered := fun e he => absurd he OrderedMap.mem_empty

theorem offset_pos (huh : u.vrUh = .pos uh base) {q : Nat} (hq : uh ≤ q + 512)
    (hq' : q < uh + 512) : u.offset (q % 1024) = q + 512 - uh := by
  have hval : u.vrUh.value = uh % 1024 := by rw [huh, SequenceNumber10.value_pos_natCast]
  unfold offset
  rw [hval]
  omega

theorem Tracked.counters_inWindow (h : Tracked u uh ur base) : u.InWindow := by
  have hwindow := h.window
  have hle := h.ur_le
  have hval : u.vrUr.value = ur % 1024 := by rw [h.vrUr, SequenceNumber10.value_pos_natCast]
  have hur : u.offset u.vrUr.value = ur + 512 - uh := by
    rw [hval]
    exact offset_pos h.vrUh hwindow (by omega)
  constructor
  · rw [hval, OrderedMap.find?_eq_none]
    intro v hv
    obtain ⟨q, hkey, hlow, hhigh⟩ := h.numbered _ hv
    simp only at hkey
    omega
  · intro e he
    obtain ⟨q, hkey, hlow, hhigh⟩ := h.numbered e he
    rw [hur, hkey, offset_pos h.vrUh (by omega) (by omega)]
    omega
  · rw [hur]
    omega
  · rw [hur]
    constructor
    · intro hrun
      obtain ⟨-, ux, -, hlt, hle'⟩ := h.timer hrun
      omega
    · intro hlt
      exact h.runs (by omega)

theorem startTimer_reorderingTimer (u : LteRlcUm) :
    u.startTimer.reorderingTimer = (u.reorderingTimer || u.vrUh.gt u.vrUr) ∧
      u.startTimer.vrUh = u.vrUh ∧ u.startTimer.vrUr = u.vrUr := by
  unfold startTimer
  cases hrun : u.reorderingTimer with
  | false =>
    cases u.vrUh.gt u.vrUr with
    | false => simp [hrun]
    | true => simp
  | true => simp [hrun]

/-- From a number in the buffer to the end of the reception. -/
theorem tracked_finish (hnum : u.Numbered ur uh) (huh : u.vrUh = .pos uh (uh - 512 : Int))
    (hur : u.vrUr = .pos ur base) (hbase : base ≤ ur) (hle : ur ≤ uh) (hwindow : uh ≤ ur + 512)
    (hpast : 512 ≤ uh)
    (hgap : ∀ w : Nat, (∀ q, ur ≤ q → q < w → (u.rxBuffer.find? (q % 1024)).isSome) →
      w < base + 1024)
    (hwrap : ¬((∀ q, ur % 1024 ≤ q → q < 1024 → (u.rxBuffer.find? q).isSome) ∧
      (u.rxBuffer.find? 0).isSome))
    (hux : u.reorderingTimer = true →
      ∃ ux : Nat, u.vrUx.value = ux % 1024 ∧ ux ≤ uh ∧ uh < ux + 1024)
    (hok : u.reassembleInSequence = some u') :
    ∃ ur', Tracked u'.setBases.stopTimer.startTimer uh ur' (uh - 512) := by
  obtain ⟨ur', hge, hle', hur', huh', hux', htimer', hmissing, -, hnum'⟩ :=
    reassembleInSequence_numbers hnum hle hwindow hur hbase hgap hwrap hok
  have hset := timerSet_updateTimer (huh'.trans huh) hur' hle' (by omega) (by
    rw [htimer', hux']
    exact hux)
  refine ⟨ur', hset.vrUh, hset.vrUr, fun hrun => ⟨rfl, hset.vrUx hrun⟩, ?_,
    hle', by omega, hpast, ?_⟩
  · intro hlt
    obtain ⟨hrun, huh_eq, hur_eq⟩ := startTimer_reorderingTimer u'.setBases.stopTimer
    rw [hrun, ← huh_eq, ← hur_eq, hset.vrUh, hset.vrUr,
      SequenceNumber10.pos_gt (by omega) (by omega) (by omega) (by omega),
      decide_eq_true (by omega), Bool.or_true]
  · intro e he
    rw [hset.rxBuffer] at he
    obtain ⟨q, hkey, hlow, hhigh⟩ := hnum' e he
    refine ⟨q, hkey, ?_, hhigh⟩
    by_contra hbelow
    have heq : q = ur' := by omega
    apply OrderedMap.find?_eq_none.mp hmissing e.2
    rw [← heq, ← hkey]
    exact he

/-- The buffer with a new number. -/
theorem find?_place {sn q : Nat} (h : ((u.place sn p).rxBuffer.find? q).isSome) :
    (u.rxBuffer.find? q).isSome ∨ q = sn := by
  obtain ⟨packet, hpacket⟩ := Option.isSome_iff_exists.mp h
  obtain heq | ⟨-, he⟩ := OrderedMap.mem_insert.mp (OrderedMap.find?_eq_some.mp hpacket)
  · exact Or.inr (Prod.mk.inj heq).1
  · exact Or.inl (Option.isSome_iff_exists.mpr ⟨packet, OrderedMap.find?_eq_some.mpr he⟩)

theorem numbered_place (h : Tracked u uh ur base) (hge : ur ≤ x) :
    (u.place (x % 1024) p).Numbered ur (max uh (x + 1)) := by
  intro e he
  obtain rfl | ⟨-, he⟩ := OrderedMap.mem_insert.mp he
  · exact ⟨x, rfl, hge, by omega⟩
  · obtain ⟨q, hkey, hlow, hhigh⟩ := h.numbered e he
    exact ⟨q, hkey, by omega, by omega⟩

/-- What the condition on the reception says of the walk for the new VR(UR). -/
theorem not_wraps {v : LteRlcUm} {sn start : Nat} (hwraps : ¬u.Wraps sn)
    (hstart : u.walkStart sn = start)
    (hsub : ∀ q, (v.rxBuffer.find? q).isSome → (u.rxBuffer.find? q).isSome ∨ q = sn) :
    ¬((∀ q, start ≤ q → q < 1024 → (v.rxBuffer.find? q).isSome) ∧
      (v.rxBuffer.find? 0).isSome) := by
  rintro ⟨hall, hzero⟩
  apply hwraps
  rw [Wraps, hstart]
  exact ⟨fun q hq hqn => hsub q (hall q hq hqn), (hsub 0 hzero).imp_right Eq.symm⟩

/-- A number inside the window. -/
theorem Tracked.receive_inside (h : Tracked u uh ur (uh - 512)) (hge : ur ≤ x) (hlt : x < uh)
    (hwraps : ¬u.Wraps (x % 1024)) {u1 u2 : LteRlcUm}
    (hmove : (u.place (x % 1024) p).moveWindow (.pos x (uh - 512 : Int)) = some u1)
    (hok : u1.reassembleInSequence = some u2) :
    ∃ ur', Tracked u2.setBases.stopTimer.startTimer uh ur' (uh - 512) := by
  have hle := h.ur_le
  have hwindow := h.window
  have hinside : ∀ base', u.isInsideReorderingWindow (.pos x base') = true := by
    intro base'
    rw [isInside_pos h.vrUh (by omega) (by omega)]
    exact decide_eq_true (by omega)
  have hplaced : (u.place (x % 1024) p).isInsideReorderingWindow (.pos x (uh - 512 : Int)) = true :=
    hinside _
  have hnum := numbered_place (p := p) h hge
  rw [max_eq_left (by omega)] at hnum
  have hstart : u.walkStart (x % 1024) = ur % 1024 := by
    unfold walkStart
    rw [SequenceNumber10.ofValue_mod, hinside 0, Bool.true_or, if_pos rfl, h.vrUr,
      SequenceNumber10.value_pos_natCast]
  unfold moveWindow at hmove
  rw [if_pos hplaced] at hmove
  cases hmove
  refine tracked_finish (u := (u.place (x % 1024) p).setWindowBase) hnum (setWindowBase_pos h.vrUh)
    h.vrUr (by omega) hle hwindow h.past ?_ (not_wraps hwraps hstart fun q => find?_place) ?_ hok
  · intro w hall
    have hw := Numbered.le_of_run (u := (u.place (x % 1024) p).setWindowBase) hnum (by omega)
      (Nat.le_refl ur) hle hall
    omega
  · intro hrun
    obtain ⟨-, ux, hux, hlt, hle'⟩ := h.timer hrun
    refine ⟨ux, ?_, hle', by omega⟩
    show u.vrUx.value = _
    rw [hux, SequenceNumber10.value_pos_natCast]

/-- A number outside the window. -/
theorem Tracked.receive_outside (h : Tracked u uh ur (uh - 512)) (hge : uh ≤ x) (hlt : x < uh + 512)
    (horder : u.InOrder (x % 1024)) (hwraps : ¬u.Wraps (x % 1024)) {u1 u2 : LteRlcUm}
    (hmove : (u.place (x % 1024) p).moveWindow (.pos x (uh - 512 : Int)) = some u1)
    (hok : u1.reassembleInSequence = some u2) :
    ∃ ur', Tracked u2.setBases.stopTimer.startTimer (x + 1) ur' ((x + 1 : Nat) - 512) := by
  have hle := h.ur_le
  have hwindow := h.window
  have hpast := h.past
  have houtside : ∀ base', u.isInsideReorderingWindow (.pos x base') = false := by
    intro base'
    rw [isInside_pos h.vrUh (by omega) (by omega)]
    exact decide_eq_false (by omega)
  have hplaced :
    (u.place (x % 1024) p).isInsideReorderingWindow (.pos x (uh - 512 : Int)) = false :=
    houtside _
  have hnum := numbered_place (p := p) h (by omega : ur ≤ x)
  rw [max_eq_right (by omega)] at hnum
  have hadd : ∀ base', (SequenceNumber10.pos x base').add 1 = .pos (x + 1 : Nat) base' := by
    intro base'
    rw [SequenceNumber10.pos_add]
    rfl
  have hinside : ∀ v : LteRlcUm, ∀ base', v.vrUh = .pos (x + 1 : Nat) base' → ∀ base'',
      v.isInsideReorderingWindow (.pos ur base'') = decide (x + 1 ≤ ur + 512) := by
    intro v base' huh base''
    rw [isInside_pos huh (by omega) (by omega), decide_eq_decide]
    omega
  unfold moveWindow at hmove
  rw [if_neg (by rw [hplaced]; exact Bool.false_ne_true)] at hmove
  obtain ⟨v, hv, hmove⟩ := Option.bind_eq_some_iff.mp hmove
  have horder' : ∀ e ∈ (u.place (x % 1024) p).rxBuffer.entries, ∀ q, e.1 = q % 1024 → ur ≤ q →
      q + 512 ≤ x → e.1 < x % 1024 := by
    intro e he q hkey hlow hout
    obtain rfl | ⟨-, he⟩ := OrderedMap.mem_insert.mp he
    · simp only at hkey
      omega
    · apply horder ?_ e he ?_
      · rw [SequenceNumber10.ofValue_mod]
        exact houtside 0
      · rw [SequenceNumber10.ofValue_mod, hadd, hkey, SequenceNumber10.ofValue_mod,
          isInside_pos rfl (by omega) (by omega)]
        exact decide_eq_false (by omega)
  obtain ⟨huh, hur, hux, htimer, hnum', hsub⟩ := outsideLoop_numbers
    (u := { (u.place (x % 1024) p).setWindowBase with
      vrUh := (SequenceNumber10.pos x (uh - 512 : Int)).add 1 }) rfl hnum (by omega)
    (hadd _) ⟨_, OrderedMap.mem_insert.mpr (Or.inl rfl), rfl⟩ horder' hv
  have hfound : ∀ q, (v.rxBuffer.find? q).isSome → (u.rxBuffer.find? q).isSome ∨ q = x % 1024 := by
    intro q hq
    obtain ⟨packet, hpacket⟩ := Option.isSome_iff_exists.mp hq
    exact find?_place (Option.isSome_iff_exists.mpr
      ⟨packet, OrderedMap.find?_eq_some.mpr (hsub _ (OrderedMap.find?_eq_some.mp hpacket))⟩)
  have hur' : v.vrUr = .pos ur (uh - 512 : Int) := hur.trans h.vrUr
  have hruns : v.reorderingTimer = true →
      ∃ ux : Nat, v.vrUx.value = ux % 1024 ∧ ux ≤ x + 1 ∧ x + 1 < ux + 1024 := by
    intro hrun
    obtain ⟨-, ux, hux', hlt', hle'⟩ := h.timer (htimer.symm.trans hrun)
    refine ⟨ux, ?_, by omega, by omega⟩
    rw [hux]
    show u.vrUx.value = _
    rw [hux', SequenceNumber10.value_pos_natCast]
  rw [hur', hinside v _ huh] at hmove
  have hwalk : u.walkStart (x % 1024) =
      if x + 1 ≤ ur + 512 then ur % 1024 else (x + 1 - 512) % 1024 := by
    have hmoved := hinside { u with vrUh := .pos (x + 1 : Nat) 0 } 0 rfl (uh - 512 : Int)
    rw [← h.vrUr] at hmoved
    unfold walkStart
    rw [SequenceNumber10.ofValue_mod, houtside 0, Bool.false_or, hadd, hmoved]
    by_cases hin : x + 1 ≤ ur + 512
    · rw [if_pos (decide_eq_true hin), if_pos hin, h.vrUr, SequenceNumber10.value_pos_natCast]
    · rw [if_neg (by simpa using hin), if_neg hin]
      have hsub' : (SequenceNumber10.pos (x + 1 : Nat) 0).sub umWindowSize =
          .pos (x + 1 - 512 : Nat) 0 := by
        rw [show umWindowSize = 512 from rfl, SequenceNumber10.pos_sub _ _ (by decide)]
        congr 1
        omega
      rw [hsub', SequenceNumber10.value_pos_natCast]
  by_cases hin : x + 1 ≤ ur + 512
  · rw [if_pos (decide_eq_true hin)] at hmove
    cases hmove
    rw [if_pos hin] at hwalk
    rw [max_eq_left (by omega)] at hnum'
    refine tracked_finish (u := v.setWindowBase) hnum' (setWindowBase_pos huh) hur' (by omega)
      (by omega) hin (by omega) ?_ (not_wraps hwraps hwalk hfound) hruns hok
    intro w hall
    have hw := Numbered.le_of_run (u := v.setWindowBase) hnum' (by omega) (Nat.le_refl ur)
      (by omega) hall
    by_contra hgt
    -- the run would pass VR(UH), where nothing was received before
    obtain hmem | heq := hfound (uh % 1024) (hall uh hle (by omega))
    · obtain ⟨packet, hpacket⟩ := Option.isSome_iff_exists.mp hmem
      obtain ⟨q, hkey, hlow, hhigh⟩ := h.numbered _ (OrderedMap.find?_eq_some.mp hpacket)
      simp only at hkey
      omega
    · omega
  · rw [if_neg (by simpa using hin)] at hmove
    cases hmove
    rw [if_neg hin] at hwalk
    rw [max_eq_right (by omega)] at hnum'
    have hbase : v.setWindowBase.vrUh.sub umWindowSize =
        .pos (x + 1 - 512 : Nat) (x + 1 - 512 : Int) := by
      rw [setWindowBase_pos huh, show umWindowSize = 512 from rfl,
        SequenceNumber10.pos_sub _ _ (by decide)]
      congr 1
      omega
    refine tracked_finish (u := { v.setWindowBase with
      vrUr := v.setWindowBase.vrUh.sub umWindowSize }) hnum' (setWindowBase_pos huh) hbase
      (by omega) (by omega) (by omega) (by omega) ?_ (not_wraps hwraps hwalk hfound) hruns hok
    intro w hall
    have hw := Numbered.le_of_run (u := v.setWindowBase) hnum' (by omega)
      (Nat.le_refl (x + 1 - 512)) (by omega) hall
    omega

theorem deserialize_sequenceNumber_lt {bytes : List UInt8} {rlcHeader : LteRlcHeader}
    (hdes : LteRlcHeader.deserialize bytes = some rlcHeader) :
    rlcHeader.sequenceNumber.value < 1024 := by
  match bytes with
  | [] => cases hdes
  | [_] => cases hdes
  | byte1 :: byte2 :: bytes =>
    unfold LteRlcHeader.deserialize at hdes
    dsimp only at hdes
    split at hdes
    · cases hdes
      exact Nat.mod_lt _ (by decide)
    · obtain ⟨r, -, rfl⟩ := Option.map_eq_some_iff.mp hdes
      exact Nat.mod_lt _ (by decide)

theorem Tracked.rebase (h : Tracked u uh ur base) : Tracked u.rebase uh ur (uh - 512) := by
  have hbase : u.vrUh.sub umWindowSize = .pos (uh - 512 : Int) base := by
    rw [h.vrUh]
    exact SequenceNumber10.pos_sub _ _ (by decide)
  refine ⟨?_, ?_, ?_, h.runs, h.ur_le, h.window, h.past, h.numbered⟩
  · simp only [LteRlcUm.rebase, hbase]
    rw [h.vrUh, SequenceNumber10.pos_setModulusBase]
  · simp only [LteRlcUm.rebase, hbase]
    rw [h.vrUr, SequenceNumber10.pos_setModulusBase]
  · intro hrun
    obtain ⟨hb, ux, hux, hlt, hle⟩ := h.timer hrun
    exact ⟨rfl, ux, hb ▸ hux, hlt, hle⟩

/-- The walks depend on the numbers only, not on their bases. -/
theorem Tracked.isInside_rebase (h : Tracked u uh ur base) (sn : Nat) :
    u.rebase.isInsideReorderingWindow (.ofValue sn) = u.isInsideReorderingWindow (.ofValue sn) := by
  have hpast := h.past
  obtain ⟨q, hq, hq', hqs⟩ : ∃ q : Nat, uh ≤ q + 512 ∧ q < uh + 512 ∧
      SequenceNumber10.ofValue sn = .pos q 0 := by
    refine ⟨uh - 512 + (sn + 1024 - (uh - 512) % 1024) % 1024, by omega, by omega, ?_⟩
    simp only [SequenceNumber10.ofValue, SequenceNumber10.pos, SequenceNumber10.mk.injEq]
    omega
  rw [hqs, isInside_pos h.vrUh (by omega) hq', isInside_pos h.rebase.vrUh (by omega) hq']

theorem Tracked.inOrder_rebase (h : Tracked u uh ur base) {sn : Nat} (horder : u.InOrder sn) :
    u.rebase.InOrder sn := by
  intro hout e he
  rw [h.isInside_rebase] at hout
  exact horder hout e he

theorem Tracked.wraps_rebase (h : Tracked u uh ur base) {sn : Nat} (hwraps : ¬u.Wraps sn) :
    ¬u.rebase.Wraps sn := by
  have hstart : u.rebase.walkStart sn = u.walkStart sn := by
    unfold walkStart
    rw [h.isInside_rebase]
    rfl
  rintro ⟨hall, hzero⟩
  rw [hstart] at hall
  exact hwraps ⟨hall, hzero⟩

/-- The reception of a PDU of any number. -/
theorem Tracked.doReceivePdu (h : Tracked u uh ur base) (horderly : u.Orderly p)
    (hok : u.doReceivePdu p = some u') : ∃ uh' ur' base', Tracked u' uh' ur' base' := by
  have hpast := h.past
  have hle := h.ur_le
  have hwindow := h.window
  unfold LteRlcUm.doReceivePdu at hok
  obtain ⟨rlcHeader, hdes, hok⟩ := Option.bind_eq_some_iff.mp hok
  obtain ⟨horder, hwraps⟩ := horderly rlcHeader hdes
  have hlt := deserialize_sequenceNumber_lt hdes
  -- every number is that of one position in the window or behind it
  obtain ⟨x, hx, hx', hsn⟩ : ∃ x : Nat, uh ≤ x + 512 ∧ x < uh + 512 ∧
      rlcHeader.sequenceNumber.value = x % 1024 :=
    ⟨uh - 512 + (rlcHeader.sequenceNumber.value + 1024 - (uh - 512) % 1024) % 1024, by omega,
      by omega, by omega⟩
  have hbase : u.vrUh.sub umWindowSize = .pos (uh - 512 : Int) base := by
    rw [h.vrUh]
    exact SequenceNumber10.pos_sub _ _ (by decide)
  have hseq : rlcHeader.sequenceNumber.setModulusBase (u.vrUh.sub umWindowSize) =
      .pos x (uh - 512 : Int) := by
    rw [hbase]
    exact SequenceNumber10.setModulusBase_pos hsn _ _
  rw [hsn] at horder hwraps
  have hre := h.rebase
  have horder' := h.inOrder_rebase horder
  have hwraps' := h.wraps_rebase hwraps
  dsimp only at hok
  rw [hseq, SequenceNumber10.value_pos_natCast] at hok
  by_cases hdis : u.rebase.discards (.pos x (uh - 512 : Int)) = true
  · change (if u.rebase.discards (.pos x (uh - 512 : Int)) = true then some u.rebase else _) =
      some u' at hok
    rw [if_pos hdis] at hok
    cases hok
    exact ⟨uh, ur, _, hre⟩
  · change (if u.rebase.discards (.pos x (uh - 512 : Int)) = true then some u.rebase else
      ((u.rebase.place (x % 1024) p).moveWindow (.pos x (uh - 512 : Int))).bind fun u1 =>
        u1.reassembleInSequence.bind fun u2 => some u2.setBases.stopTimer.startTimer) =
      some u' at hok
    rw [if_neg hdis] at hok
    obtain ⟨u1, hu1, hok⟩ := Option.bind_eq_some_iff.mp hok
    obtain ⟨u2, hu2, hok⟩ := Option.bind_eq_some_iff.mp hok
    cases hok
    have hge : ur ≤ x := by
      by_contra hbelow
      apply hdis
      have hsub : u.rebase.vrUh.sub umWindowSize = .pos (uh - 512 : Int) (uh - 512 : Int) := by
        rw [hre.vrUh]
        exact SequenceNumber10.pos_sub _ _ (by decide)
      have hlow : (SequenceNumber10.pos (uh - 512 : Int) (uh - 512 : Int)).le
          (.pos x (uh - 512 : Int)) = true := by
        rw [SequenceNumber10.pos_le (by omega) (by omega) (by omega) (by omega), decide_eq_true_eq]
        omega
      have hhigh : (SequenceNumber10.pos x (uh - 512 : Int)).lt (.pos ur (uh - 512 : Int)) =
          true := by
        rw [SequenceNumber10.pos_lt (by omega) (by omega) (by omega) (by omega), decide_eq_true_eq]
        omega
      unfold discards
      rw [hsub, hre.vrUr, hlow, hhigh]
      simp
    by_cases hin : x < uh
    · obtain ⟨ur', htracked⟩ := hre.receive_inside hge hin hwraps' hu1 hu2
      exact ⟨uh, ur', _, htracked⟩
    · obtain ⟨ur', htracked⟩ :=
        hre.receive_outside (Nat.not_lt.mp hin) hx' horder' hwraps' hu1 hu2
      exact ⟨x + 1, ur', _, htracked⟩

/-- The expiry of t-Reordering. -/
theorem Tracked.expireReorderingTimer (h : Tracked u uh ur base)
    (hok : u.expireReorderingTimer = some u') : ∃ ur', Tracked u' uh ur' base := by
  unfold LteRlcUm.expireReorderingTimer at hok
  by_cases hrun : u.reorderingTimer = true
  · rw [if_pos hrun] at hok
    obtain ⟨hbase, ux, hux, hlt, hle⟩ := h.timer hrun
    have hwindow := h.window
    obtain ⟨newVrUr, hnew, hok⟩ := Option.bind_eq_some_iff.mp hok
    rw [hux] at hnew
    obtain ⟨w, rfl, hge, hmissing, hall⟩ := firstMissingSn_numbers 1024 hnew
    have hw : w ≤ uh := Numbered.le_of_run (u := { u with reorderingTimer := false }) h.numbered
      (by omega) (by omega) hle hall
    obtain ⟨v, hv, hok⟩ := Option.bind_eq_some_iff.mp hok
    simp only [reassembleSnInterval, h.vrUr] at hv
    have hremoved := removed_snIntervalLoop 1024 (by omega) (by omega) (by omega) hv
    have hvrUh : v.vrUh = .pos uh base := hremoved.same.vrUh.trans h.vrUh
    have hvrUr : v.vrUr = .pos w base := hremoved.same.vrUr
    have hstopped : v.reorderingTimer = false := hremoved.same.reorderingTimer
    have hgt : v.vrUh.gt v.vrUr = decide (w < uh) := by
      rw [hvrUh, hvrUr, SequenceNumber10.pos_gt (by omega) (by omega) (by omega) (by omega),
        decide_eq_decide]
      omega
    have hnum : v.Numbered (w + 1) uh := by
      intro e he
      obtain ⟨he', hout⟩ := (hremoved.entries e).mp he
      obtain ⟨q, hkey, hle_q, hlt_q⟩ := h.numbered e he'
      refine ⟨q, hkey, ?_, hlt_q⟩
      by_contra hbelow
      obtain hbefore | heq : q < w ∨ q = w := by omega
      · exact hout q (by omega) hbefore hkey
      · apply OrderedMap.find?_eq_none.mp hmissing e.2
        rw [← heq, ← hkey]
        exact he'
    have hnew := Option.some.inj hok
    by_cases hgo : w < uh
    · rw [if_pos (hgt.trans (decide_eq_true hgo))] at hnew
      subst hnew
      exact ⟨w, hvrUh, hvrUr, fun _ => ⟨hbase, uh, hvrUh, hgo, Nat.le_refl uh⟩, fun _ => rfl, hw,
        by omega, h.past, hnum⟩
    · rw [if_neg (by rw [hgt]; simpa using hgo)] at hnew
      subst hnew
      exact ⟨w, hvrUh, hvrUr, fun hr => by simp [hstopped] at hr, fun hlt' => absurd hlt' hgo, hw,
        by omega, h.past, hnum⟩
  · rw [if_neg hrun] at hok
    cases hok
    exact ⟨ur, h⟩

theorem Reached.tracked (h : Reached Orderly u) : ∃ uh ur base, Tracked u uh ur base := by
  induction h with
  | start => exact ⟨1024, 1024, 1024, .start⟩
  | receive h horderly hu' ih =>
    obtain ⟨uh, ur, base, htracked⟩ := ih
    exact htracked.doReceivePdu horderly hu'
  | expire h hu' ih =>
    obtain ⟨uh, ur, base, htracked⟩ := ih
    obtain ⟨ur', htracked'⟩ := htracked.expireReorderingTimer hu'
    exact ⟨uh, ur', base, htracked'⟩

end Invariant

/-! ## Runs on PDUs of one byte -/

/-- The events of a receiver of PDUs of one byte: a number received, or the timer. -/
def numbersStep (u : LteRlcUm) : Option Nat → Option LteRlcUm
  | some k => u.doReceivePdu ⟨k, onePdu k⟩
  | none => u.expireReorderingTimer

def numbersRun (events : List (Option Nat)) : Option LteRlcUm := events.foldlM numbersStep {}

/-- Each reception of the run meets the condition. -/
def Meets (Q : LteRlcUm → Packet → Prop) (u : LteRlcUm) : List (Option Nat) → Prop
  | [] => True
  | event :: events => (∀ k ∈ event, Q u ⟨k, onePdu k⟩) ∧
    ∀ u' ∈ u.numbersStep event, Meets Q u' events

instance Meets.decidable {Q : LteRlcUm → Packet → Prop} [∀ u p, Decidable (Q u p)] :
    (u : LteRlcUm) → (events : List (Option Nat)) → Decidable (u.Meets Q events)
  | _, [] => isTrue trivial
  | u, event :: events =>
    have : ∀ u', Decidable (Meets Q u' events) := fun u' => Meets.decidable u' events
    inferInstanceAs (Decidable ((∀ k ∈ event, Q u ⟨k, onePdu k⟩) ∧
      ∀ u' ∈ u.numbersStep event, Meets Q u' events))

theorem Reached.numbersStep {Q : LteRlcUm → Packet → Prop} {u u' : LteRlcUm} (h : Reached Q u)
    {event : Option Nat} (hQ : ∀ k ∈ event, Q u ⟨k, onePdu k⟩)
    (hu' : u.numbersStep event = some u') : Reached Q u' := by
  cases event with
  | some k => exact h.receive (hQ k rfl) hu'
  | none => exact h.expire hu'

theorem Reached.numbersRun {Q : LteRlcUm → Packet → Prop} {u u' : LteRlcUm} (h : Reached Q u)
    {events : List (Option Nat)} (hQ : u.Meets Q events)
    (hu : events.foldlM LteRlcUm.numbersStep u = some u') : Reached Q u' := by
  induction events generalizing u with
  | nil =>
    cases hu
    exact h
  | cons event events ih =>
    rw [List.foldlM_cons] at hu
    obtain ⟨v, hv, hu⟩ := Option.bind_eq_some_iff.mp hu
    exact ih (h.numbersStep hQ.1 hv) (hQ.2 v hv) hu

/-- In every state of a run whose receptions are orderly, VR(UR) is in the window and not in the
buffer, the buffer lies between VR(UR) and VR(UH), and t-Reordering runs while they differ. -/
theorem Reached.inWindow (u : LteRlcUm) (h : Reached Orderly u) : u.InWindow := by
  obtain ⟨uh, ur, base, htracked⟩ := h.tracked
  exact htracked.counters_inWindow

/-- The number 2 waits for 1 until the timer expires; 700 moves the window past 3, and 300 waits for
189 and the numbers behind it until the timer expires. -/
def movingRun : List (Option Nat) :=
  [some 0, some 2, none, some 300, some 700, some 701, none, some 702]

theorem inWindow_first : ∃ u, numbersRun movingRun = some u ∧ u.vrUr.value = 301 ∧
    u.rxBuffer.entries.map Prod.fst = [700, 701, 702] ∧ u.InWindow := by
  have hrun : (numbersRun movingRun).map
      (fun u => (u.vrUr.value, u.rxBuffer.entries.map Prod.fst)) = some (301, [700, 701, 702]) := by
    decide
  obtain ⟨u, hu, heq⟩ := Option.map_eq_some_iff.mp hrun
  obtain ⟨hur, hbuffer⟩ := Prod.mk.inj heq
  have hreached : Reached Orderly u := Reached.start.numbersRun (by decide +kernel) hu
  exact ⟨u, hu, hur, hbuffer, Reached.inWindow u hreached⟩

/-! ## A run with a wrap -/

/-- VR(UR) is 1023 and 0 is in the buffer when 1023 arrives. -/
def wrappingRun : Option LteRlcUm := numbersRun [some 511, some 1022, some 0, none, some 1023]

theorem wrappingRun_vrUr :
    wrappingRun.map (fun u => (u.vrUr.value, (u.rxBuffer.find? 0).isSome)) = some (0, true) := by
  decide +kernel

/-- Without the condition VR(UR) becomes 0 while that number is in the buffer. -/
theorem inWindow_fails :
    ¬∀ u, Reached (fun _ _ => True) u → u.InWindow := by
  intro hclaim
  have hrun := wrappingRun_vrUr
  cases hu : wrappingRun with
  | none => simp [hu] at hrun
  | some u =>
    rw [hu, Option.map_some, Option.some.injEq, Prod.mk.injEq] at hrun
    have hreached : Reached (fun _ _ => True) u := Reached.start.numbersRun (by decide +kernel) hu
    have hmissing := (hclaim u hreached).vrUr_missing
    rw [hrun.1] at hmissing
    rw [hmissing] at hrun
    cases hrun.2

end LteRlcUm

end Ns3.Lte
