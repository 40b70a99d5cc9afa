import Ns3.Lte.RlcUmSender

/-!
# The reordering window of LteRlcUm

The receiver knows sequence numbers only. In a run in which no PDU is 512 or more sending positions
away from the window, each of its variables is the number of a position: `ur` of VR(UR), `uh` of
VR(UH), `next` of the expected number. The loops that pass PDUs on do so in the order of positions.
-/

namespace Ns3.Lte

open Ns3.Lib

namespace LteRlcUm

variable {pdus : List (List UInt8)} {segs : List (Segment UInt8)}

/-- The packet `p` is the PDU of its sending position. -/
def Sent (pdus : List (List UInt8)) (p : Packet) : Prop := pdus[p.uid]? = some p.bytes

/-- The SDUs delivered, when the last PDU passed on has the position before `next`. -/
structure Delivering (segs : List (Segment UInt8)) (u : LteRlcUm) (next : Nat) : Prop where
  settled : u.reassembly.Settled
  expected : u.reassembly.expectedSeqNumber.value = next % 1024
  follows : Follows segs next u.reassembly.delivered u.reassembly.kept
  increasing : u.passed.Pairwise (· < ·)
  passed_lt : ∀ p ∈ u.passed, p < next

/-- The PDUs of a sender. -/
structure Sender (pdus : List (List UInt8)) (segs : List (Segment UInt8)) : Prop where
  length_eq : segs.length = pdus.length
  carries : ∀ k (hk : k < segs.length) (hk' : k < pdus.length), UmCarries k segs[k] pdus[k]
  absorbs : ∃ r, absorbAll segs = some r

/-- A PDU behind `next` is passed on. The number of the PDU is the expected one just if it is the
next. -/
theorem Delivering.reassembleAndDeliver {u : LteRlcUm} {next : Nat} (hs : Sender pdus segs)
    (h : Delivering segs u next) {p : Packet} (hp : Sent pdus p) (hnext : next ≤ p.uid)
    (hnear : p.uid < next + 1024) :
    ∃ reassembly, u.reassembleAndDeliver p =
        some { u with reassembly, passed := u.passed ++ [p.uid] } ∧
      Delivering segs { u with reassembly, passed := u.passed ++ [p.uid] } (p.uid + 1) := by
  obtain ⟨hlt, hbytes⟩ := List.getElem?_eq_some_iff.mp hp
  have hlt' : p.uid < segs.length := hs.length_eq ▸ hlt
  have hc := hs.carries p.uid hlt' hlt
  obtain ⟨r, hr⟩ := hs.absorbs
  rw [hbytes] at hc
  obtain ⟨hd, hdes, hfi, hsn, hsplit⟩ := hc.header
  obtain ⟨r', hr', hsettled, hf, hexpected, -⟩ := SduReassembly.follows_deliver hr h.settled
    h.follows h.expected hlt' hnext hnear hsplit hc.pieces_ne_nil
  refine ⟨r', ?_, hsettled, hexpected, hf, ?_, ?_⟩
  · rw [← hfi, ← hsn] at hr'
    simp [LteRlcUm.reassembleAndDeliver, hdes, hr']
  · rw [List.pairwise_append]
    refine ⟨h.increasing, List.pairwise_singleton _ _, fun a ha b hb => ?_⟩
    rw [List.mem_singleton.mp hb]
    exact lt_of_lt_of_le (h.passed_lt a ha) hnext
  · intro q hq
    rcases List.mem_append.mp hq with hq | hq
    · have := h.passed_lt q hq
      omega
    · rw [List.mem_singleton.mp hq]
      omega

/-- The buffer holds PDUs of the positions from `low` on and before `high`. -/
def Holds (pdus : List (List UInt8)) (u : LteRlcUm) (low high : Nat) : Prop :=
  ∀ e ∈ u.rxBuffer.entries, Sent pdus e.2 ∧ e.1 = e.2.uid % 1024 ∧ low ≤ e.2.uid ∧ e.2.uid < high

/-- The buffer is empty, or holds a PDU that is near enough to the expected one. -/
def Near (u : LteRlcUm) (next : Nat) : Prop :=
  u.rxBuffer.entries = [] ∨ ∃ e ∈ u.rxBuffer.entries, e.2.uid < next + 1024

/-- What passing PDUs on leaves as it is. -/
structure SameWindow (u u' : LteRlcUm) : Prop where
  vrUr : u'.vrUr = u.vrUr
  vrUx : u'.vrUx = u.vrUx
  reorderingTimer : u'.reorderingTimer = u.reorderingTimer
  placed : u'.placed = u.placed

theorem SameWindow.refl (u : LteRlcUm) : SameWindow u u := ⟨rfl, rfl, rfl, rfl⟩

theorem SameWindow.trans {u u' u'' : LteRlcUm} (h : SameWindow u u') (h' : SameWindow u' u'') :
    SameWindow u u'' :=
  ⟨h'.vrUr.trans h.vrUr, h'.vrUx.trans h.vrUx,
    h'.reorderingTimer.trans h.reorderingTimer, h'.placed.trans h.placed⟩

/-- From `u` to `u'`, the PDUs before `bound` were passed on. -/
structure Drained (segs : List (Segment UInt8)) (u u' : LteRlcUm) (next next' bound : Nat) :
    Prop where
  delivering : Delivering segs u' next'
  entries : ∀ e, e ∈ u'.rxBuffer.entries ↔ e ∈ u.rxBuffer.entries ∧ bound ≤ e.2.uid
  passed : ∀ e ∈ u.rxBuffer.entries, e.2.uid < bound → e.2.uid ∈ u'.passed ∧ e.2.uid < next'
  passed_mono : ∀ p ∈ u.passed, p ∈ u'.passed
  next_le : next ≤ next'
  next_le_bound : next' ≤ bound
  near : Near u' next'
  window : SameWindow u u'

variable {u u' u'' : LteRlcUm} {next next' next'' bound bound' low high : Nat}

theorem Near.of_eq (h : Near u next) (hbuffer : u'.rxBuffer = u.rxBuffer) : Near u' next := by
  unfold Near at h ⊢
  rwa [hbuffer]

theorem Drained.refl (h : Delivering segs u next) (hlow : Holds pdus u low high)
    (hnext : next ≤ low) (hnear : Near u next) : Drained segs u u next next low where
  delivering := h
  entries := fun e => ⟨fun he => ⟨he, (hlow e he).2.2.1⟩, And.left⟩
  passed := fun e he hlt => absurd hlt (Nat.not_lt.mpr (hlow e he).2.2.1)
  passed_mono := fun _ hp => hp
  next_le := Nat.le_refl _
  next_le_bound := hnext
  near := hnear
  window := SameWindow.refl u

theorem Drained.trans (h : Drained segs u u' next next' bound)
    (h' : Drained segs u' u'' next' next'' bound') (hb : bound ≤ bound') :
    Drained segs u u'' next next'' bound' where
  delivering := h'.delivering
  entries := by
    intro e
    rw [h'.entries, h.entries]
    constructor
    · rintro ⟨⟨he, -⟩, hle⟩
      exact ⟨he, hle⟩
    · rintro ⟨he, hle⟩
      exact ⟨⟨he, hb.trans hle⟩, hle⟩
  passed := by
    intro e he hlt
    by_cases hlt' : e.2.uid < bound
    · obtain ⟨hp, hn⟩ := h.passed e he hlt'
      exact ⟨h'.passed_mono _ hp, lt_of_lt_of_le hn h'.next_le⟩
    · exact h'.passed e ((h.entries e).mpr ⟨he, Nat.not_lt.mp hlt'⟩) hlt
  passed_mono := fun p hp => h'.passed_mono p (h.passed_mono p hp)
  next_le := h.next_le.trans h'.next_le
  next_le_bound := h'.next_le_bound
  near := h'.near
  window := h.window.trans h'.window

/-- The PDU of the lowest position is passed on and erased. -/
theorem drained_first (hs : Sender pdus segs) (h : Delivering segs u next)
    (hlow : Holds pdus u low high) (hhigh : high ≤ low + 1024) (hnext : next ≤ low)
    (hnear : Near u next) {p : Packet} (hp : (p.uid % 1024, p) ∈ u.rxBuffer.entries)
    (hfirst : ∀ e ∈ u.rxBuffer.entries, p.uid ≤ e.2.uid) :
    ∃ u1, u.reassembleAndDeliver p = some u1 ∧ u1.vrUh = u.vrUh ∧ u1.rxBuffer = u.rxBuffer ∧
      Drained segs u { u1 with rxBuffer := u1.rxBuffer.erase (p.uid % 1024) } next (p.uid + 1)
        (p.uid + 1) := by
  obtain ⟨hsent, -, hlow_p, hhigh_p⟩ := hlow _ hp
  have hnext_p : p.uid < next + 1024 := by
    rcases hnear with hempty | ⟨q, hq, hlt⟩
    · rw [hempty] at hp
      cases hp
    · exact lt_of_le_of_lt (hfirst q hq) hlt
  obtain ⟨reassembly, hre, hdel⟩ := h.reassembleAndDeliver hs hsent (hnext.trans hlow_p) hnext_p
  refine ⟨_, hre, rfl, rfl,
    ⟨hdel.settled, hdel.expected, hdel.follows, hdel.increasing, hdel.passed_lt⟩, ?_, ?_, ?_, by
    simp only at hlow_p; omega, Nat.le_refl _, ?_, ⟨rfl, rfl, rfl, rfl⟩⟩
  · intro e
    rw [OrderedMap.mem_erase]
    refine and_congr_right fun he => ?_
    obtain ⟨-, hkey, -, hhigh_e⟩ := hlow e he
    have := hfirst e he
    simp only at hlow_p
    omega
  · intro e he hlt
    have heq : e.2.uid = p.uid := by
      have := hfirst e he
      omega
    rw [heq]
    exact ⟨List.mem_append_right _ (List.mem_singleton.mpr rfl), Nat.lt_succ_self _⟩
  · exact fun q hq => List.mem_append_left _ hq
  · by_cases hempty : (u.rxBuffer.erase (p.uid % 1024)).entries = []
    · exact Or.inl hempty
    · obtain ⟨e, he⟩ := List.exists_mem_of_ne_nil _ hempty
      refine Or.inr ⟨e, he, ?_⟩
      have := (hlow e (OrderedMap.mem_erase.mp he).1).2.2.2
      simp only at hlow_p
      omega

theorem Drained.holds (h : Drained segs u u' next next' bound) (hlow : Holds pdus u low high)  :
    Holds pdus u' bound high := by
  intro e he
  obtain ⟨he', hle⟩ := (h.entries e).mp he
  obtain ⟨hsent, hkey, -, hhigh⟩ := hlow e he'
  exact ⟨hsent, hkey, hle, hhigh⟩

/-- The loop of `ReassembleSnInterval` passes on the PDUs of the positions from `low` on and before
`bound`. -/
theorem drained_snIntervalLoop (base : Int) (bound fuel : Nat) (hs : Sender pdus segs)
    (h : Delivering segs u next) (hlow : Holds pdus u low high) (hhigh : high ≤ low + 1024)
    (hnext : next ≤ low) (hnear : Near u next) (hbase : base ≤ low) (hle : low ≤ bound)
    (hbound : bound < base + 1024) (hfuel : bound ≤ low + fuel) :
    ∃ u' next', u.snIntervalLoop (.pos low base) (.pos bound base) fuel = some u' ∧
      u'.vrUh = u.vrUh ∧ Drained segs u u' next next' bound := by
  have hlt : ∀ low : Nat, base ≤ low → low ≤ bound →
      (SequenceNumber10.pos low base).lt (.pos bound base) = decide (low < bound) := by
    intro low hbase hle
    rw [SequenceNumber10.pos_lt (by omega) (by omega) (by omega) (by omega), decide_eq_decide]
    omega
  induction fuel generalizing u low next with
  | zero =>
    have heq : low = bound := by omega
    subst heq
    refine ⟨u, next, ?_, rfl, .refl h hlow hnext hnear⟩
    simp [snIntervalLoop, hlt low hbase (Nat.le_refl _)]
  | succ fuel ih =>
    by_cases hdone : low < bound
    · simp only [snIntervalLoop, hlt low hbase hle, hdone, decide_true, if_true,
        SequenceNumber10.value_pos_natCast, SequenceNumber10.pos_succ]
      cases hfind : u.rxBuffer.find? (low % 1024) with
      | none =>
        -- no PDU of the position `low` has been received
        have hlow' : Holds pdus u (low + 1) high := by
          intro e he
          obtain ⟨hsent, hkey, hle_e, hhigh_e⟩ := hlow e he
          have hne : e.2.uid ≠ low := by
            intro heq
            apply OrderedMap.find?_eq_none.mp hfind e.2
            rw [← heq, ← hkey]
            exact he
          exact ⟨hsent, hkey, by omega, hhigh_e⟩
        obtain ⟨u', next', hu', huh, hdr⟩ := ih h hlow' (by omega) (by omega) hnear (by omega)
          (by omega) (by omega)
        exact ⟨u', next', hu', huh, hdr⟩
      | some p =>
        have hp := OrderedMap.find?_eq_some.mp hfind
        obtain ⟨-, hkey, hle_p, hhigh_p⟩ := hlow _ hp
        have heq : p.uid = low := by
          simp only at hkey hle_p hhigh_p
          omega
        rw [← heq] at hp
        obtain ⟨u1, hu1, huh1, hbuf1, hdr1⟩ := drained_first hs h hlow hhigh hnext hnear hp
          fun e he => heq ▸ (hlow e he).2.2.1
        rw [heq] at hdr1
        obtain ⟨u', next', hu', huh, hdr⟩ := ih hdr1.delivering (hdr1.holds hlow) (by omega)
          (Nat.le_refl _) hdr1.near (by omega) (by omega) (by omega)
        exact ⟨u', next', by simpa [hu1] using hu', huh.trans huh1, hdr1.trans hdr (by omega)⟩
    · have heq : low = bound := by omega
      subst heq
      refine ⟨u, next, ?_, rfl, .refl h hlow hnext hnear⟩
      simp [snIntervalLoop, hlt low hbase (Nat.le_refl _)]

/-! ## The window -/

theorem isInside_pos {uh p : Nat} {base : Int} (huh : u.vrUh = .pos uh base)
    (hlow : uh ≤ p + 1024) (hhigh : p < uh + 512) (base' : Int) :
    u.isInsideReorderingWindow (.pos p base') = decide (uh ≤ p + 512 ∧ p < uh) := by
  have hbase : (SequenceNumber10.pos uh base).sub umWindowSize = .pos (uh - 512 : Int) base :=
    SequenceNumber10.pos_sub _ _ (by decide)
  have hwindow : (SequenceNumber10.pos (uh : Int) (uh - 512)).sub umWindowSize =
      .pos (uh - 512 : Int) (uh - 512) := SequenceNumber10.pos_sub _ _ (by decide)
  simp only [isInsideReorderingWindow, huh, hbase, SequenceNumber10.pos_setModulusBase, hwindow]
  by_cases hin : uh ≤ p + 512
  · rw [SequenceNumber10.pos_le (by omega) (by omega) (by omega) (by omega),
      SequenceNumber10.pos_lt (by omega) (by omega) (by omega) (by omega), ← Bool.decide_and,
      decide_eq_decide]
    omega
  · -- a position before the window has the number of one behind it
    have hshift : SequenceNumber10.pos p (uh - 512) = .pos (p + 1024 : Int) (uh - 512) :=
      SequenceNumber10.pos_eq_of_emod (by omega)
    rw [hshift, SequenceNumber10.pos_le (by omega) (by omega) (by omega) (by omega),
      SequenceNumber10.pos_lt (by omega) (by omega) (by omega) (by omega), ← Bool.decide_and,
      decide_eq_decide]
    omega

theorem setWindowBase_pos {uh : Nat} {base : Int} (huh : u.vrUh = .pos uh base) :
    u.setWindowBase.vrUh = .pos uh (uh - 512 : Int) := by
  have hbase : (SequenceNumber10.pos uh base).sub umWindowSize = .pos (uh - 512 : Int) base :=
    SequenceNumber10.pos_sub _ _ (by decide)
  simp only [setWindowBase, huh, hbase, SequenceNumber10.pos_setModulusBase]

theorem Delivering.setWindowBase (h : Delivering segs u next) :
    Delivering segs u.setWindowBase next :=
  ⟨h.settled, h.expected, h.follows, h.increasing, h.passed_lt⟩

theorem Drained.setWindowBase_left (h : Drained segs u.setWindowBase u' next next' bound) :
    Drained segs u u' next next' bound :=
  { h with window := ⟨h.window.vrUr, h.window.vrUx, h.window.reorderingTimer, h.window.placed⟩ }

theorem erase_head {k : Nat} {p : Packet} {es : List (Nat × Packet)}
    (hes : u.rxBuffer.entries = (k, p) :: es) : (u.rxBuffer.erase k).entries = es := by
  have hsorted := u.rxBuffer.sorted
  rw [hes, List.pairwise_cons] at hsorted
  simp only [OrderedMap.erase, hes]
  rw [List.filter_cons_of_neg (by simp), List.filter_eq_self]
  intro e he
  have := hsorted.1 e he
  simp only at this
  simp only [decide_not, Bool.not_eq_eq_eq_not, Bool.not_true, decide_eq_false_iff_not]
  omega

/-- The loop of `ReassembleOutsideWindow` passes on the PDUs outside the window that ends behind
the position `x`, when each of them has a number below that of `x`. -/
theorem drained_outsideLoop (hs : Sender pdus segs) {x : Nat} {base : Int}
    {es : List (Nat × Packet)} (hes : u.rxBuffer.entries = es) (h : Delivering segs u next)
    (hlow : Holds pdus u low (x + 1)) (hhigh : x < low + 1024) (hnext : next ≤ low)
    (hnear : Near u next) (huh : u.vrUh = .pos (x + 1 : Nat) base)
    (hx : ∃ e ∈ es, e.2.uid = x) (horder : ∀ e ∈ es, e.2.uid + 512 ≤ x → e.1 < x % 1024) :
    ∃ u' next', u.outsideLoop es = some u' ∧ u'.vrUh = .pos (x + 1 : Nat) (x + 1 - 512 : Int) ∧
      Drained segs u u' next next' (max low (x + 1 - 512)) := by
  induction es generalizing u low next base with
  | nil =>
    obtain ⟨e, he, -⟩ := hx
    cases he
  | cons e es ih =>
    obtain ⟨k, p⟩ := e
    have hp : (k, p) ∈ u.rxBuffer.entries := hes ▸ List.mem_cons_self
    obtain ⟨hsent, hkey, hlow_p, hhigh_p⟩ := hlow _ hp
    simp only at hkey hlow_p hhigh_p
    have hsorted := u.rxBuffer.sorted
    rw [hes, List.pairwise_cons] at hsorted
    have hinside := isInside_pos (u := u) (p := p.uid) huh (by omega) (by omega) 0
    rw [← SequenceNumber10.ofValue_mod, ← hkey] at hinside
    unfold outsideLoop
    rw [hinside]
    by_cases hin : x + 1 ≤ p.uid + 512
    · -- an entry behind has a greater number, so it is inside too
      have hlow' : Holds pdus u (max low (x + 1 - 512)) (x + 1) := by
        intro f hf
        obtain ⟨hsent_f, hkey_f, hlow_f, hhigh_f⟩ := hlow f hf
        refine ⟨hsent_f, hkey_f, max_le hlow_f ?_, hhigh_f⟩
        rw [hes] at hf
        rcases List.mem_cons.mp hf with rfl | hf'
        · simp only
          omega
        · by_contra hout
          have hbelow := horder f hf (by omega)
          have habove := hsorted.1 f hf'
          simp only at habove
          omega
      have hdec : decide (x + 1 ≤ p.uid + 512 ∧ p.uid < x + 1) = true :=
        decide_eq_true ⟨hin, hhigh_p⟩
      simp only [hdec, if_true]
      refine ⟨u.setWindowBase, next, rfl, setWindowBase_pos huh, ?_⟩
      exact (Drained.refl (u := u.setWindowBase) h.setWindowBase hlow'
        (hnext.trans (le_max_left _ _)) hnear).setWindowBase_left
    · have hdec : decide (x + 1 ≤ p.uid + 512 ∧ p.uid < x + 1) = false :=
        decide_eq_false fun h => hin h.1
      simp only [hdec]
      -- of two entries outside, the one with the lower number is the earlier
      have hfirst : ∀ f ∈ u.rxBuffer.entries, p.uid ≤ f.2.uid := by
        intro f hf
        obtain ⟨-, hkey_f, hlow_f, hhigh_f⟩ := hlow f hf
        rw [hes] at hf
        rcases List.mem_cons.mp hf with rfl | hf'
        · exact Nat.le_refl _
        · by_contra hbefore
          have hbelow := horder f hf (by omega)
          have habove := hsorted.1 f hf'
          simp only at habove
          omega
      subst hkey
      obtain ⟨u1, hu1, huh1, hbuf1, hdr1⟩ :=
        drained_first (u := u.setWindowBase) hs h.setWindowBase hlow
        (by omega) hnext hnear hp hfirst
      have hes1 : (u1.rxBuffer.erase (p.uid % 1024)).entries = es := by
        rw [hbuf1]
        exact erase_head (u := u.setWindowBase) hes
      have hx1 : ∃ e ∈ es, e.2.uid = x := by
        obtain ⟨e, he, hex⟩ := hx
        rcases List.mem_cons.mp he with rfl | he
        · simp only at hex
          omega
        · exact ⟨e, he, hex⟩
      obtain ⟨u', next', hu', huh', hdr⟩ := ih hes1 hdr1.delivering (hdr1.holds hlow) (by omega)
        (Nat.le_refl _) hdr1.near (huh1.trans (setWindowBase_pos huh)) hx1
        fun f hf => horder f (List.mem_cons_of_mem _ hf)
      refine ⟨u', next', by simpa [hu1] using hu', huh', ?_⟩
      have hmax : max (p.uid + 1) (x + 1 - 512) = max low (x + 1 - 512) := by omega
      rw [hmax] at hdr
      exact (hdr1.trans hdr (by omega)).setWindowBase_left

/-! ## The gap -/

/-- A number that the buffer knows is that of a PDU it holds. -/
theorem Holds.mem_of_find? (hlow : Holds pdus u low high) (hhigh : high ≤ low + 1024) {p : Nat}
    (hp : low ≤ p) (hp' : p < low + 1024) :
    (u.rxBuffer.find? (p % 1024)).isSome ↔ ∃ e ∈ u.rxBuffer.entries, e.2.uid = p := by
  constructor
  · intro h
    obtain ⟨packet, hpacket⟩ := Option.isSome_iff_exists.mp h
    have he := OrderedMap.find?_eq_some.mp hpacket
    obtain ⟨-, hkey, hle, hlt⟩ := hlow _ he
    refine ⟨_, he, ?_⟩
    simp only at hkey hle hlt ⊢
    omega
  · rintro ⟨e, he, rfl⟩
    have hkey := (hlow e he).2.1
    refine Option.isSome_iff_exists.mpr ⟨e.2, OrderedMap.find?_eq_some.mpr ?_⟩
    rw [← hkey]
    exact he

/-- The loop over the `uint16_t` finds a position before which there is no gap. -/
theorem firstMissing_spec (fuel : Nat) (hlow : Holds pdus u low high)
    (hhigh : high ≤ low + 1024) {v : Nat}
    (hv : low ≤ v) (hn : low % 1024 + (v - low) ≤ 1024)
    (hfuel : 1025 ≤ low % 1024 + (v - low) + fuel) :
    ∃ w, u.firstMissing (low % 1024 + (v - low)) fuel = some (low % 1024 + (w - low)) ∧ v ≤ w ∧
      ∀ q, v ≤ q → q < w → ∃ e ∈ u.rxBuffer.entries, e.2.uid = q := by
  induction fuel generalizing v with
  | zero => omega
  | succ fuel ih =>
    unfold firstMissing
    by_cases hfind : (u.rxBuffer.find? (low % 1024 + (v - low))).isSome
    · rw [if_pos hfind]
      have hlt : low % 1024 + (v - low) < 1024 := by
        obtain ⟨packet, hpacket⟩ := Option.isSome_iff_exists.mp hfind
        have hkey := (hlow _ (OrderedMap.find?_eq_some.mp hpacket)).2.1
        simp only at hkey
        omega
      have hmod : v % 1024 = low % 1024 + (v - low) := by omega
      rw [← hmod, hlow.mem_of_find? hhigh hv (by omega)] at hfind
      have hnext : (low % 1024 + (v - low) + 1) % 65536 = low % 1024 + (v + 1 - low) := by omega
      rw [hnext]
      obtain ⟨w, hw, hvw, hall⟩ := ih (v := v + 1) (by omega) (by omega) (by omega)
      refine ⟨w, hw, by omega, fun q hq hqw => ?_⟩
      by_cases hqv : q = v
      · exact hqv ▸ hfind
      · exact hall q (by omega) hqw
    · rw [if_neg hfind]
      exact ⟨v, rfl, Nat.le_refl _, fun q hq hqv => absurd hqv (Nat.not_lt.mpr hq)⟩

/-- The loop over sequence numbers finds a position before which there is no gap. -/
theorem firstMissingSn_spec (base : Int) (fuel : Nat) (hlow : Holds pdus u low high)
    (hhigh : high < low + 1024) {v : Nat} (hv : low ≤ v) (hv' : v ≤ high)
    (hfuel : high < v + fuel) :
    ∃ w : Nat, u.firstMissingSn (.pos v base) fuel = some (.pos w base) ∧ v ≤ w ∧ w ≤ high := by
  induction fuel generalizing v with
  | zero => omega
  | succ fuel ih =>
    unfold firstMissingSn
    rw [SequenceNumber10.value_pos_natCast, SequenceNumber10.pos_succ]
    by_cases hfind : (u.rxBuffer.find? (v % 1024)).isSome
    · rw [if_pos hfind]
      obtain ⟨e, he, hev⟩ := (hlow.mem_of_find? (by omega) hv (by omega)).mp hfind
      have hlt := (hlow e he).2.2.2
      obtain ⟨w, hw, hvw, hwh⟩ := ih (v := v + 1) (by omega) (by omega) (by omega)
      exact ⟨w, hw, by omega, hwh⟩
    · rw [if_neg hfind]
      exact ⟨v, rfl, Nat.le_refl _, hv'⟩

end LteRlcUm

end Ns3.Lte
