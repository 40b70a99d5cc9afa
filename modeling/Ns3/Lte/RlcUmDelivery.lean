import Ns3.Lte.RlcUmReceiver

/-!
# Delivery in the unacknowledged mode

A receiver that gets the PDUs of one sender in any order, with losses and duplicates, passes each on
at most once and in the order of sending, as long as every reception is `InOrder`. Without that
condition an older PDU stays in the buffer outside the window (`stays_outside`).
-/

namespace Ns3.Lte

open Ns3.Lib

namespace LteRlcUm

/-- The states of a receiver, with one past the highest position it has received. `Q` is the
condition on each reception. -/
inductive Received (pdus : List (List UInt8)) (Q : LteRlcUm → Packet → Prop) :
    LteRlcUm → Nat → Prop
  | start : Received pdus Q {} 0
  | receive {u u' : LteRlcUm} {uh : Nat} {p : Packet} (h : Received pdus Q u uh)
    (hp : Sent pdus p) (hnear : p.uid < uh + 512) (hnear' : uh < p.uid + 512) (hQ : Q u p)
    (hu' : u.doReceivePdu p = some u') : Received pdus Q u' (max uh (p.uid + 1))
  | expire {u u' : LteRlcUm} {uh : Nat} (h : Received pdus Q u uh)
    (hu' : u.expireReorderingTimer = some u') : Received pdus Q u' uh

variable {pdus : List (List UInt8)} {segs : List (Segment UInt8)}

/-- The invariant in every state of a run whose receptions are in order. -/
theorem Received.inv (hs : Sender pdus segs) {u : LteRlcUm} {uh : Nat}
    (h : Received pdus (fun u p => u.InOrder (p.uid % 1024)) u uh) :
    ∃ ur next base, Inv pdus segs u uh ur next base := by
  induction h with
  | start => exact ⟨0, 0, 0, .start⟩
  | receive h hp hnear hnear' hQ hu' ih =>
    obtain ⟨ur, next, base, hinv⟩ := ih
    obtain ⟨u', ur', next', base', heq, hinv'⟩ := hinv.doReceivePdu hs hp hnear hnear' hQ
    rw [hu'] at heq
    cases heq
    exact ⟨ur', next', base', hinv'⟩
  | expire h hu' ih =>
    obtain ⟨ur, next, base, hinv⟩ := ih
    obtain ⟨u', ur', next', heq, hinv'⟩ := hinv.expireReorderingTimer hs
    rw [hu'] at heq
    cases heq
    exact ⟨ur', next', base, hinv'⟩

theorem UmSender.Inv.sender {s : UmSender} (h : UmSender.Inv s segs) : Sender s.pdus segs where
  length_eq := h.length_eq
  carries := h.carries
  absorbs := by
    obtain ⟨out, kept, -, habs, -⟩ := h.pending
    exact ⟨_, habs⟩

/-- In every state of a run whose receptions are in order, the PDUs passed on have increasing
positions, those in the buffer lie inside the window, each that was placed there is in it or was
passed on, the SDUs delivered are accepted ones in their order, and the next event does not
crash. -/
theorem delivers_in_order {maxTxBufferSize : Nat} {s : UmSender}
    (hreached : UmSender.Reached maxTxBufferSize s) {u : LteRlcUm} {uh : Nat}
    (h : Received s.pdus (fun u p => u.InOrder (p.uid % 1024)) u uh) :
    u.passed.Pairwise (· < ·) ∧
      (∀ e ∈ u.rxBuffer.entries, u.isInsideReorderingWindow (.ofValue e.1) = true ∧
        uh ≤ e.2.uid + 512 ∧ e.2.uid < uh) ∧
      (∀ p ∈ u.placed, p ∈ u.passed ∨ u.Has p) ∧
      u.reassembly.delivered.Sublist s.accepted ∧
      (∀ p, Sent s.pdus p → p.uid < uh + 512 → uh < p.uid + 512 → u.InOrder (p.uid % 1024) →
        (u.doReceivePdu p).isSome) ∧
      (u.expireReorderingTimer).isSome := by
  obtain ⟨segs, hinv⟩ := hreached.inv
  have hs := UmSender.Inv.sender hinv
  obtain ⟨ur, next, base, hu⟩ := h.inv hs
  refine ⟨hu.delivering.increasing, ?_, hu.placed, ?_, ?_, ?_⟩
  · intro e he
    obtain ⟨-, hkey, hle, hlt⟩ := hu.holds e he
    have hwindow := hu.window
    refine ⟨?_, by omega, hlt⟩
    rw [hkey, SequenceNumber10.ofValue_mod, isInside_pos hu.vrUh (by omega) (by omega)]
    exact decide_eq_true ⟨by omega, hlt⟩
  · obtain ⟨out, kept, rest, habs, -, hacc⟩ := hinv.pending
    obtain ⟨r, hr, hsub, -⟩ := hu.delivering.follows
    obtain ⟨r', hr', hpre⟩ := absorbAll_take_le (Nat.min_le_right next segs.length) (Nat.le_refl _)
      (by simpa using habs)
    rw [← List.take_eq_take_min, hr] at hr'
    cases hr'
    rw [hacc]
    exact (hsub.trans hpre.sublist).trans (List.sublist_append_left _ _)
  · intro p hp hnear hnear' hQ
    obtain ⟨u', -, -, -, heq, -⟩ := hu.doReceivePdu hs hp hnear hnear' hQ
    rw [heq]
    rfl
  · obtain ⟨u', -, -, heq, -⟩ := hu.expireReorderingTimer hs
    rw [heq]
    rfl

/-! ## A PDU that stays outside the window -/

/-- The PDU of the position `k`, when each PDU carries an SDU of one byte. -/
def onePdu (k : Nat) : List UInt8 :=
  (((LteRlcHeader.push [0] []).setSequenceNumber (.pos k 0)).setFramingInfo 0).serialize ++ [u8 k]

/-- The sender of `n` PDUs with an SDU of one byte each. -/
def oneByOne (n : Nat) : UmSender where
  entity := { sequenceNumber := .pos n 0 }
  accepted := (List.range n).map fun k => [u8 k]
  pdus := (List.range n).map onePdu

/-- Each of the SDUs comes before an opportunity of three octets. -/
theorem reached_oneByOne (n : Nat) : UmSender.Reached (10 * 1024) (oneByOne n) := by
  induction n with
  | zero => exact .start
  | succ n ih =>
    have h₁ := ih.step (.pdcpPdu [u8 n]) ⟨List.cons_ne_nil _ _, by simp [oneByOne]⟩ rfl
    refine h₁.step (.txOpportunity 3) ?_ ?_
    · intro h
      have hwaits := h.waits
      simp [oneByOne, LteRlcUm.accepts, doTransmitPdcpPdu] at hwaits
    · simp [UmSender.step, oneByOne, LteRlcUm.accepts, doTransmitPdcpPdu, doNotifyTxOpportunity,
        fillDataField, framingInfo, SduStatus.begins, SduStatus.ends, DataField.packet, onePdu,
        List.range_succ, addHeader, LteRlcHeader.push, LteRlcHeader.pushExtensionBit,
        LteRlcHeader.setSequenceNumber, LteRlcHeader.setFramingInfo, LteRlcHeader.serialize,
        writeLis]

/-- The receptions of the PDUs of the positions 400, 800 and 1100. -/
def threeReceptions : Option LteRlcUm :=
  [400, 800, 1100].foldlM (fun u k => doReceivePdu u ⟨k, onePdu k⟩) {}

theorem threeReceptions_entries : threeReceptions.map (fun u =>
    u.rxBuffer.entries.map fun e => (e.1, e.2.uid, u.isInsideReorderingWindow (.ofValue e.1))) =
    some [(76, 1100, true), (400, 400, false), (800, 800, true)] := by
  decide

/-- Without the condition on the numbers, a PDU stays in the buffer behind the window. -/
theorem stays_outside : ∃ s u, UmSender.Reached (10 * 1024) s ∧
    Received s.pdus (fun _ _ => True) u 1101 ∧
    ∃ e ∈ u.rxBuffer.entries, e.2.uid + 512 < 1101 ∧
      u.isInsideReorderingWindow (.ofValue e.1) = false := by
  have hentries := threeReceptions_entries
  cases hu3 : threeReceptions with
  | none => simp [hu3] at hentries
  | some u3 =>
    have hfold : ∃ u1 u2, doReceivePdu {} ⟨400, onePdu 400⟩ = some u1 ∧
        u1.doReceivePdu ⟨800, onePdu 800⟩ = some u2 ∧
        u2.doReceivePdu ⟨1100, onePdu 1100⟩ = some u3 := by
      simpa [threeReceptions, Option.bind_eq_some_iff] using hu3
    obtain ⟨u1, u2, hu1, hu2, hu3'⟩ := hfold
    have hsent : ∀ k < 1101, Sent (oneByOne 1101).pdus ⟨k, onePdu k⟩ := by
      intro k hk
      simp [Sent, oneByOne, hk]
    have h1 : Received (oneByOne 1101).pdus (fun _ _ => True) {} 0 := .start
    have h2 := h1.receive (hsent 400 (by omega)) (by simp) (by simp) trivial hu1
    have h3 := h2.receive (hsent 800 (by omega)) (by simp) (by simp) trivial hu2
    have h4 := h3.receive (hsent 1100 (by omega)) (by simp) (by simp) trivial hu3'
    have huh : max (max (max 0 (400 + 1)) (800 + 1)) (1100 + 1) = 1101 := by decide
    rw [huh] at h4
    rw [hu3, Option.map_some, Option.some.injEq] at hentries
    have hmem : (400, 400, false) ∈ u3.rxBuffer.entries.map fun e =>
        (e.1, e.2.uid, u3.isInsideReorderingWindow (.ofValue e.1)) := by
      rw [hentries]
      simp
    obtain ⟨e, he, heq⟩ := List.mem_map.mp hmem
    simp only [Prod.mk.injEq] at heq
    exact ⟨_, u3, reached_oneByOne 1101, h4, e, he, by omega, by rw [heq.2.2]⟩

instance (u : LteRlcUm) (sn : Nat) : Decidable (u.InOrder sn) :=
  inferInstanceAs (Decidable (u.isInsideReorderingWindow (.ofValue sn) = false →
    ∀ e ∈ u.rxBuffer.entries,
      isInsideReorderingWindow { u with vrUh := (SequenceNumber10.ofValue sn).add 1 }
        (.ofValue e.1) = false → e.1 < sn))

/-- The reception of the PDU of the position `k`, of `n` that were sent. -/
def receiveNext (n : Nat) (r : LteRlcUm × Nat) (k : Nat) : Option (LteRlcUm × Nat) :=
  if k < n ∧ k < r.2 + 512 ∧ r.2 < k + 512 ∧ r.1.InOrder (k % 1024) then
    (r.1.doReceivePdu ⟨k, onePdu k⟩).map fun u => (u, max r.2 (k + 1))
  else none

theorem received_receiveNext {n : Nat} {ks : List Nat} {r r' : LteRlcUm × Nat}
    (h : Received (oneByOne n).pdus (fun u p => u.InOrder (p.uid % 1024)) r.1 r.2)
    (hr' : ks.foldlM (receiveNext n) r = some r') :
    Received (oneByOne n).pdus (fun u p => u.InOrder (p.uid % 1024)) r'.1 r'.2 := by
  induction ks generalizing r with
  | nil =>
    cases hr'
    exact h
  | cons k ks ih =>
    rw [List.foldlM_cons] at hr'
    obtain ⟨r₁, hr₁, hrest⟩ := Option.bind_eq_some_iff.mp hr'
    refine ih ?_ hrest
    unfold receiveNext at hr₁
    split at hr₁
    · next hk =>
      obtain ⟨hlt, hnear, hnear', horder⟩ := hk
      obtain ⟨u, hu, rfl⟩ := Option.map_eq_some_iff.mp hr₁
      have hsent : Sent (oneByOne n).pdus ⟨k, onePdu k⟩ := by simp [Sent, oneByOne, hlt]
      exact h.receive hsent hnear hnear' horder hu
    · cases hr₁

/-- The second PDU arrives before the first, then one that moves the window, one in the gap that it
leaves, and one that moves the window past this. -/
theorem delivers_in_order_five : ∃ r : LteRlcUm × Nat,
    [1, 0, 513, 400, 1000].foldlM (receiveNext 1001) ({}, 0) = some r ∧
      r.1.passed = [0, 1, 400] ∧ r.1.passed.Pairwise (· < ·) ∧
      r.1.reassembly.delivered.Sublist (oneByOne 1001).accepted := by
  have hpassed : ([1, 0, 513, 400, 1000].foldlM (receiveNext 1001) ({}, 0)).map (·.1.passed) =
      some [0, 1, 400] := by
    decide
  obtain ⟨r, hr, hpassed⟩ := Option.map_eq_some_iff.mp hpassed
  have hrec := received_receiveNext .start hr
  have hall := delivers_in_order (reached_oneByOne 1001) hrec
  exact ⟨r, hr, hpassed, hall.1, hall.2.2.2.1⟩

end LteRlcUm

end Ns3.Lte
