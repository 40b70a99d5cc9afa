import Ns3.Wifi.RecipientBlockAck
import Mathlib.Data.Set.Insert
import Mathlib.Tactic.Cases

/-!
# What the scoreboard records

The bits of the recipient's scoreboard are those of the set of all positions received, on the
window of `W` positions from the start `r`: an MPDU moves the window so far that it is in it, a
block ack request to its starting sequence number.
-/

namespace Ns3.Wifi

open RecipientBlockAckAgreement

/-- The window shows the positions of `S` from `r` on, and `S` has none beyond it. -/
structure Records (W : ℕ) (r : ℤ) (S : Set ℤ) (w : BlockAckWindow) : Prop where
  winStart : IsSeq w.m_winStart r
  size : w.getWinSize = W
  head : w.m_head < W
  bits : ∀ i < W, (w.bit i = true ↔ r + i ∈ S)
  top : ∀ v ∈ S, v < r + W

variable {W : ℕ} {r u : ℤ} {S : Set ℤ} {w : BlockAckWindow} {x : ℕ}

theorem records_init (hW : 0 < W) (hx : IsSeq x r) :
    Records W r ∅ (BlockAckWindow.init x W) where
  winStart := hx
  size := BlockAckWindow.getWinSize_init x
  head := hW
  bits := by simp
  top := by simp

theorem Records.reset (h : Records W r S w) (hx : IsSeq x u) (hu : r + W ≤ u) :
    Records W u S (w.reset x) where
  winStart := hx
  size := by
    rw [BlockAckWindow.reset, BlockAckWindow.getWinSize_init]
    exact h.size
  head := Nat.zero_lt_of_lt h.head
  bits := by
    intro i hi
    rw [BlockAckWindow.reset, BlockAckWindow.bit_init]
    constructor
    · intro hf
      cases hf
    · intro hS
      have := h.top _ hS
      omega
  top := by
    intro v hv
    have := h.top v hv
    omega

theorem Records.advance (h : Records W r S w) (n : ℕ) : Records W (r + n) S (w.advance n) where
  winStart := by
    have := h.winStart
    rw [BlockAckWindow.advance_winStart]
    unfold IsSeq at *
    omega
  size := by rw [BlockAckWindow.advance_getWinSize, h.size]
  head := by
    have := BlockAckWindow.advance_head (n := n) (h.size.symm ▸ h.head)
    rwa [h.size] at this
  bits := by
    intro i hi
    rw [BlockAckWindow.advance_bit (h.size.symm ▸ h.head) (h.size.symm ▸ hi), h.size]
    have hpos : r + n + i = r + (i + n : ℕ) := by
      omega
    rw [hpos]
    split
    · next hlt => exact h.bits (i + n) hlt
    · next hge =>
      constructor
      · intro hf
        cases hf
      · intro hS
        have := h.top _ hS
        omega
  top := by
    intro v hv
    have := h.top v hv
    omega

theorem Records.setAt (h : Records W r S w) (hlo : r ≤ u) (hhi : u < r + W) :
    ∃ w', w.setAt (u - r).toNat true = some w' ∧ Records W r (insert u S) w' := by
  have hd : (u - r).toNat < w.getWinSize := by
    rw [h.size]
    omega
  obtain ⟨w', hw'⟩ := BlockAckWindow.exists_setAt (b := true) hd
  refine ⟨w', hw', ?_, ?_, ?_, ?_, ?_⟩
  · rw [BlockAckWindow.setAt_winStart hw']
    exact h.winStart
  · rw [BlockAckWindow.setAt_getWinSize hw', h.size]
  · rw [BlockAckWindow.setAt_head hw']
    exact h.head
  · intro i hi
    rw [BlockAckWindow.setAt_bit hw' (h.size.symm ▸ hi), Set.mem_insert_iff]
    split
    · next heq => simp only [true_iff]; exact Or.inl (by omega)
    · next hne =>
      rw [h.bits i hi]
      constructor
      · exact Or.inr
      · rintro (heq | hS)
        · exact absurd (by omega) hne
        · exact hS
  · rintro v (rfl | hv)
    · exact hhi
    · exact h.top v hv

/-- An old MPDU changes nothing that the window shows. -/
theorem Records.insert_old (h : Records W r S w) (hu : u < r) : Records W r (insert u S) w where
  winStart := h.winStart
  size := h.size
  head := h.head
  bits := by
    intro i hi
    rw [h.bits i hi, Set.mem_insert_iff]
    constructor
    · exact Or.inr
    · rintro (heq | hS)
      · omega
      · exact hS
  top := by
    rintro v (rfl | hv)
    · omega
    · exact h.top v hv

/-- An MPDU at most 2048 positions before the window's start and fewer after it. -/
theorem Records.scoreMpdu (h : Records W r S w) (hW : W ≤ 2048) (hx : IsSeq x u)
    (hlo : r ≤ u + 2048) (hhi : u < r + 2048) :
    ∃ w', scoreMpdu w x = some w' ∧ Records W (max r (u - W + 1)) (insert u S) w' := by
  have hW0 := Nat.zero_lt_of_lt h.head
  unfold RecipientBlockAckAgreement.scoreMpdu
  by_cases hold : u < r
  · obtain ⟨d, hd, hd'⟩ := hx.getDistance_of_lt h.winStart hold hlo
    refine ⟨w, ?_, ?_⟩
    · rw [hd, Option.bind_eq_bind, Option.bind_some, h.size, if_neg (by omega), if_neg (by omega)]
    · rw [max_eq_left (by omega)]
      exact h.insert_old hold
  · have hd := hx.getDistance_of_le h.winStart (by omega) (by omega)
    rw [hd, Option.bind_eq_bind, Option.bind_some, h.size]
    by_cases hin : u < r + W
    · obtain ⟨w', hw', hr⟩ := h.setAt (not_lt.mp hold) hin
      refine ⟨w', ?_, ?_⟩
      · rw [if_pos (by omega), hw']
      · rw [max_eq_left (by omega)]
        exact hr
    · have hadv := h.advance ((u - r).toNat - W + 1)
      have hr : r + ((u - r).toNat - W + 1 : ℕ) = u - W + 1 := by omega
      rw [hr] at hadv
      obtain ⟨w', hw', hrec⟩ := hadv.setAt (u := u) (by omega) (by omega)
      have hplace : (u - (u - W + 1)).toNat = W - 1 := by omega
      rw [hplace] at hw'
      refine ⟨w', ?_, ?_⟩
      · rw [if_neg (by omega), if_pos (by omega)]
        dsimp only
        rw [hadv.size]
        exact hw'
      · rw [max_eq_right (by omega)]
        exact hrec

/-- A block ack request moves the start forward to its number. -/
theorem Records.scoreBar (h : Records W r S w) (hW : W ≤ 2048) (hx : IsSeq x u)
    (hlo : r ≤ u + 2048) (hhi : u < r + 2048) :
    ∃ w', scoreBar w x = some w' ∧ Records W (max r u) S w' := by
  unfold RecipientBlockAckAgreement.scoreBar
  by_cases hold : u < r
  · obtain ⟨d, hd, hd'⟩ := hx.getDistance_of_lt h.winStart hold hlo
    refine ⟨w, ?_, ?_⟩
    · rw [hd, Option.bind_eq_bind, Option.bind_some, h.size, if_neg (by omega), if_neg (by omega)]
    · rw [max_eq_left (by omega)]
      exact h
  · have hd := hx.getDistance_of_le h.winStart (by omega) (by omega)
    rw [hd, Option.bind_eq_bind, Option.bind_some, h.size]
    by_cases heq : u = r
    · refine ⟨w, ?_, ?_⟩
      · rw [if_neg (by omega), if_neg (by omega)]
      · rw [heq, max_self]
        exact h
    · rw [max_eq_right (not_lt.mp hold)]
      by_cases hin : u < r + W
      · have hadv := h.advance (u - r).toNat
        have hr : r + ((u - r).toNat : ℕ) = u := by omega
        rw [hr] at hadv
        refine ⟨_, ?_, hadv⟩
        have hstart : (w.advance (u - r).toNat).m_winStart = x := by
          have h1 := hadv.winStart
          unfold IsSeq at h1 hx
          omega
        rw [if_pos (by omega)]
        dsimp only
        rw [hstart]
        simp [guard]
      · refine ⟨_, ?_, h.reset hx (not_lt.mp hin)⟩
        rw [if_neg (by omega), if_pos (by omega)]

end Ns3.Wifi
