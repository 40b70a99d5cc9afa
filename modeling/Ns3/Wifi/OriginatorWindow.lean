import Ns3.Wifi.Originator

/-!
# What the originator keeps

The transmit window records the positions that were acknowledged. The MPDUs in flight are sorted,
lie in the window and are not acknowledged, and the window has not passed a position that was not
used. Every operation keeps this, and none of its assertions fails.
-/

namespace Ns3.Wifi

open Originator

/-! ## The transmit window -/

section Window

variable {W n : ℕ} {S u : ℤ} {A : Set ℤ} {w : BlockAckWindow} {m : Mpdu}

theorem Records.atDistance_zero (h : Records W S A w) :
    w.atDistance 0 = some true ↔ S ∈ A := by
  have hpos : 0 < W := Nat.zero_lt_of_lt h.head
  rw [BlockAckWindow.atDistance_eq (h.size.symm ▸ hpos), Option.some_inj, h.bits 0 hpos]
  simp

/-- The window only passes acknowledged positions. -/
theorem Records.advanceTxLoop (h : Records W S A w) :
    ∃ S', S ≤ S' ∧ Records W S' A (advanceTxLoop n w) ∧ ∀ v, S ≤ v → v < S' → v ∈ A := by
  induction n generalizing S w with
  | zero => exact ⟨S, le_rfl, h, fun v hle hlt => absurd hlt (by omega)⟩
  | succ n ih =>
    unfold Wifi.advanceTxLoop
    by_cases hS : S ∈ A
    · rw [if_pos (h.atDistance_zero.mpr hS)]
      obtain ⟨S', hle, hrec, hpass⟩ := ih (h.advance 1)
      refine ⟨S', by omega, hrec, ?_⟩
      intro v hv hlt
      by_cases heq : v = S
      · rwa [heq]
      · exact hpass v (by omega) hlt
    · rw [if_neg fun hat => hS (h.atDistance_zero.mp hat)]
      exact ⟨S, le_rfl, h, fun v hle hlt => absurd hlt (by omega)⟩

theorem Records.advanceTxWindow (h : Records W S A w) :
    ∃ S', S ≤ S' ∧ Records W S' A (advanceTxWindow w) ∧ ∀ v, S ≤ v → v < S' → v ∈ A :=
  h.advanceTxLoop

theorem Records.notifyTransmittedMpdu (h : Records W S A w) (hm : IsSeq m.m_sequenceNumber m.place)
    (hlo : S ≤ m.place) (hhi : m.place < S + W) (hW : W ≤ 2048) :
    notifyTransmittedMpdu w m = some w := by
  unfold Wifi.notifyTransmittedMpdu
  rw [hm.getDistance_of_le h.winStart hlo (by omega), Option.bind_eq_bind, Option.bind_some, h.size,
    if_neg (by omega), if_neg (by omega)]

theorem Records.notifyAckedMpdu (h : Records W S A w) (hm : IsSeq m.m_sequenceNumber m.place)
    (hlo : S ≤ m.place) (hhi : m.place < S + W) (hW : W ≤ 2048) :
    ∃ w' S', notifyAckedMpdu w m = some w' ∧ Records W S' (insert m.place A) w' ∧ S ≤ S' ∧
      ∀ v, S ≤ v → v < S' → v ∈ insert m.place A := by
  obtain ⟨w₁, hset, hrec⟩ := h.setAt hlo hhi
  obtain ⟨S', hle, hrec', hpass⟩ := hrec.advanceTxWindow
  refine ⟨_, S', ?_, hrec', hle, hpass⟩
  unfold Wifi.notifyAckedMpdu
  rw [hm.getDistance_of_le h.winStart hlo (by omega), Option.bind_eq_bind, Option.bind_some,
    if_neg (by omega), hset]
  rfl

theorem Records.agreementDiscardedMpdu (h : Records W S A w)
    (hm : IsSeq m.m_sequenceNumber m.place) (hlo : S ≤ m.place) (hhi : m.place < S + W)
    (hW : W ≤ 2048) :
    ∃ w' S', agreementDiscardedMpdu w m = some w' ∧ Records W S' A w' ∧ m.place < S' ∧
      ∀ v, m.place < v → v < S' → v ∈ A := by
  have hadv := h.advance ((m.place - S).toNat + 1)
  have hstart : S + ((m.place - S).toNat + 1 : ℕ) = m.place + 1 := by omega
  rw [hstart] at hadv
  obtain ⟨S', hle, hrec, hpass⟩ := hadv.advanceTxWindow
  refine ⟨_, S', ?_, hrec, by omega, fun v hv hlt => hpass v (by omega) hlt⟩
  unfold Wifi.agreementDiscardedMpdu
  rw [hm.getDistance_of_le h.winStart hlo (by omega), Option.bind_eq_bind, Option.bind_some,
    if_neg (by omega)]

theorem IsSeq.isOldPacket {x y : ℕ} {v : ℤ} (hx : IsSeq x u) (hy : IsSeq y v)
    (hlo : v ≤ u + 2048) (hhi : u < v + 2048) : qosUtilsIsOldPacket y x = true ↔ u < v := by
  have hx4 := hx.lt
  have hy4 := hy.lt
  unfold qosUtilsIsOldPacket
  rw [decide_eq_true_eq]
  unfold IsSeq at hx hy
  omega

theorem IsSeq.isInWindow {x y : ℕ} {v : ℤ} (hx : IsSeq x u) (hy : IsSeq y v) (hW : W ≤ 2048)
    (hlo : v ≤ u + 2048) (hhi : u < v + 2048) :
    isInWindow x y W = true ↔ v ≤ u ∧ u < v + W := by
  have hx4 := hx.lt
  have hy4 := hy.lt
  unfold Wifi.isInWindow
  rw [decide_eq_true_eq]
  unfold IsSeq at hx hy
  omega

end Window

/-! ## The lists of MPDUs -/

/-- An MPDU with the number of its place. -/
def Mpdu.Numbered (m : Mpdu) : Prop := IsSeq m.m_sequenceNumber m.place

theorem Mpdu.Numbered.eq {m m' : Mpdu} (h : m.Numbered) (h' : m'.Numbered)
    (heq : m.place = m'.place) : m = m' := by
  unfold Mpdu.Numbered IsSeq at h h'
  rw [heq] at h
  have hseq : m.m_sequenceNumber = m'.m_sequenceNumber := by omega
  exact Mpdu.ext heq hseq

section Lists

variable {W : ℕ} {S N : ℤ} {A : Set ℤ} {w : BlockAckWindow} {mpdu : Mpdu}

/-- The old MPDUs in flight are dropped, from the EDCA queue as well. -/
theorem dropOld_eq {ms : List Mpdu} (queue : List Mpdu) (hstart : IsSeq w.m_winStart S)
    (hnum : ∀ m ∈ ms, m.Numbered)
    (hnear : ∀ m ∈ ms, S ≤ m.place + 2048 ∧ m.place < S + 2048)
    (hsorted : ms.Pairwise fun a b => a.place < b.place) :
    ∃ queue', dropOld w ms queue = some (ms.filter fun m => S ≤ m.place, queue') ∧
      queue'.Sublist queue := by
  induction ms generalizing queue with
  | nil => exact ⟨queue, rfl, List.Sublist.refl _⟩
  | cons a ms ih =>
    obtain ⟨ha, hsorted'⟩ := List.pairwise_cons.mp hsorted
    have hanum := hnum a (List.mem_cons_self ..)
    have hanear := hnear a (List.mem_cons_self ..)
    unfold dropOld
    by_cases hold : a.place < S
    · obtain ⟨d, hd, hd'⟩ := IsSeq.getDistance_of_lt hanum hstart hold hanear.1
      obtain ⟨queue', heq, hq⟩ := ih (queue.filter fun m' => m' ≠ a)
        (fun m hm => hnum m (List.mem_cons_of_mem _ hm))
        (fun m hm => hnear m (List.mem_cons_of_mem _ hm)) hsorted'
      refine ⟨queue', ?_, hq.trans List.filter_sublist⟩
      rw [hd, Option.bind_eq_bind, Option.bind_some, if_pos hd', heq,
        List.filter_cons_of_neg (by simpa using hold)]
    · have hall : (a :: ms).filter (fun m => decide (S ≤ m.place)) = a :: ms := by
        apply List.filter_eq_self.mpr
        intro m hm
        apply decide_eq_true
        rcases List.mem_cons.mp hm with rfl | hm
        · exact not_lt.mp hold
        · have hlt := ha m hm
          omega
      refine ⟨queue, ?_, List.Sublist.refl _⟩
      rw [IsSeq.getDistance_of_le hanum hstart (by omega) (by omega), Option.bind_eq_bind,
        Option.bind_some, if_neg (by omega), hall]

/-- A new MPDU in flight takes its place from the end on. -/
theorem storeFrom_eq (ms : List Mpdu) (hW : W ≤ 2048) (hstart : IsSeq w.m_winStart S)
    (hmpdu : mpdu.Numbered)
    (hlo : S ≤ mpdu.place) (hhi : mpdu.place < S + W) (hnum : ∀ m ∈ ms, m.Numbered)
    (hwin : ∀ m ∈ ms, S ≤ m.place ∧ m.place < S + W)
    (hsorted : ms.Pairwise fun a b => b.place < a.place) (hnew : mpdu ∉ ms) :
    ∃ stored, storeFrom w mpdu (mpdu.place - S).toNat ms = some (some stored) ∧
      stored.Perm (mpdu :: ms) ∧ stored.Pairwise fun a b => b.place < a.place := by
  induction ms with
  | nil => exact ⟨[mpdu], rfl, List.Perm.refl _, List.pairwise_singleton _ _⟩
  | cons a ms ih =>
    obtain ⟨ha, hsorted'⟩ := List.pairwise_cons.mp hsorted
    have hanum := hnum a (List.mem_cons_self ..)
    have hawin := hwin a (List.mem_cons_self ..)
    have hplace : mpdu.place ≠ a.place := by
      intro heq
      exact hnew (hmpdu.eq hanum heq ▸ List.mem_cons_self ..)
    have hseq : mpdu.m_sequenceNumber ≠ a.m_sequenceNumber := by
      unfold Mpdu.Numbered IsSeq at hmpdu hanum
      omega
    unfold storeFrom
    rw [if_neg hseq, IsSeq.getDistance_of_le hanum hstart hawin.1 (by omega), Option.bind_eq_bind,
      Option.bind_some]
    by_cases hgt : a.place < mpdu.place
    · refine ⟨mpdu :: a :: ms, ?_, List.Perm.refl _, List.pairwise_cons.mpr ⟨?_, hsorted⟩⟩
      · rw [if_pos (by omega)]
      · intro m hm
        rcases List.mem_cons.mp hm with rfl | hm
        · exact hgt
        · exact (ha m hm).trans hgt
    · obtain ⟨stored, heq, hperm, hsort⟩ := ih (fun m hm => hnum m (List.mem_cons_of_mem _ hm))
        (fun m hm => hwin m (List.mem_cons_of_mem _ hm)) hsorted'
        (fun hm => hnew (List.mem_cons_of_mem _ hm))
      refine ⟨a :: stored, ?_, (hperm.cons a).trans (List.Perm.swap mpdu a ms),
        List.pairwise_cons.mpr ⟨?_, hsort⟩⟩
      · rw [if_neg (by omega), heq]
        rfl
      · intro m hm
        rcases List.mem_cons.mp (hperm.mem_iff.mp hm) with rfl | hm
        · omega
        · exact ha m hm

end Lists

end Ns3.Wifi
