import Mathlib
import Ns3.Mpi.TimeWindow

/-!
# The end of a distributed run

All ranks draw the same conclusion from an `MPI_Allgather`, so they leave their loops together, and
only when nothing is left to do.
-/

namespace Ns3.Mpi

open Ns3.Core

namespace DistributedSystem

variable {n : ℕ} {net : Network n} {s s' : DistributedSystem n} {base : ℕ}

/-- The rank leaves the loop in its next steps, or left it. -/
def Leaving (r : DistributedSimulatorImpl) : RankPhase → Prop
  | .gathered m_pLBTS => globalFinished m_pLBTS = true
  | .deciding | .head | .left => r.m_globalFinished = true
  | _ => False

/-- The rank knows that all are finished. -/
def Knows (r : DistributedSimulatorImpl) (p : RankPhase) : Prop :=
  r.m_globalFinished = true ∨ ∃ m_pLBTS, p = .gathered m_pLBTS ∧ globalFinished m_pLBTS = true

/-- Once one rank knows that all are finished, nothing is left to do for any. -/
def Ends (s : DistributedSystem n) : Prop :=
  (∃ i, Knows (s.impl i) (s.phase i)) →
    s.inFlight = [] ∧
      ∀ j, (s.impl j).simulator.isFinished = true ∧ Leaving (s.impl j) (s.phase j)

theorem leaving_frame {r : DistributedSimulatorImpl} {p : RankPhase} (h : Leaving r p) :
    p.calls = false ∧ p.started = true ∧ p ≠ .polling ∧ p ≠ .gathering := by
  cases p with
  | gathered m => exact ⟨rfl, rfl, by simp, by simp⟩
  | deciding => exact ⟨rfl, rfl, by simp, by simp⟩
  | head => exact ⟨rfl, rfl, by simp, by simp⟩
  | left => exact ⟨rfl, rfl, by simp, by simp⟩
  | _ => exact absurd h id

theorem Ends.knows_set {i : Fin n} {impl : DistributedSimulatorImpl} {phase : RankPhase}
    (hk : Knows impl phase → Knows (s.impl i) (s.phase i)) {j : Fin n}
    (hj : Knows ((s.set i impl phase).impl j) ((s.set i impl phase).phase j)) :
    Knows (s.impl j) (s.phase j) := by
  by_cases hji : j = i
  · rw [hji] at hj ⊢
    simp only [DistributedSystem.set, Function.update_self] at hj
    exact hk hj
  · simp only [DistributedSystem.set, Function.update_of_ne hji] at hj
    exact hj

/-- One rank changes; when it is on its way out, it stays so. -/
theorem Ends.set (h : Ends s) {i : Fin n} {impl : DistributedSimulatorImpl} {phase : RankPhase}
    (hk : Knows impl phase → Knows (s.impl i) (s.phase i))
    (hl : (s.impl i).simulator.isFinished = true → Leaving (s.impl i) (s.phase i) →
      impl.simulator.isFinished = true ∧ Leaving impl phase) : Ends (s.set i impl phase) := by
  rintro ⟨j, hj⟩
  obtain ⟨hnil, hall⟩ := h ⟨j, Ends.knows_set hk hj⟩
  refine ⟨hnil, ?_⟩
  intro j
  by_cases hji : j = i
  · rw [hji]
    simp only [DistributedSystem.set, Function.update_self]
    exact hl (hall i).1 (hall i).2
  · simp only [DistributedSystem.set, Function.update_of_ne hji]
    exact hall j

/-- While some rank is not on its way out, no rank knows. -/
theorem Ends.of_not_leaving (h : Ends s) {i : Fin n} (hi : ¬ Leaving (s.impl i) (s.phase i))
    (hk : ∀ j, Knows (s'.impl j) (s'.phase j) → Knows (s.impl j) (s.phase j)) : Ends s' := by
  rintro ⟨j, hj⟩
  exact absurd ((h ⟨j, hk j hj⟩).2 i).2 hi

theorem knows_headPhase {r : DistributedSimulatorImpl} (h : Knows r (headPhase r)) :
    r.m_globalFinished = true := by
  rcases h with h | ⟨m, hm, -⟩
  · exact h
  · exact absurd hm ((headPhase_frame r).2.2 m)

theorem decideRank_frame {r r' : DistributedSimulatorImpl} {p' : RankPhase}
    (hd : decideRank r = some (r', p')) :
    r'.m_globalFinished = r.m_globalFinished ∧ (∀ m_pLBTS, p' ≠ .gathered m_pLBTS) ∧
      (r.simulator.isFinished = true → r' = r ∧ p' = .head) := by
  unfold decideRank at hd
  split at hd
  · next hc =>
    obtain ⟨x, hx, heq⟩ := Option.bind_eq_some_iff.mp hd
    cases heq
    refine ⟨rfl, fun m hm => (by cases hm), ?_⟩
    intro hf
    rw [hf] at hc
    cases hc.2
  · cases hd
    exact ⟨rfl, fun m hm => (by cases hm), fun _ => ⟨rfl, rfl⟩⟩

theorem Ends.gather (h : Ends s) (hinv : Inv net s base) (hp : ∀ i, s.phase i = .gathering)
    (hf : s.inFlight.length < 2 ^ 32) : Ends { s with phase := fun _ => .gathered s.messages } := by
  rintro ⟨i, hi⟩
  have hall : globalFinished s.messages = true := by
    rcases hi with hi | ⟨m, hm, hfin⟩
    · have hleaving := ((h ⟨i, Or.inl hi⟩).2 i).2
      rw [hp i] at hleaving
      exact absurd hleaving id
    · cases hm
      exact hfin
  have hparts := Bool.and_eq_true_iff.mp hall
  refine ⟨hinv.inFlight_eq_nil hf (beq_iff_eq.mp hparts.2), ?_⟩
  intro j
  exact ⟨List.all_eq_true.mp hparts.1 _ (mem_messages.mpr ⟨j, rfl⟩), hall⟩

theorem Ends.step (h : Ends s) (hinv : Inv net s base) {r : DistributedStep n} (hf : s.Fits r)
    (hs : s.step net r = some s') : Ends s' := by
  cases r with
  | call i a =>
    dsimp only [DistributedSystem.step] at hs
    split at hs
    · next hc =>
      cases hs
      refine h.set (fun hk => hk) ?_
      intro _ hl
      rw [(leaving_frame hl).1] at hc
      cases hc
    · cases hs
  | sendPacket i channel txTime node event =>
    dsimp only [DistributedSystem.step] at hs
    split at hs
    · next hc =>
      cases hs
      refine h.of_not_leaving (i := i) ?_ ?_
      · intro hl
        have hcalls := hc.1
        rw [(leaving_frame hl).1] at hcalls
        cases hcalls
      · intro j hj
        refine Ends.knows_set (i := i) ?_ hj
        exact fun hk => hk
    · cases hs
  | run i =>
    dsimp only [DistributedSystem.step] at hs
    split at hs
    · next hc =>
      cases hs
      refine h.set ?_ ?_
      · rintro (hk | ⟨m, hm, -⟩)
        · exact Or.inl hk
        · cases hm
      · intro _ hl
        rw [hc] at hl
        exact absurd hl id
    · cases hs
  | reduce =>
    dsimp only [DistributedSystem.step] at hs
    split at hs
    · cases hs
      rintro ⟨i, hi | ⟨m, hm, -⟩⟩
      · cases hi
      · cases hm
    · cases hs
  | head i =>
    dsimp only [DistributedSystem.step] at hs
    split at hs
    · next hc =>
      cases hs
      refine h.set (fun hk => Or.inl (knows_headPhase hk)) ?_
      intro hfin hl
      rw [hc] at hl
      refine ⟨hfin, ?_⟩
      have hg : (s.impl i).m_globalFinished = true := hl
      unfold headPhase
      rw [if_pos hg]
      exact hg
    · cases hs
  | receive i m =>
    dsimp only [DistributedSystem.step] at hs
    split at hs
    · next hc =>
      cases hs
      refine h.of_not_leaving (i := i) ?_ ?_
      · rw [hc.1]
        exact id
      · intro j hj
        refine Ends.knows_set (i := i) ?_ hj
        exact fun hk => hk
    · cases hs
  | endPoll i =>
    dsimp only [DistributedSystem.step] at hs
    split at hs
    · next hc =>
      cases hs
      refine h.set ?_ ?_
      · rintro (hk | ⟨m, hm, -⟩)
        · exact Or.inl hk
        · cases hm
      · intro _ hl
        rw [hc] at hl
        exact absurd hl id
    · cases hs
  | gather =>
    dsimp only [DistributedSystem.step] at hs
    split at hs
    · next hc =>
      cases hs
      exact h.gather hinv hc hf
    · cases hs
  | update i =>
    dsimp only [DistributedSystem.step] at hs
    split at hs
    · next m_pLBTS hc =>
      cases hs
      refine h.set ?_ ?_
      · rintro (hk | ⟨m, hm, -⟩)
        · exact Or.inr ⟨m_pLBTS, hc, hk⟩
        · cases hm
      · intro hfin hl
        rw [hc] at hl
        exact ⟨hfin, hl⟩
    · cases hs
  | decide i =>
    dsimp only [DistributedSystem.step] at hs
    split at hs
    · next hc =>
      obtain ⟨⟨impl, phase⟩, hd, heq⟩ := Option.bind_eq_some_iff.mp hs
      cases heq
      obtain ⟨hg, hnot, hfinished⟩ := decideRank_frame hd
      refine h.set ?_ ?_
      · rintro (hk | ⟨m, hm, -⟩)
        · exact Or.inl (hg ▸ hk)
        · exact absurd hm (hnot m)
      · intro hfin hl
        obtain ⟨rfl, rfl⟩ := hfinished hfin
        rw [hc] at hl
        exact ⟨hfin, hl⟩
    · cases hs
  | finishEvent i =>
    dsimp only [DistributedSystem.step] at hs
    split at hs
    · next hc =>
      cases hs
      refine h.set ?_ ?_
      · rintro (hk | ⟨m, hm, -⟩)
        · exact Or.inl hk
        · cases hm
      · intro _ hl
        rw [hc] at hl
        exact absurd hl id
    · cases hs

theorem Run.ends (h : Run net s) : Ends s := by
  induction h with
  | start =>
    rintro ⟨i, hi | ⟨m, hm, -⟩⟩
    · cases hi
    · cases hm
  | step h r hf hs ih =>
    obtain ⟨base, hinv⟩ := h.inv
    exact ih.step hinv hf hs

/-- A rank leaves `Run` only when every rank is out of events or stopped, no packet is in flight,
and every other rank has left or leaves in its next steps. -/
theorem leave_together (h : Run net s) {i : Fin n} (hl : (s.impl i).m_globalFinished = true) :
    s.inFlight = [] ∧
      ∀ j, (s.impl j).simulator.isFinished = true ∧ Leaving (s.impl j) (s.phase j) :=
  h.ends ⟨i, Or.inl hl⟩

theorem leave_together_two : ∃ s, (start 2).steps twoRanks ending = some s ∧
    (s.impl 0).m_globalFinished = true ∧ s.inFlight = [] ∧
      (s.impl 1).simulator.isFinished = true := by
  have hrun : ((start 2).steps twoRanks ending).map (fun s => (s.impl 0).m_globalFinished) =
      some true := by
    decide
  obtain ⟨s, hs, hl⟩ := Option.map_eq_some_iff.mp hrun
  obtain ⟨hnil, hall⟩ := leave_together (Run.start.steps hs) hl
  exact ⟨s, hs, hl, hnil, (hall 1).1⟩

end DistributedSystem

end Ns3.Mpi
