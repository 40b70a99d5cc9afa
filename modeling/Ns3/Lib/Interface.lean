import Mathlib.Logic.Basic
import Mathlib.Tactic.Basic

/-!
# Interfaces

An interface is what the clients of a component see: the requests they may make, the right answers,
and the state after them. A machine provides it when a relation between the states of the two is
kept by every legal request. Where a request has one right answer, all machines that provide the
interface answer alike.
-/

namespace Ns3.Lib

structure Interface (κ ρ α : Type) where
  Legal : κ → ρ → Prop
  Right : κ → ρ → α → Prop
  after : κ → ρ → α → κ

namespace Interface

variable {κ ρ α σ : Type}

/-- Legal requests with right answers, one after the other. -/
inductive Trace (S : Interface κ ρ α) : κ → List (ρ × α) → κ → Prop
  | nil (q : κ) : Trace S q [] q
  | cons {q q' : κ} {r : ρ} {a : α} {tr : List (ρ × α)} (hl : S.Legal q r) (ha : S.Right q r a)
    (h : Trace S (S.after q r a) tr q') : Trace S q ((r, a) :: tr) q'

/-- No request has two right answers. -/
def Determined (S : Interface κ ρ α) : Prop :=
  ∀ q r a b, S.Right q r a → S.Right q r b → a = b

/-- The answers of a machine to the requests, while it has a next state. -/
def answers (step : σ → ρ → Option (σ × α)) : σ → List ρ → Option (List α)
  | _, [] => some []
  | s, r :: rs => do
    let (s', a) ← step s r
    let as ← answers step s' rs
    return a :: as

/-- What each request finds in the state in which it comes. -/
def Along (step : σ → ρ → Option (σ × α)) (P : σ → ρ → Prop) : σ → List ρ → Prop
  | _, [] => True
  | s, r :: rs => P s r ∧ ∀ s' a, step s r = some (s', a) → Along step P s' rs

instance Along.decidable (step : σ → ρ → Option (σ × α)) (P : σ → ρ → Prop)
    [∀ s r, Decidable (P s r)] : ∀ s rs, Decidable (Along step P s rs)
  | _, [] => isTrue trivial
  | s, r :: rs =>
    match h : step s r with
    | none => decidable_of_iff (P s r) (by simp [Along, h])
    | some (s', a) =>
      have := Along.decidable step P s' rs
      decidable_of_iff (P s r ∧ Along step P s' rs) (by simp [Along, h])

/-- The machine answers the requests that meet `P` rightly; `Holds` relates the states. -/
structure Provided (S : Interface κ ρ α) (step : σ → ρ → Option (σ × α)) (P : σ → ρ → Prop)
    (Holds : σ → κ → Prop) : Prop where
  step : ∀ {s q r}, Holds s q → S.Legal q r → P s r →
    ∃ s' a, step s r = some (s', a) ∧ S.Right q r a ∧ Holds s' (S.after q r a)

variable {S : Interface κ ρ α} {step : σ → ρ → Option (σ × α)} {P : σ → ρ → Prop}
  {Holds : σ → κ → Prop}

theorem along_of_forall (h : ∀ s r, P s r) (s : σ) (rs : List ρ) : Along step P s rs := by
  induction rs generalizing s with
  | nil => trivial
  | cons r rs ih => exact ⟨h s r, fun s' _ _ => ih s'⟩

/-- A machine that provides a determined interface gives the right answers. -/
theorem Provided.answers_eq (hp : S.Provided step P Holds) (hd : S.Determined) {s : σ} {q q' : κ}
    {tr : List (ρ × α)} (hs : Holds s q) (ht : S.Trace q tr q')
    (ha : Along step P s (tr.map Prod.fst)) :
    answers step s (tr.map Prod.fst) = some (tr.map Prod.snd) := by
  induction ht generalizing s with
  | nil => rfl
  | cons hl hr _ ih =>
    obtain ⟨s', a', hstep, hr', hs'⟩ := hp.step hs hl ha.1
    obtain rfl := hd _ _ _ _ hr hr'
    have htail := ih hs' (ha.2 s' _ hstep)
    simp only [List.map_cons, answers, hstep, Option.bind_eq_bind, Option.bind_some, htail]
    rfl

end Interface

end Ns3.Lib
