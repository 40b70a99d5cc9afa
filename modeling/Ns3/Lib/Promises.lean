import Mathlib

/-!
# Promises on a channel

The messages on a channel that keeps their order, each with a promise about the later ones. The
reader has the promise of the message it took last. When no sender takes back a promise, whatever is
still on the channel keeps the one that the reader has.
-/

namespace Ns3.Lib

variable {μ : Type*} {promise : μ → ℕ} {kept : ℕ → μ → Prop} {g g' : ℕ} {m : μ} {ms : List μ}

/-- The promise that the sender gave last, if the reader has `g`. -/
def lastPromise (promise : μ → ℕ) : ℕ → List μ → ℕ
  | g, [] => g
  | _, m :: ms => lastPromise promise (promise m) ms

/-- The promises ascend from `g` on, and each message keeps the one before it. -/
def Ascends (promise : μ → ℕ) (kept : ℕ → μ → Prop) : ℕ → List μ → Prop
  | _, [] => True
  | g, m :: ms => g ≤ promise m ∧ kept g m ∧ Ascends promise kept (promise m) ms

@[simp] theorem lastPromise_nil : lastPromise promise g [] = g := rfl

@[simp] theorem lastPromise_cons : lastPromise promise g (m :: ms)
    = lastPromise promise (promise m) ms := rfl

@[simp] theorem lastPromise_concat : lastPromise promise g (ms ++ [m]) = promise m := by
  induction ms generalizing g with
  | nil => rfl
  | cons a ms ih => exact ih

theorem Ascends.concat (h : Ascends promise kept g ms) (hle : lastPromise promise g ms ≤ promise m)
    (hm : kept (lastPromise promise g ms) m) : Ascends promise kept g (ms ++ [m]) := by
  induction ms generalizing g with
  | nil => exact ⟨hle, hm, trivial⟩
  | cons a ms ih => exact ⟨h.1, h.2.1, ih h.2.2 hle hm⟩

/-- What is on the channel keeps the promise that the reader has. -/
theorem Ascends.of_mem (hanti : ∀ {a b m}, a ≤ b → kept b m → kept a m)
    (h : Ascends promise kept g ms) (hm : m ∈ ms) : g ≤ promise m ∧ kept g m := by
  induction ms generalizing g with
  | nil => exact absurd hm List.not_mem_nil
  | cons a ms ih =>
    obtain ⟨hle, ha, hms⟩ := h
    rcases List.mem_cons.mp hm with rfl | hm
    · exact ⟨hle, ha⟩
    · obtain ⟨hle', hm'⟩ := ih hms hm
      exact ⟨hle.trans hle', hanti hle hm'⟩

end Ns3.Lib
