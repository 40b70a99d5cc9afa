import Mathlib.Data.List.Basic
import Mathlib.Data.Nat.Find
import Mathlib.Order.Bounds.Basic
import Ns3.Lib.Outcome

/-!
# Sizes of the RB-OFDMA uplink

With `schOFDMA = 3` the scheduler first looks for the number of RBGs that one packet needs, then
for the divisors of the RBGs of a symbol, and last for the divisor that wastes the fewest RBGs. The
last loop goes one element too far, so it never comes to a result: it reads behind the vector, or,
when the vector has more than 254 elements, its 8-bit counter never leaves the loop.
-/

namespace Ns3.Nr.Sched.UlSizing

open Lib

/-- Where a run stops without a result. -/
inductive Fault where
  | outOfBounds
  | outOfFuel
deriving DecidableEq, Repr

/-- The number of RBGs that is chosen, and the one that the search ended with. -/
structure Sizing where
  rbPacket : Nat
  rbgAssignable : Nat
  rbgInOneSymbolPrime : Nat
  vRbgAssignable : List Nat
deriving DecidableEq, Repr

/-- `v[pos]`. -/
def read (v : List Nat) (pos : Nat) : Except Fault Nat :=
  match v[pos]? with
  | some x => .ok x
  | none => .error .outOfBounds

/-- `v[pos] = x`. -/
def write (v : List Nat) (pos x : Nat) : Except Fault (List Nat) :=
  if pos < v.length then .ok (v.set pos x) else .error .outOfBounds

/-! ## The number of RBGs for a packet -/

/-- `while (tbs < bufferSize)`. The counter is incremented behind the test. -/
def searchRbPacket (calculateTbSize : Nat → Nat) (bufferSize : Nat) :
    (fuel tbs rbPacket : Nat) → Except Fault Nat
  | 0, tbs, rbPacket => if tbs < bufferSize then .error .outOfFuel else .ok rbPacket
  | fuel + 1, tbs, rbPacket =>
    if tbs < bufferSize then
      searchRbPacket calculateTbSize bufferSize fuel (calculateTbSize rbPacket) (rbPacket + 1)
    else .ok rbPacket

/-! ## Divisors -/

/-- The loop over `posFind`, when `n` positions are left. -/
def findAssigned (v : List Nat) (rbgAssignable : Nat) : (n posFind : Nat) → Except Fault Bool
  | 0, _ => .ok false
  | n + 1, posFind => do
    let x ← read v posFind
    if x = rbgAssignable then .ok true else findAssigned v rbgAssignable n (posFind + 1)

/-- `while (rbgAssignable < rbgInOneSymbolPrime)`, when `n` numbers are left. The positions are of
type `uint8_t`. -/
def divisorLoop (rbgInOneSymbolPrime : Nat) :
    (n rbgAssignable : Nat) → (v : List Nat) → (pos : Nat) → Except Fault (List Nat × Nat)
  | 0, _, v, pos => .ok (v, pos)
  | n + 1, rbgAssignable, v, pos =>
    if rbgInOneSymbolPrime % rbgAssignable = 0 then do
      let alreadyAssigned ← findAssigned v rbgAssignable pos 0
      if alreadyAssigned then divisorLoop rbgInOneSymbolPrime n (rbgAssignable + 1) v pos
      else
        let v ← write v pos rbgAssignable
        let pos := (pos + 1) % 256
        let v ← write v pos (rbgInOneSymbolPrime / rbgAssignable)
        let pos := (pos + 1) % 256
        divisorLoop rbgInOneSymbolPrime n (rbgAssignable + 1) v pos
    else divisorLoop rbgInOneSymbolPrime n (rbgAssignable + 1) v pos

/-- `while (1)`: without a divisor the next turn takes `rbgInOneSymbol - 1`. The result has the
last `rbgAssignable` and `rbgInOneSymbolPrime`. -/
def divisors (rbgInOneSymbol : Nat) : (fuel rbgAssignable rbgInOneSymbolPrime : Nat) →
    (v : List Nat) → (pos : Nat) → Except Fault (List Nat × Nat × Nat)
  | 0, _, _, _, _ => .error .outOfFuel
  | fuel + 1, rbgAssignable, rbgInOneSymbolPrime, v, pos => do
    let (v, pos) ← divisorLoop rbgInOneSymbolPrime (rbgInOneSymbolPrime - rbgAssignable)
      rbgAssignable v pos
    if pos = 0 then divisors rbgInOneSymbol fuel 2 (rbgInOneSymbol - 1) v pos
    else .ok (v, max rbgAssignable rbgInOneSymbolPrime, rbgInOneSymbolPrime)

/-! ## The choice -/

/-- The variables of the last loop. -/
structure Choice where
  vRbgAssignable : List Nat
  rbgAssignable : Nat
  rbAssignableMinStored : Nat
deriving DecidableEq, Repr

/-- The number of symbols: `ceil` of a quotient of integers does nothing, so the remainder is
tested once more. -/
def numSym (rbPacket rbgs : Nat) : Nat :=
  if rbPacket % rbgs ≠ 0 then rbPacket / rbgs + 1 else rbPacket / rbgs

/-- One turn for a divisor `v[ii]`. The `double` is a number of symbols. -/
def Choice.visit (rbPacket rbgInOneSymbolPrime numUes x : Nat) (c : Choice) : Choice :=
  let numRbgAssignable := rbgInOneSymbolPrime / numUes / x
  let numRbgAssignable := if numRbgAssignable = 0 then 1 else numRbgAssignable
  let numSym := numSym rbPacket (x * numRbgAssignable)
  let rbAssignableMin := x * numRbgAssignable * numSym - rbPacket
  if rbAssignableMin < c.rbAssignableMinStored ∧ numSym < 12 then
    { c with rbgAssignable := x, rbAssignableMinStored := rbAssignableMin }
  else c

/-- `for (uint8_t ii = 0; ii <= v_rbgAssignable.size(); ii++)`, for at most `fuel` turns. -/
def choiceLoop (rbPacket rbgInOneSymbolPrime numUes : Nat) :
    (fuel ii : Nat) → Choice → Except Fault Choice
  | 0, _, _ => .error .outOfFuel
  | fuel + 1, ii, c =>
    if ii ≤ c.vRbgAssignable.length then do
      let x ← read c.vRbgAssignable ii
      if x = 0 then do
        let v ← write c.vRbgAssignable ii 1000
        choiceLoop rbPacket rbgInOneSymbolPrime numUes fuel ((ii + 1) % 256)
          { c with vRbgAssignable := v }
      else
        choiceLoop rbPacket rbgInOneSymbolPrime numUes fuel ((ii + 1) % 256)
          (c.visit rbPacket rbgInOneSymbolPrime numUes x)
    else .ok c

/-- The sizing phase of `AssignULRBG`, for the UEs of one beam. Each element has the MCS and the
size of the buffer of a UE. -/
def sizing (fuel : Nat) (calculateTbSize : Nat → Nat → Nat) (rbgInOneSymbol : Nat)
    (ue : Nat × Nat) (ues : List (Nat × Nat)) : Except Fault Sizing := do
  let rbPacket ← searchRbPacket (calculateTbSize ue.1) ue.2 fuel 0 2
  let v := List.replicate (rbgInOneSymbol / 2) 0
  let (v, rbgAssignable, rbgInOneSymbolPrime) ← divisors rbgInOneSymbol fuel 2 rbgInOneSymbol v 0
  let c ← choiceLoop rbPacket rbgInOneSymbolPrime (ues.length + 1) fuel 0 ⟨v, rbgAssignable, 1000⟩
  .ok ⟨rbPacket, c.rbgAssignable, rbgInOneSymbolPrime, c.vRbgAssignable⟩

/-! ## The search -/

/-- The search ends behind the first number from `rbPacket` on that is large enough. -/
theorem searchRbPacket_eq {calculateTbSize : Nat → Nat} {bufferSize tbs rbPacket : Nat} (d : Nat)
    (htbs : tbs < bufferSize) (hd : bufferSize ≤ calculateTbSize (rbPacket + d))
    (hleast : ∀ i < d, calculateTbSize (rbPacket + i) < bufferSize) {fuel : Nat}
    (hfuel : d + 1 ≤ fuel) :
    searchRbPacket calculateTbSize bufferSize fuel tbs rbPacket = .ok (rbPacket + d + 1) := by
  induction d generalizing fuel tbs rbPacket with
  | zero =>
    obtain ⟨fuel, rfl⟩ := Nat.exists_eq_add_of_le' hfuel
    rw [searchRbPacket, if_pos htbs]
    cases fuel with
    | zero => exact if_neg (Nat.not_lt.mpr hd)
    | succ fuel => exact if_neg (Nat.not_lt.mpr hd)
  | succ d ih =>
    obtain ⟨fuel, rfl⟩ : ∃ k, fuel = k + 1 := ⟨fuel - 1, by omega⟩
    have hfirst := hleast 0 (Nat.succ_pos d)
    rw [Nat.add_zero] at hfirst
    have hmove (i : Nat) : rbPacket + 1 + i = rbPacket + (i + 1) := by omega
    rw [searchRbPacket, if_pos htbs,
      ih hfirst (by rw [hmove]; exact hd) (fun i hi => ?_) (by omega)]
    · exact congrArg Except.ok (by omega)
    · rw [hmove]
      exact hleast (i + 1) (by omega)

/-- The numbers from two on that are large enough for the buffer. -/
def Enough (calculateTbSize : Nat → Nat) (bufferSize : Nat) : Set Nat :=
  {n | 2 ≤ n ∧ bufferSize ≤ calculateTbSize n}

/-- With a size that grows without bound the search ends. Except for an empty buffer it is one
behind the least number that is large enough. -/
theorem searchRbPacket_least {calculateTbSize : Nat → Nat}
    (hunbounded : ∀ b, ∃ n, 2 ≤ n ∧ b ≤ calculateTbSize n) (bufferSize : Nat) :
    ∃ least fuel, IsLeast (Enough calculateTbSize bufferSize) least ∧
      searchRbPacket calculateTbSize bufferSize fuel 0 2 =
        .ok (if bufferSize = 0 then 2 else least + 1) := by
  classical
  have hex := hunbounded bufferSize
  have hleast := Nat.find_spec hex
  have hmin : IsLeast (Enough calculateTbSize bufferSize) (Nat.find hex) :=
    ⟨hleast, fun n hn => Nat.find_min' hex hn⟩
  refine ⟨Nat.find hex, Nat.find hex, hmin, ?_⟩
  by_cases hempty : bufferSize = 0
  · rw [if_pos hempty]
    have hstop : ¬0 < bufferSize := Nat.not_lt.mpr (Nat.le_of_eq hempty)
    cases Nat.find hex with
    | zero => exact if_neg hstop
    | succ fuel => exact if_neg hstop
  · obtain ⟨d, hd⟩ : ∃ d, Nat.find hex = 2 + d := ⟨Nat.find hex - 2, by omega⟩
    rw [if_neg hempty, hd]
    refine searchRbPacket_eq d (Nat.pos_of_ne_zero hempty) (hd ▸ hleast.2) (fun i hi => ?_)
      (by omega)
    by_contra hlarge
    exact Nat.find_min hex (show 2 + i < Nat.find hex by omega) ⟨by omega, Nat.not_lt.mp hlarge⟩

/-! ## The last loop -/

theorem read_length (v : List Nat) : read v v.length = .error .outOfBounds := by
  rw [read, List.getElem?_eq_none (Nat.le_refl _)]

theorem Choice.visit_vRbgAssignable (rbPacket rbgInOneSymbolPrime numUes x : Nat) (c : Choice) :
    (c.visit rbPacket rbgInOneSymbolPrime numUes x).vRbgAssignable = c.vRbgAssignable := by
  simp only [Choice.visit, apply_ite Choice.vRbgAssignable, ite_self]

/-- The last loop has no result: within the vector it goes on, and behind it the read fails. -/
theorem choiceLoop_ne_ok (rbPacket rbgInOneSymbolPrime numUes fuel : Nat) {ii : Nat} {c : Choice}
    (hii : ii ≤ c.vRbgAssignable.length) (r : Choice) :
    choiceLoop rbPacket rbgInOneSymbolPrime numUes fuel ii c ≠ .ok r := by
  induction fuel generalizing ii c with
  | zero =>
    intro h
    cases h
  | succ fuel ih =>
    intro h
    rw [choiceLoop, if_pos hii] at h
    obtain ⟨x, hx, h⟩ := bind_eq_ok.mp h
    have hlt : ii < c.vRbgAssignable.length := by
      refine lt_of_le_of_ne hii fun heq => ?_
      rw [heq, read_length] at hx
      cases hx
    have hnext : (ii + 1) % 256 ≤ c.vRbgAssignable.length := (Nat.mod_le _ _).trans hlt
    split at h
    · obtain ⟨v, hv, h⟩ := bind_eq_ok.mp h
      rw [write, if_pos hlt] at hv
      cases hv
      exact ih (by rw [List.length_set]; exact hnext) h
    · exact ih (by rw [Choice.visit_vRbgAssignable]; exact hnext) h

theorem divisorLoop_small {prime : Nat} (hsmall : prime ≤ 3) (v : List Nat) :
    divisorLoop prime (prime - 2) 2 v 0 = .ok (v, 0) := by
  rcases Nat.lt_or_eq_of_le hsmall with hlt | rfl
  · rw [Nat.sub_eq_zero_of_le (Nat.le_of_lt_succ hlt)]
    rfl
  · rfl

/-- Without a divisor of the number of RBGs, and of the number below it, the search for divisors
has no end. -/
theorem divisors_small (fuel : Nat) {rbgInOneSymbol prime : Nat} (hsmall : rbgInOneSymbol ≤ 3)
    (hprime : prime ≤ 3) (v : List Nat) :
    divisors rbgInOneSymbol fuel 2 prime v 0 = .error .outOfFuel := by
  induction fuel generalizing prime with
  | zero => rfl
  | succ fuel ih =>
    rw [divisors, divisorLoop_small hprime, ok_bind]
    exact ih ((Nat.sub_le _ _).trans hsmall)

/-! ## The sizing phase -/

/-- The sizing phase comes to an end without leaving the vector, and finds the least number of
RBGs that is large enough for the buffer of the first UE. -/
def Safe (calculateTbSize : Nat → Nat → Nat) (rbgInOneSymbol : Nat) (ue : Nat × Nat)
    (ues : List (Nat × Nat)) : Prop :=
  ∃ fuel r, sizing fuel calculateTbSize rbgInOneSymbol ue ues = .ok r ∧
    IsLeast (Enough (calculateTbSize ue.1) ue.2) r.rbPacket

/-- No run of the sizing phase comes to a result. -/
theorem sizing_ne_ok (fuel : Nat) (calculateTbSize : Nat → Nat → Nat) (rbgInOneSymbol : Nat)
    (ue : Nat × Nat) (ues : List (Nat × Nat)) (r : Sizing) :
    sizing fuel calculateTbSize rbgInOneSymbol ue ues ≠ .ok r := by
  intro h
  obtain ⟨rbPacket, -, h⟩ := bind_eq_ok.mp h
  obtain ⟨⟨v, rbgAssignable, prime⟩, -, h⟩ := bind_eq_ok.mp h
  obtain ⟨c, hc, -⟩ := bind_eq_ok.mp h
  exact choiceLoop_ne_ok _ _ _ _ (Nat.zero_le _) c hc

theorem sizing_not_safe (calculateTbSize : Nat → Nat → Nat) (rbgInOneSymbol : Nat)
    (ue : Nat × Nat) (ues : List (Nat × Nat)) : ¬Safe calculateTbSize rbgInOneSymbol ue ues := by
  rintro ⟨fuel, r, h, -⟩
  exact sizing_ne_ok fuel calculateTbSize rbgInOneSymbol ue ues r h

/-- Twelve RBGs and one UE with 100 bytes, when a block has 10 bytes for each RBG: the vector is
read behind its end, and the search for 10 RBGs ends with 11. Three RBGs: the search for divisors
does not end. -/
theorem sizing_twelve_not_safe :
    sizing 600 (fun _ n => 10 * n) 12 (0, 100) [] = .error .outOfBounds ∧
      searchRbPacket (fun n => 10 * n) 100 600 0 2 = .ok 11 ∧
      sizing 600 (fun _ n => 10 * n) 3 (0, 100) [] = .error .outOfFuel ∧
      ¬Safe (fun _ n => 10 * n) 12 (0, 100) [] := by
  refine ⟨by decide +kernel, by decide +kernel, by decide +kernel, ?_⟩
  rintro ⟨fuel, r, h, -⟩
  exact sizing_ne_ok fuel _ 12 (0, 100) [] r h

end Ns3.Nr.Sched.UlSizing
