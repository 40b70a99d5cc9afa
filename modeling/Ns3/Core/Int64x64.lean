import Mathlib.Data.Nat.Bitwise
import Mathlib.Data.Int.Init

/-!
# Fixed-point numbers of 128 bits

`int64x64_t` with the native `int128_t`: 64 bits in front of the point and 64 behind it. The
magnitudes of the operands are multiplied and divided, and the sign is put back.

Unsigned numbers of 128 bits are natural numbers, reduced where the code can wrap around. A signed
number that is negated wraps around too.
-/

namespace Ns3.Core

/-- A value of `int128_t` in `_v`. -/
structure Int64x64 where
  v : Int
  lower : -2 ^ 127 ≤ v
  upper : v < 2 ^ 127
deriving DecidableEq, Repr

namespace Int64x64

/-- The `int128_t` of a number. -/
def int128 (n : Int) : Int := Int.bmod n (2 ^ 128)

/-- The `uint128_t` of a number. -/
def uint128 (n : Int) : Nat := (n % 2 ^ 128).toNat

theorem int128_range (n : Int) : -2 ^ 127 ≤ int128 n ∧ int128 n < 2 ^ 127 := by
  have hpos : 0 < 2 ^ 128 := Nat.two_pow_pos 128
  have hlower := Int.le_bmod (x := n) hpos
  have hupper := Int.bmod_lt (x := n) hpos
  rw [int128]
  omega

/-- What is stored in `_v`. -/
def ofInt (n : Int) : Int64x64 := ⟨int128 n, (int128_range n).1, (int128_range n).2⟩

/-- The explicit constructor from a high and a low part. -/
def ofParts (hi : Int) (lo : Nat) : Int64x64 := ofInt (int128 (hi <<< (64 : Nat)) + lo)

/-- `GetHigh`. -/
def getHigh (x : Int64x64) : Int := Int.bmod (x.v >>> (64 : Nat)) (2 ^ 64)

/-- `GetInt`. -/
def getInt (x : Int64x64) : Int :=
  let negative := x.v < 0
  let value := uint128 (if negative then int128 (-x.v) else x.v)
  let retval := Int.bmod (value >>> 64 : Nat) (2 ^ 64)
  if negative then Int.bmod (-retval) (2 ^ 64) else retval

/-- `HP_MASK_LO`. -/
def hpMaskLo : UInt64 := 0xffffffffffffffff

/-- `HP_MASK_HI`. Its type is `uint64_t` as well. -/
def hpMaskHi : UInt64 := ~~~hpMaskLo

/-- `output_sign`. -/
def outputSign (sa sb : Int64x64) : Bool × Nat × Nat :=
  let negA := decide (sa.v < 0)
  let negB := decide (sb.v < 0)
  (negA != negB, uint128 (if negA then int128 (-sa.v) else sa.v),
    uint128 (if negB then int128 (-sb.v) else sb.v))

/-! ## Products -/

/-- A run of `Umul`: nothing is returned when it aborts. The exact values of the sums and shifts
that were made are noted. -/
structure UmulRun where
  result : Option Nat
  sums : List Nat
deriving DecidableEq, Repr

/-- `Umul`. -/
def umulRun (a b : Nat) : UmulRun :=
  let aL := a &&& hpMaskLo.toNat
  let bL := b &&& hpMaskLo.toNat
  let aH := (a >>> 64) &&& hpMaskLo.toNat
  let bH := (b >>> 64) &&& hpMaskLo.toNat
  let loPart := aL * bL % 2 ^ 128
  let middle := aL * bH % 2 ^ 128 + aH * bL % 2 ^ 128
  let midPart := middle % 2 ^ 128
  let hiPart := aH * bH % 2 ^ 128
  if hiPart &&& hpMaskHi.toNat ≠ 0 then ⟨none, [middle]⟩
  else
    let res1 := loPart >>> 64
    let res2 := midPart &&& hpMaskLo.toNat
    let low := res1 + res2
    let result := low % 2 ^ 128
    let res1 := midPart >>> 64
    let res2 := hiPart &&& hpMaskLo.toNat
    let high := res1 + res2
    let shifted := (high % 2 ^ 128) <<< 64
    let sum := result + shifted % 2 ^ 128
    ⟨some (sum % 2 ^ 128), [middle, low, high, shifted, sum]⟩

def umul (a b : Nat) : Option Nat := (umulRun a b).result

/-- `Mul`. -/
def mul (x o : Int64x64) : Option Int64x64 := do
  let (negative, a, b) := outputSign x o
  let result ← umul a b
  some (ofInt (if negative then uint128 (-result) else result))

/-! ## Quotients -/

/-- `while (shift < DIGITS && !(den & 0x1))`, when `DIGITS - shift` is `left`. -/
def skipDivisorZeros : (left shift den : Nat) → Nat × Nat
  | 0, shift, den => (shift, den)
  | left + 1, shift, den =>
    if den &&& 1 = 0 then skipDivisorZeros left (shift + 1) (den >>> 1) else (shift, den)

/-- `while (digis + shift < DIGITS && !(rem & HP128_MASK_HI_BIT))`, when
`DIGITS - (digis + shift)` is `left`. -/
def skipRemainderZeros : (left shift rem : Nat) → Nat × Nat
  | 0, shift, rem => (shift, rem)
  | left + 1, shift, rem =>
    if rem &&& 2 ^ 127 = 0 then skipRemainderZeros left (shift + 1) (rem <<< 1 % 2 ^ 128)
    else (shift, rem)

/-- `while (digis + shift < DIGITS && (!(den & 0x1) || rem < den))`, when
`DIGITS - (digis + shift)` is `left`. -/
def castOffDivisor (rem : Nat) : (left shift den : Nat) → Nat × Nat
  | 0, shift, den => (shift, den)
  | left + 1, shift, den =>
    if den &&& 1 = 0 ∨ rem < den then castOffDivisor rem left (shift + 1) (den >>> 1)
    else (shift, den)

/-- The loop over the remainder, for at most `fuel` turns. A division by zero returns nothing. -/
def remainderLoop : (fuel digis shift rem den result : Nat) → Option (Nat × Nat)
  | 0, digis, _, rem, _, result => if digis < 64 ∧ rem ≠ 0 then none else some (digis, result)
  | fuel + 1, digis, shift, rem, den, result =>
    if digis < 64 ∧ rem ≠ 0 then
      let (shift, rem) := skipRemainderZeros (64 - (digis + shift)) shift rem
      let (shift, den) := castOffDivisor rem (64 - (digis + shift)) shift den
      if den = 0 then none
      else
        let quo := rem / den
        let rem := rem % den
        let result := (result <<< shift % 2 ^ 128 + quo) % 2 ^ 128
        remainderLoop fuel (digis + shift) 0 rem den result
    else some (digis, result)

/-- `Udiv`. -/
def udiv (fuel a b : Nat) : Option Nat :=
  if b = 0 then none
  else
    let quo := a / b
    let rem := a % b
    let (shift, den) := skipDivisorZeros 64 0 b
    match remainderLoop fuel 0 shift rem den quo with
    | none => none
    | some (digis, result) =>
      some (if digis < 64 then result <<< (64 - digis) % 2 ^ 128 else result)

/-- `Div`. The quotient becomes an `int128_t` before its sign is put back. -/
def div (fuel : Nat) (x o : Int64x64) : Option Int64x64 := do
  let (negative, a, b) := outputSign x o
  let result ← udiv fuel a b
  some (ofInt (if negative then int128 (-int128 result) else int128 result))

/-! ## Inverses -/

/-- `UmulByInvert`. -/
def umulByInvert (a b : Nat) : Nat :=
  let ah := a >>> 64
  let bh := b >>> 64
  let al := a &&& hpMaskLo.toNat
  let bl := b &&& hpMaskLo.toNat
  let hi := ah * bh % 2 ^ 128
  let mid := (ah * bl % 2 ^ 128 + al * bh % 2 ^ 128) % 2 ^ 128
  let mid := mid >>> 64
  (hi + mid) % 2 ^ 128

/-- `MulByInvert`. -/
def mulByInvert (x o : Int64x64) : Int64x64 :=
  let negResult := x.v < 0
  let a := uint128 (if negResult then int128 (-x.v) else x.v)
  let result := umulByInvert a (uint128 o.v)
  ofInt (if negResult then uint128 (-result) else result)

/-- `Invert`. The number goes through an `int64_t`. -/
def invert (fuel v : Nat) : Option Int64x64 := do
  let a := 1 <<< 64
  let result := ofInt (← udiv fuel a v)
  let tmp := (ofParts (Int.bmod v (2 ^ 64)) 0).mulByInvert result
  some (if tmp.getHigh ≠ 1 then ofInt (result.v + 1) else result)

end Int64x64

end Ns3.Core
