import Mathlib
import Ns3.Lib.NetworkOrder
import Ns3.Lib.OnesComplement

/-!
# The Internet checksum

`Buffer::Iterator::CalculateIpChecksum`, and the other functions of the iterator that headers are
written and read with. The octets from the iterator on are a list. What goes beyond the end of the
buffer is `none`.
-/

namespace Ns3.Internet

open Lib

/-! ## Octets -/

/-- `WriteHtonU16`. -/
def writeHtonU16 (data : UInt16) : List UInt8 := octets 2 data.toNat

/-- `WriteHtonU32`. -/
def writeHtonU32 (data : UInt32) : List UInt8 := octets 4 data.toNat

/-- `ReadU8`, with what is not read. -/
def readU8 : List UInt8 → Option (UInt8 × List UInt8)
  | [] => none
  | b :: bytes => some (b, bytes)

/-- `Read` of a number of octets. -/
def read (size : ℕ) (bytes : List UInt8) : Option (List UInt8 × List UInt8) :=
  if size ≤ bytes.length then some (bytes.take size, bytes.drop size) else none

def readNtohU16 (bytes : List UInt8) : Option (UInt16 × List UInt8) := do
  let (data, bytes) ← read 2 bytes
  some (UInt16.ofNat (networkOrder data), bytes)

def readNtohU32 (bytes : List UInt8) : Option (UInt32 × List UInt8) := do
  let (data, bytes) ← read 4 bytes
  some (UInt32.ofNat (networkOrder data), bytes)

@[simp] theorem length_writeHtonU16 (v : UInt16) : (writeHtonU16 v).length = 2 := length_octets 2 _

@[simp] theorem length_writeHtonU32 (v : UInt32) : (writeHtonU32 v).length = 4 := length_octets 4 _

@[simp] theorem readU8_cons (b : UInt8) (bytes : List UInt8) :
    readU8 (b :: bytes) = some (b, bytes) := rfl

theorem read_append {data : List UInt8} {size : ℕ} (h : data.length = size) (bytes : List UInt8) :
    read size (data ++ bytes) = some (data, bytes) := by
  subst h
  simp [read]

@[simp] theorem readNtohU16_write (v : UInt16) (bytes : List UInt8) :
    readNtohU16 (writeHtonU16 v ++ bytes) = some (v, bytes) := by
  rw [readNtohU16, read_append (length_writeHtonU16 v), writeHtonU16]
  simp [networkOrder_octets]

@[simp] theorem readNtohU32_write (v : UInt32) (bytes : List UInt8) :
    readNtohU32 (writeHtonU32 v ++ bytes) = some (v, bytes) := by
  rw [readNtohU32, read_append (length_writeHtonU32 v), writeHtonU32]
  simp [networkOrder_octets]

theorem exists_readU8 {bytes : List UInt8} {n : ℕ} (h : bytes.length = n + 1) :
    ∃ b rest, readU8 bytes = some (b, rest) ∧ rest.length = n := by
  obtain ⟨b, rest, rfl⟩ := List.exists_cons_of_length_eq_add_one h
  exact ⟨b, rest, rfl, by simpa using h⟩

theorem exists_read {bytes : List UInt8} {size n : ℕ} (h : bytes.length = n + size) :
    ∃ data rest, read size bytes = some (data, rest) ∧ rest.length = n := by
  refine ⟨_, _, if_pos (by omega), ?_⟩
  rw [List.length_drop]
  omega

theorem exists_readNtohU16 {bytes : List UInt8} {n : ℕ} (h : bytes.length = n + 2) :
    ∃ v rest, readNtohU16 bytes = some (v, rest) ∧ rest.length = n := by
  obtain ⟨data, rest, hread, hrest⟩ := exists_read h
  exact ⟨_, rest, by rw [readNtohU16, hread]; rfl, hrest⟩

theorem exists_readNtohU32 {bytes : List UInt8} {n : ℕ} (h : bytes.length = n + 4) :
    ∃ v rest, readNtohU32 bytes = some (v, rest) ∧ rest.length = n := by
  obtain ⟨data, rest, hread, hrest⟩ := exists_read h
  exact ⟨_, rest, by rw [readNtohU32, hread]; rfl, hrest⟩

/-- A value that is read is handed on. -/
theorem bind_of_some {α β : Type} {x : Option α} {a : α} (h : x = some a) (f : α → Option β) :
    x >>= f = f a := by
  rw [h]
  rfl

/-! ## The checksum -/

/-- The loop of `ReadU16`, with the odd octet after it, in 32 bits. -/
def addWords : ℕ → List UInt8 → ℕ
  | sum, [] => sum
  | sum, [b] => (sum + b.toNat) % 2 ^ 32
  | sum, b₀ :: b₁ :: bytes => addWords ((sum + (b₁.toNat <<< 8 ||| b₀.toNat)) % 2 ^ 32) bytes

/-- `while (sum >> 16)`, with a bound on its rounds. -/
def foldSum : ℕ → ℕ → ℕ
  | 0, sum => sum
  | rounds + 1, sum => if sum >>> 16 = 0 then sum
    else foldSum rounds ((sum &&& 0xffff) + sum >>> 16)

/-- The complement of the sum. Of 32 bits there is no carry left after two rounds. -/
def calculateIpChecksum (size initialChecksum : ℕ) (bytes : List UInt8) : Option ℕ := do
  let (data, _) ← read (size % 2 ^ 16) bytes
  some ((2 ^ 32 - 1 - foldSum 3 (addWords initialChecksum data)) % 2 ^ 16)

theorem foldSum_succ (rounds sum : ℕ) : foldSum (rounds + 1) sum
    = if sum / 65536 = 0 then sum else foldSum rounds (sum % 65536 + sum / 65536) := by
  rw [foldSum, show 0xffff = 2 ^ 16 - 1 from rfl, Nat.and_two_pow_sub_one_eq_mod,
    Nat.shiftRight_eq_div_pow]

/-- The bound is not reached. -/
theorem foldSum_eq {sum : ℕ} (h : sum < 2 ^ 32) : foldSum 3 sum = endAround sum := by
  have hdone {s : ℕ} (rounds : ℕ) (hs : s / 65536 = 0) : foldSum (rounds + 1) s = endAround s := by
    rw [foldSum_succ, if_pos hs, endAround, dif_pos hs]
  have hgo {s : ℕ} (hs : s / 65536 ≠ 0) : endAround s = endAround (s % 65536 + s / 65536) := by
    rw [endAround.eq_def s, dif_neg hs]
  by_cases h₁ : sum / 65536 = 0
  · exact hdone 2 h₁
  · rw [hgo h₁, foldSum_succ, if_neg h₁]
    set s := sum % 65536 + sum / 65536 with hs
    by_cases h₂ : s / 65536 = 0
    · exact hdone 1 h₂
    · rw [hgo h₂, foldSum_succ, if_neg h₂]
      exact hdone 0 (by omega)

/-- The 32 bits of the loop are enough. -/
theorem addWords_eq {sum : ℕ} {bytes : List UInt8} (h : sum + wordSum bytes < 2 ^ 32) :
    addWords sum bytes = sum + wordSum bytes := by
  induction sum, bytes using addWords.induct with
  | case1 sum => rfl
  | case2 sum b =>
    rw [wordSum_singleton] at h ⊢
    exact Nat.mod_eq_of_lt h
  | case3 sum b₀ b₁ bytes ih =>
    rw [wordSum_cons_cons] at h
    have hsum : (sum + (b₁.toNat <<< 8 ||| b₀.toNat)) % 2 ^ 32
        = sum + (b₁.toNat * 256 + b₀.toNat) := by
      rw [shiftLeft_or_octet]
      omega
    rw [addWords, ih (by omega), hsum, wordSum_cons_cons]
    omega

/-- The checksum of octets that are less than 64 KiB. -/
theorem calculateIpChecksum_eq {initialChecksum size : ℕ} {data : List UInt8}
    (hinit : initialChecksum < 65536) (hsize : data.length = size) (hlt : size < 65536)
    (rest : List UInt8) :
    calculateIpChecksum size initialChecksum (data ++ rest)
      = some (65535 - endAround (initialChecksum + wordSum data)) := by
  have hle := wordSum_le data
  have hfold := endAround_lt (initialChecksum + wordSum data)
  have hread : read (size % 2 ^ 16) (data ++ rest) = some (data, rest) := by
    have hmod : size % 2 ^ 16 = size := Nat.mod_eq_of_lt hlt
    rw [hmod, read_append hsize]
  rw [calculateIpChecksum, hread]
  simp only [Option.bind_eq_bind, Option.bind_some]
  rw [addWords_eq (by omega), foldSum_eq (by omega), Option.some.injEq]
  omega

/-- The checksum of what is received is `0` just when its words are in balance. -/
theorem calculateIpChecksum_eq_zero {initialChecksum size : ℕ} {data : List UInt8}
    (hinit : initialChecksum < 65536) (hsize : data.length = size) (hlt : size < 65536)
    (rest : List UInt8) :
    calculateIpChecksum size initialChecksum (data ++ rest) = some 0
      ↔ InBalance initialChecksum data := by
  have hfold := endAround_lt (initialChecksum + wordSum data)
  rw [calculateIpChecksum_eq hinit hsize hlt, Option.some.injEq, InBalance]
  omega

end Ns3.Internet
