import Mathlib.Data.Nat.Notation
import Mathlib.Data.List.GetD
import Mathlib.Tactic.Cases

/-!
# Streams of bits in octets

The bits of an octet stand with the highest one first. A packed octet has its bits at the high end,
the rest clear.
-/

namespace Ns3.Lib

/-- An octet. -/
abbrev Octet := BitVec 8

/-- The bits of an octet, the highest one first. -/
def octetBits (o : Octet) : List Bool := (List.range 8).map o.getMsbD

def streamBits (octets : List Octet) : List Bool := octets.flatMap octetBits

/-- The bit at a place from the high end. -/
def highBit (k : ℕ) : Octet := 0x80#8 >>> k

/-- Up to eight bits from a place on. -/
def packFrom : ℕ → List Bool → Octet
  | _, [] => 0
  | k, b :: bits => (if b then highBit k else 0) ||| packFrom (k + 1) bits

/-- Up to eight bits at the high end of an octet. -/
def packOctet (bits : List Bool) : Octet := packFrom 0 bits

variable {o : Octet} {k i : ℕ} {b : Bool} {bits : List Bool}

theorem length_octetBits (o : Octet) : (octetBits o).length = 8 := rfl

theorem getElem_octetBits (o : Octet) (hi : i < (octetBits o).length) :
    (octetBits o)[i] = o.getMsbD i := by
  simp [octetBits]

theorem streamBits_append (xs ys : List Octet) :
    streamBits (xs ++ ys) = streamBits xs ++ streamBits ys :=
  List.flatMap_append

theorem streamBits_cons (o : Octet) (os : List Octet) :
    streamBits (o :: os) = octetBits o ++ streamBits os := rfl

theorem length_streamBits (os : List Octet) : (streamBits os).length = 8 * os.length := by
  induction os with
  | nil => rfl
  | cons o os ih =>
    rw [streamBits_cons, List.length_append, length_octetBits, ih, List.length_cons]
    omega

/-- Two octets with the same bits. -/
theorem octet_ext {x y : Octet} (h : ∀ i < 8, x.getMsbD i = y.getMsbD i) : x = y :=
  BitVec.eq_of_getMsbD_eq fun i hi => h i hi

/-! ## Masks -/

theorem getMsbD_highBit (k : ℕ) (hi : i < 8) : (highBit k).getMsbD i = decide (i = k) := by
  have hall : ∀ i : Fin 8, (0x80#8).getMsbD i = decide (i.val = 0) := by decide
  rw [highBit, BitVec.getMsbD_ushiftRight, decide_eq_true hi, Bool.true_and]
  by_cases hk : i < k
  · rw [decide_eq_true hk, decide_eq_false (by omega)]
    rfl
  · have hsub := hall ⟨i - k, by omega⟩
    rw [decide_eq_false hk, Bool.not_false, Bool.true_and, hsub]
    apply decide_eq_decide.mpr
    show i - k = 0 ↔ i = k
    omega

theorem highBit_shift (k : ℕ) : highBit k >>> 1 = highBit (k + 1) := by
  rw [highBit, highBit, BitVec.shiftRight_add]

/-- The next mask to the right. -/
theorem highBit_succ (k : ℕ) : (highBit k >>> 1) &&& ~~~highBit k = highBit (k + 1) := by
  apply octet_ext
  intro i hi
  rw [highBit_shift, BitVec.getMsbD_and, BitVec.getMsbD_not, getMsbD_highBit _ hi,
    getMsbD_highBit _ hi, decide_eq_true hi, Bool.true_and]
  by_cases hk : i = k + 1
  · rw [decide_eq_true hk, decide_eq_false (by omega)]
    rfl
  · rw [decide_eq_false hk, Bool.false_and]

/-- The next mask to the left. -/
theorem highBit_pred (hk : k < 7) :
    (highBit (k + 1) <<< 1) &&& ~~~highBit (k + 1) = highBit k := by
  have hall : ∀ k : Fin 7, (highBit (k + 1) <<< 1) &&& ~~~highBit (k + 1) = highBit k := by decide
  exact hall ⟨k, hk⟩

theorem and_highBit_bne (o : Octet) (hk : k < 8) : (o &&& highBit k != 0) = o.getMsbD k := by
  cases hbit : o.getMsbD k with
  | true =>
    apply bne_iff_ne.mpr
    intro hzero
    have hget := congrArg (·.getMsbD k) hzero
    simp only [BitVec.getMsbD_and, hbit, getMsbD_highBit k hk, decide_true, Bool.and_true] at hget
    have hclear : (0#8).getMsbD k = false := BitVec.getMsbD_zero
    exact absurd (hget.trans hclear) (by decide)
  | false =>
    apply bne_eq_false_iff_eq.mpr
    apply octet_ext
    intro i hi
    rw [BitVec.getMsbD_and, getMsbD_highBit k hi]
    by_cases hik : i = k
    · rw [hik, hbit, Bool.false_and]
      exact BitVec.getMsbD_zero.symm
    · rw [decide_eq_false hik, Bool.and_false]
      exact BitVec.getMsbD_zero.symm

/-! ## Packed octets -/

/-- One more bit behind the others. -/
theorem packFrom_concat (k : ℕ) (bits : List Bool) (b : Bool) :
    packFrom k (bits ++ [b]) = packFrom k bits ||| if b then highBit (k + bits.length) else 0 := by
  induction bits generalizing k with
  | nil =>
    show (if b then highBit k else 0) ||| 0#8 = 0#8 ||| if b then highBit (k + 0) else 0
    rw [BitVec.or_zero, BitVec.zero_or, Nat.add_zero]
  | cons c bits ih =>
    rw [List.cons_append, packFrom, packFrom, ih, BitVec.or_assoc, List.length_cons,
      Nat.add_right_comm, Nat.add_assoc]

theorem packOctet_concat (bits : List Bool) (b : Bool) :
    packOctet (bits ++ [b]) = packOctet bits ||| if b then highBit bits.length else 0 := by
  rw [packOctet, packFrom_concat, Nat.zero_add]
  rfl

theorem getMsbD_packFrom (k : ℕ) (bits : List Bool) (hi : i < 8) :
    (packFrom k bits).getMsbD i = (decide (k ≤ i) && bits.getD (i - k) false) := by
  induction bits generalizing k with
  | nil => simp [packFrom]
  | cons b bits ih =>
    have hbit : (if b then highBit k else 0).getMsbD i = (b && decide (i = k)) := by
      cases b with
      | true => exact getMsbD_highBit k hi
      | false => exact BitVec.getMsbD_zero
    rw [packFrom, BitVec.getMsbD_or, hbit, ih]
    rcases Nat.lt_trichotomy i k with hlt | rfl | hgt
    · rw [decide_eq_false (by omega), decide_eq_false (by omega), decide_eq_false (by omega),
        Bool.and_false, Bool.false_and, Bool.false_and, Bool.or_false]
    · rw [decide_eq_true rfl, decide_eq_false (by omega), decide_eq_true (Nat.le_refl i),
        Nat.sub_self]
      cases b <;> rfl
    · rw [decide_eq_false (by omega), decide_eq_true (by omega), decide_eq_true (by omega),
        Bool.and_false, Bool.false_or, Bool.true_and, Bool.true_and]
      have hsub : i - k = i - (k + 1) + 1 := by omega
      rw [hsub]
      rfl

/-- The bits that were packed, then clear ones. -/
theorem octetBits_packOctet (hlen : bits.length ≤ 8) :
    octetBits (packOctet bits) = bits ++ List.replicate (8 - bits.length) false := by
  apply List.ext_getElem
  · rw [length_octetBits, List.length_append, List.length_replicate]
    omega
  · intro i hi hi'
    have hi8 : i < 8 := by rwa [length_octetBits] at hi
    rw [getElem_octetBits, packOctet, getMsbD_packFrom 0 bits hi8,
      decide_eq_true (Nat.zero_le i), Bool.true_and, Nat.sub_zero]
    by_cases hin : i < bits.length
    · rw [List.getElem_append_left hin, List.getD_eq_getElem bits false hin]
    · rw [List.getElem_append_right (by omega), List.getElem_replicate,
        List.getD_eq_default bits false (by omega)]

theorem octetBits_packOctet_full (hlen : bits.length = 8) : octetBits (packOctet bits) = bits := by
  rw [octetBits_packOctet (Nat.le_of_eq hlen), hlen]
  exact List.append_nil bits

/-! ## Reading -/

/-- The highest bit, and the others after a shift. -/
theorem octetBits_shiftLeft (o : Octet) :
    octetBits o = (o &&& highBit 0 != 0) :: (octetBits (o <<< 1)).take 7 := by
  apply List.ext_getElem
  · rfl
  · intro i hi hi'
    have hi8 : i < 8 := by rwa [length_octetBits] at hi
    cases i with
    | zero =>
      rw [getElem_octetBits]
      exact (and_highBit_bne (k := 0) o (by decide)).symm
    | succ i =>
      rw [List.getElem_cons_succ, List.getElem_take, getElem_octetBits, getElem_octetBits,
        BitVec.getMsbD_shiftLeft, Nat.add_comm]

/-- The bits after the first ones, by one shift. -/
theorem octetBits_drop (o : Octet) (hk : k ≤ 8) :
    (octetBits o).drop k = (octetBits (o <<< k)).take (8 - k) := by
  apply List.ext_getElem
  · rw [List.length_drop, List.length_take, length_octetBits, length_octetBits]
    omega
  · intro i hi hi'
    have hi8 : k + i < 8 := by
      rw [List.length_drop, length_octetBits] at hi
      omega
    rw [List.getElem_drop, List.getElem_take, getElem_octetBits, getElem_octetBits,
      BitVec.getMsbD_shiftLeft, Nat.add_comm]

end Ns3.Lib
