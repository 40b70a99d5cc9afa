import Ns3.Lib.Periodic

/-!
# A pointer that goes round periodic deadlines

`n` deadlines recur with one period `q`, from the starts `s 0 < s 1 < ...` on. A pointer
stands at the deadline that comes next, moves on when it is reached, and goes back to the
first one in the slot after the last. `Turn` says where the pointer is; the deadlines before it
are already those of the next period (`deadline`). The pointer stands at a deadline whenever one
is reached (`Turn.eq_of_deadline`), and the deadlines it keeps are the next ones
(`Turn.isNext`).
-/

namespace Ns3.Lib

/-- Increasing starts that leave a slot for the way back before the next period. -/
structure Rota (n : Nat) (s : Nat → Nat) (q : Nat) : Prop where
  pos : 0 < n
  lt : ∀ i j, i < j → j < n → s i < s j
  fits : s (n - 1) + 2 ≤ s 0 + q

/-- The deadline of `i` in the period `k`, with the pointer at `j`. -/
def deadline (s : Nat → Nat) (q k j i : Nat) : Nat := s i + (if i < j then k + 1 else k) * q

/-- Before the slot `t` the pointer is at `j` in the period `k`. -/
structure Turn (n : Nat) (s : Nat → Nat) (q t k j : Nat) : Prop where
  le : j ≤ n
  before : j < n → t ≤ s j + k * q
  after : 0 < j → s (j - 1) + k * q < t
  back : j = n → t = s (n - 1) + k * q + 1
  first : j = 0 → 0 < k → s (n - 1) + k * q + 1 < t + q

namespace Rota

variable {n q : Nat} {s : Nat → Nat}

theorem mono (h : Rota n s q) {i j : Nat} (hij : i ≤ j) (hj : j < n) : s i ≤ s j := by
  rcases Nat.eq_or_lt_of_le hij with rfl | hlt
  · exact le_rfl
  · exact (h.lt i j hlt hj).le

theorem inj (h : Rota n s q) {i j : Nat} (hi : i < n) (hj : j < n) (heq : s i = s j) : i = j := by
  rcases Nat.lt_trichotomy i j with hlt | heq' | hgt
  · have := h.lt i j hlt hj
    omega
  · exact heq'
  · have := h.lt j i hgt hi
    omega

/-- All starts are within one period. -/
theorem spread (h : Rota n s q) {i : Nat} (hi : i < n) : s 0 ≤ s i ∧ s i + 2 ≤ s 0 + q := by
  have hlast := h.mono (show i ≤ n - 1 by omega) (by have := h.pos; omega)
  have hfits := h.fits
  exact ⟨h.mono (Nat.zero_le i) hi, by omega⟩

end Rota

section Deadline

variable {s : Nat → Nat} {q k j i : Nat}

theorem deadline_of_lt (h : i < j) : deadline s q k j i = s i + k * q + q := by
  rw [deadline, if_pos h]
  ring

theorem deadline_of_le (h : j ≤ i) : deadline s q k j i = s i + k * q := by
  rw [deadline, if_neg (by omega)]

/-- Moving the pointer on renews the deadline it leaves. -/
theorem deadline_succ (h : i ≠ j) : deadline s q k (j + 1) i = deadline s q k j i := by
  rcases Nat.lt_or_ge i j with hlt | hge
  · rw [deadline_of_lt hlt, deadline_of_lt (Nat.lt_succ_of_lt hlt)]
  · rw [deadline_of_le hge, deadline_of_le (by omega)]

theorem deadline_succ_self : deadline s q k (j + 1) j = deadline s q k j j + q := by
  rw [deadline_of_lt (Nat.lt_succ_self j), deadline_of_le le_rfl]

/-- Behind the last deadline the next period begins. -/
theorem deadline_back {n : Nat} (h : i < n) : deadline s q (k + 1) 0 i = deadline s q k n i := by
  rw [deadline_of_lt h, deadline_of_le (Nat.zero_le i)]
  ring

end Deadline

namespace Turn

variable {n q t k j : Nat} {s : Nat → Nat}

theorem start (h : Rota n s q) (ht : t ≤ s 0) : Turn n s q t 0 0 where
  le := Nat.zero_le n
  before _ := by omega
  after h0 := by omega
  back h0 := by
    have := h.pos
    omega
  first _ h0 := by omega

/-- The deadlines behind the pointer are after this slot. -/
theorem lt_deadline (h : Turn n s q t k j) (hr : Rota n s q) {i : Nat} (hi : i < j) :
    t < deadline s q k j i := by
  have hle := h.le
  have h0 := (hr.spread (show i < n by omega)).1
  have hfits := hr.fits
  rw [deadline_of_lt hi]
  rcases Nat.eq_or_lt_of_le hle with heq | hlt
  · have := h.back heq
    omega
  · have hbefore := h.before hlt
    have := (hr.spread hlt).2
    omega

theorem le_deadline (h : Turn n s q t k j) (hr : Rota n s q) {i : Nat} (hi : i < n) :
    t ≤ deadline s q k j i := by
  rcases Nat.lt_or_ge i j with hij | hij
  · exact (h.lt_deadline hr hij).le
  · have hbefore := h.before (by omega)
    have := hr.mono hij hi
    rw [deadline_of_le hij]
    omega

/-- Only the deadline of the pointer can be now. -/
theorem eq_of_deadline (h : Turn n s q t k j) (hr : Rota n s q) {i : Nat} (hi : i < n)
    (heq : deadline s q k j i = t) : i = j := by
  rcases Nat.lt_trichotomy i j with hij | hij | hij
  · have := h.lt_deadline hr hij
    omega
  · exact hij
  · have hbefore := h.before (by omega)
    have := hr.lt j i hij hi
    rw [deadline_of_le hij.le] at heq
    omega

/-- The deadline one period earlier is in the past. -/
theorem deadline_lt (h : Turn n s q t k j) (hr : Rota n s q) {i : Nat} (hi : i < n)
    (hk : i < j ∨ 0 < k) : deadline s q k j i < t + q := by
  rcases Nat.lt_or_ge i j with hij | hij
  · have hafter := h.after (by omega)
    have := hr.mono (show i ≤ j - 1 by omega) (by have := h.le; omega)
    rw [deadline_of_lt hij]
    omega
  · have hlast := hr.mono (show i ≤ n - 1 by omega) (by omega)
    rw [deadline_of_le hij]
    rcases Nat.eq_zero_or_pos j with hj | hj
    · have := h.first hj (by omega)
      omega
    · have hafter := h.after hj
      have hfits := hr.fits
      have := (hr.spread (show j - 1 < n by have := h.le; omega)).1
      omega

theorem isNext (h : Turn n s q t k j) (hr : Rota n s q) {i : Nat} (hi : i < n) :
    IsNext (s i) q t (deadline s q k j i) where
  due := ⟨_, rfl⟩
  le := h.le_deadline hr hi
  first x hx hle := by
    by_cases hk : i < j ∨ 0 < k
    · by_contra hlt
      have hdue : Due (s i) q (deadline s q k j i) := ⟨_, rfl⟩
      have := hx.add_le hdue (by omega)
      have := h.deadline_lt hr hi hk
      omega
    · have hzero : k = 0 := by omega
      rw [deadline_of_le (by omega), hzero]
      have := hx.le
      omega

/-! ## Steps -/

theorem wait (h : Turn n s q t k j) (hj : j < n) (hne : deadline s q k j j ≠ t) :
    Turn n s q (t + 1) k j := by
  rw [deadline_of_le le_rfl] at hne
  have hbefore := h.before hj
  refine ⟨h.le, fun _ => by omega, fun hpos => ?_, fun heq => by omega, fun hz hk => ?_⟩
  · have := h.after hpos
    omega
  · have := h.first hz hk
    omega

theorem use (hr : Rota n s q) (hj : j < n) (heq : deadline s q k j j = t) :
    Turn n s q (t + 1) k (j + 1) := by
  rw [deadline_of_le le_rfl] at heq
  refine ⟨hj, fun hlt => ?_, fun _ => ?_, fun hn => ?_, fun hz => by omega⟩
  · have := hr.lt j (j + 1) (Nat.lt_succ_self j) hlt
    omega
  · rw [Nat.add_sub_cancel]
    omega
  · rw [← hn, Nat.add_sub_cancel]
    omega

theorem goBack (h : Turn n s q t k n) (hr : Rota n s q) : Turn n s q (t + 1) (k + 1) 0 := by
  have ht := h.back rfl
  have hfits := hr.fits
  have hq : (k + 1) * q = k * q + q := Nat.succ_mul k q
  refine ⟨Nat.zero_le n, fun _ => ?_, fun h0 => by omega, fun hn => ?_, fun _ _ => ?_⟩
  · rw [hq]
    omega
  · have := hr.pos
    omega
  · rw [hq]
    omega

end Turn

/-- Different deadlines are never at the same time. -/
theorem Rota.deadline_inj {n q k j : Nat} {s : Nat → Nat} (h : Rota n s q) {i i' : Nat} (hi : i < n)
    (hi' : i' < n) (heq : deadline s q k j i = deadline s q k j i') : i = i' := by
  have hs := h.spread hi
  have hs' := h.spread hi'
  apply h.inj hi hi'
  rcases Nat.lt_or_ge i j with hij | hij
  · rcases Nat.lt_or_ge i' j with hij' | hij'
    · rw [deadline_of_lt hij, deadline_of_lt hij'] at heq
      omega
    · rw [deadline_of_lt hij, deadline_of_le hij'] at heq
      omega
  · rcases Nat.lt_or_ge i' j with hij' | hij'
    · rw [deadline_of_le hij, deadline_of_lt hij'] at heq
      omega
    · rw [deadline_of_le hij, deadline_of_le hij'] at heq
      omega

end Ns3.Lib
