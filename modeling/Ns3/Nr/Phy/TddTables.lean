import Ns3.Nr.Phy.TddPattern
import Mathlib.Data.List.Nodup

/-!
# The tables of a TDD pattern

What `GenerateStructuresFromPattern` leaves in its tables: for each position the nearest slot that
can carry its DCI, the same slots ahead of the control latency, and the nearest slot for the HARQ
feedback.
-/

namespace Ns3.Nr.Phy

open Lib

/-- The slot `k` slots before a position. -/
theorem sub_emod_eq_iff {m d k i : Nat} (hd : d < m) (hi : i < m) :
    ((i : Int) - k) % m = d ↔ (d + k) % m = i := by
  constructor
  · intro heq
    have hcast : ((d + k : Nat) : Int) % m = i := by
      rw [Nat.cast_add, ← heq, Int.emod_add_emod, sub_add_cancel]
      exact Int.emod_eq_of_lt (by omega) (by omega)
    exact_mod_cast hcast
  · intro heq
    rw [← heq, Int.natCast_mod, Int.emod_sub_emod, Nat.cast_add, add_sub_cancel_right]
    exact Int.emod_eq_of_lt (by omega) (by omega)

/-! ## The tables -/

/-- A table that has for each position that `can` allows the nearest slot, at least `n` before, that
is no UL slot. -/
structure Exact (pattern : List LteNrTddSlotType) (can : Nat → Bool) (n : Nat) (toSend : SlotMap) :
    Prop where
  once : ∀ i < pattern.length, can i = true → ∃! p : Nat × Nat,
    p.1 < pattern.length ∧ p.2 ∈ toSend p.1 ∧ (p.1 + p.2) % pattern.length = i
  sound : ∀ d k, k ∈ toSend d → d < pattern.length ∧ slotType pattern d ≠ .UL ∧ n ≤ k ∧
    can ((d + k) % pattern.length) = true
  least : ∀ d k, k ∈ toSend d → ∀ d' < pattern.length, ∀ k', n ≤ k' →
    (d' + k') % pattern.length = (d + k) % pattern.length → slotType pattern d' ≠ .UL → k ≤ k'
  nodup : ∀ d, (toSend d).Nodup

/-- The same pairs, `l` slots earlier and in order. -/
structure Shifted (m l : Nat) (toSend generate : SlotMap) : Prop where
  perm : ∀ g < m, (generate g).Perm ((toSend ((g + l) % m)).map fun k => k + l)
  outside : ∀ g, m ≤ g → generate g = []
  sorted : ∀ g, (generate g).Pairwise (· ≤ ·)

/-- The nearest slot, at least `n1` after the position, that can carry UL. -/
def NearestUl (pattern : List LteNrTddSlotType) (i n1 k1 : Nat) : Prop :=
  n1 ≤ k1 ∧ hasUl pattern ((i + k1) % pattern.length) = true ∧
    ∀ k, n1 ≤ k → hasUl pattern ((i + k) % pattern.length) = true → k1 ≤ k

section Tables

variable {pattern : List LteNrTddSlotType}

/-- The entries of a table are the nearest slots of the positions. -/
theorem Duplex.exact (h : Duplex pattern) {can : Nat → Bool} {n : Nat}
    (hn : n + pattern.length ≤ 2 ^ 31) {toSend : SlotMap}
    (hsend : ∀ g, toSend g = Cyclic.dueAt pattern.length
      ((List.range pattern.length).filter can) (dciOffset pattern n) g) :
    Exact pattern can n toSend := by
  have hpos := h.length_pos
  have hmem : ∀ d k, k ∈ toSend d ↔ ∃ i < pattern.length, can i = true ∧
      ((i : Int) - k) % pattern.length = d ∧ dciOffset pattern n i = k := by
    intro d k
    rw [hsend, Cyclic.mem_dueAt]
    constructor
    · rintro ⟨i, hi, hd, rfl⟩
      obtain ⟨hlt, hcan⟩ := List.mem_filter.mp hi
      exact ⟨i, List.mem_range.mp hlt, hcan, hd, rfl⟩
    · rintro ⟨i, hlt, hcan, hd, rfl⟩
      exact ⟨i, List.mem_filter.mpr ⟨List.mem_range.mpr hlt, hcan⟩, hd, rfl⟩
  -- an entry belongs to the one position that it leads to
  have hlead : ∀ d k, k ∈ toSend d → d < pattern.length ∧
      can ((d + k) % pattern.length) = true ∧
      dciOffset pattern n ((d + k) % pattern.length) = k ∧
      (((d + k) % pattern.length : Nat) - (k : Int)) % pattern.length = d := by
    intro d k hk
    obtain ⟨i, hlt, hcan, hd, hi⟩ := (hmem d k).mp hk
    have hdlt : d < pattern.length := by
      have := Int.emod_lt_of_pos ((i : Int) - k) (show (0 : Int) < pattern.length by omega)
      omega
    rw [(sub_emod_eq_iff hdlt hlt).mp hd]
    exact ⟨hdlt, hcan, hi, hd⟩
  constructor
  · intro i hi hcan
    have hnonneg := Int.emod_nonneg ((i : Int) - dciOffset pattern n i)
      (show (pattern.length : Int) ≠ 0 by omega)
    obtain ⟨d, hd⟩ := Int.eq_ofNat_of_zero_le hnonneg
    have hdlt : d < pattern.length := (hlead d _ ((hmem _ _).mpr ⟨i, hi, hcan, hd, rfl⟩)).1
    refine ⟨(d, dciOffset pattern n i), ⟨hdlt, (hmem _ _).mpr ⟨i, hi, hcan, hd, rfl⟩,
      (sub_emod_eq_iff hdlt hi).mp hd⟩, ?_⟩
    rintro ⟨d', k⟩ ⟨-, hk, heq⟩
    obtain ⟨-, -, hkoff, hkd⟩ := hlead d' k hk
    dsimp only at heq
    rw [heq] at hkoff hkd
    rw [← hkoff] at hkd ⊢
    rw [hd, Nat.cast_inj] at hkd
    rw [hkd]
  · intro d k hk
    obtain ⟨hdlt, hcan, hkoff, hkd⟩ := hlead d k hk
    obtain ⟨-, hle, -, hne, -⟩ := h.returnDciSlot_eq (Nat.mod_lt (d + k) hpos) hn
    rw [hkoff] at hne hle
    rw [slotAt, hkd, Int.toNat_natCast] at hne
    exact ⟨hdlt, hne, hle, hcan⟩
  · intro d k hk d' hd' k' hk' heq hne
    obtain ⟨-, -, hkoff, -⟩ := hlead d k hk
    obtain ⟨-, -, -, -, hall⟩ := h.returnDciSlot_eq (Nat.mod_lt (d + k) hpos) hn
    by_contra hlt
    have hul := hall k' hk' (by omega)
    rw [slotAt, (sub_emod_eq_iff hd' (Nat.mod_lt _ hpos)).mpr heq, Int.toNat_natCast] at hul
    exact hne hul
  · intro d
    rw [hsend]
    refine List.Nodup.map_on ?_ (List.Nodup.filter _ (List.nodup_range.filter _))
    intro i hi j hj heq
    have hboth : ∀ i ∈ ((List.range pattern.length).filter can).filter (fun i : Nat =>
        decide (((i : Int) - (dciOffset pattern n i : Int)) % pattern.length = d)),
        (d + dciOffset pattern n i) % pattern.length = i := by
      intro i hi
      obtain ⟨hi, hd⟩ := List.mem_filter.mp hi
      have hlt := List.mem_range.mp (List.mem_filter.mp hi).1
      rw [decide_eq_true_eq] at hd
      have hdlt := Int.emod_lt_of_pos ((i : Int) - dciOffset pattern n i)
        (show (0 : Int) < pattern.length by omega)
      exact (sub_emod_eq_iff (by omega) hlt).mp hd
    rw [← hboth i hi, ← hboth j hj, heq]

/-- The offsets `l` slots ahead are due `l` slots earlier. -/
theorem dueAt_add (ps : List Nat) (n l : Nat) {g : Nat} (hg : g < pattern.length) :
    Cyclic.dueAt pattern.length ps (generateOffset pattern n l) g =
      (Cyclic.dueAt pattern.length ps (dciOffset pattern n) ((g + l) % pattern.length)).map
        fun k => k + l := by
  unfold Cyclic.dueAt
  rw [List.map_map]
  have hfilter : (ps.filter fun i : Nat =>
        decide (((i : Int) - (generateOffset pattern n l i : Int)) % pattern.length = g)) =
      ps.filter fun i : Nat => decide (((i : Int) - (dciOffset pattern n i : Int)) %
        pattern.length = ((g + l) % pattern.length : Nat)) := by
    apply List.filter_congr
    intro i _
    apply decide_eq_decide.mpr
    have hpos : (pattern.length : Int) ≠ 0 := by omega
    have hlt := Int.emod_lt_of_pos ((i : Int) - dciOffset pattern n i)
      (show (0 : Int) < pattern.length by omega)
    obtain ⟨d, hd⟩ := Int.eq_ofNat_of_zero_le
      (Int.emod_nonneg ((i : Int) - dciOffset pattern n i) hpos)
    rw [generateOffset, Nat.cast_add, ← sub_sub, ← Int.emod_sub_emod, hd,
      sub_emod_eq_iff hg (by omega), Nat.cast_inj]
    exact eq_comm
  rw [hfilter]
  rfl

theorem Duplex.shifted (h : Duplex pattern) {ps : List Nat} {n l : Nat} {toSend maps : SlotMap}
    (hsend : ∀ g, toSend g = Cyclic.dueAt pattern.length ps (dciOffset pattern n) g)
    (hmaps : ∀ g, maps g = Cyclic.dueAt pattern.length ps (generateOffset pattern n l) g) :
    Shifted pattern.length l toSend maps.sorted where
  perm := by
    intro g hg
    have hperm : (maps.sorted g).Perm (maps g) := List.mergeSort_perm _ _
    rwa [hmaps, dueAt_add ps n l hg, ← hsend] at hperm
  outside := by
    intro g hg
    have hnone : maps g = [] := by
      rw [hmaps, List.eq_nil_iff_forall_not_mem]
      intro k hk
      obtain ⟨i, -, hi, -⟩ := Cyclic.mem_dueAt.mp hk
      have hpos := h.length_pos
      have hlt := Int.emod_lt_of_pos ((i : Int) - generateOffset pattern n l i)
        (show (0 : Int) < pattern.length by omega)
      omega
    unfold SlotMap.sorted
    rw [hnone]
    exact List.mergeSort_nil
  sorted := by
    intro g
    have hsorted : (maps.sorted g).Pairwise fun a b => decide (a ≤ b) = true := by
      apply List.pairwise_mergeSort
      · intro a b c hab hbc
        rw [decide_eq_true_eq] at *
        exact hab.trans hbc
      · intro a b
        rw [Bool.or_eq_true, decide_eq_true_eq, decide_eq_true_eq]
        exact le_total a b
    simpa using hsorted

/-- For a pattern with both directions and all delays the tables are built. They are exact where no
number of the code reaches `2 ^ 31`. -/
theorem tables_exact (h : Duplex pattern) (hm : pattern.length ≤ 2 ^ 31) (d : Delays) :
    ∃ st, generateStructuresFromPattern pattern d = some st ∧
      (d.n0 + d.l1l2CtrlLatency + pattern.length ≤ 2 ^ 31 →
        Exact pattern (hasDl pattern) d.n0 st.dl.1 ∧
          Shifted pattern.length d.l1l2CtrlLatency st.dl.1 st.generateDl) ∧
      (d.n2 + d.l1l2CtrlLatency + pattern.length ≤ 2 ^ 31 →
        Exact pattern (hasUl pattern) d.n2 st.ul.1 ∧
          Shifted pattern.length d.l1l2CtrlLatency st.ul.1 st.generateUl) ∧
      (d.n1 + 3 * pattern.length ≤ 2 ^ 31 → ∀ i < pattern.length, hasDl pattern i = true →
        ∃ k1, st.dlHarqfbPosition i = some k1 ∧ NearestUl pattern i d.n1 k1) := by
  obtain ⟨st, hst, heq⟩ := h.generate_holds hm d
  refine ⟨_, heq, ?_, ?_, ?_⟩
  · intro hfit
    have hsend := fun g => (hst.dl hfit g).1
    exact ⟨h.exact (by omega) hsend, h.shifted hsend fun g => (hst.dl hfit g).2⟩
  · intro hfit
    have hsend := fun g => (hst.ul hfit g).1
    exact ⟨h.exact (by omega) hsend, h.shifted hsend fun g => (hst.ul hfit g).2⟩
  · intro hfit i hi hcan
    obtain ⟨k1, hk1, hle, hlt, hul, hall⟩ := h.returnHarqSlot_eq hi hfit
    have hmem : i ∈ (List.range pattern.length).filter (hasDl pattern) :=
      List.mem_filter.mpr ⟨List.mem_range.mpr hi, hcan⟩
    refine ⟨k1, ?_, hle, hul, hall⟩
    change st.dlHarqfbPosition i = _
    rw [hst.harq, if_pos hmem, hk1, Option.map_some, Int.emod_eq_of_lt (by omega) (by omega),
      Int.toNat_natCast]

/-- An LTE pattern with the default delays. -/
theorem tables_exact_lte :
    ∃ st, generateStructuresFromPattern [.DL, .S, .UL, .UL, .DL]
        { n0 := 0, n2 := 2, n1 := 4, l1l2CtrlLatency := 2 } = some st ∧
      Exact [.DL, .S, .UL, .UL, .DL] (hasDl [.DL, .S, .UL, .UL, .DL]) 0 st.dl.1 := by
  have hduplex : Duplex [.DL, .S, .UL, .UL, .DL] := Or.inr (by decide)
  obtain ⟨st, hst, hdl, -⟩ := tables_exact hduplex (by decide) ⟨0, 2, 4, 2⟩
  exact ⟨st, hst, (hdl (by decide)).1⟩

/-- An `n2` that `int` holds as `-1`: the wrap of `k` to 0 finds a slot for position 0 that is
earlier than `n2` asks for. -/
theorem tables_exact_wrapped :
    ¬∃ st, generateStructuresFromPattern [.F, .UL, .UL]
        { n0 := 0, n2 := 2 ^ 32 - 1, n1 := 4, l1l2CtrlLatency := 2 } = some st ∧
      Exact [.F, .UL, .UL] (hasUl [.F, .UL, .UL]) (2 ^ 32 - 1) st.ul.1 := by
  rintro ⟨st, hst, hexact⟩
  have hsend : (generateStructuresFromPattern [.F, .UL, .UL]
      { n0 := 0, n2 := 2 ^ 32 - 1, n1 := 4, l1l2CtrlLatency := 2 }).map (fun st => st.ul.1 0) =
      some [0, 1, 4294967295] := by decide
  rw [hst, Option.map_some] at hsend
  have hmem : 0 ∈ st.ul.1 0 := by
    rw [Option.some.inj hsend]
    exact List.mem_cons_self
  have hle := (hexact.sound 0 0 hmem).2.2.1
  omega

end Tables

end Ns3.Nr.Phy
