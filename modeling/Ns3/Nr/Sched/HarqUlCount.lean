import Ns3.Lib.Stack
import Ns3.Nr.Sched.HarqUl

/-!
# The symbols that uplink retransmissions use

`ScheduleUlHarq` returns `symUsed` as the number of symbols it used and leaves the starting
point for the new data behind them. In the loop `symUsed` is a symbol rather than a number:
the one before the next free symbol, or the next free one. It is the number of symbols of
the DCIs when the round starts at symbol 1 in the first case, and at symbol 0 in the second
(`UlPacking.Closed`).
-/

namespace Ns3.Nr.Sched

open Lib

/-- `symUsed` is the number of symbols in front of the next free one. -/
def UlPacking.Closed (sym : Nat) : UlPacking → Prop
  | .first _ => True
  | .blocks mode _ _ =>
    match mode with
    | .tdd => sym = 1
    | .fdd => sym = 0
    | .late => False

def UlPacking.afterAll (k : UlPacking) (ds : List DciInfoElementTdma) : UlPacking :=
  ds.foldl (fun k d => k.after d.symStart d.numSym) k

/-- Each block of the list goes to the next free symbol, which is then behind it, or beside the
last blocks without reaching over the next free symbol. -/
def Tight : UlPacking → List DciInfoElementTdma → Prop
  | _, [] => True
  | k, d :: ds =>
    (k.place d.symStart = some k.free ∧
        (k.after d.symStart d.numSym).free = k.free + d.numSym ∨
      ∃ start, k.last = some start ∧ k.place d.symStart = some start ∧
        start + d.numSym ≤ k.free ∧ (k.after d.symStart d.numSym).free = k.free) ∧
      Tight (k.after d.symStart d.numSym) ds

/-- The blocks reach from `sym` to the next free symbol, and the starting point is where the
variables of the loop say. -/
structure Tallied (sym : Nat) (pl : UlPlacement) (k : UlPacking) (bs : List Block) : Prop where
  packed : Packed sym k.free bs
  len : ∀ b ∈ bs, 0 < b.len
  tally : sym + tally bs = k.free
  last : ∀ start, k.last = some start → start ∈ bs.map Block.start
  used : ∀ p, k = .first p → pl.symUsed + sym = p
  point : k.last ≠ none →
    pl.sym = if pl.operationModeFDD then pl.symUsed else (pl.symUsed + 1) % 256

section Step

variable {pl : UlPlacement} {k : UlPacking} {sym hi : Nat} {bs : List Block}
  {d : DciInfoElementTdma} {ds : List DciInfoElementTdma}

theorem UlPlacement.next_sym (pl : UlPlacement) (symStart numSym : Nat) :
    (pl.next symStart numSym).sym =
      if (pl.next symStart numSym).operationModeFDD then (pl.next symStart numSym).symUsed
      else ((pl.next symStart numSym).symUsed + 1) % 256 :=
  rfl

/-- Blocks that are placed start in front of the next free symbol. -/
theorem Tallied.start_lt (ht : Tallied sym pl k bs) {s : Nat} (hs : s ∈ bs.map Block.start) :
    s < k.free := by
  obtain ⟨b, hb, rfl⟩ := List.mem_map.mp hs
  have := (ht.packed.within b hb).2
  have := ht.len b hb
  omega

/-- Only a single symbol at 0 counts as nothing. -/
theorem UlPacking.after_eq_first {p : Nat} (ht : Tight k (d :: ds)) (hd : Describes pl k)
    (h : k.after d.symStart d.numSym = .first p) :
    ∃ q, k = .first q ∧ q ≠ 1 ∧ p = 1 ∧ d.numSym = 1 := by
  cases k with
  | first q =>
    simp only [UlPacking.after] at h
    split at h
    · cases h
    · rename_i hq
      split at h
      · rename_i hn
        exact ⟨q, rfl, hq, (UlPacking.first.inj h).symm, hn⟩
      · cases h
  | blocks mode free start =>
    -- a second block at symbol 0 that is counted alone does not leave the next free symbol
    exfalso
    have hlt : start < free := hd.2.1
    have htwo : start = 0 → 2 ≤ free := by
      intro hzero
      cases mode with
      | tdd => exact absurd hd.2.2.2.2 (by omega)
      | fdd => exact hd.2.2.2.2.2
      | late => exact (Nat.le_succ 2).trans (hd.2.2.2.2.2 hzero)
    have hfree : (UlPacking.after (.blocks mode free start) d.symStart d.numSym).free ≥ free := by
      rcases ht.1 with ⟨-, hfree⟩ | ⟨-, -, -, -, hfree⟩
      · exact (Nat.le_add_right _ _).trans hfree.ge
      · exact hfree.ge
    rw [h] at hfree
    simp only [UlPacking.after] at h
    split at h
    · split at h
      · rename_i hzero
        split at h
        · have hp := UlPacking.first.inj h
          have := htwo hzero
          change free ≤ p at hfree
          omega
        · cases h
      · cases h
    · cases h

theorem Tallied.step (hd : Describes pl k) (hb : Behind sym k bs) (ht : Tallied sym pl k bs)
    (horder : Orderly hi k bs (d :: ds)) (htight : Tight k (d :: ds)) (hpos : 0 < d.numSym)
    (hcap : k.point + d.numSym ≤ k.cap) :
    ∃ p, k.place d.symStart = some p ∧ (pl.next d.symStart d.numSym).priorSym = p ∧
      Tallied sym (pl.next d.symStart d.numSym) (k.after d.symStart d.numSym)
        (DciInfoElementTdma.blockAt d p :: bs) ∧
      Orderly hi (k.after d.symStart d.numSym) (DciInfoElementTdma.blockAt d p :: bs) ds := by
  obtain ⟨p, hplace, -, hrows, hrest⟩ := horder
  obtain ⟨hd', hprior⟩ := hd.next hplace hpos hcap
  refine ⟨p, hplace, hprior, ?_, hrest⟩
  have htally := ht.tally
  refine ⟨?_, ?_, ?_, ?_, ?_, fun _ => UlPlacement.next_sym _ _ _⟩
  · rw [hb.packed_cons_iff hd hplace hpos]
    rcases htight.1 with ⟨hfree, hafter⟩ | ⟨start, -, hstart, hle, hafter⟩
    · obtain rfl := Option.some.inj (hplace.symm.trans hfree)
      rw [hafter]
      exact ⟨ht.packed.mono (Nat.le_add_right _ _), le_rfl, hrows⟩
    · obtain rfl := Option.some.inj (hplace.symm.trans hstart)
      rw [hafter]
      exact ⟨ht.packed, hle, hrows⟩
  · intro b hb
    rcases List.mem_cons.mp hb with rfl | hb
    · exact hpos
    · exact ht.len b hb
  · rw [Lib.tally]
    rcases htight.1 with ⟨hfree, hafter⟩ | ⟨start, hlast, hstart, -, hafter⟩
    · obtain rfl := Option.some.inj (hplace.symm.trans hfree)
      have hnot : (DciInfoElementTdma.blockAt d k.free).start ∉ bs.map Block.start :=
        fun hmem => absurd (ht.start_lt hmem) (lt_irrefl _)
      rw [if_neg hnot, hafter]
      change sym + (Lib.tally bs + d.numSym) = _
      omega
    · obtain rfl := Option.some.inj (hplace.symm.trans hstart)
      have hmem : (DciInfoElementTdma.blockAt d p).start ∈ bs.map Block.start := ht.last _ hlast
      rw [if_pos hmem, htally, hafter]
  · intro start hstart
    -- the last blocks start where the new one is
    have hlast : start = (pl.next d.symStart d.numSym).priorSym := by
      cases hk : k.after d.symStart d.numSym with
      | first p =>
        rw [hk] at hstart
        cases hstart
      | blocks mode free start' =>
        rw [hk] at hstart hd'
        exact (Option.some.inj hstart).symm.trans hd'.1.symm
    rw [hlast, hprior]
    exact List.mem_cons_self
  · intro q hk
    obtain ⟨q, rfl, hq, rfl, hn⟩ := UlPacking.after_eq_first htight hd hk
    obtain ⟨hpoint, hle, hprior⟩ := hd
    have hzero : q = 0 := by omega
    have hle := hb.base
    change sym ≤ q at hle
    rw [UlPlacement.next_zero (hpoint.trans hzero) hprior (by omega)]
    change d.numSym + sym = 1
    omega

end Step

section All

variable {sym symAvail : Nat}

/-- The variables of the loop and the blocks after a list of retransmissions. -/
theorem Tallied.all {pl : UlPlacement} {k : UlPacking} {bs : List Block} {xs : List Retx}
    {hi : Nat} (hd : Describes pl k) (hb : Behind sym k bs) (ht : Tallied sym pl k bs)
    (horder : Orderly hi k bs (xs.map Prod.snd)) (htight : Tight k (xs.map Prod.snd))
    (hpos : ∀ x ∈ xs, 0 < x.2.numSym)
    (hcap : k.point + (xs.map fun x => x.2.numSym).sum ≤ k.cap) :
    Describes (placeAll pl xs) (k.afterAll (xs.map Prod.snd)) ∧
      Tallied sym (placeAll pl xs) (k.afterAll (xs.map Prod.snd))
        ((Sched.placements pl xs).reverse.map allocBlock ++ bs) ∧
      (k.afterAll (xs.map Prod.snd)).free ≤ k.free + (xs.map fun x => x.2.numSym).sum := by
  induction xs generalizing pl k bs with
  | nil => exact ⟨hd, ht, Nat.le_add_right _ _⟩
  | cons x xs ih =>
    rw [List.map_cons, List.sum_cons] at hcap
    have hx := hpos x List.mem_cons_self
    obtain ⟨p, hplace, hprior, ht', horder'⟩ := ht.step hd hb horder htight hx (by omega)
    have hpoint := hd.point_after_le hx (Option.isSome_of_eq_some hplace)
    have hcap' : k.cap ≤ (k.after x.2.symStart x.2.numSym).cap := hd.cap_le_after
    obtain ⟨hd₂, ht₂, hfree⟩ := ih (hd.next hplace hx (by omega)).1 (hb.next hd hplace) ht'
      horder' htight.2 (fun y hy => hpos y (List.mem_cons_of_mem _ hy)) (by omega)
    have hafter : (k.after x.2.symStart x.2.numSym).free ≤ k.free + x.2.numSym := by
      rcases htight.1 with ⟨-, h⟩ | ⟨-, -, -, -, h⟩
      · exact h.le
      · exact h.le.trans (Nat.le_add_right _ _)
    refine ⟨hd₂, ?_, ?_⟩
    · rw [placements_cons, List.reverse_append, List.map_append, List.append_assoc]
      change Tallied sym _ _
        (_ ++ DciInfoElementTdma.blockAt x.2 (pl.next x.2.symStart x.2.numSym).priorSym :: bs)
      rw [hprior]
      exact ht₂
    · change (UlPacking.afterAll (k.after x.2.symStart x.2.numSym) (xs.map Prod.snd)).free ≤
        k.free + (x.2.numSym + (xs.map fun x => x.2.numSym).sum)
      omega

/-- The retransmissions that fit are placed without gaps from `sym` on, and are counted. -/
def HarqCloses (sym symAvail : Nat) (xs : List Retx) : Prop :=
  fitting symAvail xs = [] ∨ sym ≤ 1 ∧
    Orderly (sym + symAvail) (.first sym) [] ((fitting symAvail xs).map Prod.snd) ∧
    Tight (.first sym) ((fitting symAvail xs).map Prod.snd) ∧
    (UlPacking.afterAll (.first sym) ((fitting symAvail xs).map Prod.snd)).Closed sym

/-- The starting point and the number of symbols after a round. -/
theorem HarqCloses.counted {xs : List Retx} (h : HarqCloses sym symAvail xs)
    (hpos : ∀ x ∈ xs, 0 < x.2.numSym) (havail : sym + symAvail < 256) :
    (placeAll { sym := sym } (fitting symAvail xs)).symUsed =
        tally ((placements { sym := sym } (fitting symAvail xs)).reverse.map allocBlock) ∧
      (placeAll { sym := sym } (fitting symAvail xs)).sym =
        sym + (placeAll { sym := sym } (fitting symAvail xs)).symUsed ∧
      (placeAll { sym := sym } (fitting symAvail xs)).symUsed ≤ symAvail ∧
      Packed sym (placeAll { sym := sym } (fitting symAvail xs)).sym
        ((placements { sym := sym } (fitting symAvail xs)).reverse.map allocBlock) := by
  rcases h with h | ⟨hsym, horder, htight, hclosed⟩
  · rw [h]
    exact ⟨rfl, rfl, Nat.zero_le _, Packed.nil⟩
  · have hsum := sum_fitting_le symAvail xs
    have hd : Describes { sym := sym } (.first sym) := ⟨rfl, hsym, rfl⟩
    have ht : Tallied sym { sym := sym } (.first sym) [] := by
      refine ⟨Packed.nil, by simp, rfl, ?_, ?_, fun h => absurd rfl h⟩
      · intro start h
        cases h
      · intro p hp
        exact (Nat.zero_add _).trans (UlPacking.first.inj hp)
    obtain ⟨hd, ht, hfree⟩ := Tallied.all hd (Behind.nil sym) ht horder htight
      (fun x hx => hpos x (mem_of_mem_fitting hx)) (show sym + _ ≤ 255 + sym by omega)
    change _ ≤ sym + _ at hfree
    rw [List.append_nil] at ht
    have htally := ht.tally
    have hpacked := ht.packed
    generalize UlPacking.afterAll (.first sym) ((fitting symAvail xs).map Prod.snd) = k
      at hd ht hfree hclosed htally hpacked
    have hpoint : (placeAll { sym := sym } (fitting symAvail xs)).sym = k.free ∧
        (placeAll { sym := sym } (fitting symAvail xs)).symUsed + sym = k.free := by
      cases k with
      | first p => exact ⟨hd.1, ht.used p rfl⟩
      | blocks mode free start =>
        have hsymEq := ht.point (by simp [UlPacking.last])
        change free ≤ _ at hfree
        cases mode with
        | tdd =>
          obtain ⟨-, -, hfdd, hused, -⟩ := hd
          have hone : sym = 1 := hclosed
          rw [hfdd, if_neg Bool.false_ne_true, hused, Nat.mod_eq_of_lt (by omega)] at hsymEq
          refine ⟨hsymEq, ?_⟩
          change _ = free
          omega
        | fdd =>
          obtain ⟨-, -, hfdd, hused, hs, -⟩ := hd
          have hzero : sym = 0 := hclosed
          refine ⟨hs, ?_⟩
          change _ = free
          omega
        | late => exact hclosed.elim
    rw [← hpoint.1] at htally hpacked hfree
    exact ⟨by omega, by omega, by omega, hpacked⟩

end All

end Ns3.Nr.Sched
