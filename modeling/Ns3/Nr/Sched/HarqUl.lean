import Mathlib.Algebra.Order.Ring.Int
import Mathlib.Data.List.Nodup
import Ns3.Nr.Sched.HarqRr

/-!
# Where uplink retransmissions go

`ScheduleUlHarq` takes the feedbacks in order while symbols are left and derives the place
of each retransmission from the place of the one before and from the symbol the block
started at in its earlier slot. `UlHarqRound.run_eq` separates what is repeated
(`fitting`), what is buffered (`waiting`) and where the repeated blocks go (`placements`).

A round is sound (`SoundRound`) if no feedback is lost, no two DCIs share a cell, all DCIs
are in the symbols that are available and no UE gets two of them. The loop fails this in
several ways: it stops when the symbols are used up, it repeats two processes of a UE, it
starts at symbol 1 although the starting point is behind it, and it goes back to the
symbol of the earlier slot. `UlPacking` says where a block goes that does not go back
(`Forward`), and `Orderly` when such blocks are placed apart.
-/

namespace Ns3.Nr.Sched

open Lib

/-! ## What is repeated and what is buffered -/

/-- A feedback with the DCI its process holds. -/
abbrev Retx := UlHarqInfo × DciInfoElementTdma

/-- The retransmissions that fit in the symbols, in order. -/
def fitting : Nat → List Retx → List Retx
  | _, [] => []
  | avail, x :: xs =>
    if x.2.numSym ≤ avail then x :: fitting (avail - x.2.numSym) xs else fitting avail xs

/-- The retransmissions that do not fit while symbols are left. -/
def waiting : Nat → List Retx → List Retx
  | _, [] => []
  | avail, x :: xs =>
    if avail = 0 then []
    else if x.2.numSym ≤ avail then waiting (avail - x.2.numSym) xs
    else x :: waiting avail xs

/-- There is a symbol left at every feedback of the list. -/
def Lasts : Nat → List Retx → Prop
  | _, [] => True
  | avail, x :: xs =>
    0 < avail ∧ Lasts (if x.2.numSym ≤ avail then avail - x.2.numSym else avail) xs

/-- The allocations for a list of retransmissions, placed one after the other. -/
def placements : UlPlacement → List Retx → List VarTtiAllocInfo
  | _, [] => []
  | place, x :: xs =>
    let place := place.next x.2.symStart x.2.numSym
    { dci := retxUlDci x.2 x.1.harqProcessId place.priorSym } :: placements place xs

/-- The variables of the loop after a list of retransmissions. -/
def placeAll (place : UlPlacement) (xs : List Retx) : UlPlacement :=
  xs.foldl (fun place x => place.next x.2.symStart x.2.numSym) place

/-- A NACK for a process that holds the DCI. -/
def Nacked (m : HarqMap) (x : Retx) : Prop :=
  HarqInfo.isReceivedOk x.1 = false ∧
    ∃ p, m.At (HarqInfo.key x.1) p ∧ p.status = .RECEIVED_FEEDBACK ∧ p.dciElement = some x.2

theorem fitting_zero {xs : List Retx} (h : ∀ x ∈ xs, 0 < x.2.numSym) : fitting 0 xs = [] := by
  induction xs with
  | nil => rfl
  | cons x xs ih =>
    rw [fitting, if_neg (by have := h x List.mem_cons_self; omega)]
    exact ih fun y hy => h y (List.mem_cons_of_mem _ hy)

theorem waiting_zero (xs : List Retx) : waiting 0 xs = [] := by
  cases xs with
  | nil => rfl
  | cons x xs => rw [waiting, if_pos rfl]

theorem placements_cons (place : UlPlacement) (x : Retx) (xs : List Retx) :
    placements place (x :: xs) =
      placements place [x] ++ placements (place.next x.2.symStart x.2.numSym) xs :=
  rfl

theorem UlHarqRound.step_eq {r : UlHarqRound} {x : Retx} (h : Nacked r.ulHarq x) :
    ∃ p, r.step x.1 = .ok (if x.2.numSym ≤ r.symAvail then
      { r with
        symAvail := r.symAvail - x.2.numSym
        place := r.place.next x.2.symStart x.2.numSym
        ulHarq := r.ulHarq.put (HarqInfo.key x.1) p
        varTtiAllocInfo := placements r.place [x] ++ r.varTtiAllocInfo
        numSymAlloc := (r.place.next x.2.symStart x.2.numSym).symUsed + 1 }
      else
      { r with
        ulHarq := r.ulHarq.put (HarqInfo.key x.1) p
        ulHarqToRetransmit := r.ulHarqToRetransmit ++ [x.1] }) := by
  obtain ⟨hnack, p, hp, -, hdci⟩ := h
  unfold UlHarqRound.step
  rw [hnack, if_neg Bool.false_ne_true, hp.get]
  dsimp only [bind, Except.bind]
  rw [hdci]
  dsimp only
  by_cases hfit : x.2.numSym ≤ r.symAvail
  · rw [if_pos hfit]
    exact ⟨_, by rw [if_pos hfit]; rfl⟩
  · rw [if_neg hfit]
    exact ⟨_, by rw [if_neg hfit]; rfl⟩

/-- A round allocates what fits and buffers what does not while symbols are left. -/
theorem UlHarqRound.run_eq (xs : List Retx) {r : UlHarqRound} (hpos : ∀ x ∈ xs, 0 < x.2.numSym)
    (hnack : ∀ x ∈ xs, Nacked r.ulHarq x) (hnd : (xs.map fun x => HarqInfo.key x.1).Nodup) :
    ∃ r', r.run (xs.map Prod.fst) = .ok r' ∧
      r'.varTtiAllocInfo =
        (placements r.place (fitting r.symAvail xs)).reverse ++ r.varTtiAllocInfo ∧
      r'.ulHarqToRetransmit = r.ulHarqToRetransmit ++ (waiting r.symAvail xs).map Prod.fst ∧
      r'.place = placeAll r.place (fitting r.symAvail xs) := by
  induction xs generalizing r with
  | nil => exact ⟨r, rfl, rfl, (List.append_nil _).symm, rfl⟩
  | cons x xs ih =>
    rw [List.map_cons, UlHarqRound.run]
    by_cases hsym : 0 < r.symAvail
    · rw [if_pos hsym, waiting, if_neg hsym.ne', fitting]
      rw [List.map_cons, List.nodup_cons] at hnd
      obtain ⟨p, hstep⟩ := UlHarqRound.step_eq (hnack x List.mem_cons_self)
      rw [hstep]
      have hpos' : ∀ y ∈ xs, 0 < y.2.numSym := fun y hy => hpos y (List.mem_cons_of_mem _ hy)
      -- the processes of the other feedbacks are as before
      have hnack' : ∀ y ∈ xs, Nacked (r.ulHarq.put (HarqInfo.key x.1) p) y := by
        intro y hy
        obtain ⟨hok, q, hq, hst, hdci⟩ := hnack y (List.mem_cons_of_mem _ hy)
        have hne : HarqInfo.key y.1 ≠ HarqInfo.key x.1 := by
          intro heq
          exact hnd.1 (List.mem_map.mpr ⟨y, hy, heq⟩)
        exact ⟨hok, q, hq.put_of_ne hne p, hst, hdci⟩
      by_cases hfit : x.2.numSym ≤ r.symAvail
      · simp only [if_pos hfit]
        obtain ⟨r', hr', halloc, hbuf, hplace⟩ := ih (r := { r with
          symAvail := r.symAvail - x.2.numSym
          place := r.place.next x.2.symStart x.2.numSym
          ulHarq := r.ulHarq.put (HarqInfo.key x.1) p
          varTtiAllocInfo := placements r.place [x] ++ r.varTtiAllocInfo
          numSymAlloc := (r.place.next x.2.symStart x.2.numSym).symUsed + 1 }) hpos' hnack' hnd.2
        refine ⟨r', hr', ?_, hbuf, hplace⟩
        rw [halloc, placements_cons r.place x (fitting _ xs), List.reverse_append,
          List.append_assoc]
        rfl
      · simp only [if_neg hfit]
        obtain ⟨r', hr', halloc, hbuf, hplace⟩ := ih (r := { r with
          ulHarq := r.ulHarq.put (HarqInfo.key x.1) p
          ulHarqToRetransmit := r.ulHarqToRetransmit ++ [x.1] }) hpos' hnack' hnd.2
        refine ⟨r', hr', halloc, ?_, hplace⟩
        rw [hbuf, List.map_cons, List.append_assoc]
        rfl
    · rw [if_neg hsym, Nat.eq_zero_of_not_pos hsym, fitting_zero hpos, waiting_zero]
      exact ⟨r, rfl, rfl, (List.append_nil _).symm, rfl⟩

/-! ## Sound rounds -/

/-- The process a DCI is for. -/
def allocKey (alloc : VarTtiAllocInfo) : Nat × Nat := (alloc.dci.rnti, alloc.dci.harqProcess)

/-- What a round over the feedbacks should leave: nothing is lost, the blocks are apart and in
the available symbols, and no UE has two. -/
structure SoundRound (sym symAvail : Nat) (fbs : List UlHarqInfo) (r : UlHarqRound) : Prop where
  kept : ∀ fb ∈ fbs, (∃ alloc ∈ r.varTtiAllocInfo, allocKey alloc = HarqInfo.key fb) ∨
    fb ∈ r.ulHarqToRetransmit
  packed : Packed sym (sym + symAvail) (r.varTtiAllocInfo.map allocBlock)
  once : (r.varTtiAllocInfo.map fun alloc => alloc.dci.rnti).Nodup

theorem mem_of_mem_fitting {avail : Nat} {xs : List Retx} {x : Retx} (h : x ∈ fitting avail xs) :
    x ∈ xs := by
  induction xs generalizing avail with
  | nil => cases h
  | cons y xs ih =>
    rw [fitting] at h
    split at h
    · rcases List.mem_cons.mp h with rfl | h
      · exact List.mem_cons_self
      · exact List.mem_cons_of_mem _ (ih h)
    · exact List.mem_cons_of_mem _ (ih h)

theorem mem_of_mem_waiting {avail : Nat} {xs : List Retx} {x : Retx} (h : x ∈ waiting avail xs) :
    x ∈ xs := by
  induction xs generalizing avail with
  | nil => cases h
  | cons y xs ih =>
    rw [waiting] at h
    split at h
    · cases h
    · split at h
      · exact List.mem_cons_of_mem _ (ih h)
      · rcases List.mem_cons.mp h with rfl | h
        · exact List.mem_cons_self
        · exact List.mem_cons_of_mem _ (ih h)

/-- Every retransmission fits or waits exactly when the symbols last. -/
theorem lasts_iff {avail : Nat} {xs : List Retx} (hpos : ∀ x ∈ xs, 0 < x.2.numSym)
    (hnd : (xs.map fun x => HarqInfo.key x.1).Nodup) :
    Lasts avail xs ↔ ∀ x ∈ xs, x ∈ fitting avail xs ∨ x ∈ waiting avail xs := by
  induction xs generalizing avail with
  | nil => simp [Lasts]
  | cons x xs ih =>
    rw [List.map_cons, List.nodup_cons] at hnd
    have hx : x ∉ xs := fun hmem => hnd.1 (List.mem_map.mpr ⟨x, hmem, rfl⟩)
    have hpos' : ∀ y ∈ xs, 0 < y.2.numSym := fun y hy => hpos y (List.mem_cons_of_mem _ hy)
    rw [Lasts, ih hpos' hnd.2]
    rcases Nat.eq_zero_or_pos avail with rfl | havail
    · rw [fitting_zero hpos, waiting_zero]
      constructor
      · rintro ⟨h, -⟩
        exact absurd h (lt_irrefl 0)
      · intro h
        rcases h x List.mem_cons_self with h | h <;> cases h
    · rw [fitting, waiting, if_neg havail.ne']
      split
      · constructor
        · rintro ⟨-, h⟩ y hy
          rcases List.mem_cons.mp hy with rfl | hy
          · exact Or.inl List.mem_cons_self
          · exact (h y hy).imp_left (List.mem_cons_of_mem _)
        · intro h
          refine ⟨havail, fun y hy => ?_⟩
          refine (h y (List.mem_cons_of_mem _ hy)).imp_left fun hmem => ?_
          exact (List.mem_cons.mp hmem).resolve_left fun heq => hx (heq ▸ hy)
      · constructor
        · rintro ⟨-, h⟩ y hy
          rcases List.mem_cons.mp hy with rfl | hy
          · exact Or.inr List.mem_cons_self
          · exact (h y hy).imp_right (List.mem_cons_of_mem _)
        · intro h
          refine ⟨havail, fun y hy => ?_⟩
          refine (h y (List.mem_cons_of_mem _ hy)).imp_right fun hmem => ?_
          exact (List.mem_cons.mp hmem).resolve_left fun heq => hx (heq ▸ hy)

theorem placements_map_key (place : UlPlacement) (xs : List Retx)
    (hrnti : ∀ x ∈ xs, x.2.rnti = x.1.rnti) :
    (placements place xs).map allocKey = xs.map fun x => HarqInfo.key x.1 := by
  induction xs generalizing place with
  | nil => rfl
  | cons x xs ih =>
    rw [placements, List.map_cons, List.map_cons,
      ih _ fun y hy => hrnti y (List.mem_cons_of_mem _ hy)]
    congr 1
    exact Prod.ext (hrnti x List.mem_cons_self) rfl

/-! ## Where blocks go -/

/-- The meaning of `symUsed` and `operationModeFDD`. In the mode `tdd` it is the symbol before
the next free one and blocks are put behind it, in the mode `fdd` it is the next free symbol.
In the mode `late` it is the symbol before the next free one, but blocks are put on it. -/
inductive PackMode
  | tdd
  | fdd
  | late
deriving DecidableEq, Repr

/-- The symbol of a block that started at `symStart`, not in front of the next free symbol. -/
def PackMode.place (free symStart : Nat) : PackMode → Nat
  | .tdd => free
  | .fdd => if symStart = free + 1 then free + 1 else free
  | .late => if symStart = free then free else free - 1

/-- The mode after that block. -/
def PackMode.next (free symStart : Nat) : PackMode → PackMode
  | .tdd => .tdd
  | .fdd => if symStart ≤ free + 1 then .late else .fdd
  | .late => if symStart = free then .late else .fdd

/-- Where the loop is: before a block that goes to the symbol `sym` in any case, or with `free`
as the next free symbol behind the last blocks, which start at `start`. -/
inductive UlPacking
  | first (sym : Nat)
  | blocks (mode : PackMode) (free start : Nat)
deriving DecidableEq, Repr

namespace UlPacking

def free : UlPacking → Nat
  | .first sym => sym
  | .blocks _ free _ => free

/-- The symbol at which the last blocks start. -/
def last : UlPacking → Option Nat
  | .first _ => none
  | .blocks _ _ start => some start

/-- No block has been put behind this symbol. -/
def base : UlPacking → Nat
  | .first sym => sym
  | .blocks _ _ start => start

/-- The symbol of the starting point. -/
def point : UlPacking → Nat
  | .first sym => sym
  | .blocks .late free _ => free - 1
  | .blocks _ free _ => free

/-- The symbols that the variables can count. -/
def cap : UlPacking → Nat
  | .first sym => 255 + sym
  | .blocks .tdd _ _ => 256
  | .blocks _ _ _ => 255

theorem le_cap (k : UlPacking) : 255 ≤ k.cap := by
  cases k with
  | first sym => exact Nat.le_add_right _ _
  | blocks mode free start =>
    cases mode with
    | tdd => exact Nat.le_succ _
    | fdd => exact le_rfl
    | late => exact le_rfl

/-- The symbol for a block that started at `symStart`. A block goes back, to `symStart` itself,
if it started in front of the next free symbol and not where the last blocks are. -/
def place : UlPacking → Nat → Option Nat
  | .first sym, _ => some sym
  | .blocks mode free start, symStart =>
    if symStart = start then some start
    else if free ≤ symStart then some (mode.place free symStart)
    else none

/-- Where the loop is after one more block. A single symbol at 0 leaves the variables as if the
round started at symbol 1; another block at symbol 0 is counted from its own length. -/
def after : UlPacking → Nat → Nat → UlPacking
  | .first sym, _, numSym =>
    if sym = 1 then .blocks .tdd (1 + numSym) 1
    else if numSym = 1 then .first 1
    else .blocks .fdd numSym 0
  | .blocks mode free start, symStart, numSym =>
    if symStart = start then
      if start = 0 then
        if numSym ≤ 2 then .first (numSym - 1) else .blocks .late numSym 0
      else .blocks mode free start
    else .blocks (mode.next free symStart) (mode.place free symStart + numSym)
      (mode.place free symStart)

end UlPacking

/-- The variables of the loop say where it is. -/
def Describes (pl : UlPlacement) : UlPacking → Prop
  | .first sym => pl.sym = sym ∧ sym ≤ 1 ∧ pl.priorSym = 0
  | .blocks mode free start => pl.priorSym = start ∧ start < free ∧
    match mode with
    | .tdd => pl.operationModeFDD = false ∧ pl.symUsed + 1 = free ∧ 0 < start
    | .fdd => pl.operationModeFDD = true ∧ pl.symUsed = free ∧ pl.sym = free ∧ 2 ≤ free
    | .late => pl.operationModeFDD = true ∧ pl.symUsed + 1 = free ∧ pl.sym + 1 = free ∧
        (start = 0 → 3 ≤ free)

section Branches

variable {pl : UlPlacement} {symStart numSym : Nat}

/-! The branches of the case distinction. -/

theorem UlPlacement.next_one (hsym : pl.sym = 1) (hprior : pl.priorSym = 0) (hn : numSym < 256) :
    pl.next symStart numSym = ⟨(numSym + 1) % 256, numSym, 1, false⟩ := by
  have hused : (1 + numSym + 255) % 256 = numSym := by omega
  unfold UlPlacement.next
  rw [if_pos ⟨Or.inl hsym, hprior⟩, if_pos hsym, hsym]
  simp [hused]

theorem UlPlacement.next_zero (hsym : pl.sym = 0) (hprior : pl.priorSym = 0) (hn : numSym < 256) :
    pl.next symStart numSym = ⟨numSym, numSym, 0, true⟩ := by
  unfold UlPlacement.next
  rw [if_pos ⟨Or.inr hsym, hprior⟩, if_neg (by omega), hsym]
  simp [Nat.mod_eq_of_lt hn]

theorem UlPlacement.next_beside (hsym : pl.priorSym = symStart) (hprior : 0 < pl.priorSym) :
    pl.next symStart numSym =
      { pl with sym := if pl.operationModeFDD then pl.symUsed else (pl.symUsed + 1) % 256 } := by
  unfold UlPlacement.next
  rw [if_neg (by omega), if_pos ⟨hsym, hprior⟩]

theorem UlPlacement.next_behind (hfirst : ¬ ((pl.sym = 1 ∨ pl.sym = 0) ∧ pl.priorSym = 0))
    (hsym : pl.priorSym ≠ symStart ∨ pl.priorSym = 0) (hlt : pl.symUsed + 1 < symStart)
    (hn : pl.symUsed + numSym < 256) :
    pl.next symStart numSym =
      { pl with
        sym := if pl.operationModeFDD then pl.symUsed + numSym
          else (pl.symUsed + numSym + 1) % 256
        priorSym := if pl.operationModeFDD then pl.symUsed else (pl.symUsed + 1) % 256
        symUsed := pl.symUsed + numSym } := by
  unfold UlPlacement.next
  rw [if_neg hfirst, if_neg (by omega), if_pos hlt]
  simp [Nat.mod_eq_of_lt hn]

theorem UlPlacement.next_back (hfirst : ¬ ((pl.sym = 1 ∨ pl.sym = 0) ∧ pl.priorSym = 0))
    (hsym : pl.priorSym ≠ symStart ∨ pl.priorSym = 0) (hle : symStart ≤ pl.symUsed + 1)
    (hpos : 0 < numSym) (hn : symStart + numSym ≤ 256) :
    pl.next symStart numSym =
      { pl with
        sym := if pl.operationModeFDD then symStart + numSym - 1
          else (symStart + numSym) % 256
        priorSym := symStart
        symUsed := symStart + numSym - 1 } := by
  have hused : (symStart + numSym + 255) % 256 = symStart + numSym - 1 := by omega
  have hsucc : symStart + numSym - 1 + 1 = symStart + numSym := by omega
  unfold UlPlacement.next
  rw [if_neg hfirst, if_neg (by omega), if_neg (by omega)]
  simp [hused, hsucc]

end Branches

section Step

variable {pl : UlPlacement} {k : UlPacking} {symStart numSym p : Nat}

theorem PackMode.le_place (mode : PackMode) (free : Nat) :
    free - 1 ≤ mode.place free symStart := by
  cases mode with
  | tdd => exact Nat.sub_le _ _
  | fdd =>
    simp only [PackMode.place]
    split <;> omega
  | late =>
    simp only [PackMode.place]
    split <;> omega

/-- The first block goes to the starting point. -/
theorem Describes.first (hd : Describes pl (.first p)) (hpos : 0 < numSym)
    (hcap : p + numSym ≤ 255 + p) :
    Describes (pl.next symStart numSym) (UlPacking.after (.first p) symStart numSym) ∧
      (pl.next symStart numSym).priorSym = p := by
  obtain ⟨hsym, hle, hprior⟩ := hd
  simp only [UlPacking.after]
  by_cases hone : p = 1
  · subst hone
    rw [if_pos rfl, UlPlacement.next_one hsym hprior (by omega)]
    refine ⟨⟨rfl, by omega, rfl, ?_, Nat.one_pos⟩, rfl⟩
    exact Nat.add_comm _ _
  · have hzero : p = 0 := by omega
    subst hzero
    rw [if_neg hone, UlPlacement.next_zero hsym hprior (by omega)]
    by_cases hsingle : numSym = 1
    · rw [if_pos hsingle]
      exact ⟨⟨hsingle, le_rfl, rfl⟩, rfl⟩
    · rw [if_neg hsingle]
      exact ⟨⟨rfl, hpos, rfl, rfl, rfl, by omega⟩, rfl⟩

/-- A block beside the last ones leaves the variables as they are, except at symbol 0, where it
counts as the only one. -/
theorem Describes.beside {mode : PackMode} {free start : Nat}
    (hd : Describes pl (.blocks mode free start)) (hpos : 0 < numSym) (hn : numSym ≤ 256) :
    Describes (pl.next start numSym) (UlPacking.after (.blocks mode free start) start numSym) ∧
      (pl.next start numSym).priorSym = start := by
  obtain ⟨hprior, hlt, hvars⟩ := hd
  simp only [UlPacking.after, if_pos]
  by_cases hzero : start = 0
  · subst hzero
    have hfirst : ¬ ((pl.sym = 1 ∨ pl.sym = 0) ∧ pl.priorSym = 0) := by
      cases mode with
      | tdd => exact absurd hvars.2.2 (lt_irrefl 0)
      | fdd => omega
      | late => omega
    have hfdd : pl.operationModeFDD = true := by
      cases mode with
      | tdd => exact absurd hvars.2.2 (lt_irrefl 0)
      | fdd => exact hvars.1
      | late => exact hvars.1
    rw [if_pos rfl, UlPlacement.next_back hfirst (Or.inr hprior) (Nat.zero_le _) hpos (by omega),
      hfdd]
    refine ⟨?_, rfl⟩
    by_cases htwo : numSym ≤ 2
    · rw [if_pos htwo]
      refine ⟨?_, by omega, rfl⟩
      change 0 + numSym - 1 = numSym - 1
      omega
    · rw [if_neg htwo]
      refine ⟨rfl, hpos, rfl, ?_, ?_, by omega⟩
      · change 0 + numSym - 1 + 1 = numSym
        omega
      · change 0 + numSym - 1 + 1 = numSym
        omega
  · rw [if_neg hzero, UlPlacement.next_beside hprior (by omega)]
    refine ⟨⟨hprior, hlt, ?_⟩, hprior⟩
    cases mode with
    | tdd => exact hvars
    | fdd =>
      obtain ⟨hfdd, hused, hs, htwo⟩ := hvars
      rw [hfdd]
      exact ⟨rfl, hused, hused, htwo⟩
    | late =>
      obtain ⟨hfdd, hused, hs, hthree⟩ := hvars
      rw [hfdd]
      exact ⟨rfl, hused, hused, hthree⟩

/-- A block that does not start in front of the next free symbol starts a new group. -/
theorem Describes.append {mode : PackMode} {free start : Nat}
    (hd : Describes pl (.blocks mode free start)) (hge : free ≤ symStart) (hpos : 0 < numSym)
    (hcap : UlPacking.point (.blocks mode free start) + numSym ≤
      UlPacking.cap (.blocks mode free start)) :
    Describes (pl.next symStart numSym) (.blocks (mode.next free symStart)
        (mode.place free symStart + numSym) (mode.place free symStart)) ∧
      (pl.next symStart numSym).priorSym = mode.place free symStart := by
  obtain ⟨hprior, hlt, hvars⟩ := hd
  cases mode with
  | tdd =>
    obtain ⟨hfdd, hused, hpos'⟩ := hvars
    simp only [UlPacking.point, UlPacking.cap] at hcap
    simp only [PackMode.next, PackMode.place]
    by_cases hbehind : pl.symUsed + 1 < symStart
    · rw [UlPlacement.next_behind (by omega) (by omega) hbehind (by omega), hfdd]
      have hmod : (pl.symUsed + 1) % 256 = free := by omega
      refine ⟨⟨hmod, by omega, rfl, ?_, by omega⟩, hmod⟩
      change pl.symUsed + numSym + 1 = _
      omega
    · rw [UlPlacement.next_back (by omega) (by omega) (by omega) hpos (by omega), hfdd]
      have heq : symStart = free := by omega
      refine ⟨⟨heq, by omega, rfl, ?_, by omega⟩, heq⟩
      change symStart + numSym - 1 + 1 = _
      omega
  | fdd =>
    obtain ⟨hfdd, hused, hsym, htwo⟩ := hvars
    simp only [UlPacking.point, UlPacking.cap] at hcap
    simp only [PackMode.next, PackMode.place]
    by_cases hbehind : symStart ≤ free + 1
    · rw [if_pos hbehind, UlPlacement.next_back (by omega) (by omega) (by omega) hpos (by omega),
        hfdd]
      have hplace : symStart = if symStart = free + 1 then free + 1 else free := by
        split <;> omega
      rw [← hplace]
      refine ⟨⟨rfl, by omega, rfl, ?_, ?_, by omega⟩, rfl⟩
      · change symStart + numSym - 1 + 1 = _
        omega
      · change symStart + numSym - 1 + 1 = _
        omega
    · rw [if_neg hbehind, if_neg (by omega),
        UlPlacement.next_behind (by omega) (by omega) (by omega) (by omega), hfdd]
      refine ⟨⟨hused, by omega, rfl, ?_, ?_, by omega⟩, hused⟩
      · change pl.symUsed + numSym = _
        omega
      · change pl.symUsed + numSym = _
        omega
  | late =>
    obtain ⟨hfdd, hused, hsym, hthree⟩ := hvars
    simp only [UlPacking.point, UlPacking.cap] at hcap
    simp only [PackMode.next, PackMode.place]
    by_cases hat : symStart = free
    · rw [if_pos hat, if_pos hat,
        UlPlacement.next_back (by omega) (by omega) (by omega) hpos (by omega), hfdd]
      refine ⟨⟨hat, by omega, rfl, ?_, ?_, by omega⟩, hat⟩
      · change symStart + numSym - 1 + 1 = _
        omega
      · change symStart + numSym - 1 + 1 = _
        omega
    · rw [if_neg hat, if_neg hat,
        UlPlacement.next_behind (by omega) (by omega) (by omega) (by omega), hfdd]
      have hplace : pl.symUsed = free - 1 := by omega
      refine ⟨⟨hplace, by omega, rfl, ?_, ?_, by omega⟩, hplace⟩
      · change pl.symUsed + numSym = _
        omega
      · change pl.symUsed + numSym = _
        omega

/-- One block that does not go back: it is put where the loop says, and the variables still say
where the loop is. -/
theorem Describes.next (hd : Describes pl k) (hplace : k.place symStart = some p)
    (hpos : 0 < numSym) (hcap : k.point + numSym ≤ k.cap) :
    Describes (pl.next symStart numSym) (k.after symStart numSym) ∧
      (pl.next symStart numSym).priorSym = p := by
  cases k with
  | first sym =>
    obtain rfl := Option.some.inj hplace
    exact hd.first hpos hcap
  | blocks mode free start =>
    simp only [UlPacking.place] at hplace
    split at hplace
    case isTrue heq =>
      obtain rfl := Option.some.inj hplace
      obtain rfl := heq
      refine hd.beside hpos ?_
      have : UlPacking.cap (.blocks mode free symStart) ≤ 256 := by
        cases mode <;> simp [UlPacking.cap]
      omega
    case isFalse hne =>
      split at hplace
      case isFalse => cases hplace
      case isTrue hge =>
        obtain rfl := Option.some.inj hplace
        simp only [UlPacking.after, if_neg hne]
        exact hd.append hge hpos hcap

/-- Blocks that do not go back are put at later and later symbols. -/
theorem Describes.base_le (hd : Describes pl k) (hplace : k.place symStart = some p) :
    k.base ≤ p := by
  cases k with
  | first sym => exact (Option.some.inj hplace).le
  | blocks mode free start =>
    simp only [UlPacking.place] at hplace
    split at hplace
    case isTrue => exact (Option.some.inj hplace).le
    case isFalse hne =>
      split at hplace
      case isFalse => cases hplace
      case isTrue hge =>
        obtain rfl := Option.some.inj hplace
        have hle : free - 1 ≤ mode.place free symStart := mode.le_place free
        have hlt : start < free := hd.2.1
        change start ≤ _
        omega

theorem Describes.le_base_after (hd : Describes pl k)
    (hplace : k.place symStart = some p) : p ≤ (k.after symStart numSym).base := by
  cases k with
  | first sym =>
    obtain rfl := Option.some.inj hplace
    have hsym : sym ≤ 1 := hd.2.1
    simp only [UlPacking.after]
    split
    · exact hsym
    · have hzero : sym = 0 := by omega
      rw [hzero]
      exact Nat.zero_le _
  | blocks mode free start =>
    simp only [UlPacking.place, UlPacking.after] at hplace ⊢
    split at hplace
    case isTrue heq =>
      obtain rfl := Option.some.inj hplace
      rw [if_pos heq]
      split
      case isTrue hzero =>
        rw [hzero]
        exact Nat.zero_le _
      case isFalse => exact le_rfl
    case isFalse hne =>
      split at hplace
      case isFalse => cases hplace
      case isTrue =>
        obtain rfl := Option.some.inj hplace
        rw [if_neg hne]
        exact le_rfl

/-- The starting point moves on by the symbols of the block at most. -/
theorem Describes.point_after_le (hd : Describes pl k) (hpos : 0 < numSym)
    (hplace : (k.place symStart).isSome) :
    (k.after symStart numSym).point ≤ k.point + numSym := by
  cases k with
  | first sym =>
    have hsym : sym ≤ 1 := hd.2.1
    simp only [UlPacking.after]
    split
    case isTrue hone =>
      change 1 + numSym ≤ sym + numSym
      omega
    case isFalse =>
      split
      case isTrue h =>
        change 1 ≤ sym + numSym
        omega
      case isFalse => exact Nat.le_add_left _ _
  | blocks mode free start =>
    simp only [UlPacking.after]
    split
    case isTrue heq =>
      split
      case isTrue hzero =>
        split
        case isTrue =>
          change numSym - 1 ≤ _
          omega
        case isFalse =>
          change numSym - 1 ≤ _
          omega
      case isFalse => exact Nat.le_add_right _ _
    case isFalse hne =>
      simp only [UlPacking.place, if_neg hne] at hplace
      split at hplace
      case isFalse => cases hplace
      case isTrue hge =>
        cases mode with
        | tdd => exact le_rfl
        | fdd =>
          simp only [PackMode.next, PackMode.place]
          by_cases hbehind : symStart ≤ free + 1
          · rw [if_pos hbehind]
            change _ - 1 ≤ free + numSym
            split <;> omega
          · rw [if_neg hbehind, if_neg (by omega)]
            exact le_rfl
        | late =>
          simp only [PackMode.next, PackMode.place]
          by_cases hat : symStart = free
          · rw [if_pos hat, if_pos hat]
            change free + numSym - 1 ≤ free - 1 + numSym
            omega
          · rw [if_neg hat, if_neg hat]
            exact le_rfl

theorem Describes.cap_le_after (hd : Describes pl k) :
    k.cap ≤ (k.after symStart numSym).cap := by
  cases k with
  | first sym =>
    have hsym : sym ≤ 1 := hd.2.1
    simp only [UlPacking.after]
    split
    case isTrue hone =>
      rw [hone]
      exact le_rfl
    case isFalse hne =>
      have hzero : sym = 0 := by omega
      subst hzero
      split
      · exact Nat.le_succ _
      · exact le_rfl
  | blocks mode free start =>
    cases mode with
    | tdd =>
      have hpos : 0 < start := hd.2.2.2.2
      simp only [UlPacking.after, PackMode.next, if_neg hpos.ne']
      split <;> exact le_rfl
    | fdd => exact UlPacking.le_cap _
    | late => exact UlPacking.le_cap _

end Step

theorem sum_fitting_le (avail : Nat) (xs : List Retx) :
    ((fitting avail xs).map fun x => x.2.numSym).sum ≤ avail := by
  induction xs generalizing avail with
  | nil => exact Nat.zero_le _
  | cons x xs ih =>
    rw [fitting]
    split
    · have := ih (avail - x.2.numSym)
      rw [List.map_cons, List.sum_cons]
      omega
    · exact ih avail

/-- From symbol 2 on the first block is placed in front of the starting point. -/
theorem UlPlacement.next_lt {sym : Nat} (hsym : 2 ≤ sym) (symStart numSym : Nat) :
    (UlPlacement.next { sym := sym } symStart numSym).priorSym ≤ 1 := by
  unfold UlPlacement.next
  simp only
  rw [if_neg (by omega), if_neg (by omega)]
  split
  · exact le_rfl
  · simp only
    omega

/-! ## Blocks that do not go back -/

/-- The block of a DCI when it is put at `start`. -/
def DciInfoElementTdma.blockAt (d : DciInfoElementTdma) (start : Nat) : Block :=
  ⟨start, d.numSym, maskRows d.rbgBitmask⟩

/-- No block of the list goes back to the symbol of its old slot. -/
def Forward : UlPacking → List DciInfoElementTdma → Prop
  | _, [] => True
  | k, d :: ds => (k.place d.symStart).isSome ∧ Forward (k.after d.symStart d.numSym) ds

/-- No block of the list goes back, each ends before the symbol `hi`, and each has other RBGs
than the blocks that still occupy its first symbol. -/
def Orderly (hi : Nat) : UlPacking → List Block → List DciInfoElementTdma → Prop
  | _, _, [] => True
  | k, bs, d :: ds => ∃ p, k.place d.symStart = some p ∧ p + d.numSym ≤ hi ∧
      (∀ b ∈ bs, b.start + b.len ≤ p ∨ Disjoint (maskRows d.rbgBitmask) b.rows) ∧
      Orderly hi (k.after d.symStart d.numSym) (DciInfoElementTdma.blockAt d p :: bs) ds

theorem Orderly.forward {hi : Nat} {k : UlPacking} {bs : List Block}
    {ds : List DciInfoElementTdma} (h : Orderly hi k bs ds) : Forward k ds := by
  induction ds generalizing k bs with
  | nil => trivial
  | cons d ds ih =>
    obtain ⟨p, hplace, -, -, hrest⟩ := h
    exact ⟨Option.isSome_of_eq_some hplace, ih hrest⟩

/-- The blocks placed so far start from `lo` on and not behind the place for the next one. -/
structure Behind (lo : Nat) (k : UlPacking) (bs : List Block) : Prop where
  base : lo ≤ k.base
  start : ∀ b ∈ bs, lo ≤ b.start ∧ b.start ≤ k.base

section Order

variable {pl : UlPlacement} {k : UlPacking} {lo hi p : Nat} {bs : List Block}

theorem Behind.nil (sym : Nat) : Behind sym (.first sym) [] :=
  ⟨le_rfl, fun _ hb => absurd hb (List.not_mem_nil)⟩

theorem Behind.next (h : Behind lo k bs) (hd : Describes pl k) {d : DciInfoElementTdma}
    (hplace : k.place d.symStart = some p) :
    Behind lo (k.after d.symStart d.numSym) (DciInfoElementTdma.blockAt d p :: bs) := by
  have hbase := hd.base_le hplace
  have hafter : p ≤ (k.after d.symStart d.numSym).base := hd.le_base_after hplace
  refine ⟨h.base.trans (hbase.trans hafter), ?_⟩
  intro b hb
  rcases List.mem_cons.mp hb with rfl | hb
  · exact ⟨h.base.trans hbase, hafter⟩
  · obtain ⟨hlo, hle⟩ := h.start b hb
    exact ⟨hlo, hle.trans (hbase.trans hafter)⟩

/-- A block that does not go back is apart from the others if no block with an RBG of it still
occupies its first symbol. -/
theorem Behind.packed_cons_iff (h : Behind lo k bs) (hd : Describes pl k)
    {d : DciInfoElementTdma} (hplace : k.place d.symStart = some p) (hpos : 0 < d.numSym) :
    Packed lo hi (DciInfoElementTdma.blockAt d p :: bs) ↔ Packed lo hi bs ∧ p + d.numSym ≤ hi ∧
      ∀ b ∈ bs, b.start + b.len ≤ p ∨ Disjoint (maskRows d.rbgBitmask) b.rows := by
  have hbase := hd.base_le hplace
  rw [Packed.cons_iff]
  refine and_congr_right fun _ => ?_
  have hcells : (∀ b ∈ bs, Disjoint (DciInfoElementTdma.blockAt d p).cells b.cells) ↔
      ∀ b ∈ bs, b.start + b.len ≤ p ∨ Disjoint (maskRows d.rbgBitmask) b.rows := by
    refine forall₂_congr fun b hb => ?_
    exact Block.disjoint_iff (a := DciInfoElementTdma.blockAt d p) ((h.start b hb).2.trans hbase)
      hpos
  rw [hcells]
  exact and_iff_right (h.base.trans hbase)

/-- The blocks of a list that do not go back are placed well exactly when the list is orderly. -/
theorem packed_placements_iff {xs : List Retx} (hd : Describes pl k) (hb : Behind lo k bs)
    (hpos : ∀ x ∈ xs, 0 < x.2.numSym)
    (hcap : k.point + (xs.map fun x => x.2.numSym).sum ≤ k.cap)
    (hforward : Forward k (xs.map Prod.snd)) :
    Packed lo hi ((placements pl xs).reverse.map allocBlock ++ bs) ↔
      Packed lo hi bs ∧ Orderly hi k bs (xs.map Prod.snd) := by
  induction xs generalizing pl k bs with
  | nil => exact (and_iff_left trivial).symm
  | cons x xs ih =>
    rw [List.map_cons, List.sum_cons] at hcap
    obtain ⟨hsome, hrest⟩ := hforward
    obtain ⟨p, hplace⟩ := Option.isSome_iff_exists.mp hsome
    have hx := hpos x List.mem_cons_self
    obtain ⟨hd', hprior⟩ := hd.next hplace hx (by omega)
    have hpoint := hd.point_after_le hx hsome
    have hcap' : k.cap ≤ (k.after x.2.symStart x.2.numSym).cap := hd.cap_le_after
    have htail := ih hd' (hb.next hd hplace) (fun y hy => hpos y (List.mem_cons_of_mem _ hy))
      (by omega) hrest
    have hcons : Packed lo hi (DciInfoElementTdma.blockAt x.2 p :: bs) ↔ _ :=
      hb.packed_cons_iff hd hplace hx
    rw [placements_cons, List.reverse_append, List.map_append, List.append_assoc]
    change Packed lo hi (_ ++
      DciInfoElementTdma.blockAt x.2 (pl.next x.2.symStart x.2.numSym).priorSym :: bs) ↔ _
    rw [hprior, htail, hcons]
    constructor
    · rintro ⟨⟨hbs, hend, hrows⟩, horder⟩
      exact ⟨hbs, p, hplace, hend, hrows, horder⟩
    · rintro ⟨hbs, q, hq, hend, hrows, horder⟩
      obtain rfl := Option.some.inj (hplace.symm.trans hq)
      exact ⟨⟨hbs, hend, hrows⟩, horder⟩

end Order

/-- When all blocks have an RBG in common, a block that goes back collides. -/
theorem forward_of_packed {pl : UlPlacement} {free start row hi : Nat} {bs : List Block}
    {xs : List Retx} (hd : Describes pl (.blocks .tdd free start))
    (hcover : ∀ t, 1 ≤ t → t < free → ∃ b ∈ bs, (t, row) ∈ b.cells)
    (hrow : ∀ x ∈ xs, row ∈ maskRows x.2.rbgBitmask) (hpos : ∀ x ∈ xs, 0 < x.2.numSym)
    (hsum : free + (xs.map fun x => x.2.numSym).sum ≤ 256)
    (hpacked : Packed 1 hi ((placements pl xs).reverse.map allocBlock ++ bs)) :
    Forward (.blocks .tdd free start) (xs.map Prod.snd) := by
  induction xs generalizing pl free start bs with
  | nil => trivial
  | cons x xs ih =>
    rw [List.map_cons, List.sum_cons] at hsum
    rw [placements_cons, List.reverse_append, List.map_append, List.append_assoc] at hpacked
    have hnew := hpacked.of_append_right
    have hx := hpos x List.mem_cons_self
    have hxrow := hrow x List.mem_cons_self
    have hpos' : 0 < start := hd.2.2.2.2
    have hlt : start < free := hd.2.1
    by_cases hge : free ≤ x.2.symStart
    · have hne : x.2.symStart ≠ start := by omega
      obtain ⟨hd', hprior⟩ := hd.append hge hx (show free + x.2.numSym ≤ 256 by omega)
      refine ⟨?_, ?_⟩
      · simp only [UlPacking.place, if_neg hne, if_pos hge, Option.isSome_some]
      · simp only [UlPacking.after, if_neg hne]
        refine ih hd' ?_ (fun y hy => hrow y (List.mem_cons_of_mem _ hy))
          (fun y hy => hpos y (List.mem_cons_of_mem _ hy)) ?_ hpacked
        · intro t ht htlt
          change t < free + x.2.numSym at htlt
          by_cases hold : t < free
          · obtain ⟨b, hb, hcell⟩ := hcover t ht hold
            exact ⟨b, List.mem_cons_of_mem _ hb, hcell⟩
          · refine ⟨_, List.mem_cons_self, ?_, hxrow⟩
            change (pl.next x.2.symStart x.2.numSym).priorSym ≤ t ∧
              t < (pl.next x.2.symStart x.2.numSym).priorSym + x.2.numSym
            rw [hprior]
            change free ≤ t ∧ t < free + x.2.numSym
            omega
        · change free + x.2.numSym + _ ≤ 256
          omega
    · -- the block goes to a symbol that is covered
      exfalso
      have hback : (pl.next x.2.symStart x.2.numSym).priorSym = x.2.symStart := by
        obtain ⟨hprior, -, -, hused, -⟩ := hd
        by_cases heq : pl.priorSym = x.2.symStart
        · rw [UlPlacement.next_beside heq (by omega)]
          exact heq
        · rw [UlPlacement.next_back (by omega) (Or.inl heq) (by omega) hx (by omega)]
      have hcell : (x.2.symStart, row) ∈
          (DciInfoElementTdma.blockAt x.2 (pl.next x.2.symStart x.2.numSym).priorSym).cells := by
        refine ⟨?_, hxrow⟩
        change (pl.next x.2.symStart x.2.numSym).priorSym ≤ x.2.symStart ∧
          x.2.symStart < (pl.next x.2.symStart x.2.numSym).priorSym + x.2.numSym
        omega
      have hone := (hnew.within _ List.mem_cons_self).1
      change 1 ≤ (pl.next x.2.symStart x.2.numSym).priorSym at hone
      obtain ⟨b, hb, hcell'⟩ := hcover x.2.symStart (hback ▸ hone) (by omega)
      exact Block.not_disjoint hcell hcell' ((List.pairwise_cons.mp hnew.disjoint).1 b hb)

/-! ## Rounds -/

/-- The lists for which the loop does what it should: a symbol is left at every feedback, the
blocks that fit are for different UEs, and from symbol 0 or 1 on they go to later and later
symbols without meeting each other. -/
structure RoundCondition (sym symAvail : Nat) (xs : List Retx) : Prop where
  lasts : Lasts symAvail xs
  once : ((fitting symAvail xs).map fun x => x.1.rnti).Nodup
  orderly : fitting symAvail xs = [] ∨ sym ≤ 1 ∧
    Orderly (sym + symAvail) (.first sym) [] ((fitting symAvail xs).map Prod.snd)

/-- The variables before the first feedback. -/
def UlHarqRound.start (sym symAvail : Nat) (m : HarqMap) : UlHarqRound :=
  { symAvail := symAvail, place := { sym := sym }, ulHarq := m }

section Rounds

variable {m : HarqMap} {sym symAvail : Nat} {xs : List Retx} {r : UlHarqRound}

theorem kept_iff_lasts (hpos : ∀ x ∈ xs, 0 < x.2.numSym)
    (hrnti : ∀ x ∈ xs, x.2.rnti = x.1.rnti) (hnd : (xs.map fun x => HarqInfo.key x.1).Nodup)
    (halloc : r.varTtiAllocInfo = (placements { sym := sym } (fitting symAvail xs)).reverse)
    (hbuf : r.ulHarqToRetransmit = (waiting symAvail xs).map Prod.fst) :
    (∀ fb ∈ xs.map Prod.fst, (∃ alloc ∈ r.varTtiAllocInfo, allocKey alloc = HarqInfo.key fb) ∨
      fb ∈ r.ulHarqToRetransmit) ↔ Lasts symAvail xs := by
  rw [lasts_iff hpos hnd]
  -- a feedback is determined by its process
  have hinj : ∀ x ∈ xs, ∀ y ∈ xs, HarqInfo.key x.1 = HarqInfo.key y.1 → x = y :=
    fun x hx y hy => List.inj_on_of_nodup_map hnd hx hy
  have hkey : ∀ fb : UlHarqInfo, (∃ alloc ∈ r.varTtiAllocInfo, allocKey alloc = HarqInfo.key fb) ↔
      ∃ y ∈ fitting symAvail xs, HarqInfo.key y.1 = HarqInfo.key fb := by
    intro fb
    have hmap := placements_map_key { sym := sym } (fitting symAvail xs)
      fun x hx => hrnti x (mem_of_mem_fitting hx)
    rw [halloc]
    simp only [List.mem_reverse]
    rw [← List.mem_map, hmap, List.mem_map]
  constructor
  · intro h x hx
    rcases h x.1 (List.mem_map.mpr ⟨x, hx, rfl⟩) with h | h
    · obtain ⟨y, hy, heq⟩ := (hkey x.1).mp h
      exact Or.inl (hinj y (mem_of_mem_fitting hy) x hx heq ▸ hy)
    · rw [hbuf] at h
      obtain ⟨y, hy, heq⟩ := List.mem_map.mp h
      exact Or.inr (hinj y (mem_of_mem_waiting hy) x hx (congrArg HarqInfo.key heq) ▸ hy)
  · intro h fb hfb
    obtain ⟨x, hx, rfl⟩ := List.mem_map.mp hfb
    rcases h x hx with h | h
    · exact Or.inl ((hkey x.1).mpr ⟨x, h, rfl⟩)
    · rw [hbuf]
      exact Or.inr (List.mem_map.mpr ⟨x, h, rfl⟩)

theorem once_iff (hrnti : ∀ x ∈ xs, x.2.rnti = x.1.rnti)
    (halloc : r.varTtiAllocInfo = (placements { sym := sym } (fitting symAvail xs)).reverse) :
    (r.varTtiAllocInfo.map fun alloc => alloc.dci.rnti).Nodup ↔
      ((fitting symAvail xs).map fun x => x.1.rnti).Nodup := by
  have hmap := placements_map_key { sym := sym } (fitting symAvail xs)
    fun x hx => hrnti x (mem_of_mem_fitting hx)
  have hfst : (placements { sym := sym } (fitting symAvail xs)).map (fun alloc => alloc.dci.rnti) =
      (fitting symAvail xs).map fun x => x.1.rnti := by
    have := congrArg (List.map Prod.fst) hmap
    rw [List.map_map, List.map_map] at this
    exact this
  rw [halloc, List.map_reverse, hfst, List.nodup_reverse]

/-- The first block is in the available symbols only from symbol 0 or 1 on. -/
theorem le_one_of_packed
    (h : Packed sym (sym + symAvail)
      ((placements { sym := sym } (fitting symAvail xs)).reverse.map allocBlock)) :
    fitting symAvail xs = [] ∨ sym ≤ 1 := by
  cases hfit : fitting symAvail xs with
  | nil => exact Or.inl rfl
  | cons y ys =>
    rw [hfit, placements_cons, List.reverse_append, List.map_append] at h
    have hfirst := (h.of_append_right.within _ List.mem_cons_self).1
    change sym ≤ (UlPlacement.next { sym := sym } y.2.symStart y.2.numSym).priorSym at hfirst
    refine Or.inr ?_
    by_contra hlt
    have := UlPlacement.next_lt (show 2 ≤ sym by omega) y.2.symStart y.2.numSym
    omega

/-- The blocks that fit are placed well if and only if they are orderly, unless one goes back. -/
theorem packed_iff_orderly (havail : symAvail < 256) (hpos : ∀ x ∈ xs, 0 < x.2.numSym)
    (hforward : Forward (.first sym) ((fitting symAvail xs).map Prod.snd)) :
    Packed sym (sym + symAvail)
        ((placements { sym := sym } (fitting symAvail xs)).reverse.map allocBlock) ↔
      fitting symAvail xs = [] ∨ sym ≤ 1 ∧
        Orderly (sym + symAvail) (.first sym) [] ((fitting symAvail xs).map Prod.snd) := by
  have hsum := sum_fitting_le symAvail xs
  by_cases hle : sym ≤ 1
  · have hd : Describes { sym := sym } (.first sym) := ⟨rfl, hle, rfl⟩
    have hiff : Packed sym (sym + symAvail)
        ((placements { sym := sym } (fitting symAvail xs)).reverse.map allocBlock ++ []) ↔ _ :=
      packed_placements_iff hd (Behind.nil sym)
      (fun x hx => hpos x (mem_of_mem_fitting hx))
      (show sym + _ ≤ 255 + sym by omega) hforward
    rw [List.append_nil] at hiff
    rw [hiff]
    constructor
    · rintro ⟨-, h⟩
      exact Or.inr ⟨hle, h⟩
    · rintro (h | ⟨-, h⟩)
      · rw [h]
        exact ⟨Packed.nil, trivial⟩
      · exact ⟨Packed.nil, h⟩
  · constructor
    · intro h
      exact Or.inl ((le_one_of_packed h).resolve_right hle)
    · rintro (h | ⟨h, -⟩)
      · rw [h]
        exact Packed.nil
      · exact absurd h hle

theorem packed_of_orderly (havail : symAvail < 256) (hpos : ∀ x ∈ xs, 0 < x.2.numSym)
    (h : fitting symAvail xs = [] ∨ sym ≤ 1 ∧
      Orderly (sym + symAvail) (.first sym) [] ((fitting symAvail xs).map Prod.snd)) :
    Packed sym (sym + symAvail)
      ((placements { sym := sym } (fitting symAvail xs)).reverse.map allocBlock) := by
  refine (packed_iff_orderly havail hpos ?_).mpr h
  rcases h with h | ⟨-, h⟩
  · rw [h]
    trivial
  · exact h.forward

theorem forward_of_row (havail : symAvail < 256) (hpos : ∀ x ∈ xs, 0 < x.2.numSym)
    (hsym : sym ≠ 0) {row : Nat} (hrow : ∀ x ∈ fitting symAvail xs, row ∈ maskRows x.2.rbgBitmask)
    (h : Packed sym (sym + symAvail)
      ((placements { sym := sym } (fitting symAvail xs)).reverse.map allocBlock)) :
    Forward (.first sym) ((fitting symAvail xs).map Prod.snd) := by
  have hsum := sum_fitting_le symAvail xs
  have hle := le_one_of_packed h
  have hpos' : ∀ x ∈ fitting symAvail xs, 0 < x.2.numSym :=
    fun x hx => hpos x (mem_of_mem_fitting hx)
  generalize fitting symAvail xs = ys at hrow h hsum hpos' hle ⊢
  cases ys with
  | nil => trivial
  | cons y ys =>
    rw [placements_cons, List.reverse_append, List.map_append] at h
    rw [List.map_cons, List.sum_cons] at hsum
    obtain rfl : sym = 1 := by
      have := hle.resolve_left (List.cons_ne_nil _ _)
      omega
    have hy := hpos' y List.mem_cons_self
    have hd : Describes { sym := 1 } (.first 1) := ⟨rfl, le_rfl, rfl⟩
    obtain ⟨hd', hprior⟩ : Describes (UlPlacement.next { sym := 1 } y.2.symStart y.2.numSym)
        (UlPacking.after (.first 1) y.2.symStart y.2.numSym) ∧ _ := hd.first hy (by omega)
    refine ⟨rfl, ?_⟩
    refine forward_of_packed hd' ?_ (fun x hx => hrow x (List.mem_cons_of_mem _ hx))
      (fun x hx => hpos' x (List.mem_cons_of_mem _ hx)) (by omega) h
    intro t ht htlt
    refine ⟨_, List.mem_cons_self, ?_, hrow y List.mem_cons_self⟩
    change (UlPlacement.next { sym := 1 } y.2.symStart y.2.numSym).priorSym ≤ t ∧
      t < (UlPlacement.next { sym := 1 } y.2.symStart y.2.numSym).priorSym + y.2.numSym
    rw [hprior]
    exact ⟨ht, htlt⟩

/-- A round over NACKs of different processes. It is sound under `RoundCondition`. When it is
sound, then the symbols lasted, the UEs were different and the round started at symbol 0 or 1 if
anything fitted. If no block goes back, or the round does not start at symbol 0 and the masks have
an RBG in common, it is sound only under `RoundCondition`. -/
theorem scheduleUlHarq_sound (sym : Nat) (havail : symAvail < 256) (hpos : ∀ x ∈ xs, 0 < x.2.numSym)
    (hrnti : ∀ x ∈ xs, x.2.rnti = x.1.rnti) (hnack : ∀ x ∈ xs, Nacked m x)
    (hnd : (xs.map fun x => HarqInfo.key x.1).Nodup) :
    ∃ r, (UlHarqRound.start sym symAvail m).run (xs.map Prod.fst) = .ok r ∧
      (RoundCondition sym symAvail xs → SoundRound sym symAvail (xs.map Prod.fst) r) ∧
      (SoundRound sym symAvail (xs.map Prod.fst) r →
        Lasts symAvail xs ∧ ((fitting symAvail xs).map fun x => x.1.rnti).Nodup ∧
          (fitting symAvail xs = [] ∨ sym ≤ 1)) ∧
      (Forward (.first sym) ((fitting symAvail xs).map Prod.snd) ∨
          sym ≠ 0 ∧ (∃ row, ∀ x ∈ xs, row ∈ maskRows x.2.rbgBitmask) →
        (SoundRound sym symAvail (xs.map Prod.fst) r ↔ RoundCondition sym symAvail xs)) := by
  obtain ⟨r, hr, halloc, hbuf, -⟩ :=
    UlHarqRound.run_eq xs (r := .start sym symAvail m) hpos hnack hnd
  replace halloc := halloc.trans (List.append_nil _)
  have hkept := kept_iff_lasts hpos hrnti hnd halloc hbuf
  have honce := once_iff hrnti halloc
  have hsound : RoundCondition sym symAvail xs → SoundRound sym symAvail (xs.map Prod.fst) r := by
    intro h
    refine ⟨hkept.mpr h.lasts, ?_, honce.mpr h.once⟩
    rw [halloc]
    exact packed_of_orderly havail hpos h.orderly
  have hpacked : SoundRound sym symAvail (xs.map Prod.fst) r → Packed sym (sym + symAvail)
      ((placements { sym := sym } (fitting symAvail xs)).reverse.map allocBlock) := by
    intro h
    have := h.packed
    rwa [halloc] at this
  refine ⟨r, hr, hsound, ?_, ?_⟩
  · intro h
    exact ⟨hkept.mp h.kept, honce.mp h.once, le_one_of_packed (hpacked h)⟩
  · intro hcase
    refine ⟨fun h => ?_, hsound⟩
    have hforward : Forward (.first sym) ((fitting symAvail xs).map Prod.snd) := by
      rcases hcase with hforward | ⟨hsym, row, hrow⟩
      · exact hforward
      · exact forward_of_row havail hpos hsym (fun x hx => hrow x (mem_of_mem_fitting hx))
          (hpacked h)
    exact ⟨hkept.mp h.kept, honce.mp h.once,
      (packed_iff_orderly havail hpos hforward).mp (hpacked h)⟩

end Rounds

/-- The first process of a UE after a NACK for a block at `symStart`. -/
def nackedVector (rnti symStart numSym : Nat) : HarqVector :=
  { maxSize := 1
    usedSize := 1
    order := [0]
    procs := [{ active := true
                status := .RECEIVED_FEEDBACK
                dciElement := some { rnti := rnti, format := .UL, symStart := symStart,
                                     numSym := numSym, rv := [0], type := .DATA,
                                     rbgBitmask := [1] } }] }

/-- A NACK for the first process of the UE, with the DCI of `nackedVector`. -/
def nackedRetx (rnti symStart numSym : Nat) : Retx :=
  (⟨rnti, 0, .NotOk⟩, { rnti := rnti, format := .UL, symStart := symStart, numSym := numSym,
                        rv := [0], type := .DATA, rbgBitmask := [1] })

/-- Two UEs with a NACK each, for two symbols and for one symbol. -/
def twoNacked : HarqMap := fun rnti =>
  if rnti = 1 then some (nackedVector 1 1 2) else if rnti = 2 then some (nackedVector 2 3 1)
  else none

theorem nacked_twoNacked : ∀ x ∈ [nackedRetx 1 1 2, nackedRetx 2 3 1], Nacked twoNacked x := by
  intro x hx
  rcases List.mem_cons.mp hx with rfl | hx
  · exact ⟨rfl, _, ⟨_, rfl, rfl⟩, rfl, rfl⟩
  · obtain rfl := List.mem_singleton.mp hx
    exact ⟨rfl, _, ⟨_, rfl, rfl⟩, rfl, rfl⟩

/-- With three symbols from symbol 1 both blocks are repeated. -/
theorem scheduleUlHarq_sound_twoNacked :
    RoundCondition 1 3 [nackedRetx 1 1 2, nackedRetx 2 3 1] ∧
      ∃ r, (UlHarqRound.start 1 3 twoNacked).run [⟨1, 0, .NotOk⟩, ⟨2, 0, .NotOk⟩] = .ok r ∧
        SoundRound 1 3 [⟨1, 0, .NotOk⟩, ⟨2, 0, .NotOk⟩] r := by
  have hcond : RoundCondition 1 3 [nackedRetx 1 1 2, nackedRetx 2 3 1] := by
    refine ⟨⟨by decide, by decide, trivial⟩, by decide, Or.inr ⟨le_rfl, 1, rfl, by decide, ?_⟩⟩
    refine ⟨by simp, 3, rfl, by decide, ?_, trivial⟩
    intro b hb
    obtain rfl := List.mem_singleton.mp hb
    exact Or.inl le_rfl
  refine ⟨hcond, ?_⟩
  obtain ⟨r, hr, hsound, -, -⟩ := scheduleUlHarq_sound 1 (show 3 < 256 by decide)
    (by decide) (by decide) nacked_twoNacked (by decide)
  exact ⟨r, hr, hsound hcond⟩

/-- With two symbols the first block uses them up and the second feedback is lost: it is
neither repeated nor buffered. -/
theorem scheduleUlHarq_loses_feedback :
    (∀ x ∈ [nackedRetx 1 1 2, nackedRetx 2 3 1], Nacked twoNacked x) ∧
      ∃ r, (UlHarqRound.start 1 2 twoNacked).run [⟨1, 0, .NotOk⟩, ⟨2, 0, .NotOk⟩] = .ok r ∧
        ¬ SoundRound 1 2 [⟨1, 0, .NotOk⟩, ⟨2, 0, .NotOk⟩] r := by
  refine ⟨nacked_twoNacked, _, rfl, ?_⟩
  intro h
  rcases h.kept ⟨2, 0, .NotOk⟩ (List.mem_cons_of_mem _ List.mem_cons_self) with h | h
  · obtain ⟨alloc, hmem, hkey⟩ := h
    obtain rfl := List.mem_singleton.mp hmem
    exact absurd hkey (by decide)
  · cases h

end Ns3.Nr.Sched
