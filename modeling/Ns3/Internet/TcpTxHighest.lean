import Ns3.Lib.CachedTop
import Ns3.Internet.TcpTxCopy

/-!
# The highest sacked item

`m_highestSack` against `FindHighestSacked`, which walks over the list. `Update` moves the cached
pair to an item that it sacks unless that item ends below the cached number, as the cache of a
highest span is moved.
-/

namespace Ns3.Internet

open Ns3.Network SequenceNumber32 Lib

/-- The loop of `FindHighestSacked`. -/
def findHighest : SequenceNumber32 → List TcpTxItem → Option ℕ × SequenceNumber32 →
    Option ℕ × SequenceNumber32
  | _, [], ret => ret
  | beginOfCurrent, item :: rest, ret =>
    findHighest (plus beginOfCurrent item.size) rest
      (if item.m_sacked then (some item.address, beginOfCurrent) else ret)

/-- The sacked items, each from the offset where it starts to the one where it ends. -/
def sackedSpans : ℕ → List TcpTxItem → List (ℕ × ℕ)
  | _, [] => []
  | o, item :: rest =>
    if item.m_sacked then (o, o + item.size) :: sackedSpans (o + item.size) rest
    else sackedSpans (o + item.size) rest

namespace TcpTxBuffer

def findHighestSacked (b : TcpTxBuffer) : Option ℕ × SequenceNumber32 :=
  findHighest b.m_firstByteSeq b.m_sentList (none, ⟨0⟩)

end TcpTxBuffer

section

variable {block : SequenceNumber32 × SequenceNumber32} {first : SequenceNumber32}

/-- The items that a block newly sacks. -/
def newSpans (block : SequenceNumber32 × SequenceNumber32) (first : SequenceNumber32) :
    ℕ → List TcpTxItem → List (ℕ × ℕ)
  | _, [] => []
  | o, item :: rest =>
    if (plus first o).ge block.1 = true ∧ (plus first (o + item.size)).le block.2 = true then
      if item.m_sacked then newSpans block first (o + item.size) rest
      else (o, o + item.size) :: newSpans block first (o + item.size) rest
    else if (plus first (o + item.size)).gt block.2 then []
    else newSpans block first (o + item.size) rest

/-- The items after a block was used. -/
def sackCovered (block : SequenceNumber32 × SequenceNumber32) (first : SequenceNumber32) :
    ℕ → List TcpTxItem → List TcpTxItem
  | _, [] => []
  | o, item :: rest =>
    if (plus first o).ge block.1 = true ∧ (plus first (o + item.size)).le block.2 = true then
      (if item.m_sacked then item else { item with m_sacked := true, m_lost := false }) ::
        sackCovered block first (o + item.size) rest
    else if (plus first (o + item.size)).gt block.2 then item :: rest
    else item :: sackCovered block first (o + item.size) rest

/-- The items that an option newly sacks, in the order in which this happens. -/
def optionSpans (first sentEnd : SequenceNumber32) :
    List (SequenceNumber32 × SequenceNumber32) → List TcpTxItem → List (ℕ × ℕ)
  | [], _ => []
  | block :: blocks, items =>
    if sentEnd.lt block.1 then []
    else newSpans block first 0 items ++
    optionSpans first sentEnd blocks (sackCovered block first 0 items)

end

variable {items items' pre post : List TcpTxItem} {item : TcpTxItem} {first : SequenceNumber32}
  {ret : Option ℕ × SequenceNumber32} {o : ℕ} {block : SequenceNumber32 × SequenceNumber32}

theorem findHighest_append (hfirst : first.m_value < 2 ^ 32) :
    findHighest first (items ++ items') ret =
      findHighest (plus first (total items)) items' (findHighest first items ret) := by
  induction items generalizing first ret with
  | nil => rw [List.nil_append, total_nil, plus_zero_of_lt hfirst, findHighest]
  | cons item rest ih =>
    rw [List.cons_append, findHighest, findHighest, ih (plus_lt _ _), total_cons, plus_plus]

theorem findHighest_of_unsacked (h : ∀ x ∈ items, x.m_sacked = false) :
    findHighest first items ret = ret := by
  induction items generalizing first with
  | nil => rfl
  | cons item rest ih =>
    rw [findHighest, h item List.mem_cons_self]
    exact ih fun x hx => h x (List.mem_cons_of_mem item hx)

/-- The highest sacked item, where there is one. -/
theorem findHighest_eq (hfirst : first.m_value < 2 ^ 32) (hitem : item.m_sacked = true)
    (hpost : ∀ x ∈ post, x.m_sacked = false) :
    findHighest first (pre ++ item :: post) ret = (some item.address, plus first (total pre)) := by
  rw [findHighest_append hfirst, findHighest, if_pos hitem, findHighest_of_unsacked hpost]

theorem exists_highest (items : List TcpTxItem) : (∀ x ∈ items, x.m_sacked = false) ∨
    ∃ pre item post, items = pre ++ item :: post ∧ item.m_sacked = true ∧
      ∀ x ∈ post, x.m_sacked = false := by
  induction items with
  | nil => exact Or.inl fun _ hx => (List.not_mem_nil hx).elim
  | cons item rest ih =>
    rcases ih with hrest | ⟨pre, x, post, rfl, hx, hpost⟩
    · cases hitem : item.m_sacked with
      | true => exact Or.inr ⟨[], item, rest, rfl, hitem, hrest⟩
      | false =>
        refine Or.inl ?_
        intro x hx
        rcases List.mem_cons.mp hx with rfl | hx
        · exact hitem
        · exact hrest x hx
    · exact Or.inr ⟨item :: pre, x, post, rfl, hx, hpost⟩

/-! ### Spans -/

theorem sackedSpans_append :
    sackedSpans o (items ++ items') =
    sackedSpans o items ++ sackedSpans (o + total items) items' := by
  induction items generalizing o with
  | nil => rfl
  | cons item rest ih =>
    rw [List.cons_append, sackedSpans, sackedSpans, ih, total_cons, Nat.add_assoc]
    split
    · rfl
    · rfl

theorem sackedSpans_within (hfull : ∀ x ∈ items, 0 < x.size) : ∀ y ∈ sackedSpans o items,
    o ≤ y.1 ∧ y.1 < y.2 ∧ y.2 ≤ o + total items := by
  induction items generalizing o with
  | nil => exact fun _ hy => (List.not_mem_nil hy).elim
  | cons item rest ih =>
    have hitem := hfull item List.mem_cons_self
    intro y hy
    rw [total_cons]
    rw [sackedSpans] at hy
    have hcases : y = (o, o + item.size) ∨ y ∈ sackedSpans (o + item.size) rest := by
      split at hy
      · exact List.mem_cons.mp hy
      · exact Or.inr hy
    rcases hcases with rfl | hy
    · exact ⟨le_rfl, by simpa using hitem, by simp only; omega⟩
    · obtain ⟨hle, hlt, hend⟩ := ih (fun x hx => hfull x (List.mem_cons_of_mem item hx)) y hy
      exact ⟨by omega, hlt, by omega⟩

theorem sackedSpans_apart (hfull : ∀ x ∈ items, 0 < x.size) :
    (sackedSpans o items).Pairwise Apart := by
  induction items generalizing o with
  | nil => exact .nil
  | cons item rest ih =>
    have hrest : ∀ x ∈ rest, 0 < x.size := fun x hx => hfull x (List.mem_cons_of_mem item hx)
    rw [sackedSpans]
    split
    · refine List.pairwise_cons.mpr ⟨?_, ih hrest⟩
      intro y hy
      exact Or.inl (sackedSpans_within hrest y hy).1
    · exact ih hrest

theorem sackedSpans_eq_nil : sackedSpans o items = [] ↔ ∀ x ∈ items, x.m_sacked = false := by
  induction items generalizing o with
  | nil => simp [sackedSpans]
  | cons item rest ih =>
    rw [sackedSpans]
    cases hitem : item.m_sacked with
    | true => simp [hitem]
    | false => simp [hitem, ih]

/-- The spans after a block are those before and the new ones. -/
theorem sackedSpans_sackCovered : (sackedSpans o (sackCovered block first o items)).Perm
    (newSpans block first o items ++ sackedSpans o items) := by
  induction items generalizing o with
  | nil => exact .nil
  | cons item rest ih =>
    rw [sackCovered, newSpans, sackedSpans]
    split
    · cases hitem : item.m_sacked with
      | true =>
        simp only [if_true, sackedSpans, hitem]
        exact (ih.cons _).trans List.perm_middle.symm
      | false =>
        simp only [Bool.false_eq_true, if_false, sackedSpans, if_true]
        exact ih.cons _
    · split
      · rw [sackedSpans, List.nil_append]
      · cases hitem : item.m_sacked with
        | true =>
          simp only [if_true, sackedSpans, hitem]
          exact (ih.cons _).trans List.perm_middle.symm
        | false =>
          simp only [Bool.false_eq_true, if_false, sackedSpans, hitem]
          exact ih

namespace TcpTxBuffer

theorem sackCovered_sacks : List.Forall₂ Sacks items (sackCovered block first o items) := by
  induction items generalizing o with
  | nil => exact .nil
  | cons item rest ih =>
    rw [sackCovered]
    split
    · refine .cons ?_ ih
      split
      · exact Or.inl rfl
      · rename_i hitem
        exact Or.inr ⟨Bool.eq_false_of_not_eq_true hitem, rfl⟩
    · split
      · exact forall₂_refl (fun x => Or.inl rfl) _
      · exact .cons (Or.inl rfl) ih

/-- The items after an option. -/
def optionItems (first sentEnd : SequenceNumber32) :
    List (SequenceNumber32 × SequenceNumber32) → List TcpTxItem → List TcpTxItem
  | [], items => items
  | block :: blocks, items =>
    if sentEnd.lt block.1 then items
    else optionItems first sentEnd blocks (sackCovered block first 0 items)

variable {sentEnd : SequenceNumber32} {blocks : List (SequenceNumber32 × SequenceNumber32)}

theorem optionItems_sacks :
    List.Forall₂ Sacks items (optionItems first sentEnd blocks items) := by
  induction blocks generalizing items with
  | nil => exact forall₂_refl (fun x => Or.inl rfl) _
  | cons block blocks ih =>
    rw [optionItems]
    split
    · exact forall₂_refl (fun x => Or.inl rfl) _
    · exact forall₂_trans (fun _ _ _ => Sacks.trans) sackCovered_sacks ih

theorem sackedSpans_optionItems : (sackedSpans 0 (optionItems first sentEnd blocks items)).Perm
    ((optionSpans first sentEnd blocks items).reverse ++ sackedSpans 0 items) := by
  induction blocks generalizing items with
  | nil => exact List.Perm.refl _
  | cons block blocks ih =>
    rw [optionItems, optionSpans]
    split
    · exact List.Perm.refl _
    · refine ih.trans ?_
      rw [List.reverse_append, List.append_assoc]
      refine List.Perm.append_left _ (sackedSpans_sackCovered.trans ?_)
      exact List.Perm.append_right _ (List.reverse_perm _).symm

/-- The cached pair denotes the sacked item at an offset; without an offset it denotes none. -/
def Denotes (hs : Option ℕ × SequenceNumber32) (first : SequenceNumber32) (items : List TcpTxItem) :
    Option ℕ → Prop
  | none => hs = (none, ⟨0⟩)
  | some o => ∃ pre item post, items = pre ++ item :: post ∧ item.m_sacked = true ∧ total pre = o ∧
      hs = (some item.address, plus first o)

variable {hs hs' : Option ℕ × SequenceNumber32} {top : Option ℕ} {passed rest : List TcpTxItem}

theorem forall₂_split {R : TcpTxItem → TcpTxItem → Prop}
    (h : List.Forall₂ R (pre ++ item :: post) items') : ∃ pre' item' post',
      items' = pre' ++ item' :: post' ∧ List.Forall₂ R pre pre' ∧ R item item' := by
  induction pre generalizing items' with
  | nil =>
    cases h with
    | cons hitem _ => exact ⟨[], _, _, rfl, .nil, hitem⟩
  | cons x pre ih =>
    cases h with
    | cons hx hrest =>
      obtain ⟨pre', item', post', rfl, hpre, hitem⟩ := ih hrest
      exact ⟨_ :: pre', item', post', rfl, .cons hx hpre, hitem⟩

theorem sacks_total (h : List.Forall₂ Sacks items items') : total items' = total items :=
  (sameItems_of_forall₂ (fun _ _ h => Sacks.plain h) h).total

/-- A sacked item is sacked after others were sacked. -/
theorem Denotes.mono (h : Denotes hs first items top)
    (hsacks : List.Forall₂ Sacks items items') : Denotes hs first items' top := by
  cases top with
  | none => exact h
  | some o =>
    obtain ⟨pre, x, post, rfl, hx, rfl, rfl⟩ := h
    obtain ⟨pre', x', post', rfl, hpre, hx'⟩ := forall₂_split hsacks
    rcases hx' with rfl | ⟨hnot, -⟩
    · exact ⟨pre', _, post', rfl, hx, sacks_total hpre, rfl⟩
    · rw [hx] at hnot
      cases hnot

/-- What a block does to one item. -/
theorem sackItem_denotes {item' : TcpTxItem} {m m' : Marks}
    (hlt : total (passed ++ item :: rest) < 2 ^ 31)
    (hm : Denotes m.highestSack first (passed ++ item :: rest) top)
    (hok : sackItem (plus first (total passed)) item m = .ok (item', m')) :
    item' = (if item.m_sacked then item else { item with m_sacked := true, m_lost := false }) ∧
      Denotes m'.highestSack first (passed ++ item' :: rest)
        (if item.m_sacked then top else move top (total passed, total passed + item.size)) ∧
      m'.bytesSacked = if item.m_sacked then m.bytesSacked else addTo m.bytesSacked item.size := by
  rw [sackItem] at hok
  split at hok
  · rename_i hitem
    obtain ⟨-, hok⟩ := check_bind_eq_ok.mp hok
    cases pure_eq_ok.mp hok
    rw [if_pos hitem, if_pos hitem, if_pos hitem]
    exact ⟨rfl, hm, rfl⟩
  · rename_i hitem
    cases pure_eq_ok.mp hok
    rw [if_neg hitem, if_neg hitem, if_neg hitem]
    refine ⟨rfl, ?_, rfl⟩
    have hsacks : List.Forall₂ Sacks (passed ++ item :: rest)
        (passed ++ { item with m_sacked := true, m_lost := false } :: rest) :=
      List.rel_append (forall₂_refl (fun x => Or.inl rfl) passed)
        (.cons (Or.inr ⟨Bool.eq_false_of_not_eq_true hitem, rfl⟩)
          (forall₂_refl (fun x => Or.inl rfl) rest))
    rw [plus_plus]
    cases top with
    | none =>
      have hnone : m.highestSack = (none, ⟨0⟩) := hm
      rw [hnone]
      exact ⟨passed, _, rest, rfl, rfl, rfl, rfl⟩
    | some o =>
      have hmono := hm.mono hsacks
      obtain ⟨pre, x, post, hsplit, hx, ho, hhs⟩ := hm
      have hle : m.highestSack.2.le (plus first (total passed + item.size)) = true ↔
          o ≤ total passed + item.size := by
        have htotal := congrArg total hsplit
        simp only [total_append, total_cons] at htotal hlt
        rw [hhs]
        exact plus_le_plus_iff (by omega) (by omega)
      have hsome : m.highestSack.1 ≠ none := by
        rw [hhs]
        exact Option.some_ne_none _
      rw [move]
      dsimp only
      by_cases hmove : o ≤ total passed + item.size
      · rw [if_pos hmove, if_pos (Or.inr (hle.mpr hmove))]
        exact ⟨passed, _, rest, rfl, rfl, rfl, rfl⟩
      · rw [if_neg hmove, if_neg (not_or.mpr ⟨hsome, mt hle.mp hmove⟩)]
        exact hmono

/-- The sum that `Update` returns. -/
def addSizes (n : ℕ) (spans : List (ℕ × ℕ)) : ℕ := spans.foldl (fun n y => addTo n (y.2 - y.1)) n

theorem sackBlock_denotes (passed : List TcpTxItem) {m m' : Marks}
    (hlt : total (passed ++ items) < 2 ^ 31)
    (hm : Denotes m.highestSack first (passed ++ items) top)
    (hok : sackBlock block (plus first (total passed)) items m = .ok (items', m')) :
    items' = sackCovered block first (total passed) items ∧
      Denotes m'.highestSack first (passed ++ items')
        ((newSpans block first (total passed) items).foldl move top) ∧
      m'.bytesSacked = addSizes m.bytesSacked (newSpans block first (total passed) items) := by
  induction items generalizing passed top m items' with
  | nil =>
    cases pure_eq_ok.mp hok
    exact ⟨rfl, hm, rfl⟩
  | cons item rest ih =>
    rw [sackBlock] at hok
    rw [sackCovered, newSpans]
    dsimp only at hok
    rw [plus_plus] at hok
    have hstop : ∀ x : TcpTxItem, x.size = item.size →
        total (passed ++ [x]) = total passed + item.size := by
      intro x hx
      rw [total_append, total_cons, total_nil, hx, Nat.add_zero]
    have hnext : ∀ x : TcpTxItem, x.size = item.size → total (passed ++ [x] ++ rest) < 2 ^ 31 := by
      intro x hx
      rw [total_append, total_cons] at hlt
      rw [total_append, hstop x hx]
      omega
    split at hok
    · rename_i hinside
      rw [if_pos hinside, if_pos hinside]
      obtain ⟨⟨item1, m1⟩, hitem, hok⟩ := bind_eq_ok.mp hok
      obtain ⟨⟨rest1, m2⟩, hrest, hok⟩ := bind_eq_ok.mp hok
      cases pure_eq_ok.mp hok
      obtain ⟨hitem1, hdenotes, hbytes⟩ := sackItem_denotes hlt hm hitem
      have hsize : item1.size = item.size := by
        rw [hitem1]
        split
        · rfl
        · rfl
      rw [← hstop item1 hsize] at hrest
      rw [List.append_cons] at hdenotes
      obtain ⟨hrest1, hdenotes', hbytes'⟩ := ih _ (hnext item1 hsize) hdenotes hrest
      rw [hstop item1 hsize, hbytes] at hbytes'
      rw [hstop item1 hsize] at hrest1 hdenotes'
      rw [← List.append_cons] at hdenotes'
      refine ⟨by rw [hrest1, hitem1], ?_, ?_⟩
      · cases hsacked : item.m_sacked with
        | true =>
          rw [hsacked] at hdenotes'
          exact hdenotes'
        | false =>
          rw [hsacked] at hdenotes'
          exact hdenotes'
      · rw [hbytes']
        split
        · rfl
        · rw [addSizes, addSizes, List.foldl_cons, Nat.add_sub_cancel_left]
    · rename_i houtside
      rw [if_neg houtside, if_neg houtside]
      split at hok
      · rename_i habove
        rw [if_pos habove, if_pos habove]
        cases pure_eq_ok.mp hok
        exact ⟨rfl, hm, rfl⟩
      · rename_i hbelow
        rw [if_neg hbelow, if_neg hbelow]
        obtain ⟨⟨rest1, m2⟩, hrest, hok⟩ := bind_eq_ok.mp hok
        cases pure_eq_ok.mp hok
        rw [← hstop item rfl] at hrest
        rw [List.append_cons] at hm
        obtain ⟨hrest1, hdenotes', hbytes'⟩ := ih _ (hnext item rfl) hm hrest
        rw [hstop item rfl] at hrest1 hdenotes' hbytes'
        rw [← List.append_cons] at hdenotes'
        exact ⟨by rw [hrest1], hdenotes', hbytes'⟩

theorem sackBlocks_denotes {m m' : Marks} {ended : Bool} (hfirst : first.m_value < 2 ^ 32)
    (hlt : total items < 2 ^ 31) (hm : Denotes m.highestSack first items top)
    (hok : sackBlocks first sentEnd blocks items m = .ok (items', m', ended)) :
    items' = optionItems first sentEnd blocks items ∧
      Denotes m'.highestSack first items'
      ((optionSpans first sentEnd blocks items).foldl move top) ∧
      m'.bytesSacked = addSizes m.bytesSacked (optionSpans first sentEnd blocks items) ∧
      (ended = false → ∃ block ∈ blocks, sentEnd.lt block.1 = true) := by
  induction blocks generalizing items m top with
  | nil =>
    cases pure_eq_ok.mp hok
    exact ⟨rfl, hm, rfl, fun h => (Bool.false_ne_true h.symm).elim⟩
  | cons block blocks ih =>
    rw [sackBlocks] at hok
    rw [optionItems, optionSpans]
    split at hok
    · rename_i habove
      cases pure_eq_ok.mp hok
      rw [if_pos habove, if_pos habove]
      exact ⟨rfl, hm, rfl, fun _ => ⟨block, List.mem_cons_self, habove⟩⟩
    · rename_i hused
      obtain ⟨⟨items1, m1⟩, hblock, hok⟩ := bind_eq_ok.mp hok
      rw [if_neg hused, if_neg hused]
      have hzero : plus first (total []) = first := plus_zero_of_lt hfirst
      obtain ⟨rfl, hdenotes, hbytes⟩ : items1 = sackCovered block first 0 items ∧
          Denotes m1.highestSack first items1 ((newSpans block first 0 items).foldl move top) ∧
          m1.bytesSacked = addSizes m.bytesSacked (newSpans block first 0 items) :=
        sackBlock_denotes [] hlt hm (hzero.symm ▸ hblock)
      obtain ⟨hitems, hdenotes', hbytes', hended⟩ :=
        ih ((sacks_total sackCovered_sacks).symm ▸ hlt) hdenotes hok
      refine ⟨hitems, ?_, ?_, ?_⟩
      · rw [List.foldl_append]
        exact hdenotes'
      · rw [hbytes', hbytes, addSizes, addSizes, addSizes, List.foldl_append]
      · intro h
        obtain ⟨other, hother, habove⟩ := hended h
        exact ⟨other, List.mem_cons_of_mem block hother, habove⟩

/-- The pair that `FindHighestSacked` finds denotes the highest sacked item. -/
theorem findHighest_isTop (hfirst : first.m_value < 2 ^ 32) (hfull : ∀ x ∈ items, 0 < x.size) :
    ∃ top, Denotes (findHighest first items (none, ⟨0⟩)) first items top ∧
      IsTop top (sackedSpans 0 items) := by
  rcases exists_highest items with hnone | ⟨pre, item, post, rfl, hitem, hpost⟩
  · refine ⟨none, findHighest_of_unsacked hnone, ?_⟩
    rw [sackedSpans_eq_nil.mpr hnone]
    exact .none
  · refine ⟨some (total pre), ⟨pre, item, post, rfl, hitem, rfl, findHighest_eq hfirst hitem hpost⟩,
      ?_⟩
    rw [sackedSpans_append, sackedSpans, if_pos hitem, sackedSpans_eq_nil.mpr hpost, Nat.zero_add]
    refine .some (total pre, total pre + item.size) _ (by simp) ?_
    intro y hy
    rcases List.mem_append.mp hy with hy | hy
    · have hwithin := sackedSpans_within (fun x hx => hfull x (List.mem_append_left _ hx)) y hy
      show y.1 ≤ total pre
      omega
    · rw [List.mem_singleton.mp hy]

/-- A pair that denotes the highest sacked item is the one that `FindHighestSacked` finds. -/
theorem eq_findHighest (hfirst : first.m_value < 2 ^ 32) (hfull : ∀ x ∈ items, 0 < x.size)
    (hdenotes : Denotes hs first items top) (htop : IsTop top (sackedSpans 0 items)) :
    hs = findHighest first items (none, ⟨0⟩) := by
  cases top with
  | none =>
    rw [findHighest_of_unsacked (sackedSpans_eq_nil.mp htop.eq_nil)]
    exact hdenotes
  | some o =>
    obtain ⟨pre, item, post, rfl, hitem, rfl, rfl⟩ := hdenotes
    refine (findHighest_eq hfirst hitem
      (sackedSpans_eq_nil (o := total pre + item.size) |>.mp ?_)).symm
    -- a sacked item behind it would start above it
    rw [sackedSpans_append, sackedSpans, if_pos hitem, Nat.zero_add] at htop
    rw [List.eq_nil_iff_forall_not_mem]
    intro y hy
    have hwithin := sackedSpans_within (fun x hx => hfull x (by simp [hx])) y hy
    have hpos := hfull item (by simp)
    have hle := htop.le y (by simp [hy])
    omega

/-- The cached pair is right after an option, if no item directly below the highest one is sacked
with no higher one after it. -/
theorem findHighest_optionItems {m m' : Marks} {ended : Bool} (hfirst : first.m_value < 2 ^ 32)
    (hfull : ∀ x ∈ items, 0 < x.size) (hlt : total items < 2 ^ 31)
    (hm : m.highestSack = findHighest first items (none, ⟨0⟩))
    (hkeeps : KeepsTop (sackedSpans 0 items) (optionSpans first sentEnd blocks items))
    (hok : sackBlocks first sentEnd blocks items m = .ok (items', m', ended)) :
    m'.highestSack = findHighest first items' (none, ⟨0⟩) := by
  obtain ⟨top, hdenotes, htop⟩ := findHighest_isTop hfirst hfull
  rw [← hm] at hdenotes
  obtain ⟨rfl, hdenotes', -, -⟩ := sackBlocks_denotes hfirst hlt hdenotes hok
  have hfull' : ∀ x ∈ optionItems first sentEnd blocks items, 0 < x.size :=
    (sameItems_of_forall₂ (fun _ _ h => Sacks.plain h) optionItems_sacks).full hfull
  have hperm : (sackedSpans 0 (optionItems first sentEnd blocks items)).Perm _ :=
    sackedSpans_optionItems
  refine eq_findHighest hfirst hfull' hdenotes' (IsTop.perm ?_ hperm.symm)
  apply isTop_foldl_move htop hkeeps
  · intro y hy
    refine (sackedSpans_within hfull' y (hperm.mem_iff.mpr ?_)).2.1
    simpa only [List.mem_append, List.mem_reverse] using hy
  · exact (hperm.pairwise_iff (fun h => h.symm)).mp (sackedSpans_apart hfull')

end TcpTxBuffer

end Ns3.Internet
