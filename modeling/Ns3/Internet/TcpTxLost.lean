import Ns3.Internet.TcpTxHighest
import Mathlib.Algebra.Order.BigOperators.Group.List
import Mathlib.Algebra.Order.Group.Nat

/-!
# Items that the duplicate threshold makes lost

In every run whose options keep the cached pair right, an unsacked item is lost after an `Update` if
and only if enough sacked items are above it.
-/

namespace Ns3.Internet

open Ns3.Network SequenceNumber32 Lib

/-- The sacked items of a list. -/
def sackedCount (items : List TcpTxItem) : ℕ := items.countP TcpTxItem.m_sacked

/-- The unsacked items are lost where `t` sacked items are above them, `k` of these above the
list. -/
def Marked (t k : ℕ) : List TcpTxItem → Prop
  | [] => True
  | item :: rest =>
    (item.m_sacked = false → (item.m_lost = true ↔ t ≤ sackedCount rest + k)) ∧ Marked t k rest

/-- One direction of `Marked`. -/
def Sound (t k : ℕ) : List TcpTxItem → Prop
  | [] => True
  | item :: rest =>
    (item.m_sacked = false → item.m_lost = true → t ≤ sackedCount rest + k) ∧ Sound t k rest

variable {items items' pre post : List TcpTxItem} {item : TcpTxItem} {t k : ℕ}

@[simp] theorem sackedCount_nil : sackedCount [] = 0 := rfl

theorem sackedCount_cons :
    sackedCount (item :: items) = sackedCount items + if item.m_sacked then 1 else 0 :=
  List.countP_cons

@[simp] theorem sackedCount_append :
    sackedCount (items ++ items') = sackedCount items + sackedCount items' := List.countP_append

theorem sackedCount_of_unsacked (h : ∀ x ∈ items, x.m_sacked = false) : sackedCount items = 0 := by
  rw [sackedCount, List.countP_eq_zero]
  intro x hx
  rw [h x hx]
  exact Bool.false_ne_true

theorem marked_append :
    Marked t k (items ++ items') ↔ Marked t (sackedCount items' + k) items ∧ Marked t k items' := by
  induction items with
  | nil => exact (and_iff_right trivial).symm
  | cons item rest ih =>
    rw [List.cons_append, Marked, Marked, ih, sackedCount_append, Nat.add_assoc, and_assoc]

theorem sound_append :
    Sound t k (items ++ items') ↔ Sound t (sackedCount items' + k) items ∧ Sound t k items' := by
  induction items with
  | nil => exact (and_iff_right trivial).symm
  | cons item rest ih =>
    rw [List.cons_append, Sound, Sound, ih, sackedCount_append, Nat.add_assoc, and_assoc]

/-- What `Marked` says of an item of the list. -/
theorem marked_iff : Marked t 0 items ↔ ∀ pre x post, items = pre ++ x :: post →
    x.m_sacked = false →
    (x.m_lost = true ↔ t ≤ sackedCount post) := by
  constructor
  · rintro h pre x post rfl
    exact (marked_append.mp h).2.1
  · intro h
    induction items with
    | nil => trivial
    | cons item rest ih =>
      refine ⟨h [] item rest rfl, ih ?_⟩
      rintro pre x post rfl
      exact h (item :: pre) x post rfl

/-- A part of the list with one loss flag and no sacked item. -/
theorem marked_uniform (hs : ∀ x ∈ items, x.m_sacked = false) :
    Marked t k items ↔ ∀ x ∈ items, x.m_lost = true ↔ t ≤ k := by
  induction items with
  | nil =>
    constructor
    · exact fun _ x hx => (List.not_mem_nil hx).elim
    · exact fun _ => trivial
  | cons item rest ih =>
    have hrest : ∀ x ∈ rest, x.m_sacked = false := fun x hx => hs x (List.mem_cons_of_mem item hx)
    rw [Marked, ih hrest, sackedCount_of_unsacked hrest, Nat.zero_add, List.forall_mem_cons]
    exact and_congr_left fun _ => ⟨fun h => h (hs item List.mem_cons_self), fun h _ => h⟩

namespace TcpTxBuffer

theorem sackedCount_sacks (h : List.Forall₂ Sacks items items') :
    sackedCount items ≤ sackedCount items' := by
  induction h with
  | nil => exact le_rfl
  | cons hxy _ ih =>
    rw [sackedCount_cons, sackedCount_cons]
    rcases hxy with rfl | ⟨hx, rfl⟩
    · omega
    · rw [hx]
      simp only [Bool.false_eq_true, if_false, if_true]
      omega

/-- Items are sacked: no lost item has too few sacked ones above. -/
theorem sound_of_sacks (h : List.Forall₂ Sacks items items') (hm : Marked t k items) :
    Sound t k items' := by
  induction h with
  | nil => trivial
  | cons hxy hrest ih =>
    refine ⟨?_, ih hm.2⟩
    intro hs hl
    rcases hxy with rfl | ⟨-, rfl⟩
    · exact ((hm.1 hs).mp hl).trans (Nat.add_le_add_right (sackedCount_sacks hrest) k)
    · cases hs

/-- The loop of `UpdateLostCount`. -/
theorem markLost_marked (hm : Sound t 0 items) :
    Marked t 0 (markLost t items).2.1 ∧ (markLost t items).1 = sackedCount items ∧
      sackedCount (markLost t items).2.1 = sackedCount items := by
  induction items with
  | nil => exact ⟨trivial, rfl, rfl⟩
  | cons item rest ih =>
    obtain ⟨hmarked, hcount, hsame⟩ := ih hm.2
    rw [markLost]
    dsimp only
    rw [hcount]
    have hsum : (if item.m_sacked = true then sackedCount rest + 1 else sackedCount rest) =
        sackedCount (item :: rest) := by
      rw [sackedCount_cons]
      split
      · rfl
      · rfl
    rw [hsum]
    have hfalse : item.m_sacked = false → sackedCount (item :: rest) = sackedCount rest := by
      intro hs
      rw [sackedCount_cons, hs]
      rfl
    split
    · rename_i hnew
      refine ⟨⟨fun hs => ?_, hmarked⟩, rfl, ?_⟩
      · rw [hsame, Nat.add_zero, ← hfalse hnew.2.1]
        exact ⟨fun _ => hnew.1, fun _ => rfl⟩
      · rw [sackedCount_cons, sackedCount_cons, hsame]
    · rename_i hold
      refine ⟨⟨fun hs => ?_, hmarked⟩, rfl, ?_⟩
      · rw [hsame]
        constructor
        · exact hm.1 hs
        · intro hle
          by_contra hl
          refine hold ⟨?_, hs, Bool.eq_false_of_not_eq_true hl⟩
          rw [hfalse hs]
          exact hle
      · rw [sackedCount_cons, sackedCount_cons, hsame]

variable {b b' : TcpTxBuffer} {first seq : SequenceNumber32} {ret : Option ℕ × SequenceNumber32}

theorem sound_uniform (hs : ∀ x ∈ items, x.m_sacked = false) (hm : Sound t k items) :
    ∀ x ∈ items, x.m_lost = true → t ≤ k := by
  induction items with
  | nil => exact fun _ hx => (List.not_mem_nil hx).elim
  | cons item rest ih =>
    have hrest : ∀ x ∈ rest, x.m_sacked = false := fun x hx => hs x (List.mem_cons_of_mem item hx)
    obtain ⟨hitem, hm⟩ := hm
    rw [sackedCount_of_unsacked hrest, Nat.zero_add] at hitem
    intro x hx
    rcases List.mem_cons.mp hx with rfl | hx
    · exact hitem (hs x List.mem_cons_self)
    · exact ih hrest hm x hx

theorem splitAt_split (hpre : item.address ∉ pre.map TcpTxItem.address) :
    splitAt item.address (pre ++ item :: post) = some (pre ++ [item], post) := by
  induction pre with
  | nil => exact if_pos rfl
  | cons x pre ih =>
    rw [List.map_cons, List.mem_cons, not_or] at hpre
    rw [List.cons_append, splitAt, if_neg (Ne.symm hpre.1), ih hpre.2]
    rfl

theorem findHighest_loses (h : List.Forall₂ Loses items items') :
    findHighest first items' ret = findHighest first items ret := by
  induction h generalizing first ret with
  | nil => rfl
  | @cons x y _ _ hxy _ ih =>
    have haddress : y.plain.address = x.plain.address := by rw [hxy.plain]
    have haddress : y.address = x.address := haddress
    rw [findHighest, findHighest, ih, size_of_plain hxy.plain, hxy.sacked, haddress]

/-- `UpdateLostCount` marks the items below the highest sacked one. -/
theorem updateLostCount_marked (h : b.Ledger) (ht : 0 < b.m_dupAckThresh)
    (hhighest : b.m_highestSack = b.findHighestSacked) (hm : Sound b.m_dupAckThresh 0 b.m_sentList)
    (hok : b.updateLostCount = .ok b') (hhead : ∀ x ∈ b'.m_sentList.head?, x.m_sacked = false) :
    Marked b.m_dupAckThresh 0 b'.m_sentList := by
  rw [updateLostCount] at hok
  rcases exists_highest b.m_sentList with hnone | ⟨pre, item, post, hlist, hitem, hpost⟩
  · rw [hhighest, findHighestSacked, findHighest_of_unsacked hnone] at hok
    cases hok
  · have hnodup := h.fresh_sent.nodup
    rw [hlist] at hnodup hm
    have hpre := (find_split hnodup).2.1
    rw [hhighest, findHighestSacked, hlist, findHighest_eq h.first_lt hitem hpost, Option.bind_some,
      splitAt_split hpre] at hok
    -- no item behind the highest one is lost
    have hafter : Marked b.m_dupAckThresh 0 post := by
      have hsound := (sound_append.mp hm).2.2
      rw [marked_uniform hpost]
      intro x hx
      constructor
      · exact sound_uniform hpost hsound x hx
      · intro hle
        omega
    rw [List.append_cons, sound_append, sackedCount_of_unsacked hpost, Nat.zero_add] at hm
    obtain ⟨hm, -⟩ := hm
    generalize hupTo : pre ++ [item] = upTo at hok hm
    cases upTo with
    | nil => cases hok
    | cons head upTo =>
      obtain ⟨hmarked, hcount, hsame⟩ := markLost_marked hm.2
      dsimp only at hok
      cases pure_eq_ok.mp hok
      have hhead := hhead _ rfl
      rw [List.cons_append, Marked, marked_append, sackedCount_append, hsame,
        sackedCount_of_unsacked hpost]
      refine ⟨?_, hmarked, hafter⟩
      rw [hcount] at hhead ⊢
      by_cases hnew : b.m_dupAckThresh ≤ sackedCount upTo ∧ head.m_lost = false
      · rw [if_pos hnew]
        exact fun _ => ⟨fun _ => hnew.1, fun _ => rfl⟩
      · rw [if_neg hnew] at hhead ⊢
        refine fun _ => ⟨hm.1 hhead, ?_⟩
        intro hle
        by_contra hl
        exact hnew ⟨hle, Bool.eq_false_of_not_eq_true hl⟩

/-! ### Runs -/

/-- The cached pair is right, and an unsacked item is lost if and only if enough sacked ones are
above it. -/
structure MarksLosses (b : TcpTxBuffer) : Prop where
  highest : b.m_highestSack = b.findHighestSacked
  lost : ∀ pre x post, b.m_sentList = pre ++ x :: post → x.m_sacked = false →
    (x.m_lost = true ↔ b.m_dupAckThresh ≤ sackedCount post)

/-- The calls in question, with their arguments. -/
def LossCall (b : TcpTxBuffer) : TxCall → Prop
  | .add _ => True
  | .copyFromSequence _ seq =>
    seq = b.sentEnd ∨ ∃ item ∈ b.m_sentList, item.m_sacked = false ∧ item.m_startSeq = seq
  | .discardUpTo seq => ∃ item ∈ b.m_sentList, item.m_sacked = false ∧ item.m_startSeq = seq
  | .update _ => True
  | _ => False

/-- No item directly below the highest sacked one is sacked with no higher one after it, and an
option that sacks an item has no block above SND.NXT. -/
def LossSafe (b : TcpTxBuffer) : TxCall → Prop
  | .add p => b.m_size + p.length < 2 ^ 31
  | .update list =>
    KeepsTop (sackedSpans 0 b.m_sentList)
    (optionSpans b.m_firstByteSeq b.sentEnd list b.m_sentList) ∧
      (optionSpans b.m_firstByteSeq b.sentEnd list b.m_sentList ≠ [] →
        ∀ block ∈ list, b.sentEnd.lt block.1 = false)
  | _ => True

/-- A safe call, with a duplicate threshold that is not 0. -/
def LossStep (b : TcpTxBuffer) (c : TxCall) : Prop :=
  b.LossCall c ∧ 0 < b.m_dupAckThresh ∧ b.LossSafe c

/-- What is true in every state of a run. -/
structure Watched (b : TcpTxBuffer) : Prop where
  ledger : b.Ledger
  highest : b.m_highestSack = b.findHighestSacked
  marked : Marked b.m_dupAckThresh 0 b.m_sentList

/-- The bytes of spans. -/
def spanBytes (spans : List (ℕ × ℕ)) : ℕ := (spans.map fun y => y.2 - y.1).sum

theorem addSizes_of_lt {n : ℕ} {spans : List (ℕ × ℕ)} (h : n + spanBytes spans < 2 ^ 32) :
    addSizes n spans = n + spanBytes spans := by
  induction spans generalizing n with
  | nil => rfl
  | cons y spans ih =>
    rw [spanBytes, List.map_cons, List.sum_cons, ← spanBytes] at h ⊢
    have hstep : addSizes n (y :: spans) = addSizes (addTo n (y.2 - y.1)) spans := rfl
    rw [hstep, addTo_of_lt (by omega), ih (by omega), Nat.add_assoc]

theorem spanBytes_sackedSpans {o : ℕ} :
    spanBytes (sackedSpans o items) = weight TcpTxItem.m_sacked items := by
  induction items generalizing o with
  | nil => rfl
  | cons item rest ih =>
    rw [sackedSpans, weight_cons]
    split
    · rw [spanBytes, List.map_cons, List.sum_cons, ← spanBytes, ih, Nat.add_sub_cancel_left]
    · rw [ih, Nat.zero_add]

variable {sentEnd : SequenceNumber32} {blocks : List (SequenceNumber32 × SequenceNumber32)}

/-- An option that sacks no bytes sacks no item. -/
theorem optionSpans_eq_nil (hfull : ∀ x ∈ items, 0 < x.size) (hlt : total items < 2 ^ 31)
    (hzero : addSizes 0 (optionSpans first sentEnd blocks items) = 0) :
    optionSpans first sentEnd blocks items = [] := by
  have hperm : (sackedSpans 0 (optionItems first sentEnd blocks items)).Perm _ :=
    sackedSpans_optionItems
  have hsum : weight TcpTxItem.m_sacked (optionItems first sentEnd blocks items) =
      spanBytes (optionSpans first sentEnd blocks items) + weight TcpTxItem.m_sacked items := by
    rw [← spanBytes_sackedSpans (o := 0), ← spanBytes_sackedSpans (o := 0), spanBytes,
      (hperm.map _).sum_nat, List.map_append, List.sum_append, List.map_reverse, List.sum_reverse]
    rfl
  have hle := weight_le_total TcpTxItem.m_sacked (optionItems first sentEnd blocks items)
  rw [sacks_total optionItems_sacks] at hle
  rw [addSizes_of_lt (by omega), Nat.zero_add] at hzero
  -- every span has bytes
  rw [List.eq_nil_iff_forall_not_mem]
  intro y hy
  have hfull' : ∀ x ∈ optionItems first sentEnd blocks items, 0 < x.size :=
    (sameItems_of_forall₂ (fun _ _ h => Sacks.plain h) optionItems_sacks).full hfull
  have hwithin := sackedSpans_within hfull' y (hperm.mem_iff.mpr (by simp [hy]))
  have hsize : y.2 - y.1 ≤ spanBytes (optionSpans first sentEnd blocks items) :=
    List.single_le_sum (fun _ _ => Nat.zero_le _) _ (List.mem_map_of_mem hy)
  omega

theorem sackCovered_of_nil {block : SequenceNumber32 × SequenceNumber32} {o : ℕ}
    (h : newSpans block first o items = []) : sackCovered block first o items = items := by
  induction items generalizing o with
  | nil => rfl
  | cons item rest ih =>
    rw [newSpans] at h
    rw [sackCovered]
    split
    · rename_i hinside
      rw [if_pos hinside] at h
      split at h
      · rename_i hitem
        rw [if_pos hitem, ih h]
      · cases h
    · rename_i houtside
      rw [if_neg houtside] at h
      split
      · rfl
      · rename_i hbelow
        rw [if_neg hbelow] at h
        rw [ih h]

theorem optionItems_of_nil (h : optionSpans first sentEnd blocks items = []) :
    optionItems first sentEnd blocks items = items := by
  induction blocks with
  | nil => rfl
  | cons block blocks ih =>
    rw [optionSpans] at h
    rw [optionItems]
    split
    · rfl
    · rename_i hused
      rw [if_neg hused] at h
      obtain ⟨hblock, hrest⟩ := List.append_eq_nil_iff.mp h
      rw [sackCovered_of_nil hblock] at hrest ⊢
      exact ih hrest

theorem Watched.update (h : b.Watched) {list : List (SequenceNumber32 × SequenceNumber32)} {n : ℕ}
    (ht : 0 < b.m_dupAckThresh) (hsafe : b.LossSafe (.update list))
    (hok : b.update list = .ok (b', n)) : b'.Watched := by
  obtain ⟨hledger, hhighest, hmarked⟩ := h
  obtain ⟨hkeeps, hended⟩ := hsafe
  obtain ⟨items, m, ended, hblocks, hn, hcases⟩ := update_cases hok
  have hm : b.marks.highestSack = findHighest b.m_firstByteSeq b.m_sentList (none, ⟨0⟩) := hhighest
  have hcached := findHighest_optionItems hledger.first_lt hledger.full_sent hledger.total_sent_lt
    hm hkeeps hblocks
  obtain ⟨top, hdenotes, -⟩ := findHighest_isTop hledger.first_lt hledger.full_sent
  rw [← hm] at hdenotes
  obtain ⟨rfl, -, hbytes, habove⟩ :=
    sackBlocks_denotes hledger.first_lt hledger.total_sent_lt hdenotes hblocks
  have hscored := scored_ledger hledger hblocks
  have hmarked' : optionSpans b.m_firstByteSeq b.sentEnd list b.m_sentList = [] →
      Marked b.m_dupAckThresh 0 (optionItems b.m_firstByteSeq b.sentEnd list b.m_sentList) := by
    intro hnil
    rw [optionItems_of_nil hnil]
    exact hmarked
  rcases hcases with ⟨hstop, rfl⟩ | ⟨-, hlost, hhead⟩
  · refine ⟨hscored, hcached, hmarked' ?_⟩
    by_contra hne
    obtain ⟨block, hblock, hlt⟩ := habove hstop
    rw [hended hne block hblock] at hlt
    cases hlt
  · split at hlost
    · obtain ⟨hloses, heq⟩ := updateLostCount_loses hscored hlost
      have hlostMarked := updateLostCount_marked hscored ht hcached
        (sound_of_sacks optionItems_sacks hmarked) hlost hhead
      refine ⟨updateLostCount_ledger hscored hlost, ?_, ?_⟩
      · rw [findHighestSacked, findHighest_loses hloses, heq]
        exact hcached
      · rw [heq]
        exact hlostMarked
    · rename_i hzero
      cases hlost
      refine ⟨hscored, hcached, hmarked' ?_⟩
      apply optionSpans_eq_nil hledger.full_sent hledger.total_sent_lt
      rw [hbytes] at hzero
      exact Nat.eq_zero_of_not_pos hzero

/-! ### CopyFromSequence -/

section

variable {found : Option TcpTxItem} {cur : TcpTxItem} {merged rest : List TcpTxItem} {n : ℕ}

theorem Copies.same (h : Copies b found b') : b'.m_firstByteSeq = b.m_firstByteSeq ∧
    b'.m_highestSack = b.m_highestSack ∧ b'.m_dupAckThresh = b.m_dupAckThresh := by
  cases h with
  | nothing => exact ⟨rfl, rfl, rfl⟩
  | resend item _ e pre post hr _ =>
    rw [hr.eq]
    exact ⟨rfl, rfl, rfl⟩
  | send item _ e pre post hs =>
    rw [hs.eq]
    exact ⟨rfl, rfl, rfl⟩

/-- An item was found: bytes were asked for, and there are some. -/
theorem copyFromSequence_found (hok : b.copyFromSequence n seq = .ok (b', some item)) :
    0 < n ∧ b.sizeFromSequence seq ≠ 0 := by
  unfold copyFromSequence copyLoop at hok
  split at hok
  · cases hok
  · dsimp only at hok
    split at hok
    · cases pure_eq_ok.mp hok
    · rename_i hs
      omega

/-- The parts of the items that a retransmission splits and merges have the same flags. -/
theorem Reshapes.findHighest (hs : Reshapes b pre cur merged rest post item b')
    (hsacked : cur.m_sacked = false) (hfirst : first.m_value < 2 ^ 32) :
    Internet.findHighest first b'.m_sentList ret = Internet.findHighest first b.m_sentList ret := by
  have htotal : total b'.m_sentList = total b.m_sentList := by
    rw [← length_bytes, ← length_bytes, hs.bytes]
  rw [hs.old, hs.new, ← List.cons_append, ← List.cons_append] at htotal ⊢
  have hold : ∀ x ∈ cur :: merged, x.m_sacked = false :=
    List.forall_mem_cons.mpr ⟨hsacked, fun x hx => (hs.merged x hx).1.trans hsacked⟩
  have hnew : ∀ x ∈ item :: rest, x.m_sacked = false :=
    List.forall_mem_cons.mpr ⟨hs.sacked.trans hsacked, fun x hx => (hs.rest x hx).1.trans hsacked⟩
  simp only [total_append] at htotal
  have hmiddle : total (item :: rest) = total (cur :: merged) := by omega
  rw [findHighest_append hfirst, findHighest_append hfirst, findHighest_append (plus_lt _ _),
    findHighest_append (plus_lt _ _), findHighest_of_unsacked hold, findHighest_of_unsacked hnew,
    hmiddle]

theorem Reshapes.marked (hs : Reshapes b pre cur merged rest post item b')
    (hsacked : cur.m_sacked = false) (hm : Marked t k b.m_sentList) : Marked t k b'.m_sentList := by
  rw [hs.old, ← List.cons_append, marked_append, marked_append] at hm
  obtain ⟨hpre, hmiddle, hpost⟩ := hm
  have hold : ∀ x ∈ cur :: merged, x.m_sacked = false :=
    List.forall_mem_cons.mpr ⟨hsacked, fun x hx => (hs.merged x hx).1.trans hsacked⟩
  have hnew : ∀ x ∈ item :: rest, x.m_sacked = false :=
    List.forall_mem_cons.mpr ⟨hs.sacked.trans hsacked, fun x hx => (hs.rest x hx).1.trans hsacked⟩
  rw [sackedCount_append, sackedCount_of_unsacked hold] at hpre
  rw [marked_uniform hold] at hmiddle
  have hcur := hmiddle cur List.mem_cons_self
  rw [hs.new, ← List.cons_append, marked_append, marked_append, sackedCount_append,
    sackedCount_of_unsacked hnew, marked_uniform hnew, List.forall_mem_cons]
  refine ⟨hpre, ⟨?_, ?_⟩, hpost⟩
  · rw [hs.lost]
    exact hcur
  · intro x hx
    rw [(hs.rest x hx).2]
    exact hcur

theorem Watched.copyFromSequence (h : b.Watched) (ht : 0 < b.m_dupAckThresh)
    (hcall : b.LossCall (.copyFromSequence n seq))
    (hok : b.copyFromSequence n seq = .ok (b', found)) : b'.Watched := by
  have hseq : seq.m_value < 2 ^ 32 := by
    rcases hcall with rfl | ⟨x, hx, -, rfl⟩
    · exact plus_lt _ _
    · exact h.ledger.start_lt x hx
  have hcopies := copyLoop_copies h.ledger hseq hok
  obtain ⟨hfirst, hsack, hthresh⟩ := hcopies.same
  have hledger := hcopies.ledger h.ledger
  cases found with
  | none =>
    cases hcopies
    exact h
  | some item =>
    obtain ⟨hn, havailable⟩ := copyFromSequence_found hok
    have hreq : b.Requests seq := by
      refine hcall.imp_left fun hend => ⟨hend, ?_⟩
      rintro happ
      apply havailable
      have hsize := h.ledger.size
      have hsent := h.ledger.sentSize
      rw [happ, total_nil] at hsize
      rw [hend, sentEnd, h.ledger.sizeFromSequence_eq (by omega)]
      omega
    have hwrap : b.NoWrapWithin n seq := by
      by_contra hwrap
      rw [copyFromSequence_fails h.ledger hn hreq hwrap] at hok
      cases hok
    obtain ⟨b1, item1, hok1, hanswers⟩ := copyFromSequence_answers h.ledger hn hreq hwrap
    rw [hok] at hok1
    cases hok1
    have hhighest := h.highest
    have hmarked := h.marked
    rw [findHighestSacked] at hhighest
    cases hanswers with
    | resend pre cur merged rest post hsacked hshape _ =>
      refine ⟨hledger, ?_, ?_⟩
      · rw [hsack, hhighest, findHighestSacked, hfirst,
          hshape.findHighest hsacked h.ledger.first_lt]
      · rw [hthresh]
        exact hshape.marked hsacked hmarked
    | send hun hnew _ =>
      have hitem : ∀ x ∈ [item], x.m_sacked = false := by
        intro x hx
        rw [List.mem_singleton.mp hx]
        exact hun.sacked
      refine ⟨hledger, ?_, ?_⟩
      · rw [hsack, hhighest, findHighestSacked, hfirst, hnew,
          findHighest_append h.ledger.first_lt, findHighest_of_unsacked hitem]
      · rw [hthresh, hnew, marked_append, sackedCount_of_unsacked hitem, marked_uniform hitem]
        refine ⟨hmarked, ?_⟩
        intro x hx
        rw [List.mem_singleton.mp hx, hun.lost]
        constructor
        · exact fun hlost => (Bool.false_ne_true hlost).elim
        · omega

/-! ### DiscardUpTo -/

/-- The loop of `DiscardUpTo` takes the items below one. -/
theorem Trimmed.of_split (ht : Trimmed b n b') (h : b.Ledger) (hn : n = total pre)
    (hlist : b.m_sentList = pre ++ item :: post) : b'.m_sentList = item :: post ∧
      b'.m_firstByteSeq = plus b.m_firstByteSeq n ∧ b'.m_highestSack = b.m_highestSack ∧
      b'.m_dupAckThresh = b.m_dupAckThresh := by
  induction ht generalizing pre with
  | done b n hstop =>
    have hsize := h.size
    have hitem := h.full_sent item (by rw [hlist]; simp)
    rw [hlist, total_append, total_cons] at hsize
    cases pre with
    | nil =>
      rw [hn, total_nil, plus_zero_of_lt h.first_lt]
      exact ⟨hlist, rfl, rfl, rfl⟩
    | cons x pre =>
      have hx := h.full_sent x (by rw [hlist]; simp)
      rw [total_cons] at hn hsize
      omega
  | drop b b1 b' x rest n htrims hle _ ih =>
    have hx := h.full_sent x (by rw [htrims.list]; simp)
    have hledger := htrims.ledger h
    have hsplit := htrims.list.symm.trans hlist
    cases pre with
    | nil =>
      rw [total_nil] at hn
      omega
    | cons y pre =>
      obtain ⟨rfl, rfl⟩ := List.cons.inj hsplit
      rw [total_cons] at hn
      have hb1 : b1.m_sentList = pre ++ item :: post := by
        rw [htrims.eq]
        exact if_neg (Nat.lt_irrefl _)
      obtain ⟨hlist', hfirst, hsack, hthresh⟩ := ih hledger (by omega) hb1
      rw [htrims.eq] at hfirst hsack hthresh
      refine ⟨hlist', ?_, hsack, hthresh⟩
      rw [hfirst]
      show plus (plus _ _) _ = _
      rw [plus_plus, Nat.add_sub_cancel' hle]
  | cut b b' x rest n htrims hpos hlt =>
    have hsplit := htrims.list.symm.trans hlist
    cases pre with
    | nil =>
      rw [total_nil] at hn
      omega
    | cons y pre =>
      obtain ⟨rfl, -⟩ := List.cons.inj hsplit
      rw [total_cons] at hn
      omega
  | send b b1 b' x e pre' post' n hempty _ _ =>
    rw [hempty] at hlist
    exact absurd hlist.symm (by simp)

/-- The pair is reset if and only if the item that it denotes is gone. -/
theorem findHighest_drop (hfirst : first.m_value < 2 ^ 32) (hpos : ∀ x ∈ item :: post, 0 < x.size)
    (hlt : total (pre ++ item :: post) < 2 ^ 31) (hitem : item.m_sacked = false) :
    (if (findHighest first (pre ++ item :: post) (none, ⟨0⟩)).2.le (plus first (total pre)) then
      (none, ⟨0⟩) else findHighest first (pre ++ item :: post) (none, ⟨0⟩)) =
      findHighest (plus first (total pre)) (item :: post) (none, ⟨0⟩) := by
  rw [total_append] at hlt
  rw [findHighest_append hfirst]
  rcases exists_highest (item :: post) with hnone | ⟨before, top, behind, hlist, htop, hbehind⟩
  · rw [findHighest_of_unsacked hnone, findHighest_of_unsacked hnone]
    rcases exists_highest pre with hnone | ⟨before, top, behind, rfl, htop, hbehind⟩
    · rw [findHighest_of_unsacked hnone, ite_self]
    · rw [findHighest_eq hfirst htop hbehind, if_pos]
      rw [total_append, total_cons] at hlt ⊢
      exact (plus_le_plus_iff (by omega) (by omega)).mpr (by omega)
  · cases before with
    | nil =>
      cases hlist
      rw [hitem] at htop
      cases htop
    | cons x before =>
      obtain ⟨rfl, hrest⟩ := List.cons.inj hlist
      have hx := hpos item List.mem_cons_self
      have hbefore : total (item :: before) = item.size + total before := total_cons _ _
      have hsize := congrArg total hlist
      rw [total_append, hbefore] at hsize
      rw [hlist, findHighest_eq (plus_lt _ _) htop hbehind,
        findHighest_eq (plus_lt _ _) htop hbehind, if_neg]
      rw [plus_plus, total_cons, plus_le_plus_iff (by omega) (by omega)]
      omega

theorem Watched.discardUpTo (h : b.Watched) (hcall : b.LossCall (.discardUpTo seq))
    (hok : b.discardUpTo seq = .ok b') : b'.Watched := by
  obtain ⟨x, hx, hunsacked, rfl⟩ := hcall
  have hledger := discardUpTo_ledger h.ledger (h.ledger.start_lt x hx) hok
  obtain ⟨pre, post, hlist⟩ := List.append_of_mem hx
  have hlt := h.ledger.total_sent_lt
  have hfull := h.ledger.full_sent
  have hmarked := h.marked
  have hhighest := h.highest
  rw [hlist] at hlt hfull hmarked
  rw [findHighestSacked, hlist] at hhighest
  obtain rfl | ⟨b1, b2, -, htrimmed, hrepair, -, rfl⟩ := discardUpTo_cases h.ledger hok
  · exact h
  · rw [h.ledger.start_eq hlist, toUint32_plus_sub h.ledger.first_lt (by
      rw [total_append] at hlt
      omega)] at htrimmed
    have hledger1 := htrimmed.ledger h.ledger
    obtain ⟨hlist1, hfirst1, hsack1, hthresh1⟩ := htrimmed.of_split h.ledger rfl hlist
    have hsize1 : b1.m_size ≠ 0 := by
      intro hzero
      rw [hledger1.sentList_of_size hzero] at hlist1
      cases hlist1
    rw [if_neg hsize1] at hrepair
    rcases repairHead_cases hrepair with ⟨rfl, -⟩ | ⟨head, rest, _, hhead, hsacked, -⟩
    · have hdrop := findHighest_drop h.ledger.first_lt
        (fun y hy => hfull y (List.mem_append_right pre hy)) hlt hunsacked
      have hmarked1 := (marked_append.mp hmarked).2
      rw [← hlist1, ← hthresh1] at hmarked1
      rw [← hhighest, ← hsack1, ← hfirst1, ← hlist1] at hdrop
      split at hdrop
      · rename_i hgone
        rw [if_pos hgone] at hledger ⊢
        exact ⟨hledger, hdrop, hmarked1⟩
      · rename_i hthere
        rw [if_neg hthere] at hledger ⊢
        exact ⟨hledger, hdrop, hmarked1⟩
    · rw [hlist1] at hhead
      cases hhead
      rw [hunsacked] at hsacked
      cases hsacked

end

/-! ### All states of a run -/

theorem Empty.watched (h : b.Empty) : b.Watched where
  ledger := h.ledger
  highest := by
    rw [findHighestSacked, h.sent, h.highestSack]
    rfl
  marked := by
    rw [h.sent]
    trivial

theorem Watched.add (h : b.Watched) {p : List UInt8} (hp : b.m_size + p.length < 2 ^ 31) :
    (b.add p).1.Watched := by
  have hledger := add_ledger h.ledger hp
  rw [TcpTxBuffer.add] at hledger ⊢
  split
  · rename_i hspace
    rw [if_pos hspace] at hledger
    split
    · rename_i hdata
      rw [if_pos hdata] at hledger
      exact ⟨hledger, h.highest, h.marked⟩
    · exact h
  · exact h

/-- One call of the run. -/
theorem Watched.call (h : b.Watched) {c : TxCall} (hc : b.LossStep c) (hok : b.call c = .ok b') :
    b'.Watched := by
  obtain ⟨hcall, ht, hsafe⟩ := hc
  cases c with
  | add p =>
    cases Except.ok.inj hok
    exact h.add hsafe
  | copyFromSequence n seq =>
    obtain ⟨found, hok⟩ := map_fst_eq_ok hok
    exact h.copyFromSequence ht hcall hok
  | discardUpTo seq => exact h.discardUpTo hcall hok
  | update list =>
    obtain ⟨n, hok⟩ := map_fst_eq_ok hok
    exact h.update ht hsafe hok
  | _ => exact hcall.elim

theorem Run.watched (h : Run LossStep b) : b.Watched := by
  induction h with
  | start b h => exact h.watched
  | step b b' c _ hc hok ih => exact ih.call hc hok

theorem Watched.marksLosses (h : b.Watched) : b.MarksLosses := ⟨h.highest, marked_iff.mp h.marked⟩

instance (b : TcpTxBuffer) (c : TxCall) : Decidable (b.LossCall c) :=
  match c with
  | .add _ | .update _ => inferInstanceAs (Decidable True)
  | .copyFromSequence _ seq => inferInstanceAs (Decidable (seq = b.sentEnd ∨
      ∃ item ∈ b.m_sentList, item.m_sacked = false ∧ item.m_startSeq = seq))
  | .discardUpTo seq => inferInstanceAs (Decidable
      (∃ item ∈ b.m_sentList, item.m_sacked = false ∧ item.m_startSeq = seq))
  | .markHeadAsLost | .setSentListLost _ | .addRenoSack | .resetRenoSack | .resetSentList
  | .resetLastSegmentSent | .deleteRetransmittedFlagFromHead | .setHeadSequence _ =>
    inferInstanceAs (Decidable False)

instance (b : TcpTxBuffer) (c : TxCall) : Decidable (b.LossSafe c) :=
  match c with
  | .add p => inferInstanceAs (Decidable (b.m_size + p.length < 2 ^ 31))
  | .update list => inferInstanceAs (Decidable (KeepsTop (sackedSpans 0 b.m_sentList)
        (optionSpans b.m_firstByteSeq b.sentEnd list b.m_sentList) ∧
      (optionSpans b.m_firstByteSeq b.sentEnd list b.m_sentList ≠ [] →
        ∀ block ∈ list, b.sentEnd.lt block.1 = false)))
  | .copyFromSequence _ _ | .discardUpTo _ | .markHeadAsLost | .setSentListLost _ | .addRenoSack
  | .resetRenoSack | .resetSentList | .resetLastSegmentSent | .deleteRetransmittedFlagFromHead
  | .setHeadSequence _ => inferInstanceAs (Decidable True)

instance (b : TcpTxBuffer) (c : TxCall) : Decidable (b.LossStep c) := by
  unfold LossStep
  infer_instance

/-- Three items are sent. -/
def threeSent : List TxCall :=
  [.add [1, 2, 3, 4, 5, 6], .copyFromSequence 2 ⟨0⟩, .copyFromSequence 2 ⟨2⟩,
    .copyFromSequence 2 ⟨4⟩]

/-- Two sacked items make the third one lost. -/
def twoDups : TcpTxBuffer := { m_firstByteSeq := ⟨0⟩, m_dupAckThresh := 2 }

theorem twoDups_empty : twoDups.Empty := ⟨rfl, rfl, rfl, rfl, by decide, rfl, rfl, rfl, rfl⟩

/-- The item below the highest sacked one is sacked, and the pair moves down to it. -/
theorem losses_missed : ¬∀ b list b' n, Run (fun b c => b.LossCall c ∧ 0 < b.m_dupAckThresh) b →
    b.update list = .ok (b', n) → 0 < n → b'.MarksLosses := by
  intro h
  have hrun : Run (fun b c => b.LossCall c ∧ 0 < b.m_dupAckThresh)
      (after twoDups (threeSent ++ [.update [(⟨4⟩, ⟨6⟩)]])) :=
    Run.follows (.start _ twoDups_empty)
      (by decide : Follows _ twoDups (threeSent ++ [.update [(⟨4⟩, ⟨6⟩)]]) _)
  have hok : (after twoDups (threeSent ++ [.update [(⟨4⟩, ⟨6⟩)]])).update [(⟨2⟩, ⟨4⟩)] =
      .ok (after twoDups (threeSent ++ [.update [(⟨4⟩, ⟨6⟩)], .update [(⟨2⟩, ⟨4⟩)]]), 2) := by
    decide +kernel
  have hhighest := (h _ _ _ _ hrun hok (by decide)).highest
  revert hhighest
  decide

/-- In every run whose options keep the cached pair, an unsacked item is lost if and only if enough
sacked items are above it. -/
theorem losses_marked (b : TcpTxBuffer) (h : Run LossStep b) : b.MarksLosses :=
    h.watched.marksLosses

theorem losses_marked_three :
    (after twoDups (threeSent ++ [.update [(⟨2⟩, ⟨4⟩), (⟨4⟩, ⟨6⟩)]])).MarksLosses :=
  losses_marked _ (Run.follows (.start _ twoDups_empty)
    (by decide : Follows LossStep twoDups
      (threeSent ++ [.update [(⟨2⟩, ⟨4⟩), (⟨4⟩, ⟨6⟩)]]) _))

end TcpTxBuffer

end Ns3.Internet
