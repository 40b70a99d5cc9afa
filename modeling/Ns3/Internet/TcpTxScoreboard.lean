import Ns3.Internet.TcpTxCounts

/-!
# The scoreboard of the send buffer

`Update`, `UpdateLostCount`, `MarkHeadAsLost`, `AddRenoSack` and `SetSentListLost` change the flags
of sent items and count them. They keep the items apart from the flags (`SameItems`) and the ledger.
-/

namespace Ns3.Internet

open Ns3.Network SequenceNumber32 Lib

/-- The item without its flags. -/
def TcpTxItem.plain (item : TcpTxItem) : TcpTxItem :=
  { item with m_lost := false, m_sacked := false, m_retrans := false }

/-- The items are the same, apart from the flags. -/
def SameItems (items items' : List TcpTxItem) : Prop :=
  items'.map TcpTxItem.plain = items.map TcpTxItem.plain

variable {flag : TcpTxItem → Bool} {items items' items'' : List TcpTxItem} {item item' : TcpTxItem}
  {start : SequenceNumber32}

theorem total_plain : total (items.map TcpTxItem.plain) = total items := by
  rw [total, List.map_map]
  rfl

theorem size_of_plain (h : item'.plain = item.plain) : item'.size = item.size := by
  have hsize : item'.plain.size = item.plain.size := by rw [h]
  exact hsize

theorem placed_plain : Placed start (items.map TcpTxItem.plain) ↔ Placed start items := by
  induction items generalizing start with
  | nil => exact Iff.rfl
  | cons item items ih => exact and_congr Iff.rfl ih

namespace SameItems

theorem refl (items : List TcpTxItem) : SameItems items items := rfl

theorem cons (hitem : item'.plain = item.plain) (h : SameItems items items') :
    SameItems (item :: items) (item' :: items') := by
  rw [SameItems, List.map_cons, List.map_cons, hitem, h]

theorem append {rest rest' : List TcpTxItem} (h : SameItems items items')
    (h' : SameItems rest rest') :
    SameItems (items ++ rest) (items' ++ rest') := by
  rw [SameItems, List.map_append, List.map_append, h, h']

theorem middle (pre post : List TcpTxItem) (hitem : item'.plain = item.plain) :
    SameItems (pre ++ item :: post) (pre ++ item' :: post) :=
  (refl pre).append ((refl post).cons hitem)

theorem map {f : TcpTxItem → TcpTxItem} (h : ∀ item, (f item).plain = item.plain) :
    SameItems items (items.map f) := by
  rw [SameItems, List.map_map]
  exact List.map_congr_left fun item _ => h item

theorem total (h : SameItems items items') : total items' = total items := by
  rw [← total_plain, h, total_plain]

theorem placed (h : SameItems items items') : Placed start items' ↔ Placed start items := by
  rw [← placed_plain, h, placed_plain]

/-- What an item is apart from the flags holds for the items of both lists. -/
theorem map_eq {α : Type} {f : TcpTxItem → α} (h : SameItems items items')
    (hf : ∀ item, f item.plain = f item) : items'.map f = items.map f := by
  have hplain : ∀ xs : List TcpTxItem, (xs.map TcpTxItem.plain).map f = xs.map f := by
    intro xs
    rw [List.map_map]
    exact List.map_congr_left fun item _ => hf item
  rw [← hplain, h, hplain]

theorem address (h : SameItems items items') :
    items'.map TcpTxItem.address = items.map TcpTxItem.address := h.map_eq fun _ => rfl

theorem full (h : SameItems items items') (hfull : ∀ item ∈ items, 0 < item.size) :
    ∀ item ∈ items', 0 < item.size := by
  have hsizes : items'.map TcpTxItem.size = items.map TcpTxItem.size := h.map_eq fun _ => rfl
  intro item hitem
  have hmem : item.size ∈ items.map TcpTxItem.size := hsizes ▸ List.mem_map_of_mem hitem
  obtain ⟨old, hold, hsize⟩ := List.mem_map.mp hmem
  rw [← hsize]
  exact hfull old hold

end SameItems

namespace TcpTxBuffer

variable {b b' : TcpTxBuffer}

/-- Flags may change if the counters do. -/
theorem Ledger.relabel (h : b.Ledger) (hsame : SameItems b.m_sentList items)
    {sackedOut lostOut retrans : ℕ} {highestSack : Option ℕ × SequenceNumber32}
    (hsacked : sackedOut = weight TcpTxItem.m_sacked items)
    (hlost : lostOut = weight TcpTxItem.m_lost items)
    (hretrans : retrans = weight TcpTxItem.m_retrans items) :
    Ledger { b with
      m_sentList := items
      m_highestSack := highestSack
      m_sackedOut := sackedOut
      m_lostOut := lostOut
      m_retrans := retrans } where
  sentSize := h.sentSize.trans hsame.total.symm
  size := by
    show b.m_size = total items + total b.m_appList
    rw [hsame.total]
    exact h.size
  size_lt := h.size_lt
  first_lt := h.first_lt
  full := by
    intro item hitem
    rcases List.mem_append.mp hitem with hitem | hitem
    · exact hsame.full h.full_sent item hitem
    · exact h.full item (List.mem_append_right _ hitem)
  placed := hsame.placed.mpr h.placed
  sackedOut := hsacked
  lostOut := hlost
  retrans := hretrans
  app := h.app
  nodup := by
    show ((items ++ b.m_appList).map TcpTxItem.address).Nodup
    rw [List.map_append, hsame.address, ← List.map_append]
    exact h.nodup
  lt := by
    intro item hitem
    rcases List.mem_append.mp hitem with hitem | hitem
    · have hmem : item.address ∈ b.m_sentList.map TcpTxItem.address :=
        hsame.address ▸ List.mem_map_of_mem hitem
      obtain ⟨old, hold, heq⟩ := List.mem_map.mp hmem
      rw [← heq]
      exact h.lt old (List.mem_append_left _ hold)
    · exact h.lt item (List.mem_append_right _ hitem)

theorem weight_lt (h : b.Ledger) (flag : TcpTxItem → Bool) : weight flag b.m_sentList < 2 ^ 31 :=
  (weight_le_total _ _).trans_lt h.total_sent_lt

/-- The counter after the flag of an item was taken back. -/
theorem takeFrom_weight {n k : ℕ} {on : Bool} (hn : n = (if on then k else 0) + weight flag items)
    (hlt : n < 2 ^ 32) : (if on then takeFrom n k else n) = weight flag items := by
  cases on with
  | false => simpa using hn
  | true =>
    simp only [if_true] at hn ⊢
    rw [takeFrom_of_le (by omega) hlt, hn]
    exact Nat.add_sub_cancel_left _ _

/-! ### MarkHeadAsLost and AddRenoSack -/

theorem markHeadAsLost_ledger (h : b.Ledger) : b.markHeadAsLost.Ledger := by
  rw [markHeadAsLost]
  cases hlist : b.m_sentList with
  | nil => exact h
  | cons head rest =>
    have hsame : SameItems b.m_sentList
        ({ head with m_sacked := false, m_retrans := false, m_lost := true } :: rest) := by
      rw [hlist]
      exact (SameItems.refl rest).cons rfl
    have hsacked := h.sackedOut
    have hretrans := h.retrans
    have hlost := h.lostOut
    have hslt := (weight_lt h TcpTxItem.m_sacked).trans (b := 2 ^ 31) (c := 2 ^ 32) (by decide)
    have hrlt := (weight_lt h TcpTxItem.m_retrans).trans (b := 2 ^ 31) (c := 2 ^ 32) (by decide)
    have htotal := h.total_sent_lt
    rw [hlist, weight_cons] at hsacked hretrans hlost hslt hrlt
    rw [hlist, total_cons] at htotal
    have hwlost := weight_le_total TcpTxItem.m_lost rest
    refine h.relabel hsame ?_ ?_ ?_
    · rw [takeFrom_weight hsacked (by omega), weight_cons]
      exact (Nat.zero_add _).symm
    · rw [weight_cons]
      cases hl : head.m_lost with
      | true =>
        rw [hl] at hlost
        exact hlost
      | false =>
        simp only [hl, Bool.false_eq_true, if_false, Nat.zero_add] at hlost ⊢
        rw [addTo_of_lt (by omega), hlost, Nat.add_comm]
        rfl
    · rw [takeFrom_weight hretrans (by omega), weight_cons]
      exact (Nat.zero_add _).symm

/-- The item that `AddRenoSack` finds. -/
theorem splitSacked_eq {before after : List TcpTxItem}
    (h : splitSacked items = some (before, item, after)) :
    items = before ++ item :: after ∧ item.m_sacked = false ∧ ∀ x ∈ before, x.m_sacked = true := by
  induction items generalizing before with
  | nil => cases h
  | cons x rest ih =>
    rw [splitSacked] at h
    split at h
    · rename_i hx
      obtain ⟨⟨before', item', after'⟩, hrest, heq⟩ := Option.map_eq_some_iff.mp h
      cases heq
      obtain ⟨rfl, hitem, hbefore⟩ := ih hrest
      refine ⟨rfl, hitem, ?_⟩
      intro y hy
      rcases List.mem_cons.mp hy with rfl | hy
      · exact hx
      · exact hbefore y hy
    · rename_i hx
      cases h
      exact ⟨rfl, Bool.eq_false_of_not_eq_true hx, fun y hy => (List.not_mem_nil hy).elim⟩

/-- `AddRenoSack` sacks the first item after the head that is not sacked, if there is one. -/
theorem addRenoSack_cases (hok : b.addRenoSack = .ok b') :
    b' = b ∨ ∃ head before item after, b.m_sentList = head :: (before ++ item :: after) ∧
      item.m_sacked = false ∧ (∀ x ∈ before, x.m_sacked = true) ∧
      b' = { b with
        m_sentList := head :: (before ++ { item with m_sacked := true } :: after)
        m_sackedOut := addTo b.m_sackedOut item.size
        m_highestSack := (some item.address, item.m_startSeq) } := by
  rw [addRenoSack] at hok
  obtain ⟨-, hok⟩ := check_bind_eq_ok.mp hok
  split at hok
  · cases hok
  · rename_i head rest hlist
    split at hok
    · exact Or.inl (pure_eq_ok.mp hok).symm
    · rename_i before item after hsplit
      obtain ⟨rfl, hitem, hbefore⟩ := splitSacked_eq hsplit
      exact Or.inr ⟨head, before, item, after, hlist, hitem, hbefore, (pure_eq_ok.mp hok).symm⟩

theorem addRenoSack_ledger (h : b.Ledger) (hok : b.addRenoSack = .ok b') : b'.Ledger := by
  obtain rfl | ⟨head, before, item, after, hlist, hitem, -, rfl⟩ := addRenoSack_cases hok
  · exact h
  · have hsame : SameItems b.m_sentList
        (head :: (before ++ { item with m_sacked := true } :: after)) := by
      rw [hlist]
      refine (SameItems.middle before after ?_).cons ?_
      · rfl
      · rfl
    have hsacked := h.sackedOut
    have htotal := h.total_sent_lt
    have hlost := h.lostOut
    have hretrans := h.retrans
    have hle := weight_le_total TcpTxItem.m_sacked b.m_sentList
    refine h.relabel hsame ?_ ?_ ?_
    · rw [addTo_of_lt]
      · rw [hsacked, hlist]
        simp only [weight_cons, weight_append, hitem, Bool.false_eq_true, if_false, if_true]
        show _ = _ + (_ + (item.size + _))
        omega
      · rw [hlist] at htotal hle
        simp only [total_cons, total_append] at htotal hle
        rw [hsacked, hlist]
        omega
    · rw [hlost, hlist]
      simp only [weight_cons, weight_append]
      rfl
    · rw [hretrans, hlist]
      simp only [weight_cons, weight_append]
      rfl

/-! ### SetSentListLost and the other resets -/

theorem foldl_addTo {n : ℕ} (h : n + total items < 2 ^ 32) :
    items.foldl (fun out item => addTo out item.size) n = n + total items := by
  induction items generalizing n with
  | nil => rfl
  | cons item items ih =>
    rw [total_cons] at h
    rw [List.foldl_cons, addTo_of_lt (by omega), ih (by omega), total_cons, Nat.add_assoc]

theorem weight_map {f : TcpTxItem → TcpTxItem} {other : TcpTxItem → Bool}
    (hsize : ∀ item, (f item).size = item.size) (hflag : ∀ item, flag (f item) = other item) :
    weight flag (items.map f) = weight other items := by
  induction items with
  | nil => rfl
  | cons item items ih => rw [List.map_cons, weight_cons, weight_cons, ih, hsize, hflag]

theorem weight_true : weight (fun _ => true) items = total items := by
  rw [weight, List.filter_eq_self.mpr fun _ _ => rfl]

theorem weight_false : weight (fun _ => false) items = 0 := weight_of_unflagged fun _ _ => rfl

theorem setSentListLost_ledger (h : b.Ledger) {resetSack : Bool}
    (hok : b.setSentListLost resetSack = .ok b') : b'.Ledger := by
  rw [setSentListLost] at hok
  obtain ⟨-, hok⟩ := check_bind_eq_ok.mp hok
  cases pure_eq_ok.mp hok
  have htotal := h.total_sent_lt
  refine h.relabel (SameItems.map ?_) ?_ ?_ ?_
  · exact fun _ => rfl
  · cases resetSack with
    | true =>
      refine Eq.symm (Eq.trans (weight_map ?_ ?_) weight_false)
      · exact fun _ => rfl
      · exact fun _ => rfl
    | false =>
      refine h.sackedOut.trans (Eq.symm (weight_map ?_ ?_))
      · exact fun _ => rfl
      · exact fun _ => rfl
  · cases resetSack with
    | true =>
      refine (h.sentSize.trans weight_true.symm).trans (Eq.symm (weight_map ?_ ?_))
      · exact fun _ => rfl
      · exact fun _ => rfl
    | false =>
      have hle := weight_le_total (fun item => item.m_lost || !item.m_sacked) b.m_sentList
      rw [weight] at hle
      refine (foldl_addTo (n := 0) (by simp only [Bool.false_or]; omega)).trans ?_
      rw [Nat.zero_add]
      refine Eq.symm (weight_map ?_ ?_)
      · exact fun _ => rfl
      · exact fun _ => rfl
  · refine Eq.symm (Eq.trans (weight_map ?_ ?_) weight_false)
    · exact fun _ => rfl
    · exact fun _ => rfl

/-! ### Update -/

/-- What a block of the option may do to an item. -/
def Sacks (x y : TcpTxItem) : Prop :=
  y = x ∨ x.m_sacked = false ∧ y = { x with m_sacked := true, m_lost := false }

/-- What the duplicate threshold may do to an item. -/
def Loses (x y : TcpTxItem) : Prop := y = x ∨ x.m_lost = false ∧ y = { x with m_lost := true }

theorem Sacks.plain {x y : TcpTxItem} (h : Sacks x y) : y.plain = x.plain := by
  rcases h with rfl | ⟨-, rfl⟩
  · rfl
  · rfl

theorem Sacks.retrans {x y : TcpTxItem} (h : Sacks x y) : y.m_retrans = x.m_retrans := by
  rcases h with rfl | ⟨-, rfl⟩
  · rfl
  · rfl

theorem Loses.plain {x y : TcpTxItem} (h : Loses x y) : y.plain = x.plain := by
  rcases h with rfl | ⟨-, rfl⟩
  · rfl
  · rfl

theorem Loses.retrans {x y : TcpTxItem} (h : Loses x y) : y.m_retrans = x.m_retrans := by
  rcases h with rfl | ⟨-, rfl⟩
  · rfl
  · rfl

theorem Loses.sacked {x y : TcpTxItem} (h : Loses x y) : y.m_sacked = x.m_sacked := by
  rcases h with rfl | ⟨-, rfl⟩
  · rfl
  · rfl

theorem sameItems_of_forall₂ {R : TcpTxItem → TcpTxItem → Prop}
    (hR : ∀ x y, R x y → y.plain = x.plain) (h : List.Forall₂ R items items') :
    SameItems items items' := by
  induction h with
  | nil => rfl
  | cons hxy _ ih => exact ih.cons (hR _ _ hxy)

theorem weight_of_forall₂ {R : TcpTxItem → TcpTxItem → Prop}
    (hR : ∀ x y, R x y → y.plain = x.plain ∧ flag y = flag x) (h : List.Forall₂ R items items') :
    weight flag items' = weight flag items := by
  induction h with
  | nil => rfl
  | cons hxy _ ih =>
    obtain ⟨hplain, hflag⟩ := hR _ _ hxy
    have hsize := size_of_plain hplain
    rw [weight_cons, weight_cons, ih, hflag]
    congr 2

/-- The counters, for the items of the end of a list: `k` and `l` are for those before. -/
def Marks.Counts (m : Marks) (k l : ℕ) (items : List TcpTxItem) : Prop :=
  m.sackedOut = k + weight TcpTxItem.m_sacked items ∧ m.lostOut = l + weight TcpTxItem.m_lost items

theorem Marks.counts_cons {m : Marks} {k l : ℕ} : m.Counts k l (item :: items) ↔
    m.Counts (k + if item.m_sacked then item.size else 0) (l + if item.m_lost then item.size else 0)
      items := by
  rw [Counts, Counts, weight_cons, weight_cons, Nat.add_assoc, Nat.add_assoc]

theorem sackItem_sacks {m m' : Marks} {k l : ℕ} (hm : m.Counts k l (item :: items))
    (hk : k + total (item :: items) < 2 ^ 32) (hl : l + total (item :: items) < 2 ^ 32)
    (hok : sackItem start item m = .ok (item', m')) :
    Sacks item item' ∧ m'.Counts k l (item' :: items) := by
  rw [sackItem] at hok
  split at hok
  · obtain ⟨-, hok⟩ := check_bind_eq_ok.mp hok
    cases pure_eq_ok.mp hok
    exact ⟨Or.inl rfl, hm⟩
  · rename_i hs
    cases pure_eq_ok.mp hok
    have hs := Bool.eq_false_of_not_eq_true hs
    obtain ⟨hsacked, hlost⟩ := hm
    rw [weight_cons, hs] at hsacked
    rw [total_cons] at hk hl
    have hle := weight_le_total TcpTxItem.m_sacked items
    have hle' := weight_le_total TcpTxItem.m_lost items
    refine ⟨Or.inr ⟨hs, rfl⟩, ?_, ?_⟩
    · simp only [Bool.false_eq_true, if_false] at hsacked
      show addTo m.sackedOut item.size = _
      rw [addTo_of_lt (by omega), weight_cons]
      show _ = k + (item.size + _)
      omega
    · show (if item.m_lost then takeFrom m.lostOut item.size else m.lostOut) = _
      rw [weight_cons] at hlost ⊢
      show _ = l + (0 + _)
      cases hitem : item.m_lost with
      | true =>
        rw [hitem] at hlost
        simp only [if_true] at hlost ⊢
        rw [takeFrom_of_le (by omega) (by omega)]
        omega
      | false =>
        rw [hitem] at hlost
        exact hlost

theorem forall₂_refl {R : TcpTxItem → TcpTxItem → Prop} (hR : ∀ x, R x x) (items : List TcpTxItem) :
    List.Forall₂ R items items := List.forall₂_same.mpr fun x _ => hR x

theorem sackBlock_sacks {block : SequenceNumber32 × SequenceNumber32} {m m' : Marks} {k l : ℕ}
    (hm : m.Counts k l items) (hk : k + total items < 2 ^ 32) (hl : l + total items < 2 ^ 32)
    (hok : sackBlock block start items m = .ok (items', m')) :
    List.Forall₂ Sacks items items' ∧ m'.Counts k l items' := by
  induction items generalizing start m k l items' with
  | nil =>
    cases pure_eq_ok.mp hok
    exact ⟨.nil, hm⟩
  | cons item rest ih =>
    rw [sackBlock] at hok
    dsimp only at hok
    split at hok
    · obtain ⟨⟨item1, m1⟩, hitem, hok⟩ := bind_eq_ok.mp hok
      obtain ⟨⟨rest1, m2⟩, hrest, hok⟩ := bind_eq_ok.mp hok
      cases pure_eq_ok.mp hok
      obtain ⟨hsacks, hm1⟩ := sackItem_sacks hm hk hl hitem
      have hsize := size_of_plain hsacks.plain
      rw [total_cons] at hk hl
      obtain ⟨hforall, hm2⟩ := ih (Marks.counts_cons.mp hm1) (by split <;> omega)
        (by split <;> omega)
        hrest
      exact ⟨hforall.cons hsacks, Marks.counts_cons.mpr hm2⟩
    · split at hok
      · cases pure_eq_ok.mp hok
        exact ⟨forall₂_refl (fun x => Or.inl rfl) _, hm⟩
      · obtain ⟨⟨rest1, m2⟩, hrest, hok⟩ := bind_eq_ok.mp hok
        cases pure_eq_ok.mp hok
        rw [total_cons] at hk hl
        obtain ⟨hforall, hm2⟩ := ih (Marks.counts_cons.mp hm) (by split <;> omega)
          (by split <;> omega) hrest
        exact ⟨hforall.cons (Or.inl rfl), Marks.counts_cons.mpr hm2⟩

theorem Sacks.trans {x y z : TcpTxItem} (h : Sacks x y) (h' : Sacks y z) : Sacks x z := by
  rcases h with rfl | ⟨hx, rfl⟩
  · exact h'
  · rcases h' with rfl | ⟨hy, -⟩
    · exact Or.inr ⟨hx, rfl⟩
    · cases hy

theorem forall₂_trans {R : TcpTxItem → TcpTxItem → Prop} (hR : ∀ x y z, R x y → R y z → R x z)
    (h : List.Forall₂ R items items') (h' : List.Forall₂ R items' items'') :
    List.Forall₂ R items items'' := by
  induction h generalizing items'' with
  | nil => exact h'
  | cons hxy _ ih =>
    cases h' with
    | cons hyz hrest => exact (ih hrest).cons (hR _ _ _ hxy hyz)

theorem sackBlocks_sacks {first sentEnd : SequenceNumber32}
    {blocks : List (SequenceNumber32 × SequenceNumber32)} {m m' : Marks} {ended : Bool}
    (hm : m.Counts 0 0 items) (hlt : total items < 2 ^ 32)
    (hok : sackBlocks first sentEnd blocks items m = .ok (items', m', ended)) :
    List.Forall₂ Sacks items items' ∧ m'.Counts 0 0 items' := by
  induction blocks generalizing items m with
  | nil =>
    cases pure_eq_ok.mp hok
    exact ⟨forall₂_refl (fun x => Or.inl rfl) _, hm⟩
  | cons block blocks ih =>
    rw [sackBlocks] at hok
    split at hok
    · cases pure_eq_ok.mp hok
      exact ⟨forall₂_refl (fun x => Or.inl rfl) _, hm⟩
    · obtain ⟨⟨items1, m1⟩, hblock, hok⟩ := bind_eq_ok.mp hok
      obtain ⟨hsacks, hm1⟩ := sackBlock_sacks hm (by omega) (by omega) hblock
      have htotal := (sameItems_of_forall₂ (fun _ _ h => Sacks.plain h) hsacks).total
      obtain ⟨hsacks', hm'⟩ := ih hm1 (htotal ▸ hlt) hok
      exact ⟨forall₂_trans (fun _ _ _ => Sacks.trans) hsacks hsacks', hm'⟩

theorem markLost_loses (dupAckThresh : ℕ) (items : List TcpTxItem) :
    List.Forall₂ Loses items (markLost dupAckThresh items).2.1 ∧
      weight TcpTxItem.m_lost (markLost dupAckThresh items).2.1 =
        weight TcpTxItem.m_lost items + (markLost dupAckThresh items).2.2 := by
  induction items with
  | nil => exact ⟨.nil, rfl⟩
  | cons item rest ih =>
    obtain ⟨hloses, hlost⟩ := ih
    rw [markLost]
    dsimp only
    generalize (if item.m_sacked = true then (markLost dupAckThresh rest).1 + 1
      else (markLost dupAckThresh rest).1) = sacked
    split
    · rename_i hnew
      refine ⟨hloses.cons (Or.inr ⟨hnew.2.2, rfl⟩), ?_⟩
      rw [weight_cons, weight_cons, hlost, hnew.2.2]
      show item.size + _ = 0 + _ + ((markLost dupAckThresh rest).2.2 + item.size)
      omega
    · refine ⟨hloses.cons (Or.inl rfl), ?_⟩
      rw [weight_cons, weight_cons, hlost, Nat.add_assoc]

theorem splitAt_eq {a : ℕ} {upTo after : List TcpTxItem}
    (h : splitAt a items = some (upTo, after)) :
    items = upTo ++ after := by
  induction items generalizing upTo with
  | nil => cases h
  | cons item rest ih =>
    rw [splitAt] at h
    split at h
    · cases h
      rfl
    · obtain ⟨⟨upTo', after'⟩, hrest, heq⟩ := Option.map_eq_some_iff.mp h
      cases heq
      rw [ih hrest, List.cons_append]

/-- What `UpdateLostCount` does: items up to the cached one may become lost. -/
theorem updateLostCount_loses (h : b.Ledger) (hok : b.updateLostCount = .ok b') :
    List.Forall₂ Loses b.m_sentList b'.m_sentList ∧ b' = { b with
      m_sentList := b'.m_sentList
      m_lostOut := weight TcpTxItem.m_lost b'.m_sentList } := by
  rw [updateLostCount] at hok
  split at hok
  · cases hok
  · cases hok
  · rename_i head upTo after hsplit
    obtain ⟨a, -, hsplit⟩ := Option.bind_eq_some_iff.mp hsplit
    have hlist := splitAt_eq hsplit
    dsimp only at hok
    cases pure_eq_ok.mp hok
    obtain ⟨hloses, hlost⟩ := markLost_loses b.m_dupAckThresh upTo
    generalize markLost b.m_dupAckThresh upTo = r at hloses hlost ⊢
    obtain ⟨sacked, upTo1, lost⟩ := r
    dsimp only at hloses hlost ⊢
    have hold := h.lostOut
    have htotal := h.total_sent_lt
    rw [hlist] at hold htotal
    simp only [List.cons_append, weight_cons, weight_append] at hold
    have hplain := (sameItems_of_forall₂ (fun _ _ h => Loses.plain h) hloses).total
    have hle := weight_le_total TcpTxItem.m_lost upTo1
    have hle' := weight_le_total TcpTxItem.m_lost after
    simp only [List.cons_append, total_cons, total_append] at htotal
    constructor
    · rw [hlist]
      refine List.rel_append ?_ (forall₂_refl (fun x => Or.inl rfl) after)
      refine .cons ?_ hloses
      split
      · rename_i hnew
        exact Or.inr ⟨hnew.2, rfl⟩
      · exact Or.inl rfl
    · congr 1
      simp only [List.cons_append, weight_cons, weight_append]
      split
      · rename_i hnew
        rw [hnew.2] at hold
        simp only [Bool.false_eq_true, if_false, if_true] at hold ⊢
        rw [addTo_of_lt (by omega), hold, hlost]
        show _ = head.size + _
        omega
      · have hhead : (if head.m_lost then head.size else 0) ≤ head.size := by
          split
          · exact le_rfl
          · exact Nat.zero_le _
        rw [addTo_of_lt (by omega), hold, hlost]
        omega

theorem updateLostCount_ledger (h : b.Ledger) (hok : b.updateLostCount = .ok b') : b'.Ledger := by
  obtain ⟨hloses, heq⟩ := updateLostCount_loses h hok
  have hsame := sameItems_of_forall₂ (fun _ _ h => Loses.plain h) hloses
  rw [heq]
  refine h.relabel hsame ?_ rfl ?_
  · rw [h.sackedOut]
    exact (weight_of_forall₂ (fun _ _ h => ⟨h.plain, h.sacked⟩) hloses).symm
  · rw [h.retrans]
    exact (weight_of_forall₂ (fun _ _ h => ⟨h.plain, h.retrans⟩) hloses).symm

/-- The buffer after the blocks of the option, before the lost items are counted. -/
def scored (b : TcpTxBuffer) (items : List TcpTxItem) (m : Marks) : TcpTxBuffer :=
  { b with
    m_sentList := items
    m_highestSack := m.highestSack
    m_lostOut := m.lostOut
    m_sackedOut := m.sackedOut }

/-- The marks that `Update` starts with. -/
def marks (b : TcpTxBuffer) : Marks :=
  { highestSack := b.m_highestSack, lostOut := b.m_lostOut, sackedOut := b.m_sackedOut }

theorem scored_ledger (h : b.Ledger) {blocks : List (SequenceNumber32 × SequenceNumber32)}
    {m : Marks} {ended : Bool}
    (hok : sackBlocks b.m_firstByteSeq b.sentEnd blocks b.m_sentList b.marks =
      .ok (items, m, ended)) : (b.scored items m).Ledger := by
  have htotal := h.total_sent_lt
  obtain ⟨hsacks, hsacked, hlost⟩ := sackBlocks_sacks
    ⟨h.sackedOut.trans (Nat.zero_add _).symm, h.lostOut.trans (Nat.zero_add _).symm⟩ (by omega) hok
  refine h.relabel (sameItems_of_forall₂ (fun _ _ h => Sacks.plain h) hsacks) ?_ ?_ ?_
  · rw [hsacked, Nat.zero_add]
  · rw [hlost, Nat.zero_add]
  · rw [h.retrans]
    exact (weight_of_forall₂ (fun _ _ h => ⟨h.plain, h.retrans⟩) hsacks).symm

/-- The end of `Update`: the head is not sacked. -/
theorem update_end {b1 : TcpTxBuffer} {k n : ℕ}
    (hok : (b1.sentHead >>= fun head => check (head.m_sacked = false) >>= fun _ =>
      check (addTo b1.m_sackedOut b1.m_lostOut ≤ b1.m_sentSize) >>= fun _ => pure (b1, k)) =
        .ok (b', n)) : b1 = b' ∧ k = n ∧ ∀ head ∈ b1.m_sentList.head?, head.m_sacked = false := by
  obtain ⟨head, hhead, hok⟩ := bind_eq_ok.mp hok
  obtain ⟨hsacked, hok⟩ := check_bind_eq_ok.mp hok
  obtain ⟨-, hok⟩ := check_bind_eq_ok.mp hok
  cases pure_eq_ok.mp hok
  refine ⟨rfl, rfl, ?_⟩
  intro x hx
  rw [sentHead] at hhead
  split at hhead
  · cases hhead
  · rename_i hlist
    cases pure_eq_ok.mp hhead
    rw [hlist] at hx
    cases hx
    exact hsacked

/-- The stages of `Update`. -/
theorem update_cases {blocks : List (SequenceNumber32 × SequenceNumber32)} {n : ℕ}
    (hok : b.update blocks = .ok (b', n)) : ∃ items m ended,
      sackBlocks b.m_firstByteSeq b.sentEnd blocks b.m_sentList b.marks = .ok (items, m, ended) ∧
      n = m.bytesSacked ∧
      (ended = false ∧ b' = b.scored items m ∨
        ended = true ∧ (if 0 < m.bytesSacked then (b.scored items m).updateLostCount
          else .ok (b.scored items m)) = .ok b' ∧
        ∀ head ∈ b'.m_sentList.head?, head.m_sacked = false) := by
  rw [update] at hok
  obtain ⟨⟨items, m, ended⟩, hblocks, hok⟩ := bind_eq_ok.mp hok
  refine ⟨items, m, ended, hblocks, ?_⟩
  dsimp only at hok
  cases ended with
  | false =>
    cases pure_eq_ok.mp hok
    exact ⟨rfl, Or.inl ⟨rfl, rfl⟩⟩
  | true =>
    rw [if_pos rfl] at hok
    split at hok
    · rename_i hpos
      obtain ⟨b1, hlost, hok⟩ := bind_eq_ok.mp hok
      obtain ⟨rfl, rfl, hhead⟩ := update_end hok
      exact ⟨rfl, Or.inr ⟨rfl, (if_pos hpos).trans hlost, hhead⟩⟩
    · rename_i hzero
      obtain ⟨b1, hlost, hok⟩ := bind_eq_ok.mp hok
      obtain ⟨rfl, rfl, hhead⟩ := update_end hok
      exact ⟨rfl, Or.inr ⟨rfl, (if_neg hzero).trans hlost, hhead⟩⟩

theorem update_ledger (h : b.Ledger) {blocks : List (SequenceNumber32 × SequenceNumber32)} {n : ℕ}
    (hok : b.update blocks = .ok (b', n)) : b'.Ledger := by
  obtain ⟨items, m, ended, hblocks, -, hcases⟩ := update_cases hok
  have hscored := scored_ledger h hblocks
  rcases hcases with ⟨-, rfl⟩ | ⟨-, hlost, -⟩
  · exact hscored
  · split at hlost
    · exact updateLostCount_ledger hscored hlost
    · cases hlost
      exact hscored

end TcpTxBuffer

end Ns3.Internet
