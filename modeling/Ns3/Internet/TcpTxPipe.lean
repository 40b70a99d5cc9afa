import Ns3.Internet.TcpTxRun

/-!
# The pipe estimate

`BytesInFlight` against the pipe of RFC 6675, which is a sum over the items. The two agree while no
item is both sacked and lost or retransmitted (`Clean`). An item becomes sacked and retransmitted
when a block covers a retransmitted item; it may become sacked and lost when the head of the list,
found sacked after a cumulative acknowledgement, gives its flag to another item.
-/

namespace Ns3.Internet

open Ns3.Network SequenceNumber32 Lib

/-- A sacked item is neither lost nor retransmitted. -/
def TcpTxItem.Clean (item : TcpTxItem) : Prop :=
  item.m_sacked = true → item.m_lost = false ∧ item.m_retrans = false

namespace TcpTxBuffer

/-- The pipe of RFC 6675. -/
def pipe (b : TcpTxBuffer) : ℕ :=
  weight (fun item => !item.m_sacked && !item.m_lost) b.m_sentList +
    weight (fun item => !item.m_sacked && item.m_retrans) b.m_sentList

/-- `BytesInFlight` returns the pipe, and none of its operations wraps around. -/
structure EstimatesPipe (b : TcpTxBuffer) : Prop where
  eq : b.bytesInFlight = .ok b.pipe
  le : b.m_sackedOut + b.m_lostOut ≤ b.m_sentSize
  lt : b.m_sentSize - (b.m_sackedOut + b.m_lostOut) + b.m_retrans < 2 ^ 32

/-- The items that a block of the option covers, as the loop of `Update` finds them. -/
def covered (block : SequenceNumber32 × SequenceNumber32) :
    SequenceNumber32 → List TcpTxItem → List TcpTxItem
  | _, [] => []
  | start, item :: rest =>
    let stop := plus start item.size
    if start.ge block.1 = true ∧ stop.le block.2 = true then item :: covered block stop rest
    else if stop.gt block.2 then []
    else covered block stop rest

/-- The blocks that `Update` uses: those before the first one that starts above SND.NXT. -/
def usedBlocks (b : TcpTxBuffer) (list : List (SequenceNumber32 × SequenceNumber32)) :
    List (SequenceNumber32 × SequenceNumber32) := list.takeWhile fun block => !b.sentEnd.lt block.1

/-- The items from the one in which the first `n` bytes end. -/
def leftAfter : ℕ → List TcpTxItem → List TcpTxItem
  | _, [] => []
  | n, item :: rest => if n < item.size then item :: rest else leftAfter (n - item.size) rest

/-- If the head is sacked, the item that takes its flag is neither lost nor retransmitted. -/
def HeadGives : List TcpTxItem → Prop
  | [] => True
  | head :: rest => head.m_sacked = true →
    ∀ item ∈ rest.find? fun item => !item.m_sacked, item.m_lost = false ∧ item.m_retrans = false

/-- The calls in question, with their arguments. -/
def SackCall (b : TcpTxBuffer) : TxCall → Prop
  | .add _ => True
  | .copyFromSequence _ seq =>
    seq = b.sentEnd ∨ ∃ item ∈ b.m_sentList, item.m_sacked = false ∧ item.m_startSeq = seq
  | .discardUpTo seq => seq.m_value < 2 ^ 32
  | .update _ => True
  | .markHeadAsLost => True
  | .setSentListLost _ => True
  | _ => False

/-- No retransmitted item is sacked, and no lost or retransmitted one takes the flag of the head. -/
def PipeSafe (b : TcpTxBuffer) : TxCall → Prop
  | .add p => b.m_size + p.length < 2 ^ 31
  | .discardUpTo seq => b.m_firstByteSeq.ge seq = true ∨
    HeadGives (leftAfter (toUint32 (seq.sub b.m_firstByteSeq)) b.m_sentList)
  | .update list => ∀ block ∈ b.usedBlocks list,
    ∀ item ∈ covered block b.m_firstByteSeq b.m_sentList, item.m_sacked = false →
    item.m_retrans = false
  | _ => True

variable {b b' : TcpTxBuffer} {items items' : List TcpTxItem} {item : TcpTxItem}

/-- The sum of the pipe over a clean list. -/
theorem weight_clean (h : ∀ item ∈ items, item.Clean) :
    weight (fun item => !item.m_sacked && !item.m_lost) items +
      (weight TcpTxItem.m_sacked items + weight TcpTxItem.m_lost items) = total items ∧
    weight (fun item => !item.m_sacked && item.m_retrans) items =
      weight TcpTxItem.m_retrans items := by
  induction items with
  | nil => exact ⟨rfl, rfl⟩
  | cons item items ih =>
    obtain ⟨hsum, hretrans⟩ := ih fun x hx => h x (List.mem_cons_of_mem item hx)
    have hclean := h item List.mem_cons_self
    simp only [weight_cons, total_cons, hretrans]
    generalize weight (fun item => !item.m_sacked && !item.m_lost) items = w at hsum ⊢
    cases hs : item.m_sacked with
    | true =>
      obtain ⟨hl, hr⟩ := hclean hs
      simp only [hl, hr, Bool.not_true, Bool.false_and, Bool.false_eq_true, if_false, if_true,
        and_true]
      omega
    | false =>
      cases hl : item.m_lost <;>
        simp only [Bool.not_true, Bool.not_false, Bool.true_and, Bool.false_eq_true, if_false,
          if_true, and_true] <;> omega

theorem Ledger.estimatesPipe (h : b.Ledger) (hclean : ∀ item ∈ b.m_sentList, item.Clean) :
    b.EstimatesPipe := by
  obtain ⟨hsum, hretrans⟩ := weight_clean hclean
  have htotal := h.total_sent_lt
  have hle := weight_le_total TcpTxItem.m_retrans b.m_sentList
  rw [← h.sackedOut, ← h.lostOut, ← h.sentSize] at hsum
  rw [← h.sentSize] at htotal
  rw [← h.retrans, ← h.sentSize] at hle
  refine ⟨?_, by omega, by omega⟩
  have hleft : addTo b.m_sackedOut b.m_lostOut = b.m_sackedOut + b.m_lostOut :=
    addTo_of_lt (by omega)
  rw [bytesInFlight, bind_of_eq (check_of (by rw [hleft]; omega)), hleft,
    takeFrom_of_le (by omega) (by omega), addTo_of_lt (by omega), pipe, hretrans, ← h.retrans]
  congr 2
  omega

/-! ### Each call keeps the items clean -/

theorem clean_of_keeps {e e' : Edit} (h : Keeps e e') (hclean : ∀ item ∈ e.list, item.Clean) :
    ∀ item ∈ e'.list, item.Clean := by
  intro item' hitem' hsacked
  obtain ⟨item, hitem, hs, hl, hr⟩ := h.flags item' hitem'
  obtain ⟨hlost, hretrans⟩ := hclean item hitem (hs ▸ hsacked)
  refine ⟨hl.trans hlost, Bool.eq_false_of_not_eq_true ?_⟩
  intro htrue
  exact Bool.false_ne_true (hretrans.symm.trans (hr htrue))

theorem clean_of_unsacked (h : item.m_sacked = false) : item.Clean := fun hs =>
  absurd (h.symm.trans hs) Bool.false_ne_true

theorem Copies.clean {found : Option TcpTxItem} (hc : Copies b found b')
    (hclean : ∀ item ∈ b.m_sentList, item.Clean) : ∀ item ∈ b'.m_sentList, item.Clean := by
  cases hc with
  | nothing => exact hclean
  | resend item _ e pre post hr hsacked =>
    have hkept := clean_of_keeps hr.keeps hclean
    obtain ⟨r, hlist⟩ := hr.list
    rw [hlist] at hkept
    rw [hr.eq]
    intro x hx
    rcases List.mem_append.mp hx with hx | hx
    · exact hkept x (by simp [hx])
    · rcases List.mem_cons.mp hx with rfl | hx
      · exact clean_of_unsacked hsacked
      · exact hkept x (by simp [hx])
  | send item _ e pre post hs =>
    rw [hs.eq]
    intro x hx
    rcases List.mem_append.mp hx with hx | hx
    · exact hclean x hx
    · rw [List.mem_singleton.mp hx]
      exact clean_of_unsacked hs.unflagged.sacked

theorem clean_trim {n : ℕ} {rest : List TcpTxItem} (hclean : ∀ x ∈ item :: rest, x.Clean) :
    ∀ x ∈ trim n item rest, x.Clean := by
  intro x hx
  rw [trim] at hx
  split at hx
  · rcases List.mem_cons.mp hx with rfl | hx
    · exact hclean item List.mem_cons_self
    · exact hclean x (List.mem_cons_of_mem item hx)
  · exact hclean x (List.mem_cons_of_mem item hx)

theorem Trims.clean {rest : List TcpTxItem} {n : ℕ} (ht : Trims b item rest n b')
    (hclean : ∀ x ∈ b.m_sentList, x.Clean) : ∀ x ∈ b'.m_sentList, x.Clean := by
  rw [ht.eq]
  exact clean_trim (ht.list ▸ hclean)

theorem Trimmed.clean {n : ℕ} (ht : Trimmed b n b') (hclean : ∀ x ∈ b.m_sentList, x.Clean) :
    ∀ x ∈ b'.m_sentList, x.Clean := by
  induction ht with
  | done b n _ => exact hclean
  | drop b b1 b' item rest n htrims _ _ ih => exact ih (htrims.clean hclean)
  | cut b b' item rest n htrims _ _ => exact htrims.clean hclean
  | send b b1 b' item e pre post n _ hs _ ih =>
    exact ih ((Copies.send _ _ e pre post hs).clean hclean)

theorem markHeadAsLost_clean (hclean : ∀ x ∈ b.m_sentList, x.Clean) :
    ∀ x ∈ b.markHeadAsLost.m_sentList, x.Clean := by
  rw [markHeadAsLost]
  split
  · exact hclean
  · rename_i head rest hlist
    rw [hlist] at hclean
    intro x hx
    rcases List.mem_cons.mp hx with rfl | hx
    · exact clean_of_unsacked rfl
    · exact hclean x (List.mem_cons_of_mem head hx)

theorem addRenoSack_clean (hclean : ∀ x ∈ b.m_sentList, x.Clean)
    (hfree : ∀ head before item after, b.m_sentList = head :: (before ++ item :: after) →
      (∀ y ∈ before, y.m_sacked = true) → item.m_sacked = false →
        item.m_lost = false ∧ item.m_retrans = false)
    (hok : b.addRenoSack = .ok b') : ∀ x ∈ b'.m_sentList, x.Clean := by
  obtain rfl | ⟨head, before, item, after, hlist, hitem, hbefore, rfl⟩ := addRenoSack_cases hok
  · exact hclean
  · have hitem := hfree head before item after hlist hbefore hitem
    rw [hlist] at hclean
    intro x hx
    have hx : x = head ∨ x ∈ before ∨ x = { item with m_sacked := true } ∨ x ∈ after := by
      simpa only [List.mem_cons, List.mem_append] using hx
    rcases hx with rfl | hx | rfl | hx
    · exact hclean x List.mem_cons_self
    · exact hclean x (by simp [hx])
    · exact fun _ => hitem
    · exact hclean x (by simp [hx])

theorem leftAfter_append {pre rest : List TcpTxItem} {n : ℕ} (hle : total pre ≤ n)
    (hlt : n < total pre + item.size) : leftAfter n (pre ++ item :: rest) = item :: rest := by
  induction pre generalizing n with
  | nil => exact if_pos (by rwa [total_nil, Nat.zero_add] at hlt)
  | cons x pre ih =>
    rw [total_cons] at hle hlt
    rw [List.cons_append, leftAfter, if_neg (by omega)]
    exact ih (by omega) (by omega)

theorem discardUpTo_clean (h : b.Ledger) {seq : SequenceNumber32}
    (hclean : ∀ x ∈ b.m_sentList, x.Clean) (hsafe : b.PipeSafe (.discardUpTo seq))
    (hok : b.discardUpTo seq = .ok b') : ∀ x ∈ b'.m_sentList, x.Clean := by
  obtain rfl | ⟨b1, b2, hge, htrimmed, hrepair, -, rfl⟩ := discardUpTo_cases h hok
  · exact hclean
  · have hlist : ∀ c : TcpTxBuffer, (if c.m_highestSack.2.le c.m_firstByteSeq then
        { c with m_highestSack := (none, ⟨0⟩) } else c).m_sentList = c.m_sentList := by
      intro c
      split
      · rfl
      · rfl
    have hlist1 : (if b1.m_size = 0 then { b1 with m_firstByteSeq := seq } else b1).m_sentList =
        b1.m_sentList := by
      split
      · rfl
      · rfl
    have hclean1 := htrimmed.clean hclean
    rw [hlist]
    rcases repairHead_cases hrepair with ⟨rfl, -⟩ | ⟨head, rest, b3, hhead, hsacked, -, hreno, rfl⟩
    · rw [hlist1]
      exact hclean1
    · rw [hlist1] at hhead
      obtain ⟨pre, x, hsplit, hx, hle, hlt⟩ := htrimmed.head h hhead hsacked
      apply markHeadAsLost_clean
      refine addRenoSack_clean ?_ ?_ hreno
      · intro y hy
        rcases List.mem_cons.mp hy with rfl | hy
        · exact clean_of_unsacked rfl
        · exact hclean1 y (by rw [hhead]; exact List.mem_cons_of_mem head hy)
      · -- the flag goes to the first item after `x` that is not sacked
        intro head' before item after heq hbefore hitem
        cases heq
        rcases hsafe with hsafe | hsafe
        · rw [hge] at hsafe
          cases hsafe
        · rw [hsplit, leftAfter_append hle hlt] at hsafe
          apply hsafe hx
          rw [Option.mem_def, List.find?_append, List.find?_eq_none.mpr, Option.none_or,
            List.find?_cons_of_pos]
          · simp [hitem]
          · intro y hy
            simp [hbefore y hy]

theorem setSentListLost_clean {resetSack : Bool} (hclean : ∀ x ∈ b.m_sentList, x.Clean)
    (hok : b.setSentListLost resetSack = .ok b') : ∀ x ∈ b'.m_sentList, x.Clean := by
  rw [setSentListLost] at hok
  obtain ⟨-, hok⟩ := check_bind_eq_ok.mp hok
  cases pure_eq_ok.mp hok
  intro x hx
  obtain ⟨y, hy, rfl⟩ := List.mem_map.mp hx
  cases resetSack with
  | true => exact clean_of_unsacked rfl
  | false =>
    intro hs
    have hs : y.m_sacked = true := hs
    refine ⟨?_, rfl⟩
    show (false || y.m_lost || !y.m_sacked) = false
    rw [(hclean y hy hs).1, hs]
    rfl

theorem sackItem_clean {start : SequenceNumber32} {item' : TcpTxItem} {m m' : Marks}
    (hclean : item.Clean) (hsafe : item.m_sacked = false → item.m_retrans = false)
    (hok : sackItem start item m = .ok (item', m')) : item'.Clean := by
  rw [sackItem] at hok
  split at hok
  · obtain ⟨-, hok⟩ := check_bind_eq_ok.mp hok
    cases pure_eq_ok.mp hok
    exact hclean
  · rename_i hs
    cases pure_eq_ok.mp hok
    exact fun _ => ⟨rfl, hsafe (Bool.eq_false_of_not_eq_true hs)⟩

theorem sackBlock_clean {block : SequenceNumber32 × SequenceNumber32} {start : SequenceNumber32}
    {m m' : Marks} (hclean : ∀ x ∈ items, x.Clean)
    (hsafe : ∀ x ∈ covered block start items, x.m_sacked = false → x.m_retrans = false)
    (hok : sackBlock block start items m = .ok (items', m')) : ∀ x ∈ items', x.Clean := by
  induction items generalizing start m items' with
  | nil =>
    cases pure_eq_ok.mp hok
    exact hclean
  | cons item rest ih =>
    have hrest : ∀ x ∈ rest, x.Clean := fun x hx => hclean x (List.mem_cons_of_mem item hx)
    rw [sackBlock] at hok
    rw [covered] at hsafe
    dsimp only at hok hsafe
    split at hok
    · rename_i hinside
      rw [if_pos hinside] at hsafe
      obtain ⟨⟨item1, m1⟩, hitem, hok⟩ := bind_eq_ok.mp hok
      obtain ⟨⟨rest1, m2⟩, htail, hok⟩ := bind_eq_ok.mp hok
      cases pure_eq_ok.mp hok
      have htail := ih hrest (fun x hx => hsafe x (List.mem_cons_of_mem item hx)) htail
      intro x hx
      rcases List.mem_cons.mp hx with rfl | hx
      · exact sackItem_clean (hclean item List.mem_cons_self) (hsafe item List.mem_cons_self) hitem
      · exact htail x hx
    · rename_i houtside
      rw [if_neg houtside] at hsafe
      split at hok
      · cases pure_eq_ok.mp hok
        exact hclean
      · rename_i hbelow
        rw [if_neg hbelow] at hsafe
        obtain ⟨⟨rest1, m2⟩, htail, hok⟩ := bind_eq_ok.mp hok
        cases pure_eq_ok.mp hok
        have htail := ih hrest hsafe htail
        intro x hx
        rcases List.mem_cons.mp hx with rfl | hx
        · exact hclean x List.mem_cons_self
        · exact htail x hx

/-- A block covers the same items after another one was used. -/
theorem covered_sacks {block : SequenceNumber32 × SequenceNumber32} {start : SequenceNumber32}
    (h : List.Forall₂ Sacks items items') :
    List.Forall₂ Sacks (covered block start items) (covered block start items') := by
  induction h generalizing start with
  | nil => exact .nil
  | cons hxy _ ih =>
    rw [covered, covered, size_of_plain hxy.plain]
    split
    · exact ih.cons hxy
    · split
      · exact .nil
      · exact ih

theorem safe_of_sacks (h : List.Forall₂ Sacks items items')
    (hsafe : ∀ x ∈ items, x.m_sacked = false → x.m_retrans = false) :
    ∀ x ∈ items', x.m_sacked = false → x.m_retrans = false := by
  induction h with
  | nil => exact hsafe
  | cons hxy _ ih =>
    intro z hz hs
    rcases List.mem_cons.mp hz with rfl | hz
    · rcases hxy with rfl | ⟨-, rfl⟩
      · exact hsafe _ List.mem_cons_self hs
      · cases hs
    · exact ih (fun x hx => hsafe x (List.mem_cons_of_mem _ hx)) z hz hs

theorem sackBlocks_clean {first sentEnd : SequenceNumber32}
    {blocks : List (SequenceNumber32 × SequenceNumber32)} {m m' : Marks} {ended : Bool}
    (hm : m.Counts 0 0 items) (hlt : total items < 2 ^ 32) (hclean : ∀ x ∈ items, x.Clean)
    (hsafe : ∀ block ∈ blocks.takeWhile (fun block => !sentEnd.lt block.1),
      ∀ x ∈ covered block first items, x.m_sacked = false → x.m_retrans = false)
    (hok : sackBlocks first sentEnd blocks items m = .ok (items', m', ended)) :
    ∀ x ∈ items', x.Clean := by
  induction blocks generalizing items m with
  | nil =>
    cases pure_eq_ok.mp hok
    exact hclean
  | cons block blocks ih =>
    rw [sackBlocks] at hok
    split at hok
    · cases pure_eq_ok.mp hok
      exact hclean
    · rename_i hused
      obtain ⟨⟨items1, m1⟩, hblock, hok⟩ := bind_eq_ok.mp hok
      obtain ⟨hsacks, hm1⟩ := sackBlock_sacks hm (by omega) (by omega) hblock
      have htotal := (sameItems_of_forall₂ (fun _ _ h => Sacks.plain h) hsacks).total
      have hhead : (!sentEnd.lt block.1) = true := by simpa using hused
      simp only [List.takeWhile_cons, hhead, if_true] at hsafe
      refine ih hm1 (htotal ▸ hlt) ?_ ?_ hok
      · exact sackBlock_clean hclean (hsafe block List.mem_cons_self) hblock
      · intro other hother
        exact safe_of_sacks (covered_sacks hsacks) (hsafe other (List.mem_cons_of_mem block hother))

theorem markLost_clean (dupAckThresh : ℕ) (hclean : ∀ x ∈ items, x.Clean) :
    ∀ x ∈ (markLost dupAckThresh items).2.1, x.Clean := by
  induction items with
  | nil => exact hclean
  | cons item rest ih =>
    have hrest := ih fun x hx => hclean x (List.mem_cons_of_mem item hx)
    rw [markLost]
    dsimp only
    generalize (if item.m_sacked = true then (markLost dupAckThresh rest).1 + 1
      else (markLost dupAckThresh rest).1) = sacked
    split
    · rename_i hnew
      intro x hx
      rcases List.mem_cons.mp hx with rfl | hx
      · exact clean_of_unsacked hnew.2.1
      · exact hrest x hx
    · intro x hx
      rcases List.mem_cons.mp hx with rfl | hx
      · exact hclean x List.mem_cons_self
      · exact hrest x hx

theorem updateLostCount_clean (hclean : ∀ x ∈ b.m_sentList, x.Clean)
    (hok : b.updateLostCount = .ok b')
    (hhead : ∀ head ∈ b'.m_sentList.head?, head.m_sacked = false) :
    ∀ x ∈ b'.m_sentList, x.Clean := by
  rw [updateLostCount] at hok
  split at hok
  · cases hok
  · cases hok
  · rename_i head upTo after hsplit
    obtain ⟨a, -, hsplit⟩ := Option.bind_eq_some_iff.mp hsplit
    have hlist := splitAt_eq hsplit
    rw [hlist] at hclean
    dsimp only at hok
    cases pure_eq_ok.mp hok
    have hupTo : ∀ x ∈ upTo, x.Clean := fun x hx => hclean x (by simp [hx])
    have hlost := markLost_clean b.m_dupAckThresh hupTo
    intro x hx
    rcases List.mem_cons.mp hx with rfl | hx
    · exact clean_of_unsacked (hhead _ rfl)
    · rcases List.mem_append.mp hx with hx | hx
      · exact hlost x hx
      · exact hclean x (by simp [hx])

theorem update_clean (h : b.Ledger) {list : List (SequenceNumber32 × SequenceNumber32)} {n : ℕ}
    (hclean : ∀ x ∈ b.m_sentList, x.Clean) (hsafe : b.PipeSafe (.update list))
    (hok : b.update list = .ok (b', n)) : ∀ x ∈ b'.m_sentList, x.Clean := by
  obtain ⟨items, m, ended, hblocks, -, hcases⟩ := update_cases hok
  have htotal := h.total_sent_lt
  have hscored : ∀ x ∈ (b.scored items m).m_sentList, x.Clean :=
    sackBlocks_clean ⟨h.sackedOut.trans (Nat.zero_add _).symm,
      h.lostOut.trans (Nat.zero_add _).symm⟩
      (by omega) hclean hsafe hblocks
  rcases hcases with ⟨-, rfl⟩ | ⟨-, hlost, hhead⟩
  · exact hscored
  · split at hlost
    · exact updateLostCount_clean hscored hlost hhead
    · cases hlost
      exact hscored

/-- The calls in question that are safe for the estimate. -/
def PipeCall (b : TcpTxBuffer) (c : TxCall) : Prop := b.SackCall c ∧ b.PipeSafe c

theorem SackCall.fits (h : b.Ledger) {c : TxCall} (hc : b.SackCall c) (hsafe : b.PipeSafe c) :
    b.Fits c := by
  cases c with
  | add p => exact hsafe
  | copyFromSequence numBytes seq =>
    rcases hc with rfl | ⟨item, hitem, -, rfl⟩
    · exact plus_lt _ _
    · exact h.start_lt item hitem
  | discardUpTo seq => exact hc
  | resetLastSegmentSent => exact hc.elim
  | setHeadSequence seq => exact hc.elim
  | _ => trivial

theorem call_clean (h : b.Ledger) (hclean : ∀ x ∈ b.m_sentList, x.Clean) {c : TxCall}
    (hc : b.PipeCall c) (hok : b.call c = .ok b') : ∀ x ∈ b'.m_sentList, x.Clean := by
  obtain ⟨hcall, hsafe⟩ := hc
  have hfits := hcall.fits h hsafe
  cases c with
  | add p =>
    cases Except.ok.inj hok
    rw [add]
    split
    · split
      · exact hclean
      · exact hclean
    · exact hclean
  | copyFromSequence numBytes seq =>
    obtain ⟨found, hok⟩ := map_fst_eq_ok hok
    exact (copyLoop_copies h hfits hok).clean hclean
  | discardUpTo seq => exact discardUpTo_clean h hclean hsafe hok
  | update list =>
    obtain ⟨n, hok⟩ := map_fst_eq_ok hok
    exact update_clean h hclean hsafe hok
  | markHeadAsLost =>
    cases Except.ok.inj hok
    exact markHeadAsLost_clean hclean
  | setSentListLost resetSack => exact setSentListLost_clean hclean hok
  | _ => exact hcall.elim

theorem Run.clean (h : Run PipeCall b) : b.Ledger ∧ ∀ x ∈ b.m_sentList, x.Clean := by
  induction h with
  | start b h =>
    refine ⟨h.ledger, ?_⟩
    rw [h.sent]
    exact fun _ hx => (List.not_mem_nil hx).elim
  | step b b' c _ hc hok ih =>
    obtain ⟨hledger, hclean⟩ := ih
    exact ⟨call_ledger hledger (hc.1.fits hledger hc.2) hok, call_clean hledger hclean hc hok⟩

instance (items : List TcpTxItem) : Decidable (HeadGives items) :=
  match items with
  | [] => isTrue trivial
  | head :: rest => inferInstanceAs (Decidable (head.m_sacked = true → ∀ item ∈
      rest.find? fun item => !item.m_sacked, item.m_lost = false ∧ item.m_retrans = false))

instance (b : TcpTxBuffer) (c : TxCall) : Decidable (b.SackCall c) :=
  match c with
  | .add _ | .update _ | .markHeadAsLost | .setSentListLost _ => inferInstanceAs (Decidable True)
  | .copyFromSequence _ seq => inferInstanceAs (Decidable (seq = b.sentEnd ∨
      ∃ item ∈ b.m_sentList, item.m_sacked = false ∧ item.m_startSeq = seq))
  | .discardUpTo seq => inferInstanceAs (Decidable (seq.m_value < 2 ^ 32))
  | .addRenoSack | .resetRenoSack | .resetSentList | .resetLastSegmentSent
  | .deleteRetransmittedFlagFromHead | .setHeadSequence _ => inferInstanceAs (Decidable False)

instance (b : TcpTxBuffer) (c : TxCall) : Decidable (b.PipeSafe c) :=
  match c with
  | .add p => inferInstanceAs (Decidable (b.m_size + p.length < 2 ^ 31))
  | .discardUpTo seq => inferInstanceAs (Decidable (b.m_firstByteSeq.ge seq = true ∨
      HeadGives (leftAfter (toUint32 (seq.sub b.m_firstByteSeq)) b.m_sentList)))
  | .update list => inferInstanceAs (Decidable (∀ block ∈ b.usedBlocks list,
      ∀ item ∈ covered block b.m_firstByteSeq b.m_sentList,
        item.m_sacked = false → item.m_retrans = false))
  | .copyFromSequence _ _ | .markHeadAsLost | .setSentListLost _ | .addRenoSack | .resetRenoSack
  | .resetSentList | .resetLastSegmentSent | .deleteRetransmittedFlagFromHead
  | .setHeadSequence _ => inferInstanceAs (Decidable True)

instance (b : TcpTxBuffer) (c : TxCall) : Decidable (b.PipeCall c) :=
  inferInstanceAs (Decidable (_ ∧ _))

/-- A buffer that starts at 0, with the duplicate threshold 3. -/
def fresh : TcpTxBuffer := { m_firstByteSeq := ⟨0⟩, m_dupAckThresh := 3, m_segmentSize := 2 }

theorem fresh_empty : fresh.Empty := ⟨rfl, rfl, rfl, rfl, by decide, rfl, rfl, rfl, rfl⟩

/-- Two segments are sent, the second one is sent again, and then it is sacked. -/
def resentSacked : List TxCall :=
  [.add [1, 2, 3, 4], .copyFromSequence 2 ⟨0⟩, .copyFromSequence 2 ⟨2⟩, .copyFromSequence 2 ⟨2⟩,
    .update [(⟨2⟩, ⟨4⟩)]]

/-- `BytesInFlight` is not the pipe in every state: a retransmitted item may be sacked. -/
theorem pipe_missed : ¬∀ b, Run SackCall b → b.EstimatesPipe := by
  intro h
  have hrun : Run SackCall (after fresh resentSacked) :=
    Run.follows (.start fresh fresh_empty) (by decide : Follows _ _ resentSacked _)
  have heq := (h _ hrun).eq
  exact absurd heq (by decide)

theorem bytesInFlight_eq_pipe (b : TcpTxBuffer) (h : Run PipeCall b) : b.EstimatesPipe :=
  h.clean.1.estimatesPipe h.clean.2

theorem bytesInFlight_eq_pipe_sacked :
    (after fresh [.add [1, 2, 3, 4], .copyFromSequence 2 ⟨0⟩, .copyFromSequence 2 ⟨2⟩,
      .update [(⟨2⟩, ⟨4⟩)], .copyFromSequence 1 ⟨0⟩, .discardUpTo ⟨1⟩]).EstimatesPipe :=
  bytesInFlight_eq_pipe _ (Run.follows (.start fresh fresh_empty)
    (by decide : Follows PipeCall fresh
      [.add [1, 2, 3, 4], .copyFromSequence 2 ⟨0⟩, .copyFromSequence 2 ⟨2⟩,
        .update [(⟨2⟩, ⟨4⟩)], .copyFromSequence 1 ⟨0⟩, .discardUpTo ⟨1⟩] _))

end TcpTxBuffer

end Ns3.Internet
