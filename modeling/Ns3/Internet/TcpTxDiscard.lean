import Ns3.Internet.TcpTxScoreboard

/-!
# Discarding acknowledged data

The loop of `DiscardUpTo` takes items from the front of the sent list, or a part of the last one.
What it takes leaves the counters.
-/

namespace Ns3.Internet

open Ns3.Network SequenceNumber32 Lib

/-- The items when `n` bytes of the first one are gone. -/
def trim (n : ℕ) (item : TcpTxItem) (rest : List TcpTxItem) : List TcpTxItem :=
  if n < item.size then
    { item with m_packet := item.m_packet.drop n, m_startSeq := plus item.m_startSeq n } :: rest
  else rest

variable {item : TcpTxItem} {rest : List TcpTxItem} {n : ℕ}

theorem weight_trim (flag : TcpTxItem → Bool) (rest : List TcpTxItem) (hflag : ∀ start packet,
      flag { item with m_packet := packet, m_startSeq := start } = flag item) (hn : n ≤ item.size) :
    weight flag (trim n item rest) + (if flag item then n else 0) = weight flag (item :: rest) := by
  rw [trim, weight_cons]
  split
  · have hsize : (item.m_packet.drop n).length = item.size - n := List.length_drop
    rw [weight_cons, hflag]
    show (if flag item then (item.m_packet.drop n).length else 0) + _ + _ = _
    split
    · omega
    · omega
  · split
    · omega
    · omega

theorem total_trim (rest : List TcpTxItem) (hn : n ≤ item.size) :
    total (trim n item rest) + n = total (item :: rest) := by
  have h := weight_trim (fun _ => true) rest (fun _ _ => rfl) hn
  rwa [TcpTxBuffer.weight_true, TcpTxBuffer.weight_true] at h

theorem trim_address : ((trim n item rest).map TcpTxItem.address).Sublist
    ((item :: rest).map TcpTxItem.address) := by
  rw [trim]
  split
  · exact List.Sublist.refl _
  · exact List.sublist_cons_self _ _

theorem placed_trim {start : SequenceNumber32} (hn : n ≤ item.size)
    (h : Placed start (item :: rest)) : Placed (plus start n) (trim n item rest) := by
  obtain ⟨rfl, hrest⟩ := h
  rw [trim]
  split
  · refine ⟨rfl, ?_⟩
    have hsize : (item.m_packet.drop n).length = item.size - n := List.length_drop
    show Placed (plus _ (item.m_packet.drop n).length) rest
    rw [plus_plus, hsize, Nat.add_sub_cancel' hn]
    exact hrest
  · have heq : n = item.size := by omega
    rw [heq]
    exact hrest

theorem full_trim (h : ∀ x ∈ item :: rest, 0 < x.size) : ∀ x ∈ trim n item rest, 0 < x.size := by
  intro x hx
  rw [trim] at hx
  split at hx
  · rcases List.mem_cons.mp hx with rfl | hx
    · show 0 < (item.m_packet.drop n).length
      rw [List.length_drop]
      show 0 < item.size - n
      omega
    · exact h x (List.mem_cons_of_mem item hx)
  · exact h x (List.mem_cons_of_mem item hx)

namespace TcpTxBuffer

variable {b b' : TcpTxBuffer} {seq : SequenceNumber32}

/-- `n` bytes of the first sent item are gone. -/
structure Trims (b : TcpTxBuffer) (item : TcpTxItem) (rest : List TcpTxItem) (n : ℕ)
    (b' : TcpTxBuffer) : Prop where
  list : b.m_sentList = item :: rest
  le : n ≤ item.size
  eq : b' = { b with
    m_sentList := trim n item rest
    m_size := b.m_size - n
    m_sentSize := b.m_sentSize - n
    m_firstByteSeq := plus b.m_firstByteSeq n
    m_sackedOut := b.m_sackedOut - if item.m_sacked then n else 0
    m_retrans := b.m_retrans - if item.m_retrans then n else 0
    m_lostOut := b.m_lostOut - if item.m_lost then n else 0 }

theorem Trims.ledger (ht : Trims b item rest n b') (h : b.Ledger) : b'.Ledger := by
  have hlist := ht.list
  have hn := ht.le
  have htotal := total_trim rest hn
  have hsent := h.sentSize
  have hsize := h.size
  have hbound := h.size_lt
  have hsacked := weight_trim TcpTxItem.m_sacked rest (fun _ _ => rfl) hn
  have hlost := weight_trim TcpTxItem.m_lost rest (fun _ _ => rfl) hn
  have hretrans := weight_trim TcpTxItem.m_retrans rest (fun _ _ => rfl) hn
  rw [← hlist, ← h.sackedOut] at hsacked
  rw [← hlist, ← h.lostOut] at hlost
  rw [← hlist, ← h.retrans] at hretrans
  rw [← hlist, ← hsent] at htotal
  have hsub : ((trim n item rest ++ b.m_appList).map TcpTxItem.address).Sublist
      ((b.m_sentList ++ b.m_appList).map TcpTxItem.address) := by
    rw [List.map_append, List.map_append, hlist]
    exact trim_address.append (List.Sublist.refl _)
  rw [ht.eq]
  refine ⟨?_, ?_, ?_, plus_lt _ _, ?_, ?_, ?_, ?_, ?_, h.app, h.nodup.sublist hsub, ?_⟩
  · show b.m_sentSize - n = total (trim n item rest)
    omega
  · show b.m_size - n = total (trim n item rest) + total b.m_appList
    omega
  · show b.m_size - n < 2 ^ 31
    omega
  · intro x hx
    rcases List.mem_append.mp hx with hx | hx
    · exact full_trim (hlist ▸ h.full_sent) x hx
    · exact h.full x (List.mem_append_right _ hx)
  · exact placed_trim hn (hlist ▸ h.placed)
  · show b.m_sackedOut - _ = weight TcpTxItem.m_sacked (trim n item rest)
    omega
  · show b.m_lostOut - _ = weight TcpTxItem.m_lost (trim n item rest)
    omega
  · show b.m_retrans - _ = weight TcpTxItem.m_retrans (trim n item rest)
    omega
  · intro x hx
    obtain ⟨y, hy, heq⟩ := List.mem_map.mp (hsub.subset (List.mem_map_of_mem hx))
    rw [← heq]
    exact h.lt y hy

theorem removeFromCounts_eq (hok : b.removeFromCounts item n = .ok b')
    (hlt : b.m_sackedOut < 2 ^ 32)
    (hlt' : b.m_retrans < 2 ^ 32) (hlt'' : b.m_lostOut < 2 ^ 32) : b' = { b with
      m_sackedOut := b.m_sackedOut - if item.m_sacked then n else 0
      m_retrans := b.m_retrans - if item.m_retrans then n else 0
      m_lostOut := b.m_lostOut - if item.m_lost then n else 0 } := by
  rw [removeFromCounts] at hok
  obtain ⟨hsacked, hok⟩ := check_bind_eq_ok.mp hok
  obtain ⟨hretrans, hok⟩ := check_bind_eq_ok.mp hok
  obtain ⟨hlost, hok⟩ := check_bind_eq_ok.mp hok
  cases pure_eq_ok.mp hok
  have htake : ∀ {on : Bool} {counter : ℕ}, (on = true → n ≤ counter) → counter < 2 ^ 32 →
      (if on then takeFrom counter n else counter) = counter - if on then n else 0 := by
    intro on counter hle hcounter
    cases on with
    | false => rfl
    | true =>
      rw [if_pos rfl, if_pos rfl]
      exact takeFrom_of_le (hle rfl) hcounter
  rw [htake hsacked hlt, htake hretrans hlt', htake hlost hlt'']

theorem removeFromCounts_list (hok : b.removeFromCounts item n = .ok b') :
    b'.m_sentList = b.m_sentList := by
  rw [removeFromCounts] at hok
  obtain ⟨-, hok⟩ := check_bind_eq_ok.mp hok
  obtain ⟨-, hok⟩ := check_bind_eq_ok.mp hok
  obtain ⟨-, hok⟩ := check_bind_eq_ok.mp hok
  cases pure_eq_ok.mp hok
  rfl

/-- The loop of `DiscardUpTo`. -/
inductive Trimmed : TcpTxBuffer → ℕ → TcpTxBuffer → Prop
  | done (b : TcpTxBuffer) (n : ℕ) (h : b.m_size = 0 ∨ n = 0) : Trimmed b n b
  | drop (b b1 b' : TcpTxBuffer) (item : TcpTxItem) (rest : List TcpTxItem) (n : ℕ)
      (h : Trims b item rest item.size b1) (hle : item.size ≤ n)
      (htail : Trimmed b1 (n - item.size) b') : Trimmed b n b'
  | cut (b b' : TcpTxBuffer) (item : TcpTxItem) (rest : List TcpTxItem) (n : ℕ)
      (h : Trims b item rest n b') (hn : 0 < n) (hlt : n < item.size) : Trimmed b n b'
  | send (b b1 b' : TcpTxBuffer) (item : TcpTxItem) (e : Edit) (pre post : List TcpTxItem) (n : ℕ)
      (hempty : b.m_sentList = []) (h : Sends b item b1 e pre post)
      (htail : Trimmed b1 n b') : Trimmed b n b'

theorem Trimmed.ledger (ht : Trimmed b n b') (h : b.Ledger) : b'.Ledger := by
  induction ht with
  | done b n _ => exact h
  | drop b b1 b' item rest n htrims _ _ ih => exact ih (htrims.ledger h)
  | cut b b' item rest n htrims _ _ => exact htrims.ledger h
  | send b b1 b' item e pre post n _ hsends _ ih => exact ih (hsends.ledger h)

/-- No item can be sent again if none was sent. -/
theorem Resends.ne_nil {e : Edit} {pre post : List TcpTxItem} (hr : Resends b item b' e pre post)
    (h : b.Ledger) : b.m_sentList ≠ [] := by
  intro hempty
  have hbytes := hr.keeps.total
  obtain ⟨r, hlist⟩ := hr.list
  have hledger := hr.ledger h
  have hitem : 0 < item.size := hledger.full_sent item (by rw [hr.eq]; simp)
  rw [hempty, hlist, total_append, total_cons, total_nil] at hbytes
  have hsize : ({ item with m_retrans := r } : TcpTxItem).size = item.size := rfl
  omega

theorem moveToSentList_cases (h : b.Ledger) (hok : b.moveToSentList n = .ok b') :
    b' = b ∧ b.m_sentList ≠ [] ∨
      ∃ item e pre post, b.m_sentList = [] ∧ Sends b item b' e pre post := by
  rw [moveToSentList] at hok
  split at hok
  · rename_i hempty
    obtain ⟨⟨b1, found⟩, hsend, hok⟩ := bind_eq_ok.mp hok
    cases found with
    | none => cases hok
    | some item =>
      cases pure_eq_ok.mp hok
      have hcopies := copyLoop_copies h h.first_lt hsend
      cases hcopies with
      | resend _ _ e pre post hr _ => exact absurd hempty (hr.ne_nil h)
      | send _ _ e pre post hs => exact Or.inr ⟨item, e, pre, post, hempty, hs⟩
  · rename_i hne
    cases pure_eq_ok.mp hok
    exact Or.inl ⟨rfl, hne⟩

theorem discardHead_trims {b1 : TcpTxBuffer} (h : b1.Ledger) (hlist : b1.m_sentList = item :: rest)
    (hn : n ≤ item.size) {part : TcpTxItem} (hsacked : part.m_sacked = item.m_sacked)
    (hretrans : part.m_retrans = item.m_retrans) (hlost : part.m_lost = item.m_lost)
    {items : List TcpTxItem}
    (hok : removeFromCounts { b1 with
      m_sentList := items
      m_size := takeFrom b1.m_size n
      m_sentSize := takeFrom b1.m_sentSize n
      m_firstByteSeq := plus b1.m_firstByteSeq n } part n = .ok b') :
    Trims b1 item rest n { b' with m_sentList := trim n item rest } := by
  refine ⟨hlist, hn, ?_⟩
  have hs := (weight_lt h TcpTxItem.m_sacked).trans (b := 2 ^ 31) (c := 2 ^ 32) (by decide)
  have hr := (weight_lt h TcpTxItem.m_retrans).trans (b := 2 ^ 31) (c := 2 ^ 32) (by decide)
  have hl := (weight_lt h TcpTxItem.m_lost).trans (b := 2 ^ 31) (c := 2 ^ 32) (by decide)
  rw [← h.sackedOut] at hs
  rw [← h.retrans] at hr
  rw [← h.lostOut] at hl
  rw [removeFromCounts_eq hok hs hr hl, hsacked, hretrans, hlost]
  have hsize := h.size
  have hsent := h.sentSize
  have hbound := h.size_lt
  have htotal : total b1.m_sentList = item.size + total rest := by rw [hlist, total_cons]
  dsimp only
  rw [takeFrom_of_le (x := b1.m_size) (by omega) (by omega),
    takeFrom_of_le (x := b1.m_sentSize) (by omega) (by omega)]

theorem discardLoop_trimmed (h : b.Ledger) {fuel : ℕ} (hok : discardLoop fuel b n = .ok b') :
    Trimmed b n b' := by
  induction fuel generalizing b n with
  | zero => cases hok
  | succ fuel ih =>
    rw [discardLoop] at hok
    split at hok
    · rename_i hpos
      obtain ⟨b1, hmove, hok⟩ := bind_eq_ok.mp hok
      have hledger : b1.Ledger := by
        rcases moveToSentList_cases h hmove with ⟨rfl, -⟩ | ⟨item, e, pre, post, -, hs⟩
        · exact h
        · exact hs.ledger h
      suffices hrest : Trimmed b1 n b' by
        rcases moveToSentList_cases h hmove with ⟨rfl, -⟩ | ⟨item, e, pre, post, hempty, hs⟩
        · exact hrest
        · exact .send b b1 b' item e pre post n hempty hs hrest
      split at hok
      · cases hok
      · rename_i item rest hlist
        obtain ⟨-, hok⟩ := check_bind_eq_ok.mp hok
        split at hok
        · rename_i hle
          obtain ⟨b2, hcounts, hok⟩ := bind_eq_ok.mp hok
          have htrims := discardHead_trims hledger hlist le_rfl rfl rfl rfl hcounts
          rw [trim, if_neg (Nat.lt_irrefl _)] at htrims
          exact .drop b1 _ b' item rest n htrims hle (ih (htrims.ledger hledger) hok)
        · rename_i hlt
          have htrims := discardHead_trims hledger hlist (not_le.mp hlt).le rfl rfl rfl hok
          have hitems := removeFromCounts_list hok
          dsimp only at hitems
          rw [trim, if_pos (not_le.mp hlt), ← hitems] at htrims
          exact .cut b1 b' item rest n htrims hpos.2 (not_le.mp hlt)
    · rename_i hstop
      cases pure_eq_ok.mp hok
      exact .done _ n (by omega)

/-- A sacked item can be the head after the loop only if the loop ended in it. -/
theorem Trimmed.head (ht : Trimmed b n b') (h : b.Ledger) {head : TcpTxItem}
    (hlist : b'.m_sentList = head :: rest) (hsacked : head.m_sacked = true) :
    ∃ pre x, b.m_sentList = pre ++ x :: rest ∧ x.m_sacked = true ∧ total pre ≤ n ∧
      n < total pre + x.size := by
  induction ht with
  | done b n hstop =>
    have hhead := h.full_sent head (by rw [hlist]; simp)
    refine ⟨[], head, hlist, hsacked, Nat.zero_le _, ?_⟩
    have hsize := h.size
    rw [hlist, total_cons] at hsize
    rw [total_nil]
    omega
  | drop b b1 b' item rest' n htrims hle _ ih =>
    obtain ⟨pre, x, hpre, hx, hle1, hlt1⟩ := ih (htrims.ledger h) hlist
    have hb1 : b1.m_sentList = rest' := by
      rw [htrims.eq]
      exact if_neg (Nat.lt_irrefl _)
    refine ⟨item :: pre, x, ?_, hx, ?_, ?_⟩
    · rw [htrims.list, ← hb1, hpre, List.cons_append]
    · rw [total_cons]
      omega
    · rw [total_cons]
      omega
  | cut b b' item rest' n htrims _ hlt =>
    have hb' : b'.m_sentList = trim n item rest' := by rw [htrims.eq]
    rw [hb', trim, if_pos hlt] at hlist
    cases hlist
    exact ⟨[], item, htrims.list, hsacked, Nat.zero_le _, by rw [total_nil]; omega⟩
  | send b b1 b' item e pre post n hempty hs _ ih =>
    obtain ⟨pre, x, hpre, hx, -, -⟩ := ih (hs.ledger h) hlist
    have hb1 : b1.m_sentList = [item] := by
      rw [hs.eq, hempty]
      rfl
    rw [hb1] at hpre
    have hmem : x ∈ [item] := by
      rw [hpre]
      simp
    rw [List.mem_singleton.mp hmem, hs.unflagged.sacked] at hx
    cases hx

theorem Ledger.sentList_of_size (h : b.Ledger) (hsize : b.m_size = 0) : b.m_sentList = [] := by
  cases hlist : b.m_sentList with
  | nil => rfl
  | cons item rest =>
    have hitem := h.full_sent item (by rw [hlist]; simp)
    have htotal := h.size
    rw [hlist, total_cons] at htotal
    omega

/-- The first sequence number is not the sum of others where the sent list is empty. -/
theorem Ledger.withFirst (h : b.Ledger) (hlt : seq.m_value < 2 ^ 32) (hempty : b.m_sentList = []) :
    Ledger { b with m_firstByteSeq := seq } where
  sentSize := h.sentSize
  size := h.size
  size_lt := h.size_lt
  first_lt := hlt
  full := h.full
  placed := by
    show Placed seq b.m_sentList
    rw [hempty]
    trivial
  sackedOut := h.sackedOut
  lostOut := h.lostOut
  retrans := h.retrans
  app := h.app
  nodup := h.nodup
  lt := h.lt

theorem Ledger.withHighestSack (h : b.Ledger) (highestSack : Option ℕ × SequenceNumber32) :
    Ledger { b with m_highestSack := highestSack } :=
  ⟨h.sentSize, h.size, h.size_lt, h.first_lt, h.full, h.placed, h.sackedOut, h.lostOut, h.retrans,
    h.app, h.nodup, h.lt⟩

/-- What `DiscardUpTo` does with a head that is sacked. -/
theorem repairHead_cases (hok : b.repairHead = .ok b') :
    (b' = b ∧ ∀ head ∈ b.m_sentList.head?, head.m_sacked = false) ∨
      ∃ head rest b1, b.m_sentList = head :: rest ∧ head.m_sacked = true ∧ head.m_lost = false ∧
        addRenoSack { b with
          m_sentList := { head with m_sacked := false } :: rest
          m_sackedOut := takeFrom b.m_sackedOut head.size } = .ok b1 ∧ b' = b1.markHeadAsLost := by
  rw [repairHead] at hok
  split at hok
  · rename_i hempty
    cases pure_eq_ok.mp hok
    refine Or.inl ⟨rfl, ?_⟩
    intro head hhead
    rw [hempty] at hhead
    cases hhead
  · rename_i head rest hlist
    split at hok
    · rename_i hsacked
      obtain ⟨hlost, hok⟩ := check_bind_eq_ok.mp hok
      obtain ⟨b1, hreno, hok⟩ := bind_eq_ok.mp hok
      exact Or.inr ⟨head, rest, b1, hlist, hsacked, hlost, hreno, (pure_eq_ok.mp hok).symm⟩
    · rename_i hsacked
      cases pure_eq_ok.mp hok
      refine Or.inl ⟨rfl, ?_⟩
      intro x hx
      rw [hlist] at hx
      cases hx
      exact Bool.eq_false_of_not_eq_true hsacked

/-- The head is not sacked any more. -/
theorem Ledger.unsackHead (h : b.Ledger) {head : TcpTxItem} (hlist : b.m_sentList = head :: rest)
    (hsacked : head.m_sacked = true) : Ledger { b with
      m_sentList := { head with m_sacked := false } :: rest
      m_sackedOut := takeFrom b.m_sackedOut head.size } := by
  have hsame : SameItems b.m_sentList ({ head with m_sacked := false } :: rest) := by
    rw [hlist]
    exact (SameItems.refl rest).cons rfl
  have hlt := (weight_lt h TcpTxItem.m_sacked).trans (b := 2 ^ 31) (c := 2 ^ 32) (by decide)
  have hold := h.sackedOut
  have hlost := h.lostOut
  have hretrans := h.retrans
  rw [← hold] at hlt
  rw [hlist, weight_cons] at hold hlost hretrans
  rw [if_pos hsacked] at hold
  refine h.relabel hsame ?_ ?_ ?_
  · rw [takeFrom_of_le (by omega) hlt, hold, weight_cons, Nat.add_sub_cancel_left]
    exact (Nat.zero_add _).symm
  · rw [hlost, weight_cons]
    rfl
  · rw [hretrans, weight_cons]
    rfl

theorem repairHead_ledger (h : b.Ledger) (hok : b.repairHead = .ok b') : b'.Ledger := by
  rcases repairHead_cases hok with ⟨rfl, -⟩ | ⟨head, rest, b1, hlist, hsacked, -, hreno, rfl⟩
  · exact h
  · exact markHeadAsLost_ledger (addRenoSack_ledger (h.unsackHead hlist hsacked) hreno)

/-- The stages of `DiscardUpTo`. -/
theorem discardUpTo_cases (h : b.Ledger) (hok : b.discardUpTo seq = .ok b') :
    b' = b ∨ ∃ b1 b2, b.m_firstByteSeq.ge seq = false ∧
      Trimmed b (toUint32 (seq.sub b.m_firstByteSeq)) b1 ∧
      repairHead (if b1.m_size = 0 then { b1 with m_firstByteSeq := seq } else b1) = .ok b2 ∧
      (∀ head ∈ b2.m_sentList.head?, head.m_startSeq = seq) ∧
      b' = if b2.m_highestSack.2.le b2.m_firstByteSeq then { b2 with m_highestSack := (none, ⟨0⟩) }
        else b2 := by
  rw [discardUpTo] at hok
  split at hok
  · exact Or.inl (pure_eq_ok.mp hok).symm
  · rename_i hge
    obtain ⟨b1, hloop, hok⟩ := bind_eq_ok.mp hok
    obtain ⟨b2, hrepair, hok⟩ := bind_eq_ok.mp hok
    obtain ⟨hhead, hok⟩ := check_bind_eq_ok.mp hok
    obtain ⟨-, hok⟩ := check_bind_eq_ok.mp hok
    obtain ⟨-, hok⟩ := check_bind_eq_ok.mp hok
    exact Or.inr ⟨b1, b2, Bool.eq_false_of_not_eq_true hge, discardLoop_trimmed h hloop, hrepair,
      hhead, (pure_eq_ok.mp hok).symm⟩

theorem discardUpTo_ledger (h : b.Ledger) (hseq : seq.m_value < 2 ^ 32)
    (hok : b.discardUpTo seq = .ok b') : b'.Ledger := by
  obtain rfl | ⟨b1, b2, -, htrimmed, hrepair, -, rfl⟩ := discardUpTo_cases h hok
  · exact h
  · have h1 := htrimmed.ledger h
    have h2 : b2.Ledger := by
      refine repairHead_ledger ?_ hrepair
      split
      · rename_i hsize
        exact h1.withFirst hseq (h1.sentList_of_size hsize)
      · exact h1
    split
    · exact h2.withHighestSack _
    · exact h2

end TcpTxBuffer

end Ns3.Internet
