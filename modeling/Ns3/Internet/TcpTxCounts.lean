import Ns3.Internet.TcpTxItems
import Mathlib.Data.List.Forall2

/-!
# The counters of the send buffer

`Ledger b` says that the counters are the sums over the lists, as `ConsistencyCheck` would find
them. Every operation keeps it.
-/

namespace Ns3.Internet

open Ns3.Network SequenceNumber32 Lib

namespace TcpTxBuffer

structure Ledger (b : TcpTxBuffer) : Prop where
  sentSize : b.m_sentSize = total b.m_sentList
  size : b.m_size = total b.m_sentList + total b.m_appList
  size_lt : b.m_size < 2 ^ 31
  first_lt : b.m_firstByteSeq.m_value < 2 ^ 32
  full : ∀ item ∈ b.m_sentList ++ b.m_appList, 0 < item.size
  placed : Placed b.m_firstByteSeq b.m_sentList
  sackedOut : b.m_sackedOut = weight TcpTxItem.m_sacked b.m_sentList
  lostOut : b.m_lostOut = weight TcpTxItem.m_lost b.m_sentList
  retrans : b.m_retrans = weight TcpTxItem.m_retrans b.m_sentList
  app : ∀ item ∈ b.m_appList, item.Unflagged
  nodup : ((b.m_sentList ++ b.m_appList).map TcpTxItem.address).Nodup
  lt : ∀ item ∈ b.m_sentList ++ b.m_appList, item.address < b.nextItem

variable {b b' : TcpTxBuffer} {items items' : List TcpTxItem} {item : TcpTxItem}
  {seq : SequenceNumber32}

theorem addTo_of_lt {x y : ℕ} (h : x + y < 2 ^ 32) : addTo x y = x + y := Nat.mod_eq_of_lt h

theorem takeFrom_of_le {x y : ℕ} (hle : y ≤ x) (hx : x < 2 ^ 32) : takeFrom x y = x - y := by
  rw [takeFrom, diff]
  omega

theorem weight_of_unflagged {flag : TcpTxItem → Bool} (h : ∀ item ∈ items, flag item = false) :
    weight flag items = 0 := by
  induction items with
  | nil => rfl
  | cons item items ih =>
    rw [weight_cons, h item List.mem_cons_self, ih fun i hi => h i (List.mem_cons_of_mem item hi)]
    rfl

theorem Ledger.total_sent_lt (h : b.Ledger) : total b.m_sentList < 2 ^ 31 := by
  have := h.size
  have := h.size_lt
  omega

/-- The numbers that the sent items start at are in range. -/
theorem start_lt_of_placed {start : SequenceNumber32} (hstart : start.m_value < 2 ^ 32)
    (h : Placed start items) : ∀ item ∈ items, item.m_startSeq.m_value < 2 ^ 32 := by
  induction items generalizing start with
  | nil => exact fun _ hitem => (List.not_mem_nil hitem).elim
  | cons item rest ih =>
    intro x hx
    rcases List.mem_cons.mp hx with rfl | hx
    · rw [h.1]
      exact hstart
    · exact ih (plus_lt _ _) h.2 x hx

theorem Ledger.start_lt (h : b.Ledger) : ∀ item ∈ b.m_sentList, item.m_startSeq.m_value < 2 ^ 32 :=
  start_lt_of_placed h.first_lt h.placed

theorem Ledger.fresh_sent (h : b.Ledger) : Edit.Fresh ⟨b.m_sentList, b.m_retrans, b.nextItem⟩ where
  nodup := by
    have hnodup := h.nodup
    rw [List.map_append] at hnodup
    exact hnodup.of_append_left
  lt := by
    intro a ha
    obtain ⟨item, hitem, rfl⟩ := List.mem_map.mp ha
    exact h.lt item (List.mem_append_left _ hitem)

theorem Ledger.fresh_app (h : b.Ledger) : Edit.Fresh ⟨b.m_appList, b.m_retrans, b.nextItem⟩ where
  nodup := by
    have hnodup := h.nodup
    rw [List.map_append] at hnodup
    exact hnodup.of_append_right
  lt := by
    intro a ha
    obtain ⟨item, hitem, rfl⟩ := List.mem_map.mp ha
    exact h.lt item (List.mem_append_right _ hitem)

/-- The addresses of an edited list are still none of the other list. -/
theorem Keeps.disjoint {e e' : Edit} {other : List TcpTxItem} (h : Keeps e e')
    (hd : List.Disjoint (e.list.map TcpTxItem.address) (other.map TcpTxItem.address))
    (hlt : ∀ item ∈ other, item.address < e.nextItem) :
    List.Disjoint (e'.list.map TcpTxItem.address) (other.map TcpTxItem.address) := by
  intro a ha hother
  rcases h.old a ha with hmem | hle
  · exact hd hmem hother
  · obtain ⟨item, hitem, rfl⟩ := List.mem_map.mp hother
    exact absurd (hlt item hitem) (not_lt.mpr hle)

theorem Ledger.disjoint (h : b.Ledger) :
    List.Disjoint (b.m_sentList.map TcpTxItem.address) (b.m_appList.map TcpTxItem.address) := by
  have hnodup := h.nodup
  rw [List.map_append] at hnodup
  exact List.disjoint_of_nodup_append hnodup

/-- The addresses of both lists, one after the other. -/
theorem nodup_of_disjoint {xs ys : List TcpTxItem} (hx : (xs.map TcpTxItem.address).Nodup)
    (hy : (ys.map TcpTxItem.address).Nodup)
    (hd : List.Disjoint (xs.map TcpTxItem.address) (ys.map TcpTxItem.address)) :
    ((xs ++ ys).map TcpTxItem.address).Nodup := by
  rw [List.map_append]
  exact hx.append hy hd

theorem add_ledger (h : b.Ledger) {p : List UInt8} (hp : b.m_size + p.length < 2 ^ 31) :
    (b.add p).1.Ledger := by
  rw [add]
  split
  · split
    · have hnew : ∀ item ∈ b.m_sentList ++ b.m_appList, item.address ≠ b.nextItem :=
        fun item hitem =>
        (h.lt item hitem).ne
      have hsize := h.size
      have hsum : addTo b.m_size p.length = b.m_size + p.length := addTo_of_lt (by omega)
      refine ⟨h.sentSize, ?_, ?_, h.first_lt, ?_, h.placed, h.sackedOut, h.lostOut, h.retrans, ?_,
        ?_, ?_⟩
      · show addTo b.m_size p.length = total b.m_sentList + total (b.m_appList ++ [_])
        rw [hsum, total_append, total_cons, total_nil, hsize]
        exact Nat.add_assoc _ _ _
      · show addTo b.m_size p.length < 2 ^ 31
        rw [hsum]
        exact hp
      · intro item hitem
        rw [← List.append_assoc] at hitem
        rcases List.mem_append.mp hitem with hitem | hitem
        · exact h.full item hitem
        · rw [List.mem_singleton.mp hitem]
          assumption
      · intro item hitem
        rcases List.mem_append.mp hitem with hitem | hitem
        · exact h.app item hitem
        · rw [List.mem_singleton.mp hitem]
          exact ⟨rfl, rfl, rfl⟩
      · show ((b.m_sentList ++ (b.m_appList ++ [_])).map TcpTxItem.address).Nodup
        rw [← List.append_assoc, List.map_append]
        refine h.nodup.append (List.nodup_singleton _) ?_
        intro a ha ha'
        rw [List.map_singleton, List.mem_singleton] at ha'
        obtain ⟨item, hitem, rfl⟩ := List.mem_map.mp ha
        exact hnew item hitem ha'
      · intro item hitem
        show item.address < b.nextItem + 1
        rw [← List.append_assoc] at hitem
        rcases List.mem_append.mp hitem with hitem | hitem
        · exact Nat.lt_succ_of_lt (h.lt item hitem)
        · rw [List.mem_singleton.mp hitem]
          exact Nat.lt_succ_self _
    · exact h
  · exact h

/-! ### CopyFromSequence -/

theorem setRetrans_eq (a : ℕ) (items : List TcpTxItem) :
    (setRetrans a items).map TcpTxItem.address = items.map TcpTxItem.address ∧
      total (setRetrans a items) = total items ∧ bytes (setRetrans a items) = bytes items ∧
      weight TcpTxItem.m_sacked (setRetrans a items) = weight TcpTxItem.m_sacked items ∧
      weight TcpTxItem.m_lost (setRetrans a items) = weight TcpTxItem.m_lost items := by
  induction items with
  | nil => exact ⟨rfl, rfl, rfl, rfl, rfl⟩
  | cons item items ih =>
    obtain ⟨haddress, htotal, hbytes, hsacked, hlost⟩ := ih
    rw [setRetrans, List.map_cons, ← setRetrans]
    simp only [List.map_cons, total_cons, bytes_cons, weight_cons, haddress, htotal, hbytes,
      hsacked, hlost]
    split <;> exact ⟨rfl, rfl, rfl, rfl, rfl⟩

/-- Items at other addresses are not changed. -/
theorem setRetrans_of_not_mem {a : ℕ} (h : a ∉ items.map TcpTxItem.address) :
    setRetrans a items = items := by
  rw [setRetrans]
  conv_rhs => rw [← List.map_id items]
  apply List.map_congr_left
  intro item hitem
  rw [if_neg]
  · rfl
  · rintro rfl
    exact h (List.mem_map_of_mem hitem)

/-- The item at an address. -/
theorem exists_split_of_find {a : ℕ} (hnodup : (items.map TcpTxItem.address).Nodup)
    (h : items.find? (fun item => item.address = a) = some item) :
    ∃ pre post, items = pre ++ item :: post ∧ item.address = a ∧
      a ∉ pre.map TcpTxItem.address ∧ a ∉ post.map TcpTxItem.address := by
  have ha : item.address = a := by simpa using List.find?_some h
  obtain ⟨pre, post, rfl⟩ := List.append_of_mem (List.mem_of_find?_eq_some h)
  refine ⟨pre, post, rfl, ha, ?_, ?_⟩
  · intro hmem
    rw [List.map_append, List.map_cons, ha] at hnodup
    exact (List.disjoint_of_nodup_append hnodup) hmem List.mem_cons_self
  · intro hmem
    rw [List.map_append, List.map_cons, ha] at hnodup
    exact (List.nodup_cons.mp hnodup.of_append_right).1 hmem

theorem setRetrans_split {pre post : List TcpTxItem}
    (hpre : item.address ∉ pre.map TcpTxItem.address)
    (hpost : item.address ∉ post.map TcpTxItem.address) :
    setRetrans item.address (pre ++ item :: post) =
      pre ++ { item with m_retrans := true } :: post := by
  have happend : setRetrans item.address (pre ++ item :: post) =
      setRetrans item.address pre ++ setRetrans item.address (item :: post) := List.map_append
  have hcons : setRetrans item.address (item :: post) =
      { item with m_retrans := true } :: setRetrans item.address post := by
    rw [setRetrans, List.map_cons, if_pos rfl, ← setRetrans]
  rw [happend, hcons, setRetrans_of_not_mem hpre, setRetrans_of_not_mem hpost]

/-- What `GetTransmittedSegment` does to the sent list: edits, and then a flag. -/
structure Resends (b : TcpTxBuffer) (item : TcpTxItem) (b' : TcpTxBuffer) (e : Edit)
    (pre post : List TcpTxItem) : Prop where
  keeps : Keeps ⟨b.m_sentList, b.m_retrans, b.nextItem⟩ e
  flag : item.m_retrans = true
  list : ∃ r, e.list = pre ++ { item with m_retrans := r } :: post
  eq : b' = { b with
    m_sentList := pre ++ item :: post
    m_retrans := weight TcpTxItem.m_retrans (pre ++ item :: post)
    nextItem := e.nextItem }

theorem mergeLimit_pos {n : ℕ} (hn : 0 < n) (hfull : ∀ item ∈ items, 0 < item.size) :
    0 < mergeLimit n seq items := by
  induction items with
  | nil => exact hn
  | cons item rest ih =>
    have hitem := hfull item List.mem_cons_self
    unfold mergeLimit
    split
    · split
      · omega
      · split
        · omega
        · omega
    · exact ih fun x hx => hfull x (List.mem_cons_of_mem item hx)

theorem Ledger.full_sent (h : b.Ledger) : ∀ item ∈ b.m_sentList, 0 < item.size := fun item hitem =>
  h.full item (List.mem_append_left _ hitem)

theorem getTransmittedSegment_resends (h : b.Ledger) {n : ℕ} (hseq : seq.m_value < 2 ^ 32)
    (hn : 0 < n) (hok : b.getTransmittedSegment n seq = .ok (b', item)) :
    ∃ e pre post, Resends b item b' e pre post := by
  unfold getTransmittedSegment at hok
  obtain ⟨-, hok⟩ := check_bind_eq_ok.mp hok
  obtain ⟨-, hok⟩ := check_bind_eq_ok.mp hok
  obtain ⟨-, hok⟩ := check_bind_eq_ok.mp hok
  dsimp only at hok
  obtain ⟨⟨e, a⟩, hget, hok⟩ := bind_eq_ok.mp hok
  have hkeeps := keeps_of_edits (getPacketFromList_edits hseq h.first_lt
    (mergeLimit_pos hn h.full_sent) h.total_sent_lt hget).1
  have hlt : b.m_retrans < 2 ^ 32 := by
    rw [h.retrans]
    exact ((weight_le_total _ _).trans_lt h.total_sent_lt).trans (by decide)
  obtain ⟨hle, hretrans⟩ := hkeeps.retrans hlt 0 h.retrans
  dsimp only at hok hle
  split at hok
  · cases hok
  · rename_i x hfind
    obtain ⟨pre, post, hlist, rfl, hpre, hpost⟩ :=
      exists_split_of_find (hkeeps.fresh h.fresh_sent).nodup hfind
    split at hok
    · -- the item has the flag already
      rename_i hr
      cases pure_eq_ok.mp hok
      refine ⟨e, pre, post, hkeeps, hr, ⟨true, ?_⟩, ?_⟩
      · rw [hlist, ← hr]
      · rw [hretrans, hlist]
        rfl
    · rename_i hr
      cases pure_eq_ok.mp hok
      refine ⟨e, pre, post, hkeeps, rfl, ⟨false, ?_⟩, ?_⟩
      · rw [hlist, ← Bool.eq_false_of_not_eq_true hr]
      · rw [hlist, setRetrans_split hpre hpost]
        congr 1
        -- the counter grows by the size of the item
        rw [hlist] at hretrans
        simp only [weight_append, weight_cons, if_neg hr] at hretrans
        have hsum : addTo e.retrans x.size = e.retrans + x.size := by
          apply addTo_of_lt
          have htotal : total e.list = total b.m_sentList := by
            rw [← length_bytes, ← length_bytes, hkeeps.bytes]
          rw [hlist, total_append, total_cons] at htotal
          have hwpre := weight_le_total TcpTxItem.m_retrans pre
          have hwpost := weight_le_total TcpTxItem.m_retrans post
          have hbound := h.total_sent_lt
          omega
        rw [hsum]
        simp only [weight_append, weight_cons, if_true]
        show _ = _ + (x.size + _)
        omega

theorem Resends.ledger {e : Edit} {pre post : List TcpTxItem} (hr : Resends b item b' e pre post)
    (h : b.Ledger) : b'.Ledger := by
  obtain ⟨r, hlist⟩ := hr.list
  have hkeeps := hr.keeps
  have hbytes : bytes (pre ++ item :: post) = bytes b.m_sentList := by
    rw [← hkeeps.bytes, hlist]
    simp
  have htotal : total (pre ++ item :: post) = total b.m_sentList := by
    rw [← length_bytes, ← length_bytes, hbytes]
  have haddress : (pre ++ item :: post).map TcpTxItem.address = e.list.map TcpTxItem.address := by
    rw [hlist]
    simp
  have hfresh := hkeeps.fresh h.fresh_sent
  have hfull : ∀ x ∈ pre ++ item :: post, 0 < x.size := by
    intro x hx
    have hall := hkeeps.full h.full_sent
    rw [hlist] at hall
    rcases List.mem_append.mp hx with hx | hx
    · exact hall x (List.mem_append_left _ hx)
    · rcases List.mem_cons.mp hx with rfl | hx
      · exact hall { x with m_retrans := r } (by simp)
      · exact hall x (by simp [hx])
  have hplaced := hkeeps.placed b.m_firstByteSeq h.placed
  rw [hlist, placed_append h.first_lt] at hplaced
  rw [hr.eq]
  refine ⟨?_, ?_, h.size_lt, h.first_lt, ?_, ?_, ?_, ?_, rfl, h.app, ?_, ?_⟩
  · exact h.sentSize.trans htotal.symm
  · show b.m_size = total (pre ++ item :: post) + _
    rw [htotal]
    exact h.size
  · intro x hx
    rcases List.mem_append.mp hx with hx | hx
    · exact hfull x hx
    · exact h.full x (List.mem_append_right _ hx)
  · exact (placed_append h.first_lt).mpr hplaced
  · show b.m_sackedOut = weight TcpTxItem.m_sacked (pre ++ item :: post)
    rw [h.sackedOut, ← hkeeps.sacked, hlist]
    simp [weight_cons, TcpTxItem.size]
  · show b.m_lostOut = weight TcpTxItem.m_lost (pre ++ item :: post)
    rw [h.lostOut, ← hkeeps.lost, hlist]
    simp [weight_cons, TcpTxItem.size]
  · apply nodup_of_disjoint
    · rw [haddress]
      exact hfresh.nodup
    · exact h.fresh_app.nodup
    · rw [haddress]
      exact hkeeps.disjoint h.disjoint fun x hx => h.lt x (List.mem_append_right _ hx)
  · intro x hx
    rcases List.mem_append.mp hx with hx | hx
    · apply hfresh.lt
      rw [← haddress]
      exact List.mem_map_of_mem hx
    · exact (h.lt x (List.mem_append_right _ hx)).trans_le hkeeps.nextItem

/-- What `GetNewSegment` does: edits of the application list, and then an item goes to the sent
list. -/
structure Sends (b : TcpTxBuffer) (item : TcpTxItem) (b' : TcpTxBuffer) (e : Edit)
    (pre post : List TcpTxItem) : Prop where
  keeps : Keeps ⟨b.m_appList, b.m_retrans, b.nextItem⟩ e
  unflagged : item.Unflagged
  start : item.m_startSeq = b.sentEnd
  list : ∃ start, e.list = pre ++ { item with m_startSeq := start } :: post
  eq : b' = { b with
    m_appList := pre ++ post
    m_sentList := b.m_sentList ++ [item]
    m_sentSize := total (b.m_sentList ++ [item])
    nextItem := e.nextItem }

theorem Keeps.unflagged {e e' : Edit} (h : Keeps e e') (hu : ∀ item ∈ e.list, item.Unflagged) :
    ∀ item ∈ e'.list, item.Unflagged := by
  intro item hitem
  obtain ⟨old, hold, hs, hl, hr⟩ := h.flags item hitem
  have hun := hu old hold
  refine ⟨hl.trans hun.lost, hs.trans hun.sacked, ?_⟩
  apply Bool.eq_false_of_not_eq_true
  intro hitem
  exact Bool.false_ne_true (hun.retrans.symm.trans (hr hitem))

theorem eraseP_split {pre post : List TcpTxItem} (hpre : item.address ∉ pre.map TcpTxItem.address) :
    (pre ++ item :: post).eraseP (fun x => x.address = item.address) = pre ++ post := by
  rw [List.eraseP_append_right]
  · rw [List.eraseP_cons_of_pos (by simp)]
  · intro x hx
    simp only [decide_eq_true_eq]
    intro heq
    apply hpre
    rw [← heq]
    exact List.mem_map_of_mem hx

theorem getNewSegment_sends (h : b.Ledger) {n : ℕ} (hn : 0 < n)
    (hok : b.getNewSegment n = .ok (b', item)) : ∃ e pre post, Sends b item b' e pre post := by
  unfold getNewSegment at hok
  dsimp only at hok
  obtain ⟨⟨e, a⟩, hget, hok⟩ := bind_eq_ok.mp hok
  have happ : total b.m_appList < 2 ^ 31 := by
    have hsize := h.size
    have hbound := h.size_lt
    omega
  have hkeeps := keeps_of_edits (getPacketFromList_edits (plus_lt _ _) (plus_lt _ _) hn happ hget).1
  have hunflagged := hkeeps.unflagged h.app
  have hlt : b.m_retrans < 2 ^ 32 := by
    rw [h.retrans]
    exact ((weight_le_total _ _).trans_lt h.total_sent_lt).trans (by decide)
  have hzero : weight TcpTxItem.m_retrans b.m_appList = 0 :=
    weight_of_unflagged fun x hx => (h.app x hx).retrans
  have hzero' : weight TcpTxItem.m_retrans e.list = 0 :=
    weight_of_unflagged fun x hx => (hunflagged x hx).retrans
  obtain ⟨-, hretrans⟩ := hkeeps.retrans hlt b.m_retrans (by rw [hzero, Nat.zero_add])
  rw [hzero', Nat.zero_add] at hretrans
  dsimp only at hok
  split at hok
  · cases hok
  · rename_i x hfind
    obtain ⟨pre, post, hlist, rfl, hpre, -⟩ :=
      exists_split_of_find (hkeeps.fresh h.fresh_app).nodup hfind
    cases pure_eq_ok.mp hok
    have hx := hunflagged x (by rw [hlist]; simp)
    refine ⟨e, pre, post, hkeeps, ⟨hx.lost, hx.sacked, hx.retrans⟩, rfl, ⟨x.m_startSeq, ?_⟩, ?_⟩
    · rw [hlist]
    · have htotal : total e.list = total b.m_appList := by
        rw [← length_bytes, ← length_bytes, hkeeps.bytes]
      rw [hlist, total_append, total_cons] at htotal
      have hsum : addTo b.m_sentSize x.size = b.m_sentSize + x.size := by
        apply addTo_of_lt
        have hsize := h.size
        have hsent := h.sentSize
        have hbound := h.size_lt
        omega
      rw [hlist, eraseP_split hpre, hretrans]
      congr 1
      show addTo b.m_sentSize x.size = total (b.m_sentList ++ [{ x with m_startSeq := b.sentEnd }])
      rw [hsum, total_append, h.sentSize]
      rfl

theorem Sends.ledger {e : Edit} {pre post : List TcpTxItem} (hs : Sends b item b' e pre post)
    (h : b.Ledger) : b'.Ledger := by
  obtain ⟨start, hlist⟩ := hs.list
  have hkeeps := hs.keeps
  have hbytes : bytes (pre ++ item :: post) = bytes b.m_appList := by
    rw [← hkeeps.bytes, hlist]
    simp
  have htotal : total (pre ++ item :: post) = total b.m_appList := by
    rw [← length_bytes, ← length_bytes, hbytes]
  rw [total_append, total_cons] at htotal
  have haddress : (pre ++ item :: post).map TcpTxItem.address = e.list.map TcpTxItem.address := by
    rw [hlist]
    simp
  have hunflagged := hkeeps.unflagged h.app
  have hfresh := hkeeps.fresh h.fresh_app
  have hperm : ((b.m_sentList ++ [item]) ++ (pre ++ post)).Perm
      (b.m_sentList ++ (pre ++ item :: post)) := by
    rw [List.append_assoc, List.singleton_append]
    exact List.Perm.append_left _ List.perm_middle.symm
  have hall : ((b.m_sentList ++ (pre ++ item :: post)).map TcpTxItem.address).Nodup := by
    apply nodup_of_disjoint h.fresh_sent.nodup
    · rw [haddress]
      exact hfresh.nodup
    · rw [haddress]
      have hnew := hkeeps.disjoint (List.disjoint_symm h.disjoint)
        fun x hx => h.lt x (List.mem_append_left _ hx)
      exact List.disjoint_symm hnew
  have hsize := h.size
  rw [hs.eq]
  have hfull : ∀ x ∈ e.list, 0 < x.size :=
    hkeeps.full fun x hx => h.full x (List.mem_append_right _ hx)
  rw [hlist] at hfull
  refine ⟨rfl, ?_, h.size_lt, h.first_lt, ?_, ?_, ?_, ?_, ?_, ?_, ?_, ?_⟩
  · show b.m_size = total (b.m_sentList ++ [item]) + total (pre ++ post)
    rw [total_append, total_append, total_cons, total_nil]
    omega
  · intro x hx
    have hx := hperm.mem_iff.mp hx
    simp only [List.mem_append, List.mem_cons] at hx
    rcases hx with hx | hx | rfl | hx
    · exact h.full x (List.mem_append_left _ hx)
    · exact hfull x (by simp [hx])
    · exact hfull { x with m_startSeq := start } (by simp)
    · exact hfull x (by simp [hx])
  · apply (placed_append h.first_lt).mpr
    refine ⟨h.placed, ?_, trivial⟩
    rw [hs.start, sentEnd, h.sentSize]
  · show b.m_sackedOut = weight TcpTxItem.m_sacked (b.m_sentList ++ [item])
    rw [weight_append, weight_cons, hs.unflagged.sacked, h.sackedOut]
    rfl
  · show b.m_lostOut = weight TcpTxItem.m_lost (b.m_sentList ++ [item])
    rw [weight_append, weight_cons, hs.unflagged.lost, h.lostOut]
    rfl
  · show b.m_retrans = weight TcpTxItem.m_retrans (b.m_sentList ++ [item])
    rw [weight_append, weight_cons, hs.unflagged.retrans, h.retrans]
    rfl
  · intro x hx
    apply hunflagged
    rw [hlist]
    simp only [List.mem_append, List.mem_cons] at hx ⊢
    tauto
  · exact (hperm.map TcpTxItem.address).nodup_iff.mpr hall
  · intro x hx
    have hmem := hperm.mem_iff.mp hx
    rcases List.mem_append.mp hmem with hmem | hmem
    · exact (h.lt x (List.mem_append_left _ hmem)).trans_le hkeeps.nextItem
    · apply hfresh.lt
      rw [← haddress]
      exact List.mem_map_of_mem hmem

/-- What `CopyFromSequence` does. -/
inductive Copies (b : TcpTxBuffer) : Option TcpTxItem → TcpTxBuffer → Prop
  | nothing : Copies b none b
  | resend (item : TcpTxItem) (b' : TcpTxBuffer) (e : Edit) (pre post : List TcpTxItem)
      (h : Resends b item b' e pre post) (hsacked : item.m_sacked = false) : Copies b (some item) b'
  | send (item : TcpTxItem) (b' : TcpTxBuffer) (e : Edit) (pre post : List TcpTxItem)
      (h : Sends b item b' e pre post) : Copies b (some item) b'

theorem copyLoop_copies (h : b.Ledger) (hseq : seq.m_value < 2 ^ 32) {depth n : ℕ}
    {found : Option TcpTxItem} (hok : copyLoop depth b n seq = .ok (b', found)) :
    Copies b found b' := by
  induction depth generalizing n with
  | zero => cases hok
  | succ depth ih =>
    unfold copyLoop at hok
    split at hok
    · cases hok
    · dsimp only at hok
      split at hok
      · cases pure_eq_ok.mp hok
        exact .nothing
      · rename_i hs
        split at hok
        · obtain ⟨⟨b1, item⟩, hget, hok⟩ := bind_eq_ok.mp hok
          obtain ⟨hsacked, hok⟩ := check_bind_eq_ok.mp hok
          obtain ⟨-, hok⟩ := check_bind_eq_ok.mp hok
          cases pure_eq_ok.mp hok
          obtain ⟨e, pre, post, hr⟩ :=
            getTransmittedSegment_resends h hseq (Nat.pos_of_ne_zero hs) hget
          exact .resend item b1 e pre post hr hsacked
        · split at hok
          · split at hok
            · obtain ⟨⟨b1, item⟩, hget, hok⟩ := bind_eq_ok.mp hok
              obtain ⟨-, hok⟩ := check_bind_eq_ok.mp hok
              obtain ⟨-, hok⟩ := check_bind_eq_ok.mp hok
              cases pure_eq_ok.mp hok
              obtain ⟨e, pre, post, hsend⟩ := getNewSegment_sends h (Nat.pos_of_ne_zero hs) hget
              exact .send item b1 e pre post hsend
            · cases hok
          · split at hok
            · exact ih hok
            · cases hok

theorem Copies.ledger {found : Option TcpTxItem} (hc : Copies b found b') (h : b.Ledger) :
    b'.Ledger := by
  cases hc with
  | nothing => exact h
  | resend item _ e pre post hr _ => exact hr.ledger h
  | send item _ e pre post hs => exact hs.ledger h

end TcpTxBuffer

end Ns3.Internet
