import Ns3.Internet.TcpTxRun

/-!
# What CopyFromSequence returns

The items around the requested number are split and merged until one item has the bytes that are
asked for (`getPacketFromList_carves`). A request that begins in sent data and ends in new data is
cut to the sent part, by a comparison of raw values: it fails where the numbers wrap around within
the request.
-/

namespace Ns3.Internet

open Ns3.Network SequenceNumber32 Lib

variable {items pre merged post rest passed : List TcpTxItem} {item cur next : TcpTxItem}
  {start seq first : SequenceNumber32} {n k : ℕ}

theorem plus_lt_plus_iff {j : ℕ} (hj : j < k + 2 ^ 31) (hk : k < j + 2 ^ 31) :
    (plus start j).lt (plus start k) = true ↔ j < k := by
  refine (pos_lt_iff (p := start.m_value + j) (q := start.m_value + k) ?_ ?_).trans ?_
  · omega
  · omega
  · omega

theorem plus_le_plus_iff {j : ℕ} (hj : j < k + 2 ^ 31) (hk : k < j + 2 ^ 31) :
    (plus start j).le (plus start k) = true ↔ j ≤ k := by
  refine (pos_le_iff (p := start.m_value + j) (q := start.m_value + k) ?_ ?_).trans ?_
  · omega
  · omega
  · omega

theorem plus_ge_plus_iff {j : ℕ} (hj : j < k + 2 ^ 31) (hk : k < j + 2 ^ 31) :
    (plus start j).ge (plus start k) = true ↔ k ≤ j := by
  refine (pos_ge_iff (p := start.m_value + j) (q := start.m_value + k) ?_ ?_).trans ?_
  · omega
  · omega
  · omega

theorem plus_gt_plus_iff {j : ℕ} (hj : j < k + 2 ^ 31) (hk : k < j + 2 ^ 31) :
    (plus start j).gt (plus start k) = true ↔ k < j := by
  refine (pos_gt_iff (p := start.m_value + j) (q := start.m_value + k) ?_ ?_).trans ?_
  · omega
  · omega
  · omega

/-- The numbers that the items start at are not below the first one. -/
theorem ge_of_placed (hstart : start.m_value < 2 ^ 32) {k : ℕ}
    (hplaced : Placed (plus start k) items)
    (hlt : k + total items < 2 ^ 31) : ∀ x ∈ items, x.m_startSeq.ge start = true := by
  induction items generalizing k with
  | nil => exact fun _ hx => (List.not_mem_nil hx).elim
  | cons item rest ih =>
    obtain ⟨hitem, hrest⟩ := hplaced
    rw [total_cons] at hlt
    rw [plus_plus] at hrest
    intro x hx
    rcases List.mem_cons.mp hx with rfl | hx
    · rw [hitem]
      exact (plus_ge_iff hstart (by omega)).mpr (Or.inl (by omega))
    · exact ih hrest (by omega) x hx

namespace TcpTxBuffer

/-! ### The walk over a list -/

section

variable {sent : Bool} {e : Edit}

/-- The walk goes past the items that end at or below the requested number. -/
theorem walkList_skip (hstart : start.m_value < 2 ^ 32) (hk : total pre ≤ k) (hlt : k < 2 ^ 31)
    (hfirst : sent = true → ∀ x ∈ pre, x.m_startSeq.ge first = true) :
    walkList first sent n (plus start k) e passed start (pre ++ rest) =
      walkList first sent n (plus start k) e (passed ++ pre) (plus start (total pre)) rest := by
  induction pre generalizing start passed k with
  | nil => rw [List.nil_append, List.append_nil, total_nil, plus_zero_of_lt hstart]
  | cons x pre ih =>
    rw [total_cons] at hk
    have hcheck : sent = true → x.m_startSeq.ge first = true := fun hs =>
      hfirst hs x List.mem_cons_self
    have hpast : (plus start k).lt (plus start x.size) = false := by
      apply Bool.eq_false_of_not_eq_true
      rw [plus_lt_plus_iff (by omega) (by omega)]
      omega
    have hseq : plus start k = plus (plus start x.size) (k - x.size) := by
      rw [plus_plus, Nat.add_sub_cancel' (by omega)]
    rw [List.cons_append]
    conv_lhs => unfold walkList
    rw [bind_of_eq (check_of hcheck)]
    dsimp only
    have hrest : walkList first sent n (plus (plus start x.size) (k - x.size)) e (passed ++ [x])
        (plus start x.size) (pre ++ rest) =
          walkList first sent n (plus (plus start x.size) (k - x.size)) e (passed ++ [x] ++ pre)
            (plus (plus start x.size) (total pre)) rest :=
      ih (plus_lt start x.size) (by omega) (by omega) fun hs y hy =>
        hfirst hs y (List.mem_cons_of_mem x hy)
    rw [← hseq, plus_plus, List.append_assoc] at hrest
    rw [if_neg (by rw [hpast]; exact Bool.false_ne_true), hrest]
    rfl

/-- The walk at the item that starts at the requested number. -/
theorem walkList_at (hseq : seq.m_value < 2 ^ 32) (hcur : 0 < cur.size) (hlt : cur.size < 2 ^ 31)
    (hn : n < 2 ^ 31) (hfirst : sent = true → cur.m_startSeq.ge first = true) :
    walkList first sent n seq e passed seq (cur :: rest) =
      if n = cur.size then .ok ({ e with list := passed ++ cur :: rest }, some cur.address)
      else if n < cur.size then
        .ok ({ e with
          list := passed ++ (splitItems cur n e.nextItem).1 ::
            (splitItems cur n e.nextItem).2 :: rest
          nextItem := e.nextItem + 1 }, some e.nextItem)
      else match rest with
        | [] => .ok ({ e with list := passed ++ [cur] }, some cur.address)
        | next :: rest => do
          let (merged, retrans) ← mergeItems cur next e.retrans
          return ({ e with list := passed ++ merged :: rest, retrans := retrans }, none) := by
  have hzero : plus seq 0 = seq := plus_zero_of_lt hseq
  have hinside : seq.lt (plus seq cur.size) = true := by
    have h : (plus seq 0).lt (plus seq cur.size) = true :=
      (plus_lt_plus_iff (by omega) (by omega)).mpr hcur
    rwa [hzero] at h
  conv_lhs => unfold walkList
  rw [bind_of_eq (check_of hfirst)]
  dsimp only
  rw [if_pos hinside, if_pos rfl]
  by_cases hle : n ≤ cur.size
  · rw [if_pos ((plus_le_plus_iff (by omega) (by omega)).mpr hle)]
    split
    · rfl
    · rw [if_pos (by omega), if_pos (by omega)]
      rfl
  · rw [if_neg (mt (plus_le_plus_iff (by omega) (by omega)).mp hle), if_neg (by omega),
      if_neg (by omega)]
    cases rest with
    | nil => rfl
    | cons next rest => rfl

theorem mergeItems_ok (hsacked : cur.m_sacked = next.m_sacked) (hlost : cur.m_lost = next.m_lost)
    (retrans : ℕ) : ∃ item retrans', mergeItems cur next retrans = .ok (item, retrans') := by
  rw [mergeItems, bind_of_eq (check_of hsacked), bind_of_eq (check_of hlost)]
  dsimp only
  split
  · exact ⟨_, _, rfl⟩
  · split
    · exact ⟨_, _, rfl⟩
    · exact ⟨_, _, rfl⟩

/-- The item with the bytes that are asked for, and the other parts of the items it is made of. -/
structure Carved (cur : TcpTxItem) (n : ℕ) (res : TcpTxItem) (rest : List TcpTxItem) : Prop where
  size : res.size = n
  start : res.m_startSeq = cur.m_startSeq
  sacked : res.m_sacked = cur.m_sacked
  lost : res.m_lost = cur.m_lost
  rest : ∀ x ∈ rest, x.m_sacked = cur.m_sacked ∧ x.m_lost = cur.m_lost

theorem size_split {address : ℕ} (h : n ≤ cur.size) : (splitItems cur n address).1.size = n := by
  simp only [splitItems, TcpTxItem.size, List.length_take] at h ⊢
  omega

/-- One call of `GetPacketFromList`, with the item that starts at the requested number. -/
theorem getPacketFromList_at {fuel retrans nextItem : ℕ} (hstart : start.m_value < 2 ^ 32)
    (hseq : seq = plus start (total pre)) (hpre : total pre < 2 ^ 31) (hcur : 0 < cur.size)
    (hlt : cur.size < 2 ^ 31) (hn : n < 2 ^ 31)
    (hfirst : sent = true → ∀ x ∈ pre ++ [cur], x.m_startSeq.ge first = true) :
    getPacketFromList first sent start n seq (fuel + 1) ⟨pre ++ cur :: rest, retrans, nextItem⟩ =
      if n = cur.size then .ok (⟨pre ++ cur :: rest, retrans, nextItem⟩, cur.address)
      else if n < cur.size then
        .ok (⟨pre ++ (splitItems cur n nextItem).1 :: (splitItems cur n nextItem).2 :: rest,
          retrans, nextItem + 1⟩, nextItem)
      else match rest with
        | [] => .ok (⟨pre ++ [cur], retrans, nextItem⟩, cur.address)
        | next :: rest => mergeItems cur next retrans >>= fun r =>
          getPacketFromList first sent start n seq fuel ⟨pre ++ r.1 :: rest, r.2, nextItem⟩ := by
  rw [getPacketFromList, hseq, walkList_skip hstart le_rfl hpre
      fun hs x hx => hfirst hs x (List.mem_append_left _ hx), List.nil_append,
    walkList_at (plus_lt _ _) hcur hlt hn fun hs => hfirst hs cur (by simp)]
  split
  · rfl
  · split
    · rfl
    · cases rest with
      | nil => rfl
      | cons next rest =>
        dsimp only
        cases mergeItems cur next retrans with
        | error e => rfl
        | ok r => rfl

/-- `GetPacketFromList` ends, and its assertions hold, where the requested bytes are in items with
the same flags. -/
theorem getPacketFromList_carves {fuel retrans nextItem : ℕ} (hstart : start.m_value < 2 ^ 32)
    (hseq : seq = plus start (total pre)) (hlt : total pre + (cur.size + total merged) < 2 ^ 31)
    (hcur : 0 < cur.size)
    (hfirst : sent = true → ∀ x ∈ pre ++ [cur], x.m_startSeq.ge first = true)
    (hflags : ∀ x ∈ merged, x.m_sacked = cur.m_sacked ∧ x.m_lost = cur.m_lost)
    (hle : n ≤ cur.size + total merged) (hfuel : merged.length < fuel) :
    ∃ e' res rest, getPacketFromList first sent start n seq fuel
        ⟨pre ++ cur :: (merged ++ post), retrans, nextItem⟩ = .ok (e', res.address) ∧
      e'.list = pre ++ res :: (rest ++ post) ∧ Carved cur n res rest := by
  induction merged generalizing cur fuel retrans with
  | nil =>
    obtain ⟨fuel, rfl⟩ := Nat.exists_eq_add_one.mpr hfuel
    rw [total_nil] at hlt hle
    rw [getPacketFromList_at hstart hseq (by omega) hcur (by omega) (by omega) hfirst]
    split
    · rename_i hn
      exact ⟨_, cur, [], rfl, rfl, hn.symm, rfl, rfl, rfl, hflags⟩
    · rw [if_pos (by omega)]
      refine ⟨_, (splitItems cur n nextItem).1, [(splitItems cur n nextItem).2], rfl, rfl,
        size_split hle, rfl, rfl, rfl, ?_⟩
      intro x hx
      rw [List.mem_singleton.mp hx]
      exact ⟨rfl, rfl⟩
  | cons next merged ih =>
    obtain ⟨fuel, rfl⟩ := Nat.exists_eq_add_one.mpr ((Nat.succ_pos _).trans hfuel)
    rw [total_cons] at hlt hle
    rw [getPacketFromList_at hstart hseq (by omega) hcur (by omega) (by omega) hfirst]
    split
    · rename_i hn
      exact ⟨_, cur, next :: merged, rfl, rfl, hn.symm, rfl, rfl, rfl, hflags⟩
    · split
      · refine ⟨_, (splitItems cur n nextItem).1, (splitItems cur n nextItem).2 :: next :: merged,
          rfl, rfl, size_split (by omega), rfl, rfl, rfl, ?_⟩
        intro x hx
        rcases List.mem_cons.mp hx with rfl | hx
        · exact ⟨rfl, rfl⟩
        · exact hflags x hx
      · -- the next item is merged, and the search starts again
        obtain ⟨hsacked, hlost⟩ := hflags next List.mem_cons_self
        obtain ⟨item, retrans', hmerge⟩ := mergeItems_ok hsacked.symm hlost.symm retrans
        obtain ⟨-, -, hitem, -⟩ := mergeItems_eq hmerge
        have hsize : item.size = cur.size + next.size := by
          rw [hitem]
          exact List.length_append
        have hfirst' : sent = true → ∀ x ∈ pre ++ [item], x.m_startSeq.ge first = true := by
          intro hs x hx
          rcases List.mem_append.mp hx with hx | hx
          · exact hfirst hs x (List.mem_append_left _ hx)
          · rw [List.mem_singleton.mp hx, hitem]
            exact hfirst hs cur (by simp)
        have hflags' : ∀ x ∈ merged, x.m_sacked = item.m_sacked ∧ x.m_lost = item.m_lost := by
          intro x hx
          rw [hitem]
          exact hflags x (List.mem_cons_of_mem next hx)
        obtain ⟨e', res, rest, hget, hlist, hcarved⟩ :=
          ih (by omega) (by omega) hfirst' hflags' (by omega)
          (by simpa using hfuel)
        refine ⟨e', res, rest, ?_, hlist, hcarved.size, ?_, ?_, ?_, ?_⟩
        · dsimp only [List.cons_append]
          rw [bind_of_eq hmerge]
          exact hget
        · rw [hcarved.start, hitem]
        · rw [hcarved.sacked, hitem]
        · rw [hcarved.lost, hitem]
        · intro x hx
          have hx := hcarved.rest x hx
          rw [hitem] at hx
          exact hx

end

variable {b b' : TcpTxBuffer}

/-- The bytes that are sent or to be sent, from SND.UNA on. -/
def stream (b : TcpTxBuffer) : List UInt8 := bytes (b.m_sentList ++ b.m_appList)

/-- The position of a sequence number in the stream. -/
def offset (b : TcpTxBuffer) (seq : SequenceNumber32) : ℕ := toUint32 (seq.sub b.m_firstByteSeq)

/-- A number from which data is available: SND.NXT, or the start of a sent item that is not
sacked. -/
def Requests (b : TcpTxBuffer) (seq : SequenceNumber32) : Prop :=
  (seq = b.sentEnd ∧ b.m_appList ≠ []) ∨
    ∃ item ∈ b.m_sentList, item.m_sacked = false ∧ item.m_startSeq = seq

/-- The item is the requested part of the stream, and the stream is still the same. -/
structure Serves (b : TcpTxBuffer) (numBytes : ℕ) (seq : SequenceNumber32) (b' : TcpTxBuffer)
    (item : TcpTxItem) : Prop where
  start : item.m_startSeq = seq
  pos : 1 ≤ item.size
  le : item.size ≤ numBytes
  packet : item.m_packet = (b.stream.drop (b.offset seq)).take item.size
  stream : b'.stream = b.stream

/-- `CopyFromSequence` ends and returns an item that serves the request. -/
def ReturnsData (b : TcpTxBuffer) (numBytes : ℕ) (seq : SequenceNumber32) : Prop :=
  ∃ b' item, b.copyFromSequence numBytes seq = .ok (b', some item) ∧ Serves b numBytes seq b' item

/-- The sequence numbers do not wrap around within a request that begins in sent data and ends in
new data. -/
def NoWrapWithin (b : TcpTxBuffer) (numBytes : ℕ) (seq : SequenceNumber32) : Prop :=
  b.offset seq < b.m_sentSize →
    b.m_sentSize < b.offset seq + min numBytes (b.m_size - b.offset seq) →
    seq.m_value + min numBytes (b.m_size - b.offset seq) < 2 ^ 32

theorem find_split (hnodup : ((pre ++ item :: post).map TcpTxItem.address).Nodup) :
    (pre ++ item :: post).find? (fun x => x.address = item.address) = some item ∧
      item.address ∉ pre.map TcpTxItem.address ∧ item.address ∉ post.map TcpTxItem.address := by
  rw [List.map_append, List.map_cons] at hnodup
  have hpre : item.address ∉ pre.map TcpTxItem.address := fun hmem =>
    List.disjoint_of_nodup_append hnodup hmem List.mem_cons_self
  refine ⟨?_, hpre, (List.nodup_cons.mp hnodup.of_append_right).1⟩
  rw [List.find?_append, List.find?_eq_none.mpr, Option.none_or, List.find?_cons_of_pos]
  · simp
  · intro x hx
    simp only [decide_eq_true_eq]
    intro heq
    apply hpre
    rw [← heq]
    exact List.mem_map_of_mem hx

theorem packet_of_split (h : items = pre ++ item :: post) :
    item.m_packet = ((bytes items).drop (total pre)).take item.size := by
  rw [h, bytes_append, bytes_cons, List.drop_left' length_bytes, TcpTxItem.size, List.take_left]

/-- The number of an item, as an offset. -/
theorem Ledger.start_eq (h : b.Ledger) (hlist : b.m_sentList = pre ++ cur :: post) :
    cur.m_startSeq = plus b.m_firstByteSeq (total pre) := by
  have hplaced := h.placed
  rw [hlist, placed_append h.first_lt] at hplaced
  exact hplaced.2.1

theorem Ledger.offset_eq (h : b.Ledger) (hk : k < 2 ^ 32) :
    b.offset (plus b.m_firstByteSeq k) = k := toUint32_plus_sub h.first_lt hk

theorem Ledger.sizeFromSequence_eq (h : b.Ledger) (hk : k ≤ b.m_size) :
    b.sizeFromSequence (plus b.m_firstByteSeq k) = b.m_size - k := by
  have hsize := h.size_lt
  have htail : b.tailSequence = plus (plus b.m_firstByteSeq k) (b.m_size - k) := by
    rw [plus_plus, Nat.add_sub_cancel' hk, tailSequence]
  rw [sizeFromSequence, htail, if_pos, toUint32_plus_sub (plus_lt _ _) (by omega)]
  exact (plus_ge_iff (plus_lt _ _) (by omega)).mpr (Or.inl (by omega))

/-! ### GetNewSegment -/

theorem getNewSegment_serves (h : b.Ledger) (hn : 0 < n) (hle : n ≤ total b.m_appList) :
    ∃ b' item, b.getNewSegment n = .ok (b', item) ∧ item.m_startSeq = b.sentEnd ∧ item.size = n ∧
      item.Unflagged ∧ b'.m_sentList = b.m_sentList ++ [item] ∧
      item.m_packet ++ bytes b'.m_appList = bytes b.m_appList ∧
      b'.m_firstByteSeq = b.m_firstByteSeq := by
  have hsize := h.size
  have hbound := h.size_lt
  cases happ : b.m_appList with
  | nil =>
    rw [happ, total_nil] at hle
    omega
  | cons cur merged =>
    have hflagged : ∀ x ∈ cur :: merged, x.Unflagged := happ ▸ h.app
    have hcur := hflagged cur List.mem_cons_self
    have hfull := h.full cur (List.mem_append_right _ (by rw [happ]; exact List.mem_cons_self))
    rw [happ, total_cons] at hle hsize
    obtain ⟨e, res, rest, hget, hlist, hcarved⟩ : ∃ e' res rest, getPacketFromList b.m_firstByteSeq
        false b.sentEnd n b.sentEnd (fuel b.m_appList) ⟨[] ++ cur :: (merged ++ []), b.m_retrans,
          b.nextItem⟩ = .ok (e', res.address) ∧
        e'.list = [] ++ res :: (rest ++ []) ∧ Carved cur n res rest := by
      apply getPacketFromList_carves (plus_lt _ _)
      · exact (plus_zero_of_lt (plus_lt _ _)).symm
      · rw [total_nil]
        omega
      · exact hfull
      · exact fun hs => (Bool.false_ne_true hs).elim
      · intro x hx
        have hx := hflagged x (List.mem_cons_of_mem cur hx)
        exact ⟨hx.sacked.trans hcur.sacked.symm, hx.lost.trans hcur.lost.symm⟩
      · exact hle
      · rw [fuel, happ, List.length_cons]
        omega
    rw [List.append_nil, List.nil_append] at hget hlist
    have hkeeps := keeps_of_edits (getPacketFromList_edits (plus_lt _ _) (plus_lt _ _) hn
      (by rw [total_cons]; omega) hget).1
    have hbytes : bytes (res :: rest) = bytes (cur :: merged) := hlist ▸ hkeeps.bytes
    have hun := hkeeps.unflagged hflagged res (by rw [hlist]; exact List.mem_cons_self)
    rw [getNewSegment, happ]
    rw [happ] at hget
    dsimp only
    rw [bind_of_eq hget]
    dsimp only
    have hfind : e.list.find? (fun x => x.address = res.address) = some res := by
      rw [hlist, List.find?_cons_of_pos]
      simp
    have herase : e.list.eraseP (fun x => x.address = res.address) = rest := by
      rw [hlist, List.eraseP_cons_of_pos]
      simp
    rw [hfind, herase]
    refine ⟨_, _, rfl, rfl, hcarved.size, ⟨hun.lost, hun.sacked, hun.retrans⟩, rfl, ?_, rfl⟩
    rw [← hbytes, bytes_cons]

/-! ### GetTransmittedSegment -/

/-- The limit of a retransmission, which lets one more item be merged at most. -/
theorem mergeLimit_eq (n : ℕ) (post : List TcpTxItem) (hpre : ∀ x ∈ pre, x.m_startSeq ≠ seq)
    (hcur : cur.m_startSeq = seq)
    (hsacked : cur.m_sacked = false) :
    ∃ merged rest, post = merged ++ rest ∧ merged.length ≤ 1 ∧
      (∀ x ∈ merged, x.m_sacked = cur.m_sacked ∧ x.m_lost = cur.m_lost) ∧
      mergeLimit n seq (pre ++ cur :: post) = min n (cur.size + total merged) := by
  induction pre with
  | nil =>
    rw [List.nil_append]
    unfold mergeLimit
    rw [if_pos hcur]
    cases post with
    | nil => exact ⟨[], [], rfl, Nat.zero_le 1, fun _ hx => (List.not_mem_nil hx).elim, rfl⟩
    | cons next post =>
      dsimp only
      split
      · rename_i hnext
        obtain ⟨hns, hnl⟩ := hnext
        refine ⟨[next], post, rfl, le_rfl, ?_, rfl⟩
        intro x hx
        rw [List.mem_singleton.mp hx, hsacked]
        exact ⟨by simpa using hns, hnl.symm⟩
      · exact ⟨[], next :: post, rfl, Nat.zero_le 1, fun _ hx => (List.not_mem_nil hx).elim, rfl⟩
  | cons x pre ih =>
    obtain ⟨merged, rest, hpost, hone, hflags, hlimit⟩ :=
      ih fun y hy => hpre y (List.mem_cons_of_mem x hy)
    refine ⟨merged, rest, hpost, hone, hflags, ?_⟩
    rw [List.cons_append]
    conv_lhs => unfold mergeLimit
    rw [if_neg (hpre x List.mem_cons_self), hlimit]

/-- What a retransmission does to the sent list: the items from the requested one on become the
returned one and others, with the same flags but for `m_retrans`. -/
structure Reshapes (b : TcpTxBuffer) (pre : List TcpTxItem) (cur : TcpTxItem)
    (merged rest post : List TcpTxItem) (item : TcpTxItem) (b' : TcpTxBuffer) : Prop where
  old : b.m_sentList = pre ++ cur :: (merged ++ post)
  new : b'.m_sentList = pre ++ item :: (rest ++ post)
  merged : ∀ x ∈ merged, x.m_sacked = cur.m_sacked ∧ x.m_lost = cur.m_lost
  sacked : item.m_sacked = cur.m_sacked
  lost : item.m_lost = cur.m_lost
  rest : ∀ x ∈ rest, x.m_sacked = cur.m_sacked ∧ x.m_lost = cur.m_lost
  bytes : bytes b'.m_sentList = bytes b.m_sentList

theorem plus_inj {j : ℕ} (hj : j < k + 2 ^ 32) (hk : k < j + 2 ^ 32) :
    plus start j = plus start k ↔ j = k := by
  refine (pos_eq_iff (p := start.m_value + j) (q := start.m_value + k) ?_ ?_).trans ?_
  · omega
  · omega
  · omega

theorem Ledger.start_ge (h : b.Ledger) :
    ∀ x ∈ b.m_sentList, x.m_startSeq.ge b.m_firstByteSeq = true := by
  have hplaced : Placed (plus b.m_firstByteSeq 0) b.m_sentList := by
    rw [plus_zero_of_lt h.first_lt]
    exact h.placed
  have htotal := h.total_sent_lt
  exact ge_of_placed h.first_lt hplaced (by omega)

/-- Items below one start at other numbers. -/
theorem Ledger.start_ne (h : b.Ledger) (hlist : b.m_sentList = pre ++ cur :: post) :
    ∀ x ∈ pre, x.m_startSeq ≠ cur.m_startSeq := by
  intro x hx
  obtain ⟨pre1, pre2, rfl⟩ := List.append_of_mem hx
  have hsize := h.full_sent x (by rw [hlist]; simp)
  have htotal := h.total_sent_lt
  have hstart := h.start_eq hlist
  rw [List.append_assoc] at hlist
  rw [hstart, h.start_eq hlist]
  rw [hlist] at htotal
  simp only [List.cons_append, total_append, total_cons] at htotal ⊢
  rw [ne_eq, plus_inj (by omega) (by omega)]
  omega

theorem getTransmittedSegment_serves (h : b.Ledger) (hlist : b.m_sentList = pre ++ cur :: post)
    (hsacked : cur.m_sacked = false) (hn : 0 < n) (hle : total pre + n ≤ b.m_sentSize) :
    ∃ b' item merged rest post', b.getTransmittedSegment n cur.m_startSeq = .ok (b', item) ∧
      item.m_startSeq = cur.m_startSeq ∧ 0 < item.size ∧ item.size ≤ n ∧
      Reshapes b pre cur merged rest post' item b' ∧ b'.m_appList = b.m_appList ∧
      b'.m_firstByteSeq = b.m_firstByteSeq := by
  have hsent := h.total_sent_lt
  have hstart := h.start_eq hlist
  have hcur := h.full_sent cur (by rw [hlist]; simp)
  obtain ⟨merged, post', rfl, hone, hflags, hlimit⟩ := mergeLimit_eq n post
    (h.start_ne hlist) rfl hsacked
  have htotal : total b.m_sentList = total pre + (cur.size + (total merged + total post')) := by
    rw [hlist, total_append, total_cons, total_append]
  rw [← hlist] at hlimit
  have hpos : 0 < min n (cur.size + total merged) := by omega
  obtain ⟨e, res, rest, hget, hnew, hcarved⟩ : ∃ e' res rest, getPacketFromList b.m_firstByteSeq
      true b.m_firstByteSeq (min n (cur.size + total merged)) cur.m_startSeq (fuel b.m_sentList)
      ⟨pre ++ cur :: (merged ++ post'), b.m_retrans, b.nextItem⟩ = .ok (e', res.address) ∧
      e'.list = pre ++ res :: (rest ++ post') ∧
      Carved cur (min n (cur.size + total merged)) res rest := by
    apply getPacketFromList_carves h.first_lt hstart
    · omega
    · exact hcur
    · intro _ x hx
      apply h.start_ge x
      rw [hlist]
      simp only [List.mem_append, List.mem_cons] at hx ⊢
      tauto
    · exact hflags
    · exact min_le_right _ _
    · rw [fuel, hlist, List.length_append, List.length_cons]
      omega
  rw [← hlist] at hget
  have hkeeps := keeps_of_edits (getPacketFromList_edits (h.start_lt cur (by rw [hlist]; simp))
    h.first_lt hpos hsent hget).1
  have hfresh := (hkeeps.fresh h.fresh_sent).nodup
  rw [hnew] at hfresh
  obtain ⟨hfind, hpre, hpost⟩ := find_split hfresh
  have hbytes : bytes e.list = bytes b.m_sentList := hkeeps.bytes
  rw [getTransmittedSegment, hlimit]
  have hge : cur.m_startSeq.ge b.m_firstByteSeq = true := h.start_ge cur (by rw [hlist]; simp)
  have hlength : 1 ≤ b.m_sentList.length := by
    rw [hlist, List.length_append, List.length_cons]
    omega
  have hfit : n ≤ b.m_sentSize := by omega
  rw [bind_of_eq (check_of hge), bind_of_eq (check_of hfit), bind_of_eq (check_of hlength)]
  dsimp only
  rw [bind_of_eq hget]
  dsimp only
  rw [hnew, hfind]
  dsimp only
  have hitem : res.size ≤ n := hcarved.size.le.trans (min_le_left _ _)
  have hitem' : 0 < res.size := hcarved.size ▸ hpos
  split
  · exact ⟨_, res, merged, rest, post', rfl, hcarved.start, hitem', hitem,
      ⟨hlist, rfl, hflags, hcarved.sacked, hcarved.lost, hcarved.rest, hnew ▸ hbytes⟩, rfl, rfl⟩
  · refine ⟨_, { res with m_retrans := true }, merged, rest, post', rfl, hcarved.start, hitem',
      hitem, ⟨hlist, setRetrans_split hpre hpost, hflags, hcarved.sacked, hcarved.lost,
        hcarved.rest, ?_⟩, rfl, rfl⟩
    show bytes (setRetrans _ _) = _
    rw [(setRetrans_eq _ _).2.2.1, ← hnew, hbytes]

/-! ### CopyFromSequence -/

theorem Ledger.stream_of_sent (hb : bytes b'.m_sentList = bytes b.m_sentList)
    (happ : b'.m_appList = b.m_appList) : b'.stream = b.stream := by
  rw [stream, stream, bytes_append, bytes_append, hb, happ]

/-- The first tests of `CopyFromSequence`. -/
theorem copyLoop_eq (h : b.Ledger) {depth o : ℕ} (ho : o < b.m_size) (hn : 0 < n) :
    copyLoop (depth + 1) b n (plus b.m_firstByteSeq o) =
      if o + min n (b.m_size - o) ≤ b.m_sentSize then do
        let (b', item) ← b.getTransmittedSegment (min n (b.m_size - o)) (plus b.m_firstByteSeq o)
        check (item.m_sacked = false)
        check (item.m_startSeq.ge b'.m_firstByteSeq = true)
        return (b', some item)
      else if b.m_sentSize ≤ o then
        if b.sentEnd = plus b.m_firstByteSeq o then do
          let (b', item) ← b.getNewSegment (min n (b.m_size - o))
          check (item.m_retrans = false)
          check (item.m_startSeq.ge b'.m_firstByteSeq = true)
          return (b', some item)
        else .error .abort
      else if (plus b.m_firstByteSeq o).m_value + min n (b.m_size - o) < 2 ^ 32 then
        copyLoop depth b (b.m_sentSize - o) (plus b.m_firstByteSeq o)
      else .error .nullPointer := by
  have hsize := h.size
  have hsent := h.sentSize
  have hbound := h.size_lt
  have hfirst := h.first_lt
  have hnot : ¬b.m_firstByteSeq.gt (plus b.m_firstByteSeq o) = true := by
    have hgt : (plus b.m_firstByteSeq 0).gt (plus b.m_firstByteSeq o) = true ↔ o < 0 :=
      plus_gt_plus_iff (by omega) (by omega)
    rw [plus_zero_of_lt hfirst] at hgt
    rw [hgt]
    omega
  have hs : min n (b.sizeFromSequence (plus b.m_firstByteSeq o)) = min n (b.m_size - o) := by
    rw [h.sizeFromSequence_eq ho.le]
  have hlt : min n (b.m_size - o) ≤ b.m_size - o := min_le_right _ _
  have hpos : 0 < min n (b.m_size - o) := by omega
  generalize min n (b.m_size - o) = s at hs hlt hpos ⊢
  have hge : b.sentEnd.ge (plus (plus b.m_firstByteSeq o) s) = true ↔ o + s ≤ b.m_sentSize := by
    rw [plus_plus]
    exact plus_ge_plus_iff (by omega) (by omega)
  have hle : b.sentEnd.le (plus b.m_firstByteSeq o) = true ↔ b.m_sentSize ≤ o :=
    plus_le_plus_iff (by omega) (by omega)
  conv_lhs => unfold copyLoop
  rw [if_neg hnot]
  dsimp only
  rw [hs, if_neg (by omega)]
  simp only [hge, hle]
  split
  · rfl
  · split
    · rfl
    · have hend : addTo b.m_firstByteSeq.m_value b.m_sentSize =
          (b.m_firstByteSeq.m_value + b.m_sentSize) % 2 ^ 32 := rfl
      have hseq : (plus b.m_firstByteSeq o).m_value = (b.m_firstByteSeq.m_value + o) % 2 ^ 32 := rfl
      have hstop : addTo (plus b.m_firstByteSeq o).m_value s =
          ((b.m_firstByteSeq.m_value + o) % 2 ^ 32 + s) % 2 ^ 32 := rfl
      have htake : takeFrom (addTo b.m_firstByteSeq.m_value b.m_sentSize)
          (plus b.m_firstByteSeq o).m_value = b.m_sentSize - o := by
        rw [takeFrom, diff, hend, hseq]
        omega
      rw [htake]
      apply ite_congr ?_ (fun _ => rfl) (fun _ => rfl)
      rw [hend, hstop, hseq, eq_iff_iff]
      omega

/-- An item at the offset is the requested part of the stream. -/
theorem serves_of_shape (h : b.Ledger) {o m : ℕ} (ho : o < 2 ^ 32) (hm : m ≤ n)
    (hstart : item.m_startSeq = plus b.m_firstByteSeq o) (hpos : 0 < item.size)
    (hle : item.size ≤ m)
    (hnew : b'.m_sentList = pre ++ item :: rest) (hpre : total pre = o)
    (hstream : b'.stream = b.stream) :
    Serves b n (plus b.m_firstByteSeq o) b' item where
  start := hstart
  pos := hpos
  le := hle.trans hm
  packet := by
    rw [h.offset_eq ho, ← hstream, ← hpre]
    have hall : b'.m_sentList ++ b'.m_appList = pre ++ item :: (rest ++ b'.m_appList) := by
      rw [hnew, List.append_assoc, List.cons_append]
    exact packet_of_split hall
  stream := hstream

theorem Ledger.start_lt_size (h : b.Ledger) (hlist : b.m_sentList = pre ++ cur :: post) :
    total pre < b.m_sentSize ∧ total pre < b.m_size := by
  have hcur := h.full_sent cur (by rw [hlist]; simp)
  have hsent := h.sentSize
  have hsize := h.size
  rw [hlist, total_append, total_cons] at hsent hsize
  omega

/-- A request that ends in the sent data. -/
theorem copyLoop_sent (h : b.Ledger) (depth : ℕ) (hlist : b.m_sentList = pre ++ cur :: post)
    (hsacked : cur.m_sacked = false) (hn : 0 < n)
    (hle : total pre + min n (b.m_size - total pre) ≤ b.m_sentSize) :
    ∃ b' item merged rest post', copyLoop (depth + 1) b n cur.m_startSeq = .ok (b', some item) ∧
      Reshapes b pre cur merged rest post' item b' ∧ Serves b n cur.m_startSeq b' item := by
  have hstart := h.start_eq hlist
  have hbound := h.size_lt
  obtain ⟨-, hlt⟩ := h.start_lt_size hlist
  obtain ⟨b', item, merged, rest, post', hok, hitem, hpos, hsize, hshape, happ, hfirst⟩ :=
    getTransmittedSegment_serves h hlist hsacked (n := min n (b.m_size - total pre)) (by omega) hle
  have hge : item.m_startSeq.ge b'.m_firstByteSeq = true := by
    rw [hitem, hfirst]
    exact h.start_ge cur (by rw [hlist]; simp)
  refine ⟨b', item, merged, rest, post', ?_, hshape, ?_⟩
  · rw [hstart, copyLoop_eq h hlt hn, if_pos hle, ← hstart, bind_of_eq hok]
    dsimp only
    rw [bind_of_eq (check_of (hshape.sacked.trans hsacked)), bind_of_eq (check_of hge)]
    rfl
  · rw [hstart]
    exact serves_of_shape h (by omega) (min_le_left _ _) (hitem.trans hstart) hpos hsize hshape.new
      rfl
      (Ledger.stream_of_sent hshape.bytes happ)

/-- A request of new data. -/
theorem copyLoop_new (h : b.Ledger) (depth : ℕ) (happ : b.m_appList ≠ []) (hn : 0 < n) :
    ∃ b' item, copyLoop (depth + 1) b n b.sentEnd = .ok (b', some item) ∧ item.Unflagged ∧
      b'.m_sentList = b.m_sentList ++ [item] ∧ Serves b n b.sentEnd b' item := by
  have hsent := h.sentSize
  have hsize := h.size
  have hbound := h.size_lt
  have happ : 0 < total b.m_appList := by
    obtain ⟨x, rest, hlist⟩ := List.exists_cons_of_ne_nil happ
    have hx := h.full x (List.mem_append_right _ (by rw [hlist]; exact List.mem_cons_self))
    rw [hlist, total_cons]
    omega
  obtain ⟨b', item, hok, hitem, hitemSize, hun, hnew, hbytes, hfirst⟩ :=
    getNewSegment_serves h (n := min n (b.m_size - b.m_sentSize)) (by omega) (by omega)
  have hge : item.m_startSeq.ge b'.m_firstByteSeq = true := by
    rw [hitem, hfirst]
    exact (plus_ge_iff h.first_lt (by omega)).mpr (Or.inl (by omega))
  have hstream : b'.stream = b.stream := by
    rw [stream, stream, bytes_append, bytes_append, hnew, bytes_append, ← hbytes, bytes_cons,
      List.append_assoc, List.append_assoc]
    rfl
  refine ⟨b', item, ?_, hun, hnew, ?_⟩
  · have hend : b.sentEnd = plus b.m_firstByteSeq b.m_sentSize := rfl
    rw [hend, copyLoop_eq h (by omega) hn, if_neg (by omega), if_pos le_rfl, if_pos hend,
      bind_of_eq hok]
    dsimp only
    rw [bind_of_eq (check_of hun.retrans), bind_of_eq (check_of hge)]
    rfl
  · exact serves_of_shape h (by omega) (min_le_left _ _) hitem (by omega) hitemSize.le hnew
      hsent.symm hstream

/-- What `CopyFromSequence` does with a request. -/
inductive Answers (b : TcpTxBuffer) (n : ℕ) (seq : SequenceNumber32) (b' : TcpTxBuffer)
    (item : TcpTxItem) : Prop
  | resend (pre : List TcpTxItem) (cur : TcpTxItem) (merged rest post : List TcpTxItem)
      (hsacked : cur.m_sacked = false) (hshape : Reshapes b pre cur merged rest post item b')
      (hserves : Serves b n seq b' item)
  | send (hun : item.Unflagged) (hnew : b'.m_sentList = b.m_sentList ++ [item])
      (hserves : Serves b n seq b' item)

theorem Answers.serves {seq : SequenceNumber32} (h : Answers b n seq b' item) :
    Serves b n seq b' item := by
  cases h with
  | resend _ _ _ _ _ _ _ hserves => exact hserves
  | send _ _ hserves => exact hserves

theorem Serves.le_trans {m : ℕ} (h : Serves b m seq b' item) (hle : m ≤ n) :
    Serves b n seq b' item :=
  ⟨h.start, h.pos, h.le.trans hle, h.packet, h.stream⟩

theorem copyFromSequence_answers (h : b.Ledger) (hn : 0 < n) (hreq : b.Requests seq)
    (hwrap : b.NoWrapWithin n seq) :
    ∃ b' item, b.copyFromSequence n seq = .ok (b', some item) ∧ Answers b n seq b' item := by
  rcases hreq with ⟨rfl, happ⟩ | ⟨cur, hcur, hsacked, rfl⟩
  · obtain ⟨b', item, hok, hun, hnew, hserves⟩ := copyLoop_new h 1 happ hn
    exact ⟨b', item, hok, .send hun hnew hserves⟩
  · obtain ⟨pre, post, hlist⟩ := List.append_of_mem hcur
    have hbound := h.size_lt
    have hstart := h.start_eq hlist
    obtain ⟨hsent, hsize⟩ := h.start_lt_size hlist
    by_cases hle : total pre + min n (b.m_size - total pre) ≤ b.m_sentSize
    · obtain ⟨b', item, merged, rest, post', hok, hshape, hserves⟩ :=
        copyLoop_sent h 1 hlist hsacked hn hle
      exact ⟨b', item, hok, .resend pre cur merged rest post' hsacked hshape hserves⟩
    · -- the request is cut at the end of the sent data
      rw [NoWrapWithin, hstart, h.offset_eq (by omega)] at hwrap
      have hcut :
          total pre + min (b.m_sentSize - total pre) (b.m_size - total pre) ≤ b.m_sentSize := by
        omega
      obtain ⟨b', item, merged, rest, post', hok, hshape, hserves⟩ :=
        copyLoop_sent h 0 hlist hsacked (n := b.m_sentSize - total pre) (by omega) hcut
      refine ⟨b', item, ?_, .resend pre cur merged rest post' hsacked hshape
        (hserves.le_trans (by omega))⟩
      rw [copyFromSequence, hstart, copyLoop_eq h hsize hn, if_neg hle, if_neg (by omega),
        if_pos (hwrap hsent (by omega)), ← hstart]
      exact hok

theorem copyFromSequence_fails (h : b.Ledger) (hn : 0 < n) (hreq : b.Requests seq)
    (hwrap : ¬b.NoWrapWithin n seq) : b.copyFromSequence n seq = .error .nullPointer := by
  have hbound := h.size_lt
  have hsize := h.size
  have hsent := h.sentSize
  rw [NoWrapWithin] at hwrap
  simp only [Classical.not_imp, not_lt] at hwrap
  obtain ⟨hlt, hgt, hval⟩ := hwrap
  rcases hreq with ⟨rfl, -⟩ | ⟨cur, hcur, hsacked, rfl⟩
  · rw [sentEnd, h.offset_eq (by omega)] at hlt
    omega
  · obtain ⟨pre, post, hlist⟩ := List.append_of_mem hcur
    obtain ⟨-, hlt'⟩ := h.start_lt_size hlist
    rw [h.start_eq hlist, h.offset_eq (by omega)] at hlt hgt hval
    rw [copyFromSequence, h.start_eq hlist, copyLoop_eq h hlt' hn, if_neg (by omega),
      if_neg (by omega), if_neg (by omega)]

/-- A buffer that starts 3 before the wrap-around, with 6 bytes of which 2 are sent. -/
def nearWrap : TcpTxBuffer :=
  after { m_firstByteSeq := ⟨2 ^ 32 - 3⟩ }
    [.add [1, 2, 3, 4, 5, 6], .copyFromSequence 2 ⟨2 ^ 32 - 3⟩]

theorem nearWrap_run : Run Fits nearWrap :=
  Run.follows (.start _ ⟨rfl, rfl, rfl, rfl, by decide, rfl, rfl, rfl, rfl⟩)
    (by decide : Follows Fits { m_firstByteSeq := ⟨2 ^ 32 - 3⟩ }
      [.add [1, 2, 3, 4, 5, 6], .copyFromSequence 2 ⟨2 ^ 32 - 3⟩] nearWrap)

/-- A request of 4 bytes from the sent item on finds no item. -/
theorem request_unanswered : ¬∀ b numBytes seq, Run Fits b → 0 < numBytes → b.Requests seq →
    b.ReturnsData numBytes seq := by
  intro h
  obtain ⟨b', item, hok, -⟩ := h nearWrap 4 ⟨2 ^ 32 - 3⟩ nearWrap_run (by decide)
    (Or.inr (by decide))
  have hnull : nearWrap.copyFromSequence 4 ⟨2 ^ 32 - 3⟩ = .error .nullPointer := by decide
  rw [hnull] at hok
  cases hok

/-- In every reachable state, a request is answered if and only if the numbers do not wrap around
within it where it begins in sent data and ends in new data. -/
theorem copyFromSequence_returns_iff (b : TcpTxBuffer) (h : Run Fits b) (numBytes : ℕ)
    (seq : SequenceNumber32) (hn : 0 < numBytes) (hreq : b.Requests seq) :
    b.ReturnsData numBytes seq ↔ b.NoWrapWithin numBytes seq := by
  constructor
  · rintro ⟨b', item, hok, -⟩
    by_contra hwrap
    rw [copyFromSequence_fails h.ledger hn hreq hwrap] at hok
    cases hok
  · intro hwrap
    obtain ⟨b', item, hok, hanswers⟩ := copyFromSequence_answers h.ledger hn hreq hwrap
    exact ⟨b', item, hok, hanswers.serves⟩

theorem copyFromSequence_returns_iff_nearWrap :
    nearWrap.ReturnsData 2 ⟨2 ^ 32 - 3⟩ ↔ nearWrap.NoWrapWithin 2 ⟨2 ^ 32 - 3⟩ :=
  copyFromSequence_returns_iff nearWrap nearWrap_run 2 ⟨2 ^ 32 - 3⟩ (by decide)
    (Or.inr (by decide))

end TcpTxBuffer

end Ns3.Internet
