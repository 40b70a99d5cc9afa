import Mathlib.Algebra.Order.Ring.Int
import Ns3.Lib.Outcome
import Ns3.Internet.TcpTxNextSeg
import Mathlib.Logic.Relation
import Mathlib.Tactic.Tauto

/-!
# The lists of the send buffer

`GetPacketFromList` changes a list by splits and merges of items (`Edits`). What is counted by a
flag, the bytes and the addresses are kept by each of them.
-/

namespace Ns3.Internet

open Ns3.Network Lib

/-- The bytes of the items with a flag. -/
def weight (flag : TcpTxItem → Bool) (items : List TcpTxItem) : ℕ := total (items.filter flag)

/-- The bytes that the items hold. -/
def bytes (items : List TcpTxItem) : List UInt8 := items.flatMap TcpTxItem.m_packet

/-- The items start one where the other ends. -/
def Placed : SequenceNumber32 → List TcpTxItem → Prop
  | _, [] => True
  | start, item :: rest => item.m_startSeq = start ∧ Placed (plus start item.size) rest

structure TcpTxItem.Unflagged (item : TcpTxItem) : Prop where
  lost : item.m_lost = false
  sacked : item.m_sacked = false
  retrans : item.m_retrans = false

instance (item : TcpTxItem) : Decidable item.Unflagged :=
  decidable_of_iff (item.m_lost = false ∧ item.m_sacked = false ∧ item.m_retrans = false)
    ⟨fun ⟨hl, hs, hr⟩ => ⟨hl, hs, hr⟩, fun h => ⟨h.lost, h.sacked, h.retrans⟩⟩

variable {flag : TcpTxItem → Bool} {items items' pre post : List TcpTxItem}
  {item item' t1 t2 : TcpTxItem}

@[simp] theorem weight_nil : weight flag [] = 0 := rfl

theorem weight_cons :
    weight flag (item :: items) = (if flag item then item.size else 0) + weight flag items := by
  rw [weight, List.filter_cons]
  split
  · rfl
  · exact (Nat.zero_add _).symm

@[simp] theorem weight_append :
    weight flag (items ++ items') = weight flag items + weight flag items' := by
  simp [weight]

theorem weight_le_total (flag : TcpTxItem → Bool) (items : List TcpTxItem) :
    weight flag items ≤ total items := by
  induction items with
  | nil => exact le_rfl
  | cons item items ih =>
    rw [weight_cons, total_cons]
    split
    · omega
    · omega

@[simp] theorem bytes_append : bytes (items ++ items') = bytes items ++ bytes items' :=
  List.flatMap_append

@[simp] theorem bytes_cons : bytes (item :: items) = item.m_packet ++ bytes items :=
  List.flatMap_cons

theorem length_bytes : (bytes items).length = total items := by
  rw [bytes, List.length_flatMap]
  rfl

theorem plus_zero_of_lt {start : SequenceNumber32} (h : start.m_value < 2 ^ 32) :
    plus start 0 = start := by
  ext
  simp only [plus, SequenceNumber32.add]
  omega

theorem placed_append {start : SequenceNumber32} (hstart : start.m_value < 2 ^ 32) :
    Placed start (items ++ items') ↔ Placed start items ∧
    Placed (plus start (total items)) items' := by
  induction items generalizing start with
  | nil =>
    rw [total_nil, plus_zero_of_lt hstart]
    exact (and_iff_right trivial).symm
  | cons item items ih =>
    rw [List.cons_append, Placed, Placed, ih (plus_lt start item.size), total_cons, plus_plus,
      and_assoc]

theorem check_of {p : Prop} [Decidable p] (h : p) : check p = .ok () := by
  rw [check, if_pos h]

/-- A run goes on after an assertion that holds. -/
theorem check_bind_eq_ok {β : Type} {p : Prop} [Decidable p] {x : Except TxFault β} {b : β} :
    (check p >>= fun _ => x) = .ok b ↔ p ∧ x = .ok b := by
  by_cases hp : p
  · rw [bind_of_eq (check_of hp)]
    exact (and_iff_right hp).symm
  · rw [check, if_neg hp]
    constructor
    · intro h
      cases h
    · intro h
      exact absurd h.1 hp

namespace TcpTxBuffer

/-- What the two parts of a split are. -/
theorem splitItems_size (item : TcpTxItem) (n address : ℕ) :
    (splitItems item n address).1.size + (splitItems item n address).2.size = item.size := by
  simp only [splitItems, TcpTxItem.size, List.length_take, List.length_drop]
  omega

/-- The results of `MergeItems`. -/
theorem mergeItems_eq {retrans retrans' : ℕ} (h : mergeItems t1 t2 retrans = .ok (item, retrans')) :
    t1.m_sacked = t2.m_sacked ∧ t1.m_lost = t2.m_lost ∧
      item = { t1 with
        m_packet := t1.m_packet ++ t2.m_packet
        m_retrans := t1.m_retrans && t2.m_retrans } ∧
      retrans' =
        if t1.m_retrans = t2.m_retrans then retrans
        else takeFrom retrans (if t1.m_retrans then t1.size else t2.size) := by
  rw [mergeItems] at h
  obtain ⟨hsacked, h⟩ := check_bind_eq_ok.mp h
  obtain ⟨hlost, h⟩ := check_bind_eq_ok.mp h
  refine ⟨hsacked, hlost, ?_⟩
  cases h1 : t1.m_retrans <;> cases h2 : t2.m_retrans <;>
    simp only [h1, h2, if_true, Bool.false_eq_true, Bool.true_eq_false, if_false, pure_eq_ok,
      Prod.mk.injEq] at h <;>
    obtain ⟨rfl, rfl⟩ := h <;> simp

/-- One step of `GetPacketFromList`: an item is split in two, or two items are merged. -/
inductive Edits : Edit → Edit → Prop
  | split (pre post : List TcpTxItem) (item : TcpTxItem) (n retrans nextItem : ℕ) (hn : 0 < n)
      (hlt : n < item.size) :
      Edits ⟨pre ++ item :: post, retrans, nextItem⟩
        ⟨pre ++ (splitItems item n nextItem).1 :: (splitItems item n nextItem).2 :: post, retrans,
          nextItem + 1⟩
  | merge (pre post : List TcpTxItem) (t1 t2 item : TcpTxItem) (retrans retrans' nextItem : ℕ)
      (h : mergeItems t1 t2 retrans = .ok (item, retrans')) :
      Edits ⟨pre ++ t1 :: t2 :: post, retrans, nextItem⟩ ⟨pre ++ item :: post, retrans', nextItem⟩

/-- A number between the two ends of an item. -/
theorem inside_item {seq start : SequenceNumber32} {n : ℕ} (hseq : seq.m_value < 2 ^ 32)
    (hstart : start.m_value < 2 ^ 32) (hn : n < 2 ^ 31) (hgt : seq.gt start = true)
    (hlt : seq.lt (plus start n) = true) :
    0 < SequenceNumber32.toUint32 (seq.sub start) ∧
      SequenceNumber32.toUint32 (seq.sub start) < n := by
  have hoff : seq = plus start (SequenceNumber32.diff seq.m_value start.m_value) := by
    ext
    simp only [plus, SequenceNumber32.add, SequenceNumber32.diff]
    omega
  have hdiff : SequenceNumber32.diff seq.m_value start.m_value < 2 ^ 32 :=
    Nat.mod_lt _ (by decide)
  rw [SequenceNumber32.toUint32_sub hseq hstart]
  generalize SequenceNumber32.diff seq.m_value start.m_value = k at hoff hdiff
  subst hoff
  obtain ⟨hpos, hk⟩ := (plus_gt_iff hstart hdiff).mp hgt
  refine ⟨hpos, ?_⟩
  rw [SequenceNumber32.lt, Bool.and_eq_true, Bool.not_eq_true', bne_iff_ne] at hlt
  obtain ⟨hnot, hne⟩ := hlt
  by_contra hle
  -- past the end, but not half of the numbers away
  have hsplit : plus start k = plus (plus start n) (k - n) := by
    rw [plus_plus]
    congr 1
    omega
  rcases Nat.eq_zero_or_pos n with rfl | hn0
  · have hzero : plus start 0 = start := by
      ext
      simp only [plus, SequenceNumber32.add]
      omega
    rw [hzero, hgt] at hnot
    cases hnot
  · rcases Nat.eq_or_lt_of_le (not_lt.mp hle) with rfl | hlt
    · exact hne rfl
    · have habove := (plus_gt_iff (plus_lt start n) (n := k - n) (by omega)).mpr
        ⟨by omega, Or.inl (by omega)⟩
      rw [← hsplit, hnot] at habove
      cases habove

/-- A run of `GetPacketFromList` over a list leaves it alone or edits it, and it returns the address
of an item of the list. -/
theorem walkList_edits {first seq start : SequenceNumber32} {sent : Bool} {numBytes : ℕ}
    {e e' : Edit} {passed rest : List TcpTxItem} {found : Option ℕ} (he : e.list = passed ++ rest)
    (hseq : seq.m_value < 2 ^ 32) (hstart : start.m_value < 2 ^ 32) (hpos : 0 < numBytes)
    (hsize : total rest < 2 ^ 31)
    (h : walkList first sent numBytes seq e passed start rest = .ok (e', found)) :
    (e' = e ∨ Edits e e') ∧ ∀ a ∈ found, a ∈ e'.list.map TcpTxItem.address := by
  induction rest generalizing passed start with
  | nil => cases h
  | cons current rest ih =>
    obtain ⟨list, retrans, nextItem⟩ := e
    cases he
    rw [total_cons] at hsize
    unfold walkList at h
    obtain ⟨-, h⟩ := check_bind_eq_ok.mp h
    dsimp only at h
    split at h
    · rename_i hinside
      split at h
      · split at h
        · split at h
          · -- the item is the one that was asked for
            cases pure_eq_ok.mp h
            refine ⟨Or.inl rfl, ?_⟩
            rintro a ⟨⟩
            simp
          · split at h
            · rename_i hlt
              cases pure_eq_ok.mp h
              refine ⟨Or.inr (Edits.split passed rest current numBytes retrans nextItem hpos hlt),
                ?_⟩
              rintro a ⟨⟩
              simp
            · cases h
        · cases rest with
          | nil =>
            cases pure_eq_ok.mp h
            refine ⟨Or.inl rfl, ?_⟩
            rintro a ⟨⟩
            simp
          | cons next rest =>
            obtain ⟨⟨merged, retrans'⟩, hmerge, h⟩ := bind_eq_ok.mp h
            cases pure_eq_ok.mp h
            refine ⟨Or.inr (Edits.merge passed rest current next merged retrans retrans' nextItem
              hmerge), ?_⟩
            rintro a ⟨⟩
      · split at h
        · rename_i hgt
          cases pure_eq_ok.mp h
          obtain ⟨hn, hlt⟩ := inside_item hseq hstart (by omega) hgt hinside
          refine ⟨Or.inr (Edits.split passed rest current _ retrans nextItem hn hlt), ?_⟩
          rintro a ⟨⟩
        · cases h
    · apply ih _ (plus_lt start current.size) (by omega) h
      simp

/-- The addresses of a list are used once, and the next one is new. -/
structure Edit.Fresh (e : Edit) : Prop where
  nodup : (e.list.map TcpTxItem.address).Nodup
  lt : ∀ a ∈ e.list.map TcpTxItem.address, a < e.nextItem

/-- What the edits of a list keep. A flag `m_retrans` may be taken back. -/
structure Keeps (e e' : Edit) : Prop where
  bytes : bytes e'.list = bytes e.list
  sacked : weight TcpTxItem.m_sacked e'.list = weight TcpTxItem.m_sacked e.list
  lost : weight TcpTxItem.m_lost e'.list = weight TcpTxItem.m_lost e.list
  retrans : e.retrans < 2 ^ 32 → ∀ k, e.retrans = weight TcpTxItem.m_retrans e.list + k →
    e'.retrans ≤ e.retrans ∧ e'.retrans = weight TcpTxItem.m_retrans e'.list + k
  flags : ∀ item' ∈ e'.list, ∃ item ∈ e.list, item'.m_sacked = item.m_sacked ∧
    item'.m_lost = item.m_lost ∧ (item'.m_retrans = true → item.m_retrans = true)
  full : (∀ item ∈ e.list, 0 < item.size) → ∀ item ∈ e'.list, 0 < item.size
  placed : ∀ start, Placed start e.list → Placed start e'.list
  nextItem : e.nextItem ≤ e'.nextItem
  fresh : e.Fresh → e'.Fresh
  old : ∀ a ∈ e'.list.map TcpTxItem.address, a ∈ e.list.map TcpTxItem.address ∨ e.nextItem ≤ a

theorem Keeps.refl (e : Edit) : Keeps e e where
  bytes := rfl
  sacked := rfl
  lost := rfl
  retrans := fun _ _ hk => ⟨le_rfl, hk⟩
  flags := fun item hitem => ⟨item, hitem, rfl, rfl, id⟩
  full := id
  placed := fun _ => id
  nextItem := le_rfl
  fresh := id
  old := fun _ ha => Or.inl ha

theorem Keeps.trans {e1 e2 e3 : Edit} (h : Keeps e1 e2) (h' : Keeps e2 e3) : Keeps e1 e3 where
  bytes := h'.bytes.trans h.bytes
  sacked := h'.sacked.trans h.sacked
  lost := h'.lost.trans h.lost
  retrans := by
    intro hlt k hk
    obtain ⟨hle, hk2⟩ := h.retrans hlt k hk
    obtain ⟨hle', hk3⟩ := h'.retrans (by omega) k hk2
    exact ⟨hle'.trans hle, hk3⟩
  flags := by
    intro item3 hitem3
    obtain ⟨item2, hitem2, hs, hl, hr⟩ := h'.flags item3 hitem3
    obtain ⟨item1, hitem1, hs', hl', hr'⟩ := h.flags item2 hitem2
    exact ⟨item1, hitem1, hs.trans hs', hl.trans hl', fun h => hr' (hr h)⟩
  full := fun hf => h'.full (h.full hf)
  placed := fun start hp => h'.placed start (h.placed start hp)
  nextItem := h.nextItem.trans h'.nextItem
  fresh := fun hf => h'.fresh (h.fresh hf)
  old := by
    intro a ha
    rcases h'.old a ha with hmem | hle
    · exact h.old a hmem
    · exact Or.inr (h.nextItem.trans hle)

theorem weight_split {flag : TcpTxItem → Bool} (item : TcpTxItem) (n address : ℕ)
    (hfirst : flag (splitItems item n address).1 = flag item)
    (hsecond : flag (splitItems item n address).2 = flag item) (pre post : List TcpTxItem) :
    weight flag (pre ++ (splitItems item n address).1 :: (splitItems item n address).2 :: post) =
      weight flag (pre ++ item :: post) := by
  have hsize := splitItems_size item n address
  simp only [weight_append, weight_cons, hfirst, hsecond]
  split
  · omega
  · omega

theorem mem_split {pre post : List TcpTxItem} {t1 t2 item item' : TcpTxItem}
    (h : item' ∈ pre ++ t1 :: t2 :: post) : item' ∈ pre ++ item :: post ∨ item' = t1 ∨
    item' = t2 := by
  simp only [List.mem_append, List.mem_cons] at h ⊢
  tauto

theorem keeps_split (pre post : List TcpTxItem) (item : TcpTxItem) (n retrans nextItem : ℕ)
    (hn : 0 < n) (hlt : n < item.size) :
    Keeps ⟨pre ++ item :: post, retrans, nextItem⟩
      ⟨pre ++ (splitItems item n nextItem).1 :: (splitItems item n nextItem).2 :: post, retrans,
        nextItem + 1⟩ where
  bytes := by
    simp only [bytes_append, bytes_cons, splitItems, ← List.append_assoc (item.m_packet.take n),
      List.take_append_drop]
  sacked := weight_split item n nextItem rfl rfl pre post
  lost := weight_split item n nextItem rfl rfl pre post
  retrans := by
    intro _ k hk
    exact ⟨le_rfl, hk.trans (congrArg (· + k) (weight_split item n nextItem rfl rfl pre post).symm)⟩
  flags := by
    intro item' hitem'
    rcases mem_split hitem' with hmem | rfl | rfl
    · exact ⟨item', hmem, rfl, rfl, id⟩
    · exact ⟨item, by simp, rfl, rfl, id⟩
    · exact ⟨item, by simp, rfl, rfl, id⟩
  full := by
    intro hf item' hitem'
    have hfirst : (splitItems item n nextItem).1.size = n := by
      simp only [splitItems, TcpTxItem.size, List.length_take] at hlt ⊢
      omega
    have hsize := splitItems_size item n nextItem
    rcases mem_split hitem' with hmem | rfl | rfl
    · exact hf item' hmem
    · omega
    · omega
  placed := by
    intro start hp
    have hsize := splitItems_size item n nextItem
    have hfirst : (splitItems item n nextItem).1.size = n := by
      simp only [splitItems, TcpTxItem.size, List.length_take] at hlt ⊢
      omega
    induction pre generalizing start with
    | nil =>
      obtain ⟨rfl, hrest⟩ := hp
      refine ⟨rfl, ?_, ?_⟩
      · rw [hfirst]
        rfl
      · rw [plus_plus, hsize]
        exact hrest
    | cons x pre ih => exact ⟨hp.1, ih _ hp.2⟩
  nextItem := Nat.le_succ nextItem
  fresh := by
    rintro ⟨hnodup, hlt⟩
    have hperm : List.Perm
        ((pre ++ (splitItems item n nextItem).1 :: (splitItems item n nextItem).2 :: post).map
          TcpTxItem.address)
        (nextItem :: (pre ++ item :: post).map TcpTxItem.address) := by
      simp only [List.map_append, List.map_cons, splitItems]
      exact List.perm_middle
    constructor
    · rw [hperm.nodup_iff, List.nodup_cons]
      exact ⟨fun hmem => Nat.lt_irrefl nextItem (hlt nextItem hmem), hnodup⟩
    · intro a ha
      rcases List.mem_cons.mp (hperm.mem_iff.mp ha) with rfl | hmem
      · exact Nat.lt_succ_self a
      · exact Nat.lt_succ_of_lt (hlt a hmem)
  old := by
    intro a ha
    simp only [List.map_append, List.map_cons, splitItems, List.mem_append, List.mem_cons] at ha ⊢
    rcases ha with ha | rfl | ha
    · exact Or.inl (Or.inl ha)
    · exact Or.inr le_rfl
    · exact Or.inl (Or.inr ha)

theorem mem_merge {pre post : List TcpTxItem} {t1 t2 item item' : TcpTxItem}
    (h : item' ∈ pre ++ item :: post) : item' ∈ pre ++ t1 :: t2 :: post ∨ item' = item := by
  simp only [List.mem_append, List.mem_cons] at h ⊢
  tauto

theorem keeps_merge (pre post : List TcpTxItem) {t1 t2 item : TcpTxItem}
    {retrans retrans' nextItem : ℕ} (h : mergeItems t1 t2 retrans = .ok (item, retrans')) :
    Keeps ⟨pre ++ t1 :: t2 :: post, retrans, nextItem⟩
    ⟨pre ++ item :: post, retrans', nextItem⟩ := by
  obtain ⟨hsacked, hlost, hitem, hretrans⟩ := mergeItems_eq h
  have hsize : item.size = t1.size + t2.size := by
    rw [hitem]
    exact List.length_append
  have haddress : item.address = t1.address := by rw [hitem]
  have hsub : ((pre ++ item :: post).map TcpTxItem.address).Sublist
      ((pre ++ t1 :: t2 :: post).map TcpTxItem.address) := by
    simp only [List.map_append, List.map_cons, haddress]
    exact (List.Sublist.refl _).append ((List.sublist_cons_self _ _).cons_cons _)
  refine ⟨?_, ?_, ?_, ?_, ?_, ?_, ?_, le_rfl, ?_, fun a ha => Or.inl (hsub.subset ha)⟩
  · simp [hitem]
  · have hflag : item.m_sacked = t1.m_sacked := by rw [hitem]
    simp only [weight_append, weight_cons, hflag, ← hsacked, hsize]
    split
    · omega
    · omega
  · have hflag : item.m_lost = t1.m_lost := by rw [hitem]
    simp only [weight_append, weight_cons, hflag, ← hlost, hsize]
    split
    · omega
    · omega
  · intro hlt k hk
    have hflag : item.m_retrans = (t1.m_retrans && t2.m_retrans) := by rw [hitem]
    simp only [weight_append, weight_cons, hflag, hsize, takeFrom, SequenceNumber32.diff]
      at hlt hk hretrans ⊢
    cases h1 : t1.m_retrans <;> cases h2 : t2.m_retrans <;>
      simp [h1, h2] at hk hretrans ⊢ <;> omega
  · intro item' hitem'
    rcases mem_merge hitem' with hmem | rfl
    · exact ⟨item', hmem, rfl, rfl, id⟩
    · refine ⟨t1, by simp, ?_, ?_, ?_⟩
      · rw [hitem]
      · rw [hitem]
      · intro hr
        rw [hitem] at hr
        exact (Bool.and_eq_true_iff.mp hr).1
  · intro hf item' hitem'
    rcases mem_merge hitem' with hmem | rfl
    · exact hf item' hmem
    · have ht1 := hf t1 (by simp)
      omega
  · intro start hp
    induction pre generalizing start with
    | nil =>
      obtain ⟨hstart, -, hrest⟩ := hp
      refine ⟨?_, ?_⟩
      · rw [hitem]
        exact hstart
      · rw [hsize, ← plus_plus]
        exact hrest
    | cons x pre ih =>
      refine ⟨hp.1, ih ?_ _ hp.2⟩
      simp only [List.map_append, List.map_cons, haddress]
      exact (List.Sublist.refl _).append ((List.sublist_cons_self _ _).cons_cons _)
  · rintro ⟨hnodup, hlt⟩
    exact ⟨hnodup.sublist hsub, fun a ha => hlt a (hsub.subset ha)⟩

theorem Edits.keeps {e e' : Edit} (h : Edits e e') : Keeps e e' := by
  cases h with
  | split pre post item n retrans nextItem hn hlt =>
    exact keeps_split pre post item n retrans nextItem hn hlt
  | merge pre post t1 t2 item retrans retrans' nextItem h => exact keeps_merge pre post h

theorem Keeps.total {e e' : Edit} (h : Keeps e e') : total e'.list = total e.list := by
  rw [← length_bytes, ← length_bytes, h.bytes]

theorem keeps_of_edits {e e' : Edit} (h : Relation.ReflTransGen Edits e e') : Keeps e e' := by
  induction h with
  | refl => exact Keeps.refl e
  | tail _ hedit ih => exact ih.trans hedit.keeps

/-- The lists that `GetPacketFromList` may leave. -/
theorem getPacketFromList_edits {first seq start : SequenceNumber32} {sent : Bool}
    {numBytes fuel : ℕ} {e e' : Edit} {a : ℕ} (hseq : seq.m_value < 2 ^ 32)
    (hstart : start.m_value < 2 ^ 32) (hpos : 0 < numBytes) (hsize : total e.list < 2 ^ 31)
    (h : getPacketFromList first sent start numBytes seq fuel e = .ok (e', a)) :
    Relation.ReflTransGen Edits e e' ∧ a ∈ e'.list.map TcpTxItem.address := by
  induction fuel generalizing e with
  | zero => cases h
  | succ fuel ih =>
    rw [getPacketFromList] at h
    obtain ⟨⟨e1, found⟩, hwalk, h⟩ := bind_eq_ok.mp h
    obtain ⟨hedits, hfound⟩ :=
      walkList_edits (e := e) (List.nil_append e.list).symm hseq hstart hpos hsize hwalk
    have hstep : Relation.ReflTransGen Edits e e1 := by
      rcases hedits with rfl | hedits
      · exact .refl
      · exact .single hedits
    cases found with
    | some b =>
      cases pure_eq_ok.mp h
      exact ⟨hstep, hfound _ rfl⟩
    | none =>
      have htotal := (keeps_of_edits hstep).total
      obtain ⟨htrans, ha⟩ := ih (htotal ▸ hsize) h
      exact ⟨hstep.trans htrans, ha⟩

end TcpTxBuffer

end Ns3.Internet
