import Ns3.Internet.TcpTxDiscard

/-!
# Runs of the send buffer

The calls of the socket, and the states that they lead to. The ledger holds in all of them as long
as the buffer holds less than half of the sequence numbers and a segment that is taken back has no
flag.
-/

namespace Ns3.Internet

open Ns3.Network SequenceNumber32 Lib

inductive TxCall
  | add (p : List UInt8)
  | copyFromSequence (numBytes : ℕ) (seq : SequenceNumber32)
  | discardUpTo (seq : SequenceNumber32)
  | update (list : List (SequenceNumber32 × SequenceNumber32))
  | markHeadAsLost
  | setSentListLost (resetSack : Bool)
  | addRenoSack
  | resetRenoSack
  | resetSentList
  | resetLastSegmentSent
  | deleteRetransmittedFlagFromHead
  | setHeadSequence (seq : SequenceNumber32)
deriving DecidableEq, Repr

namespace TcpTxBuffer

def call (b : TcpTxBuffer) : TxCall → Except TxFault TcpTxBuffer
  | .add p => .ok (b.add p).1
  | .copyFromSequence numBytes seq => (b.copyFromSequence numBytes seq).map Prod.fst
  | .discardUpTo seq => b.discardUpTo seq
  | .update list => (b.update list).map Prod.fst
  | .markHeadAsLost => .ok b.markHeadAsLost
  | .setSentListLost resetSack => b.setSentListLost resetSack
  | .addRenoSack => b.addRenoSack
  | .resetRenoSack => .ok b.resetRenoSack
  | .resetSentList => .ok b.resetSentList
  | .resetLastSegmentSent => .ok b.resetLastSegmentSent
  | .deleteRetransmittedFlagFromHead => .ok b.deleteRetransmittedFlagFromHead
  | .setHeadSequence seq => b.setHeadSequence seq

/-- A buffer without data. -/
structure Empty (b : TcpTxBuffer) : Prop where
  app : b.m_appList = []
  sent : b.m_sentList = []
  size : b.m_size = 0
  sentSize : b.m_sentSize = 0
  first_lt : b.m_firstByteSeq.m_value < 2 ^ 32
  highestSack : b.m_highestSack = (none, ⟨0⟩)
  lostOut : b.m_lostOut = 0
  sackedOut : b.m_sackedOut = 0
  retrans : b.m_retrans = 0

/-- The states after calls that meet a condition. -/
inductive Run (Allowed : TcpTxBuffer → TxCall → Prop) : TcpTxBuffer → Prop
  | start (b : TcpTxBuffer) (h : b.Empty) : Run Allowed b
  | step (b b' : TcpTxBuffer) (c : TxCall) (hrun : Run Allowed b) (hc : Allowed b c)
      (hok : b.call c = .ok b') : Run Allowed b'

/-- The buffer holds less than half of the sequence numbers, and what is taken back has no flag. -/
def Fits (b : TcpTxBuffer) : TxCall → Prop
  | .add p => b.m_size + p.length < 2 ^ 31
  | .copyFromSequence _ seq => seq.m_value < 2 ^ 32
  | .discardUpTo seq => seq.m_value < 2 ^ 32
  | .setHeadSequence seq => seq.m_value < 2 ^ 32
  | .resetLastSegmentSent => ∀ item ∈ b.m_sentList.getLast?, item.Unflagged
  | _ => True

instance (b : TcpTxBuffer) (c : TxCall) : Decidable (b.Fits c) := by
  cases c <;> unfold Fits <;> infer_instance

variable {b b' : TcpTxBuffer}

theorem Empty.ledger (h : b.Empty) : b.Ledger where
  sentSize := by
    rw [h.sentSize, h.sent]
    rfl
  size := by
    rw [h.size, h.sent, h.app]
    rfl
  size_lt := by
    rw [h.size]
    decide
  first_lt := h.first_lt
  full := by
    rw [h.sent, h.app]
    exact fun _ hitem => (List.not_mem_nil hitem).elim
  placed := by
    rw [h.sent]
    trivial
  sackedOut := by
    rw [h.sackedOut, h.sent]
    rfl
  lostOut := by
    rw [h.lostOut, h.sent]
    rfl
  retrans := by
    rw [h.retrans, h.sent]
    rfl
  app := by
    rw [h.app]
    exact fun _ hitem => (List.not_mem_nil hitem).elim
  nodup := by
    rw [h.sent, h.app]
    exact List.nodup_nil
  lt := by
    rw [h.sent, h.app]
    exact fun _ hitem => (List.not_mem_nil hitem).elim

theorem resetRenoSack_ledger (h : b.Ledger) : b.resetRenoSack.Ledger := by
  refine h.relabel (SameItems.map ?_) ?_ ?_ ?_
  · exact fun _ => rfl
  · refine Eq.symm (Eq.trans (weight_map ?_ ?_) weight_false)
    · exact fun _ => rfl
    · exact fun _ => rfl
  · refine h.lostOut.trans (Eq.symm (weight_map ?_ ?_))
    · exact fun _ => rfl
    · exact fun _ => rfl
  · refine h.retrans.trans (Eq.symm (weight_map ?_ ?_))
    · exact fun _ => rfl
    · exact fun _ => rfl

theorem deleteRetransmittedFlagFromHead_ledger (h : b.Ledger) :
    b.deleteRetransmittedFlagFromHead.Ledger := by
  rw [deleteRetransmittedFlagFromHead]
  split
  · exact h
  · split
    · exact h
    · rename_i head rest hlist
      split
      · rename_i hretrans
        have hsame : SameItems b.m_sentList ({ head with m_retrans := false } :: rest) := by
          rw [hlist]
          exact (SameItems.refl rest).cons rfl
        have hlt := (weight_lt h TcpTxItem.m_retrans).trans (b := 2 ^ 31) (c := 2 ^ 32) (by decide)
        have hold := h.retrans
        have hlost := h.lostOut
        have hsacked := h.sackedOut
        rw [← hold] at hlt
        rw [hlist, weight_cons] at hold hlost hsacked
        rw [if_pos hretrans] at hold
        refine h.relabel hsame ?_ ?_ ?_
        · rw [hsacked, weight_cons]
          rfl
        · rw [hlost, weight_cons]
          rfl
        · rw [takeFrom_of_le (by omega) hlt, hold, weight_cons, Nat.add_sub_cancel_left]
          exact (Nat.zero_add _).symm
      · exact h

theorem resetSentList_ledger (h : b.Ledger) : b.resetSentList.Ledger := by
  have hsame : SameItems b.m_sentList (b.m_sentList.map fun item =>
      { item with m_retrans := false, m_sacked := false, m_lost := false }) := by
    apply SameItems.map
    exact fun _ => rfl
  have hsize := h.size
  rw [resetSentList]
  refine ⟨rfl, ?_, h.size_lt, h.first_lt, ?_, trivial, rfl, rfl, rfl, ?_, ?_, ?_⟩
  · show b.m_size = 0 + total (_ ++ b.m_appList)
    rw [total_append, hsame.total, Nat.zero_add, hsize]
  · intro item hitem
    rcases List.mem_append.mp hitem with hitem | hitem
    · exact (List.not_mem_nil hitem).elim
    · rcases List.mem_append.mp hitem with hitem | hitem
      · exact hsame.full h.full_sent item hitem
      · exact h.full item (List.mem_append_right _ hitem)
  · intro item hitem
    rcases List.mem_append.mp hitem with hitem | hitem
    · obtain ⟨old, -, rfl⟩ := List.mem_map.mp hitem
      exact ⟨rfl, rfl, rfl⟩
    · exact h.app item hitem
  · show ((_ ++ b.m_appList).map TcpTxItem.address).Nodup
    rw [List.map_append, hsame.address, ← List.map_append]
    exact h.nodup
  · intro item hitem
    rcases List.mem_append.mp hitem with hitem | hitem
    · exact (List.not_mem_nil hitem).elim
    · rcases List.mem_append.mp hitem with hitem | hitem
      · obtain ⟨old, hold, rfl⟩ := List.mem_map.mp hitem
        exact h.lt old (List.mem_append_left _ hold)
      · exact h.lt item (List.mem_append_right _ hitem)

theorem resetLastSegmentSent_ledger (h : b.Ledger)
    (hlast : ∀ item ∈ b.m_sentList.getLast?, item.Unflagged) : b.resetLastSegmentSent.Ledger := by
  rw [resetLastSegmentSent]
  split
  · exact h
  · rename_i item hitem
    have hun := hlast item hitem
    have hlist : b.m_sentList.dropLast ++ [item] = b.m_sentList :=
      List.dropLast_append_getLast? item hitem
    generalize b.m_sentList.dropLast = init at hlist ⊢
    have hsize := h.size
    have hsent := h.sentSize
    have hbound := h.size_lt
    have hsacked := h.sackedOut
    have hlost := h.lostOut
    have hretrans := h.retrans
    have hplaced := h.placed
    rw [← hlist] at hsize hsent hsacked hlost hretrans hplaced
    rw [total_append, total_cons, total_nil] at hsize hsent
    have hweight : ∀ {flag : TcpTxItem → Bool}, flag item = false →
        weight flag (init ++ [item]) = weight flag init := by
      intro flag hflag
      rw [weight_append, weight_cons, hflag]
      rfl
    rw [hweight hun.sacked] at hsacked
    rw [hweight hun.lost] at hlost
    rw [hweight hun.retrans] at hretrans
    rw [hun.retrans]
    have hall : b.m_sentList ++ b.m_appList = init ++ (item :: b.m_appList) := by
      rw [← hlist, List.append_assoc]
      rfl
    refine ⟨?_, ?_, h.size_lt, h.first_lt, ?_, ((placed_append h.first_lt).mp hplaced).1, hsacked,
      hlost, hretrans, ?_, ?_, ?_⟩
    · show takeFrom b.m_sentSize item.size = total init
      rw [takeFrom_of_le (by omega) (by omega)]
      omega
    · show b.m_size = total init + (item.size + total b.m_appList)
      omega
    · intro x hx
      exact h.full x (hall ▸ hx)
    · intro x hx
      rcases List.mem_cons.mp hx with rfl | hx
      · exact hun
      · exact h.app x hx
    · show ((init ++ (item :: b.m_appList)).map TcpTxItem.address).Nodup
      rw [← hall]
      exact h.nodup
    · intro x hx
      exact h.lt x (hall ▸ hx)

theorem setHeadSequence_ledger (h : b.Ledger) {seq : SequenceNumber32} (hseq : seq.m_value < 2 ^ 32)
    (hok : b.setHeadSequence seq = .ok b') : b'.Ledger := by
  rw [setHeadSequence] at hok
  obtain ⟨hempty, hok⟩ := check_bind_eq_ok.mp hok
  cases pure_eq_ok.mp hok
  exact (h.withFirst hseq hempty).withHighestSack _

theorem map_fst_eq_ok {α : Type} {x : Except TxFault (TcpTxBuffer × α)}
    (h : x.map Prod.fst = .ok b') : ∃ a, x = .ok (b', a) := by
  cases x with
  | error e => cases h
  | ok r =>
    cases Except.ok.inj h
    exact ⟨r.2, rfl⟩

/-- One call keeps the ledger. -/
theorem call_ledger (h : b.Ledger) {c : TxCall} (hc : b.Fits c) (hok : b.call c = .ok b') :
    b'.Ledger := by
  cases c with
  | add p =>
    cases Except.ok.inj hok
    exact add_ledger h hc
  | copyFromSequence numBytes seq =>
    obtain ⟨found, hok⟩ := map_fst_eq_ok hok
    exact (copyLoop_copies h hc hok).ledger h
  | discardUpTo seq => exact discardUpTo_ledger h hc hok
  | update list =>
    obtain ⟨n, hok⟩ := map_fst_eq_ok hok
    exact update_ledger h hok
  | markHeadAsLost =>
    cases Except.ok.inj hok
    exact markHeadAsLost_ledger h
  | setSentListLost resetSack => exact setSentListLost_ledger h hok
  | addRenoSack => exact addRenoSack_ledger h hok
  | resetRenoSack =>
    cases Except.ok.inj hok
    exact resetRenoSack_ledger h
  | resetSentList =>
    cases Except.ok.inj hok
    exact resetSentList_ledger h
  | resetLastSegmentSent =>
    cases Except.ok.inj hok
    exact resetLastSegmentSent_ledger h hc
  | deleteRetransmittedFlagFromHead =>
    cases Except.ok.inj hok
    exact deleteRetransmittedFlagFromHead_ledger h
  | setHeadSequence seq => exact setHeadSequence_ledger h hc hok

/-- The calls can be made one after the other, and lead from one state to the other. -/
def Follows (Allowed : TcpTxBuffer → TxCall → Prop) : TcpTxBuffer → List TxCall → TcpTxBuffer → Prop
  | b, [], b' => b = b'
  | b, c :: cs, b' => Allowed b c ∧ match b.call c with
    | .ok b1 => Follows Allowed b1 cs b'
    | .error _ => False

instance decidableFollows (Allowed : TcpTxBuffer → TxCall → Prop) [∀ b c, Decidable (Allowed b c)] :
    (b : TcpTxBuffer) → (cs : List TxCall) → (b' : TcpTxBuffer) →
    Decidable (Follows Allowed b cs b')
  | b, [], b' => inferInstanceAs (Decidable (b = b'))
  | b, c :: cs, b' =>
    let _rest : Decidable (match b.call c with
        | .ok b1 => Follows Allowed b1 cs b'
        | .error _ => False) :=
      match b.call c with
      | .ok b1 => decidableFollows Allowed b1 cs b'
      | .error _ => isFalse id
    inferInstanceAs (Decidable (Allowed b c ∧ _))

theorem Run.follows {Allowed : TcpTxBuffer → TxCall → Prop} {cs : List TxCall} (h : Run Allowed b)
    (hcs : Follows Allowed b cs b') : Run Allowed b' := by
  induction cs generalizing b with
  | nil => exact hcs ▸ h
  | cons c cs ih =>
    obtain ⟨hc, hrest⟩ := hcs
    split at hrest
    · rename_i b1 hok
      exact ih (.step b b1 c h hc hok) hrest
    · exact hrest.elim

/-- The state after the calls. -/
def after (b : TcpTxBuffer) (cs : List TxCall) : TcpTxBuffer :=
  match cs.foldlM call b with
  | .ok b' => b'
  | .error _ => b

theorem Run.ledger (h : Run Fits b) : b.Ledger := by
  induction h with
  | start b h => exact h.ledger
  | step b b' c _ hc hok ih => exact call_ledger ih hc hok

end TcpTxBuffer

end Ns3.Internet
