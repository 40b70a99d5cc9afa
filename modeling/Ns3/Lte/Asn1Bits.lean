import Ns3.Lte.Asn1Header

/-!
# The stream of an Asn1Header

A writer holds a stream of bits: whole octets, then fewer than eight bits in the register. A reader
holds the bits of its register, then those of the octets. Each bitset goes through both with its
highest bit first, whatever the number of bits that are pending.
-/

namespace Ns3.Lte.Asn1Header

open Ns3.Lib

variable {h : Asn1Header} {data : Bitset} {bits tail want rest : List Bool} {octet : Octet}
  {octets : List Octet} {p j k steps : ℕ}

/-! ## What is left of a bitset -/

theorem take_succ_reverse (hp : p < data.length) :
    (data.take (p + 1)).reverse = data.getD p false :: (data.take p).reverse := by
  rw [List.take_succ_eq_append_getElem hp, List.reverse_append, List.getD_eq_getElem data false hp]
  rfl

theorem take_reverse_drop (k : ℕ) (hp : p ≤ data.length) :
    (data.take p).reverse.drop k = (data.take (p - k)).reverse := by
  rw [List.drop_reverse, List.length_take, Nat.min_eq_left hp, List.take_take,
    Nat.min_eq_left (Nat.sub_le p k)]

/-! ## The writer -/

/-- The header has written these bits. -/
def Written (h : Asn1Header) (bits : List Bool) : Prop :=
  ∃ tail : List Bool,
    bits = streamBits h.serializationResult ++ tail ∧ tail.length < 8 ∧
    h.numSerializationPendingBits = tail.length ∧ h.serializationPendingBits = packOctet tail

theorem Written.fresh : Written {} [] := ⟨[], rfl, by decide, rfl, rfl⟩

theorem completeOctet_writes (tail : List Bool) (hp : p ≤ data.length) (hlen : tail.length ≤ 8)
    (hnum : h.numSerializationPendingBits = tail.length)
    (hbits : h.serializationPendingBits = packOctet tail) :
    ∃ taken p', (data.take p).reverse = taken ++ (data.take p').reverse ∧ p' ≤ p ∧
      (tail ++ taken).length ≤ 8 ∧ (p' = 0 ∨ (tail ++ taken).length = 8) ∧
      completeOctet data p (highBit tail.length) h =
        (p', { h with
          serializationPendingBits := packOctet (tail ++ taken)
          numSerializationPendingBits := (tail ++ taken).length }) := by
  induction p generalizing h tail with
  | zero =>
    refine ⟨[], 0, rfl, le_rfl, ?_, .inl rfl, ?_⟩
    · rwa [List.append_nil]
    · rw [List.append_nil, ← hnum, ← hbits]
      rfl
  | succ p ih =>
    rw [completeOctet]
    by_cases hroom : tail.length < 8
    · rw [if_pos (hnum ▸ hroom)]
      have hnext := ih (h := { h with
          serializationPendingBits :=
            h.serializationPendingBits ||| if data.getD p false then highBit tail.length else 0
          numSerializationPendingBits := h.numSerializationPendingBits + 1 })
        (tail ++ [data.getD p false]) (by omega)
        (by rw [List.length_append]; exact hroom)
        (by rw [List.length_append, ← hnum]; rfl)
        (by rw [packOctet_concat, ← hbits])
      obtain ⟨taken, p', htake, hle, hlen', hend, heq⟩ := hnext
      refine ⟨data.getD p false :: taken, p', ?_, by omega, ?_, ?_, ?_⟩
      · rw [take_succ_reverse (by omega), htake]
        rfl
      · rwa [List.append_cons]
      · rwa [List.append_cons]
      · rw [highBit_succ]
        rw [List.length_append] at heq
        rw [List.append_cons]
        exact heq
    · rw [if_neg (hnum ▸ hroom)]
      refine ⟨[], p + 1, rfl, le_rfl, ?_, .inr ?_, ?_⟩
      · rwa [List.append_nil]
      · rw [List.append_nil]
        omega
      · rw [List.append_nil, ← hnum, ← hbits]

theorem storeBits_eq (tail : List Bool) (hp : p ≤ data.length) :
    storeBits data p (highBit tail.length) (packOctet tail) =
      packOctet (tail ++ (data.take p).reverse) := by
  induction p generalizing tail with
  | zero =>
    rw [List.take_zero, List.reverse_nil, List.append_nil]
    rfl
  | succ p ih =>
    have hnext := ih (tail ++ [data.getD p false]) (by omega)
    rw [storeBits, highBit_succ, ← packOctet_concat, take_succ_reverse (by omega),
      List.append_cons tail _ (data.take p).reverse, ← hnext, List.length_append]
    rfl

/-- The places behind the one for `j` are filled already. -/
theorem fillOctet_eq (bits : List Bool) (hj : j ≤ 8) (hjp : j ≤ p) (hp : p ≤ data.length) :
    fillOctet data p j (highBit (j - 1)) (packFrom j bits) =
      packOctet ((data.take p).reverse.take j ++ bits) := by
  induction j generalizing bits with
  | zero => rfl
  | succ j ih =>
    have hbit : (data.take p).reverse.take (j + 1) =
        (data.take p).reverse.take j ++ [data.getD (p - (j + 1)) false] := by
      have hlen : j < (data.take p).reverse.length := by
        rw [List.length_reverse, List.length_take]
        omega
      rw [List.take_succ_eq_append_getElem hlen, List.getElem_reverse, List.getElem_take,
        List.getD_eq_getElem data false (by omega)]
      congr 3
      rw [List.length_take, Nat.min_eq_left hp]
      omega
    have hor : packFrom (j + 1) bits ||| (if data.getD (p - (j + 1)) false then highBit j else 0) =
        packFrom j (data.getD (p - (j + 1)) false :: bits) := BitVec.or_comm _ _
    have hnext := ih (data.getD (p - (j + 1)) false :: bits) (by omega) (by omega)
    rw [fillOctet, Nat.add_sub_cancel, hor, hbit, List.append_assoc, List.singleton_append, ← hnext]
    cases j with
    | zero => rfl
    | succ j =>
      rw [highBit_pred (by omega)]
      rfl

theorem fillOctet_full (h8 : 8 ≤ p) (hp : p ≤ data.length) :
    octetBits (fillOctet data p 8 1 0) = (data.take p).reverse.take 8 := by
  have heq := fillOctet_eq [] (le_refl 8) h8 hp
  rw [List.append_nil] at heq
  have hlen : ((data.take p).reverse.take 8).length = 8 := by
    rw [List.length_take, List.length_reverse, List.length_take]
    omega
  rw [← octetBits_packOctet_full hlen, ← heq]
  rfl

theorem writeBits_written (data : Bitset) (p : ℕ) (hp : p ≤ data.length)
    (hnum : h.numSerializationPendingBits = 0)
    (hpend : h.serializationPendingBits = 0) :
    Written (writeBits data p h)
      (streamBits h.serializationResult ++ (data.take p).reverse) := by
  induction p using Nat.strong_induction_on generalizing h with
  | h p ih =>
    rw [writeBits]
    by_cases h0 : p = 0
    · rw [if_pos h0]
      subst h0
      exact ⟨[], rfl, by decide, hnum, hpend⟩
    rw [if_neg h0]
    by_cases hlt : p < 8
    · rw [if_pos hlt]
      have hlen : (data.take p).reverse.length = p := by
        rw [List.length_reverse, List.length_take]
        omega
      refine ⟨(data.take p).reverse, rfl, by omega, hlen.symm, ?_⟩
      have hstore := storeBits_eq [] hp
      rw [hpend]
      exact hstore
    · rw [if_neg hlt]
      have hrest := ih (p - 8) (by omega)
        (h := h.writeOctet (fillOctet data p 8 1 0)) (by omega) hnum hpend
      have hall : streamBits h.serializationResult ++ (data.take p).reverse =
          streamBits (h.writeOctet (fillOctet data p 8 1 0)).serializationResult ++
            (data.take (p - 8)).reverse := by
        rw [writeOctet, streamBits_append, streamBits_cons, fillOctet_full (by omega) hp,
          ← take_reverse_drop 8 hp, List.append_assoc, List.append_assoc]
        congr 1
        exact (List.take_append_drop 8 _).symm
      rw [hall]
      exact hrest

/-- `SerializeBitset` writes the bits behind the others, whatever is pending. -/
theorem Written.serializeBitset (hw : Written h bits) (hlen : data.length < 2 ^ 8) :
    Written (h.serializeBitset data) (bits ++ data.reverse) := by
  obtain ⟨tail, rfl, htail, hnum, hpend⟩ := hw
  have hmod : data.length % 2 ^ 8 = data.length := Nat.mod_eq_of_lt hlen
  have hdata : data.reverse = (data.take data.length).reverse := by rw [List.take_length]
  unfold Asn1Header.serializeBitset
  simp only [hmod]
  by_cases h0 : data.length = 0
  · rw [if_pos h0, List.eq_nil_of_length_eq_zero h0, List.reverse_nil, List.append_nil]
    exact ⟨tail, rfl, htail, hnum, hpend⟩
  rw [if_neg h0, if_pos (by omega)]
  by_cases hpos : 0 < tail.length
  · rw [if_pos (hnum ▸ hpos)]
    obtain ⟨taken, p', htake, hle, hlen', hend, heq⟩ :=
      completeOctet_writes tail (le_refl data.length) (Nat.le_of_lt htail) hnum hpend
    have hmask : 0x80#8 >>> h.numSerializationPendingBits = highBit tail.length := by rw [hnum]; rfl
    rw [hmask, heq, hdata, htake]
    by_cases hfull : 8 ≤ (tail ++ taken).length
    · -- the octet is complete and goes out
      simp only [if_pos hfull]
      have hrest := writeBits_written data p'
        (h := { h with
          serializationResult := h.serializationResult ++ [packOctet (tail ++ taken)]
          numSerializationPendingBits := 0
          serializationPendingBits := 0 }) (by omega) rfl rfl
      rw [streamBits_append, streamBits_cons, octetBits_packOctet_full (by omega)] at hrest
      have hbits : streamBits h.serializationResult ++ (tail ++ taken ++ streamBits []) ++
          (data.take p').reverse =
          streamBits h.serializationResult ++ tail ++ (taken ++ (data.take p').reverse) := by
        simp [streamBits]
      rw [hbits] at hrest
      exact hrest
    · simp only [if_neg hfull]
      -- the bits have run out
      have hp' : p' = 0 := hend.resolve_right fun h8 => hfull (Nat.le_of_eq h8.symm)
      subst hp'
      rw [writeBits, if_pos rfl, List.take_zero, List.reverse_nil, List.append_nil]
      exact ⟨tail ++ taken, List.append_assoc _ _ _, by omega, rfl, rfl⟩
  · rw [if_neg (hnum ▸ hpos)]
    have hnil : tail = [] := List.eq_nil_of_length_eq_zero (by omega)
    subst hnil
    rw [hdata, List.append_nil]
    exact writeBits_written data _ (le_refl data.length) hnum hpend

theorem octetBits_eq_ofNat (o : Octet) : octetBits o = (Bitset.ofNat 8 o.toNat).reverse := by
  apply List.ext_getElem
  · simp [length_octetBits, Bitset.ofNat]
  · intro i hi _
    rw [length_octetBits] at hi
    rw [getElem_octetBits, BitVec.getMsbD_eq_getLsbD, decide_eq_true hi, Bool.true_and]
    simp [Bitset.ofNat, BitVec.getLsbD]

/-- An octet on its own goes out as it is, and the register stays. -/
theorem serializeBitset_octet (data : Bitset) (hlen : data.length = 8)
    (hnum : h.numSerializationPendingBits = 0) :
    ∃ octet, h.serializeBitset data = h.writeOctet octet ∧ octetBits octet = data.reverse := by
  refine ⟨fillOctet data 8 8 1 0, ?_, ?_⟩
  · unfold Asn1Header.serializeBitset
    simp only [hlen, hnum]
    rw [if_neg (by decide), if_pos (by decide), if_neg (by decide), writeBits,
      if_neg (by decide), if_neg (by decide), writeBits, if_pos (by decide)]
    rfl
  · rw [fillOctet_full (le_refl 8) (Nat.le_of_eq hlen.symm), ← hlen, List.take_length,
      ← List.length_reverse, List.take_length]

/-- The end fills the last octet with clear bits. -/
theorem Written.finalizeSerialization (hw : Written h bits) :
    ∃ clear : List Bool,
      streamBits h.finalizeSerialization.serializationResult = bits ++ clear ∧
      clear.length < 8 := by
  obtain ⟨tail, rfl, htail, hnum, hpend⟩ := hw
  unfold Asn1Header.finalizeSerialization
  by_cases hpos : 0 < tail.length
  · rw [if_pos (hnum ▸ hpos)]
    obtain ⟨octet, hout, hoctet⟩ := serializeBitset_octet
      (h := { h with numSerializationPendingBits := 0 })
      (.ofNat 8 h.serializationPendingBits.toNat) rfl rfl
    rw [← octetBits_eq_ofNat, hpend, octetBits_packOctet (Nat.le_of_lt htail)] at hoctet
    rw [hout]
    refine ⟨List.replicate (8 - tail.length) false, ?_, ?_⟩
    · show streamBits (h.serializationResult ++ [octet]) = _
      rw [streamBits_append, streamBits_cons, hoctet, List.append_assoc, List.append_assoc]
      congr 2
      exact List.append_nil _
    · rw [List.length_replicate]
      omega
  · rw [if_neg (hnum ▸ hpos)]
    have hnil : tail = [] := List.eq_nil_of_length_eq_zero (by omega)
    subst hnil
    refine ⟨[], ?_, by decide⟩
    rw [List.append_nil, List.append_nil]

/-! ## The reader -/

/-- The header and the octets have these bits to read. -/
def Holds (h : Asn1Header) (octets : List Octet) (bits : List Bool) : Prop :=
  h.numSerializationPendingBits ≤ 8 ∧
  (octetBits h.serializationPendingBits).take h.numSerializationPendingBits ++
    streamBits octets = bits

theorem Holds.fresh (octets : List Octet) : Holds {} octets (streamBits octets) :=
  ⟨by decide, rfl⟩

theorem drop_set (b : Bool) (hp : p < data.length) :
    (data.set p b).drop p = b :: data.drop (p + 1) := by
  rw [List.drop_eq_getElem_cons (by rwa [List.length_set]), List.getElem_set_self,
    List.drop_set_of_lt (Nat.lt_succ_self p)]

theorem readPending_reads (data : Bitset) (hp : p ≤ data.length)
    (hnum : h.numSerializationPendingBits ≤ 8)
    (hbits : (octetBits h.serializationPendingBits).take h.numSerializationPendingBits ++ tail =
      want ++ rest) (hwant : want.length = p) :
    ∃ taken left p' data' h', readPending p data h = (p', data', h') ∧
      want = taken ++ left ∧ left.length = p' ∧ data'.length = data.length ∧
      data'.drop p' = taken.reverse ++ data.drop p ∧ h'.numSerializationPendingBits ≤ 8 ∧
      (octetBits h'.serializationPendingBits).take h'.numSerializationPendingBits ++ tail =
        left ++ rest ∧
      (p' = 0 ∨ h'.numSerializationPendingBits = 0) := by
  induction p generalizing h data want with
  | zero => exact ⟨[], want, 0, data, h, rfl, rfl, hwant, rfl, rfl, hnum, hbits, .inl rfl⟩
  | succ p ih =>
    rw [readPending]
    by_cases hpos : 0 < h.numSerializationPendingBits
    · rw [if_pos hpos]
      obtain ⟨b, want, rfl⟩ := List.exists_cons_of_length_eq_add_one hwant
      have hshift : (octetBits h.serializationPendingBits).take h.numSerializationPendingBits =
          (h.serializationPendingBits &&& 0x80 != 0) ::
            (octetBits (h.serializationPendingBits <<< 1)).take
              (h.numSerializationPendingBits - 1) := by
        rw [octetBits_shiftLeft, List.take_cons hpos, List.take_take, Nat.min_eq_left (by omega)]
        rfl
      rw [hshift, List.cons_append, List.cons_append, List.cons.injEq] at hbits
      obtain ⟨rfl, hbits⟩ := hbits
      have hnext := ih
        (h := { h with
          numSerializationPendingBits := h.numSerializationPendingBits - 1
          serializationPendingBits := h.serializationPendingBits <<< 1 })
        (data.set p (h.serializationPendingBits &&& 0x80 != 0))
        (by rw [List.length_set]; omega) (show _ - 1 ≤ 8 by omega) hbits (Nat.succ.inj hwant)
      obtain ⟨taken, left, p', data', h', heq, rfl, hleft, hlen, hdrop, hrest⟩ := hnext
      refine ⟨_ :: taken, left, p', data', h', heq, rfl, hleft, ?_, ?_, hrest⟩
      · rw [hlen, List.length_set]
      · rw [hdrop, drop_set _ (by omega), List.reverse_cons, List.append_assoc]
        rfl
    · rw [if_neg hpos]
      exact ⟨[], want, p + 1, data, h, rfl, rfl, hwant, rfl, rfl, hnum, hbits, .inr (by omega)⟩

theorem takeBits_reads (octet : Octet) (data : Bitset) (hk : steps + k ≤ 8) (hsteps : steps ≤ p)
    (hp : p ≤ data.length) :
    (takeBits octet steps p (highBit k) data).length = data.length ∧
    (takeBits octet steps p (highBit k) data).drop (p - steps) =
      (((octetBits octet).drop k).take steps).reverse ++ data.drop p := by
  induction steps generalizing p k data with
  | zero => exact ⟨rfl, rfl⟩
  | succ steps ih =>
    have hbit : (octetBits octet).drop k =
        (octet &&& highBit k != 0) :: (octetBits octet).drop (k + 1) := by
      rw [List.drop_eq_getElem_cons (by rw [length_octetBits]; omega), getElem_octetBits,
        and_highBit_bne octet (by omega)]
    have hnext := ih (data.set (p - 1) (octet &&& highBit k != 0)) (p := p - 1) (k := k + 1)
      (by omega) (by omega) (by rw [List.length_set]; omega)
    have hp1 : p - 1 + 1 = p := by omega
    have hsub : p - 1 - steps = p - (steps + 1) := by omega
    rw [drop_set _ (by omega), hp1, hsub, List.length_set] at hnext
    rw [takeBits, highBit_shift, hbit, List.take_succ_cons, List.reverse_cons, List.append_assoc]
    exact hnext

theorem readOctets_reads (data : Bitset) (want : List Bool) (hp : p ≤ data.length)
    (hholds : Holds h octets (want ++ rest)) (hwant : want.length = p)
    (hend : p = 0 ∨ h.numSerializationPendingBits = 0) :
    ∃ h' octets', readOctets octets p data h = some (want.reverse ++ data.drop p, h', octets') ∧
      Holds h' octets' rest := by
  obtain ⟨hnum, hbits⟩ := hholds
  induction octets generalizing p data want with
  | nil =>
    cases p with
    | zero =>
      rw [List.eq_nil_of_length_eq_zero hwant] at hbits ⊢
      exact ⟨h, [], rfl, hnum, hbits⟩
    | succ p =>
      have hnone := congrArg List.length hbits
      rw [hend.resolve_left (by omega), List.length_append, List.length_append, hwant] at hnone
      simp [streamBits] at hnone
      omega
  | cons octet octets ih =>
    cases p with
    | zero =>
      rw [List.eq_nil_of_length_eq_zero hwant] at hbits ⊢
      exact ⟨h, octet :: octets, rfl, hnum, hbits⟩
    | succ p =>
      have hnum0 := hend.resolve_left (by omega)
      rw [hnum0, List.take_zero, List.nil_append, streamBits_cons] at hbits
      by_cases h8 : 8 ≤ p + 1
      · simp only [readOctets, if_pos h8]
        have hwhole : want = octetBits octet ++ want.drop 8 := by
          have htake := congrArg (List.take 8) hbits
          rw [List.take_left' (length_octetBits octet),
            List.take_append_of_le_length (by omega)] at htake
          rw [htake]
          exact (List.take_append_drop 8 want).symm
        obtain ⟨hlen, hdrop⟩ := takeBits_reads octet data (k := 0) (by decide) h8 hp
        rw [hwhole, List.append_assoc] at hbits
        have hnext := ih (p := p + 1 - 8) (takeBits octet 8 (p + 1) 0x80 data)
          (want.drop 8) (by rw [show (0x80 : Octet) = highBit 0 from rfl, hlen]; omega)
          (by rw [List.length_drop, hwant]) (.inr hnum0)
          (by rw [hnum0]; exact List.append_cancel_left hbits)
        obtain ⟨h', octets', heq, hrest⟩ := hnext
        refine ⟨h', octets', ?_, hrest⟩
        have hrev : want.reverse = (want.drop 8).reverse ++ (octetBits octet).reverse := by
          conv_lhs => rw [hwhole]
          exact List.reverse_append
        rw [hrev, List.append_assoc]
        exact heq.trans (congrArg (fun bits => some (_ ++ bits, h', octets')) hdrop)
      · simp only [readOctets, if_neg h8]
        obtain ⟨hlen, hdrop⟩ := takeBits_reads octet data (k := 0)
          (show p + 1 + 0 ≤ 8 by omega) (le_refl (p + 1)) hp
        have hwant' : want = (octetBits octet).take (p + 1) := by
          have htake := congrArg (List.take (p + 1)) hbits
          rw [List.take_append_of_le_length (by rw [length_octetBits]; omega),
            List.take_left' hwant] at htake
          exact htake.symm
        have hrest' : (octetBits octet).drop (p + 1) ++ streamBits octets = rest := by
          have hdrop' := congrArg (List.drop (p + 1)) hbits
          rwa [List.drop_append_of_le_length (by rw [length_octetBits]; omega),
            List.drop_left' hwant] at hdrop'
        rw [Nat.sub_self, List.drop_zero, List.drop_zero, ← hwant'] at hdrop
        refine ⟨{ h with
          numSerializationPendingBits := 8 - (p + 1)
          serializationPendingBits := octet <<< (p + 1) }, octets, ?_, Nat.sub_le _ _, ?_⟩
        · rw [← hdrop]
          rfl
        · rw [← octetBits_drop octet (by omega)]
          exact hrest'

/-- `DeserializeBitset` takes the next bits, whatever is pending. -/
theorem Holds.deserializeBitset (data value : Bitset)
    (hholds : Holds h octets (value.reverse ++ rest)) (hlen : data.length = value.length) :
    ∃ h' octets', h.deserializeBitset data octets = some (value, h', octets') ∧
      Holds h' octets' rest := by
  obtain ⟨hnum, hbits⟩ := hholds
  obtain ⟨taken, left, p', data', h', heq, hwant, hleft, hlen', hdrop, hnum', hrest, hend⟩ :=
    readPending_reads data (le_refl data.length) hnum hbits (by rw [List.length_reverse, hlen])
  have hp' : p' ≤ data'.length := by
    have hsum := congrArg List.length hwant
    rw [List.length_reverse, List.length_append] at hsum
    omega
  obtain ⟨h'', octets', heq', hholds'⟩ := readOctets_reads data' left hp' ⟨hnum', hrest⟩ hleft hend
  refine ⟨h'', octets', ?_, hholds'⟩
  have hvalue : left.reverse ++ data'.drop p' = value := by
    rw [hdrop, List.drop_length, List.append_nil, ← List.reverse_append, ← hwant,
      List.reverse_reverse]
  unfold Asn1Header.deserializeBitset
  rw [heq, ← hvalue]
  exact heq'

end Ns3.Lte.Asn1Header
