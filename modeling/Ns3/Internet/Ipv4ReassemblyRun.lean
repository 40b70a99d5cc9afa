import Ns3.Internet.Ipv4Reassembly

/-!
# Runs of IPv4 reassembly

Fragments of any datagrams arrive in any order, are lost or arrive twice, and the entry of a
datagram may time out. As long as a datagram becomes complete only with its last fragment by offset
at the end of the payload, no entry is complete between two steps (`Run.entries`), and each step
does what it should exactly under its condition (`reassembly_correct_iff`).

A fragment that was cut again has the same offset as its first part. If that part arrives last, a
complete datagram is not recognized (`complete_not_recognized`).
-/

namespace Ns3.Internet.Ipv4

open Lib

/-! ## Keys -/

/-- The key of the fragments of a datagram. -/
def Datagram.key (d : Datagram) : Nat × Nat := fragmentKey d.header

/-- No two datagrams have the same addresses, identification and protocol. -/
def Distinct (D : Datagram → Prop) : Prop :=
  ∀ d e, D d → D e → d.source = e.source → d.destination = e.destination →
    d.identification = e.identification → d.protocol = e.protocol → d = e

theorem IsFragment.key {d : Datagram} {f : Ipv4PayloadHeaderPair} (h : IsFragment d f) :
    fragmentKey f.2 = d.key := by
  unfold Datagram.key fragmentKey
  rw [h.source, h.destination, h.identification, h.protocol]
  rfl

theorem shiftLeft_or_inj {a b a' b' k : Nat} (hb : b < 2 ^ k) (hb' : b' < 2 ^ k)
    (h : a <<< k ||| b = a' <<< k ||| b') : a = a' ∧ b = b' := by
  rw [← Nat.shiftLeft_add_eq_or_of_lt hb, ← Nat.shiftLeft_add_eq_or_of_lt hb', Nat.shiftLeft_eq,
    Nat.shiftLeft_eq] at h
  have hmod := congrArg (· % 2 ^ k) h
  have hdiv := congrArg (· / 2 ^ k) h
  have hpos : 0 < 2 ^ k := Nat.two_pow_pos k
  rw [Nat.mul_comm a, Nat.mul_comm a', Nat.mul_add_mod, Nat.mul_add_mod, Nat.mod_eq_of_lt hb,
    Nat.mod_eq_of_lt hb'] at hmod
  rw [Nat.mul_comm a, Nat.mul_comm a', Nat.mul_add_div hpos, Nat.mul_add_div hpos,
    Nat.div_eq_of_lt hb, Nat.div_eq_of_lt hb', Nat.add_zero, Nat.add_zero] at hdiv
  exact ⟨hdiv, hmod⟩

theorem Distinct.eq_of_key {D : Datagram → Prop} (hD : Distinct D) {d e : Datagram} (hd : D d)
    (he : D e) (h : d.key = e.key) : d = e := by
  obtain ⟨haddress, hidProto⟩ := Prod.ext_iff.mp h
  obtain ⟨hsource, hdestination⟩ := shiftLeft_or_inj d.destination_lt e.destination_lt haddress
  obtain ⟨hident, hproto⟩ := shiftLeft_or_inj (d.protocol_lt.trans (by decide : 2 ^ 8 < 2 ^ 16))
    (e.protocol_lt.trans (by decide : 2 ^ 8 < 2 ^ 16)) hidProto
  exact hD d e hd he hsource hdestination hident hproto

/-! ## Runs -/

/-- The fragments that arrived since the entry was created, by key. -/
abbrev Arrivals := Nat × Nat → List Ipv4PayloadHeaderPair

/-- The condition at an arrival. -/
def ArrivalOk (d : Datagram) (rcv : List Ipv4PayloadHeaderPair) : Prop :=
  Complete d rcv → LastEnds d rcv

/-- The condition at a timeout. -/
def TimeoutOk (rcv : List Ipv4PayloadHeaderPair) : Prop := Piece.Staggered 0 (byOffset rcv)

/-- Arrivals and timeouts that meet their conditions. -/
inductive Run (D : Datagram → Prop) : FragmentMap → Arrivals → Prop
  | start : Run D (fun _ => none) (fun _ => [])
  | arrive {m m' : FragmentMap} {rcv : Arrivals} {d : Datagram} {f : Ipv4PayloadHeaderPair}
      {ret : Bool} {packet : List UInt8} (h : Run D m rcv) (hd : D d) (hf : Travels d f)
      (hok : ArrivalOk d (rcv d.key ++ [f]))
      (hstep : processFragment m f = some (ret, packet, m')) :
      Run D m' (Function.update rcv d.key (if ret then [] else rcv d.key ++ [f]))
  | timeout {m m' : FragmentMap} {rcv : Arrivals} {d : Datagram} {packet : List UInt8}
      (h : Run D m rcv) (hd : D d) (hok : TimeoutOk (rcv d.key))
      (hstep : handleFragmentsTimeout m d.key = some (packet, m')) :
      Run D m' (Function.update rcv d.key [])

/-- The entry of a key: none, or what the fragments of one datagram leave, which is not complete. -/
def Entry (D : Datagram → Prop) (m : FragmentMap) (rcv : Arrivals) (key : Nat × Nat) : Prop :=
  (m key = none ∧ rcv key = []) ∨
    ∃ d, D d ∧ d.key = key ∧ m key = some (received (rcv key)) ∧ rcv key ≠ [] ∧
      (∀ f ∈ rcv key, IsFragment d f) ∧ ¬ Complete d (rcv key)

section Entries

variable {D : Datagram → Prop} {m m' : FragmentMap} {rcv : Arrivals} {d : Datagram}
  {f : Ipv4PayloadHeaderPair}

/-- The fragments of a datagram are in the entry of its key. -/
theorem Entry.fragments (h : Entry D m rcv d.key) (hD : Distinct D) (hd : D d) :
    (∀ g ∈ rcv d.key, IsFragment d g) ∧ ¬ Complete d (rcv d.key) ∧
      (m d.key).getD {} = received (rcv d.key) := by
  rcases h with ⟨hnone, hnil⟩ | ⟨e, he, hkey, hsome, -, hall, hnot⟩
  · rw [hnone, hnil]
    exact ⟨fun _ hg => absurd hg List.not_mem_nil, fun hc => hc.1 rfl, rfl⟩
  · obtain rfl := hD.eq_of_key he hd hkey
    rw [hsome]
    exact ⟨hall, hnot, rfl⟩

/-- What an arrival does. -/
structure Processed (d : Datagram) (rcv : List Ipv4PayloadHeaderPair) (m : FragmentMap)
    (r : Bool × List UInt8 × FragmentMap) : Prop where
  ret : r.1 = true ↔ Complete d rcv ∧ LastEnds d rcv
  packet : r.1 = true → r.2.1 = d.payload
  entry : r.2.2 = Function.update m d.key (if r.1 then none else some (received rcv))

theorem processFragment_eq (h : Entry D m rcv d.key) (hD : Distinct D) (hd : D d)
    (hf : IsFragment d f) :
    ∃ r, processFragment m f = some r ∧ Processed d (rcv d.key ++ [f]) m r := by
  obtain ⟨hall, -, hentry⟩ := h.fragments hD hd
  have hall' : ∀ g ∈ rcv d.key ++ [f], IsFragment d g := by
    intro g hg
    rcases List.mem_append.mp hg with hg | hg
    · exact hall g hg
    · exact List.mem_singleton.mp hg ▸ hf
  have hiff := isEntire_iff hall' (List.append_ne_nil_of_right_ne_nil _ (List.cons_ne_nil f []))
  unfold processFragment
  rw [hf.key]
  dsimp only
  rw [hentry, ← received_concat]
  split
  · rename_i hentire
    obtain ⟨hc, hl⟩ := hiff.mp hentire
    rw [getPacket_eq hall' hc hl]
    exact ⟨_, rfl, iff_of_true rfl ⟨hc, hl⟩, fun _ => rfl, rfl⟩
  · rename_i hentire
    refine ⟨_, rfl, iff_of_false Bool.false_ne_true fun hcl => hentire (hiff.mpr hcl), ?_, rfl⟩
    exact fun hfalse => absurd hfalse Bool.false_ne_true

/-- The entries of other keys stay. -/
theorem Entry.update {key other : Nat × Nat} (h : Entry D m rcv other) (hne : other ≠ key)
    (x : Option Fragments) (l : List Ipv4PayloadHeaderPair) :
    Entry D (Function.update m key x) (Function.update rcv key l) other := by
  unfold Entry
  rw [Function.update_of_ne hne, Function.update_of_ne hne]
  exact h

theorem Entry.erase {key : Nat × Nat} :
    Entry D (Function.update m key none) (Function.update rcv key []) key :=
  Or.inl ⟨Function.update_self .., Function.update_self ..⟩

/-- An arrival that meets its condition leaves no complete entry. -/
theorem Entry.arrive (h : Entry D m rcv d.key) (hD : Distinct D) (hd : D d) (hf : Travels d f)
    (hok : ArrivalOk d (rcv d.key ++ [f])) {ret : Bool} {packet : List UInt8}
    (hstep : processFragment m f = some (ret, packet, m')) :
    m' = Function.update m d.key (if ret then none else some (received (rcv d.key ++ [f]))) ∧
      Entry D m' (Function.update rcv d.key (if ret then [] else rcv d.key ++ [f])) d.key := by
  obtain ⟨r, hr, hprocessed⟩ := processFragment_eq h hD hd hf.isFragment
  obtain rfl := Option.some.inj (hr.symm.trans hstep)
  have hm' : m' = _ := hprocessed.entry
  refine ⟨hm', ?_⟩
  rw [hm']
  cases ret with
  | true => exact Entry.erase
  | false =>
    refine Or.inr ⟨d, hd, rfl, ?_, ?_, ?_, ?_⟩
    · rw [Function.update_self, Function.update_self]
      rfl
    · rw [Function.update_self]
      exact List.append_ne_nil_of_right_ne_nil _ (List.cons_ne_nil f [])
    · rw [Function.update_self]
      intro g hg
      rcases List.mem_append.mp hg with hg | hg
      · exact (h.fragments hD hd).1 g hg
      · exact List.mem_singleton.mp hg ▸ hf.isFragment
    · rw [Function.update_self]
      intro hc
      exact Bool.false_ne_true (hprocessed.ret.mpr ⟨hc, hok hc⟩)

theorem Run.entries (h : Run D m rcv) (hD : Distinct D) : ∀ key, Entry D m rcv key := by
  induction h with
  | start => exact fun _ => Or.inl ⟨rfl, rfl⟩
  | @arrive m m' rcv d f ret packet _ hd hf hok hstep ih =>
    obtain ⟨hm', hentry⟩ := (ih d.key).arrive hD hd hf hok hstep
    intro key
    by_cases hkey : key = d.key
    · rw [hkey]
      exact hentry
    · rw [hm']
      exact (ih key).update hkey _ _
  | @timeout m m' rcv d packet _ hd _ hstep ih =>
    have hm' : m' = Function.update m d.key none := by
      unfold handleFragmentsTimeout at hstep
      cases hentry : m d.key with
      | none =>
        rw [hentry] at hstep
        cases hstep
      | some fs =>
        rw [hentry] at hstep
        change (fs.getPartialPacket >>= fun packet =>
          some (packet, Function.update m d.key none)) = _ at hstep
        cases hpacket : fs.getPartialPacket with
        | none =>
          rw [hpacket] at hstep
          cases hstep
        | some p =>
          rw [hpacket] at hstep
          cases hstep
          rfl
    intro key
    rw [hm']
    by_cases hkey : key = d.key
    · rw [hkey]
      exact Entry.erase
    · exact (ih key).update hkey _ _

/-- What a timeout yields. -/
theorem Entry.timeout_iff (h : Entry D m rcv d.key) (hD : Distinct D) (hd : D d)
    (hne : rcv d.key ≠ []) :
    (∃ packet m', handleFragmentsTimeout m d.key = some (packet, m') ∧ packet <+: d.payload) ↔
      TimeoutOk (rcv d.key) := by
  obtain ⟨hall, -, -⟩ := h.fragments hD hd
  have hsome : m d.key = some (received (rcv d.key)) := by
    rcases h with ⟨-, hnil⟩ | ⟨-, -, -, hsome, -⟩
    · exact absurd hnil hne
    · exact hsome
  rw [TimeoutOk, ← getPartialPacket_iff hall hne]
  unfold handleFragmentsTimeout
  rw [hsome]
  change (∃ packet m', ((received (rcv d.key)).getPartialPacket >>= fun packet =>
    some (packet, Function.update m d.key none)) = some (packet, m') ∧ _) ↔ _
  cases (received (rcv d.key)).getPartialPacket with
  | none =>
    refine iff_of_false ?_ ?_
    · rintro ⟨_, _, hnone, -⟩
      cases hnone
    · rintro ⟨_, hnone, -⟩
      cases hnone
  | some p =>
    constructor
    · rintro ⟨_, _, hp, hprefix⟩
      cases hp
      exact ⟨p, rfl, hprefix⟩
    · rintro ⟨_, hp, hprefix⟩
      cases hp
      exact ⟨p, _, rfl, hprefix⟩

end Entries

/-- Every packet is cut into aligned parts that fit in the MTU; no entry is complete between two
steps; and after a run an arrival is recognized as the first to complete its datagram, and a timeout
yields a start of the payload, exactly under their conditions. -/
theorem reassembly_correct_iff {D : Datagram → Prop} (hD : Distinct D) {m : FragmentMap}
    {rcv : Arrivals} (h : Run D m rcv) {d : Datagram} (hd : D d) :
    (∀ f mtu, Travels d f → 68 ≤ mtu → mtu < 2 ^ 16 → ∃ fs, doFragmentation f.1 f.2 mtu = some fs ∧
      ∀ g ∈ fs, g.1.length + 20 ≤ mtu ∧ 8 ∣ g.2.fragmentOffset) ∧
    ¬ Complete d (rcv d.key) ∧
    (∀ f, Travels d f → ∃ ret packet m', processFragment m f = some (ret, packet, m') ∧
      (((ret = true ↔ Complete d (rcv d.key ++ [f])) ∧ (ret = true → packet = d.payload)) ↔
        ArrivalOk d (rcv d.key ++ [f]))) ∧
    (rcv d.key ≠ [] → ((∃ packet m', handleFragmentsTimeout m d.key = some (packet, m') ∧
      packet <+: d.payload) ↔ TimeoutOk (rcv d.key))) := by
  have hentry := h.entries hD d.key
  obtain ⟨-, hnot, -⟩ := hentry.fragments hD hd
  refine ⟨?_, hnot, ?_, ?_⟩
  · intro f mtu hf hmtu hlt
    obtain ⟨fs, hfs, hparts⟩ := hf.isFragment.parts hmtu hlt
    exact ⟨fs, hfs, fun g hg => ⟨(hparts g hg).2, (hparts g hg).1.aligned⟩⟩
  · intro f hf
    obtain ⟨⟨ret, packet, m'⟩, hstep, hprocessed⟩ := processFragment_eq hentry hD hd hf.isFragment
    refine ⟨ret, packet, m', hstep, ?_⟩
    have hret : ret = true ↔ _ := hprocessed.ret
    constructor
    · rintro ⟨hcomplete, -⟩ hc
      exact (hret.mp (hcomplete.mpr hc)).2
    · intro hok
      refine ⟨hret.trans ⟨And.left, fun hc => ⟨hc, hok hc⟩⟩, hprocessed.packet⟩
  · exact fun hne => hentry.timeout_iff hD hd hne

/-! ## Two fragments and their parts -/

/-- A datagram of 160 bytes. -/
def Datagram.sample : Datagram where
  source := 1
  destination := 2
  identification := 3
  protocol := 17
  payload := List.replicate 160 0
  source_lt := by decide
  destination_lt := by decide
  identification_lt := by decide
  protocol_lt := by decide
  payload_le := by simp

/-- A part of it. -/
def sampleFragment (offset size : Nat) (moreFragments : Bool) : Ipv4PayloadHeaderPair :=
  (List.replicate size 0, { Datagram.sample.header with
    fragmentOffset := offset
    moreFragments := moreFragments
    payloadSize := size })

/-- The datagram is cut for an MTU of 124. -/
theorem sendRealOut_sample : sendRealOut 124 (Datagram.sample.payload, Datagram.sample.header) =
    some [sampleFragment 0 104 true, sampleFragment 104 56 false] := by decide +kernel

/-- Both fragments are cut again for an MTU of 68. -/
theorem sendRealOut_first : sendRealOut 68 (sampleFragment 0 104 true) =
    some [sampleFragment 0 48 true, sampleFragment 48 48 true, sampleFragment 96 8 true] := by
  decide

theorem sendRealOut_last : sendRealOut 68 (sampleFragment 104 56 false) =
    some [sampleFragment 104 48 true, sampleFragment 152 8 false] := by decide

theorem travels_first : Travels .sample (sampleFragment 0 104 true) :=
  Travels.sent.hop 124 (by decide) (by decide) sendRealOut_sample List.mem_cons_self

theorem travels_last : Travels .sample (sampleFragment 104 56 false) :=
  Travels.sent.hop 124 (by decide) (by decide) sendRealOut_sample
    (List.mem_cons_of_mem _ List.mem_cons_self)

/-- Only the sample. -/
def OnlySample (d : Datagram) : Prop := d = .sample

theorem distinct_onlySample : Distinct OnlySample := by
  rintro d e rfl rfl - - - -
  rfl

theorem travels_part : Travels .sample (sampleFragment 104 48 true) :=
  travels_last.hop 68 (by decide) (by decide) sendRealOut_last List.mem_cons_self

theorem travels_firstPart : Travels .sample (sampleFragment 0 48 true) :=
  travels_first.hop 68 (by decide) (by decide) sendRealOut_first List.mem_cons_self

/-- A fragment that covers the last byte or the first one is needed. -/
theorem not_complete_sample {rcv : List Ipv4PayloadHeaderPair} {i : Nat} (hi : i < 160)
    (h : ∀ f ∈ rcv, i < (pieceOf f).1 ∨ (pieceOf f).stop ≤ i) : ¬ Complete .sample rcv := by
  intro hc
  obtain ⟨p, hp, hle, hlt⟩ := hc.2 i (by rwa [Datagram.sample, List.length_replicate])
  obtain ⟨f, hf, rfl⟩ := List.mem_map.mp hp
  have := h f hf
  omega

theorem complete_sample {rcv : List Ipv4PayloadHeaderPair}
    (hfirst : sampleFragment 0 104 true ∈ rcv) (hlast : sampleFragment 104 56 false ∈ rcv) :
    Complete .sample rcv := by
  refine ⟨List.ne_nil_of_mem hfirst, fun i hi => ?_⟩
  rw [Datagram.sample, List.length_replicate] at hi
  rcases Nat.lt_or_ge i 104 with hlt | hge
  · exact ⟨_, List.mem_map_of_mem hfirst, Nat.zero_le i, hlt⟩
  · exact ⟨_, List.mem_map_of_mem hlast, hge, hi⟩

/-- A run in which a fragment arrives that does not complete its datagram. -/
theorem Run.grow {D : Datagram → Prop} {m : FragmentMap} {rcv : Arrivals} {d : Datagram}
    {f : Ipv4PayloadHeaderPair} (h : Run D m rcv) (hD : Distinct D) (hd : D d) (hf : Travels d f)
    (hnot : ¬ Complete d (rcv d.key ++ [f])) :
    ∃ m', Run D m' (Function.update rcv d.key (rcv d.key ++ [f])) := by
  obtain ⟨⟨ret, packet, m'⟩, hstep, hprocessed⟩ :=
    processFragment_eq (h.entries hD d.key) hD hd hf.isFragment
  have hret : ret = false := by
    rw [← Bool.not_eq_true]
    exact fun hret => hnot (hprocessed.ret.mp hret).1
  have hrun := h.arrive hd hf (fun hc => absurd hc hnot) hstep
  rw [hret, if_neg Bool.false_ne_true] at hrun
  exact ⟨m', hrun⟩

/-- The second fragment completes the datagram. -/
theorem reassembly_correct_iff_sample :
    ∃ m rcv packet m', Run OnlySample m rcv ∧
      processFragment m (sampleFragment 104 56 false) = some (true, packet, m') ∧
      packet = Datagram.sample.payload := by
  obtain ⟨m, hrun⟩ := Run.start.grow distinct_onlySample rfl travels_first
    (not_complete_sample (i := 104) (by decide) (by simp [pieceOf, sampleFragment, Piece.stop]))
  obtain ⟨-, -, harrive, -⟩ := reassembly_correct_iff distinct_onlySample hrun rfl
  obtain ⟨ret, packet, m', hstep, hiff⟩ := harrive _ travels_last
  rw [Function.update_self] at hiff
  have hok : ArrivalOk .sample ([] ++ [sampleFragment 0 104 true] ++
      [sampleFragment 104 56 false]) := by
    intro _ p hp
    obtain rfl := Option.some.inj hp
    rfl
  obtain ⟨hret, hpacket⟩ := hiff.mpr hok
  have htrue := hret.mpr (complete_sample (by simp) (by simp))
  subst htrue
  exact ⟨m, _, packet, m', hrun, hstep, hpacket rfl⟩

/-- The last fragment arrives, then its first part, then the first fragment: the datagram is
complete, but the last fragment by offset is the part. And if the first fragment and its first part
arrive, a subtraction wraps around at the timeout. -/
theorem complete_not_recognized :
    (∃ m rcv packet m', Run OnlySample m rcv ∧
      Complete .sample (rcv Datagram.sample.key ++ [sampleFragment 0 104 true]) ∧
      processFragment m (sampleFragment 0 104 true) = some (false, packet, m')) ∧
    (∃ m rcv, Run OnlySample m rcv ∧ rcv Datagram.sample.key ≠ [] ∧
      ¬ ∃ packet m', handleFragmentsTimeout m Datagram.sample.key = some (packet, m') ∧
        packet <+: Datagram.sample.payload) := by
  constructor
  · obtain ⟨m₁, hrun₁⟩ := Run.start.grow distinct_onlySample rfl travels_last
      (not_complete_sample (i := 0) (by decide) (by simp [pieceOf, sampleFragment]))
    obtain ⟨m₂, hrun₂⟩ := hrun₁.grow distinct_onlySample rfl travels_part (by
      rw [Function.update_self]
      exact not_complete_sample (i := 0) (by decide) (by simp [pieceOf, sampleFragment]))
    obtain ⟨⟨ret, packet, m'⟩, hstep, hprocessed⟩ := processFragment_eq
      (hrun₂.entries distinct_onlySample _) distinct_onlySample rfl travels_first.isFragment
    rw [Function.update_self, Function.update_self] at hprocessed
    refine ⟨m₂, _, packet, m', hrun₂, ?_, ?_⟩
    · rw [Function.update_self, Function.update_self]
      exact complete_sample (by simp) (by simp)
    · have hret : ret = false := by
        rw [← Bool.not_eq_true]
        intro htrue
        -- the part from 104 to 152 is the last one
        have hends := (hprocessed.ret.mp htrue).2 (104, List.replicate 48 0) rfl
        exact absurd hends (by decide)
      rw [← hret]
      exact hstep
  · obtain ⟨m₁, hrun₁⟩ := Run.start.grow distinct_onlySample rfl travels_first
      (not_complete_sample (i := 104) (by decide) (by simp [pieceOf, sampleFragment, Piece.stop]))
    obtain ⟨m₂, hrun₂⟩ := hrun₁.grow distinct_onlySample rfl travels_firstPart (by
      rw [Function.update_self]
      exact not_complete_sample (i := 104) (by decide)
        (by simp [pieceOf, sampleFragment, Piece.stop]))
    have hkey : Function.update (Function.update (fun _ => []) Datagram.sample.key
        ([] ++ [sampleFragment 0 104 true])) Datagram.sample.key
        (Function.update (fun _ => []) Datagram.sample.key ([] ++ [sampleFragment 0 104 true])
          Datagram.sample.key ++ [sampleFragment 0 48 true]) Datagram.sample.key =
        [sampleFragment 0 104 true, sampleFragment 0 48 true] := by
      rw [Function.update_self, Function.update_self]
      rfl
    have hne := hkey.trans_ne (List.cons_ne_nil _ _)
    refine ⟨m₂, _, hrun₂, hne, ?_⟩
    rw [(hrun₂.entries distinct_onlySample _).timeout_iff distinct_onlySample rfl hne, hkey]
    -- the part ends at 48, inside the 104 bytes before it
    intro hok
    exact absurd ((hok (Nat.zero_le 0)).2 (Nat.zero_le _)).1 (by decide)

end Ns3.Internet.Ipv4
