import Ns3.Internet.TcpRxSteps

/-!
# Runs of TcpRxBuffer

Segments of one stream arrive in any order, the end of the stream is announced and bytes are
extracted. What is extracted is a prefix of the stream, and with the bytes available it is the
longest prefix that was accepted.
-/

namespace Ns3.Internet

open Ns3.Network Ns3.Lib SequenceNumber32

/-- The byte with the offset `k` is in a packet of the buffer. -/
def TcpRxBuffer.Holds (b : TcpRxBuffer) (init k : ℕ) : Prop :=
  ∃ i ∈ b.m_data, ∃ j < i.2.length, i.1.add ⟨j⟩ = pos (init + k)

/-- A buffer, the bytes extracted from it and the offsets of the bytes it accepted. -/
structure RxSession where
  buffer : TcpRxBuffer
  extracted : List UInt8
  accepted : ℕ → Prop

/-- A call: `Add` of the bytes from the offset `h` to before `t`, `SetFinSequence` at the end of the
stream, or `Extract (n)`. -/
inductive RxCall where
  | add (h t : ℕ)
  | setFinSequence
  | extract (n : ℕ)
deriving DecidableEq, Repr

namespace RxSession

variable (stream : List UInt8) (init M : ℕ)

def start : RxSession where
  buffer := { TcpRxBuffer.create (pos init).m_value with m_maxBuffer := M }
  extracted := []
  accepted _ := False

/-- The bytes extracted and the bytes available. -/
def received (s : RxSession) : ℕ := s.extracted.length + s.buffer.m_availBytes

def step (s : RxSession) : RxCall → Option RxSession
  | .add h t => do
    let r ← s.buffer.add (pos (init + h)) (segment stream h t)
    return ⟨r.1, s.extracted, fun k => s.accepted k ∨ h ≤ k ∧ k < t ∧ r.1.Holds init k⟩
  | .setFinSequence =>
    some { s with buffer := s.buffer.setFinSequence (pos (init + stream.length)) }
  | .extract n => do
    let r ← s.buffer.extract n
    return ⟨r.1, s.extracted ++ r.2, s.accepted⟩

/-- A segment of the stream within `2 ^ 30` bytes of the next byte. -/
def Legal (s : RxSession) : RxCall → Prop
  | .add h t => h ≤ t ∧ t ≤ stream.length ∧ s.received ≤ h + 2 ^ 30 ∧ t ≤ s.received + 2 ^ 30
  | .setFinSequence => True
  | .extract _ => True

/-- The offset of a sequence number not before the extracted bytes. -/
def offset (s : RxSession) (k : SequenceNumber32) : ℕ :=
  s.extracted.length + diff k.m_value (pos (init + s.extracted.length)).m_value

/-- The receive limit is less than `2 ^ 31` ahead of the end of the segment, and the end of the
stream less than `2 ^ 32` ahead of the next byte. -/
def Near (s : RxSession) : RxCall → Prop
  | .add _ t => ∀ i ∈ s.buffer.m_data.head?, s.offset init i.1 + s.buffer.m_maxBuffer < t + 2 ^ 31
  | .setFinSequence => stream.length < s.received + 2 ^ 32
  | .extract _ => True

instance (s : RxSession) : (c : RxCall) → Decidable (s.Legal stream c)
  | .add h t => inferInstanceAs (Decidable (h ≤ t ∧ t ≤ stream.length ∧ s.received ≤ h + 2 ^ 30 ∧
      t ≤ s.received + 2 ^ 30))
  | .setFinSequence => inferInstanceAs (Decidable True)
  | .extract _ => inferInstanceAs (Decidable True)

instance (s : RxSession) : (c : RxCall) → Decidable (s.Near stream init c)
  | .add _ t => inferInstanceAs (Decidable (∀ i ∈ s.buffer.m_data.head?,
      s.offset init i.1 + s.buffer.m_maxBuffer < t + 2 ^ 31))
  | .setFinSequence => inferInstanceAs (Decidable (stream.length < s.received + 2 ^ 32))
  | .extract _ => inferInstanceAs (Decidable True)

/-- The sessions that legal calls with `Q` lead to. -/
inductive Run (Q : RxSession → RxCall → Prop) : RxSession → Prop
  | start : Run Q (start init M)
  | step {s s' : RxSession} {c : RxCall} : Run Q s → s.Legal stream c → Q s c →
      s.step stream init c = some s' → Run Q s'

variable {stream init M} in
theorem Run.add {Q : RxSession → RxCall → Prop} {s : RxSession} {h t : ℕ} {b : TcpRxBuffer}
    {r : Bool} (hs : Run stream init M Q s) (hl : s.Legal stream (.add h t)) (hq : Q s (.add h t))
    (hb : s.buffer.add (pos (init + h)) (segment stream h t) = some (b, r)) :
    Run stream init M Q ⟨b, s.extracted,
      fun k => s.accepted k ∨ h ≤ k ∧ k < t ∧ b.Holds init k⟩ := by
  apply hs.step hl hq
  dsimp only [RxSession.step]
  rw [hb]
  rfl

variable {stream init M} in
theorem Run.extract {Q : RxSession → RxCall → Prop} {s : RxSession} {n : ℕ} {b : TcpRxBuffer}
    {p : List UInt8} (hs : Run stream init M Q s) (hq : Q s (.extract n))
    (hb : s.buffer.extract n = some (b, p)) :
    Run stream init M Q ⟨b, s.extracted ++ p, s.accepted⟩ := by
  apply @Run.step _ _ _ _ _ _ (.extract n) hs trivial hq
  dsimp only [RxSession.step]
  rw [hb]
  rfl

/-! ## The invariant -/

/-- The FIN counts once all bytes before it are there. -/
def fin (s : RxSession) : ℕ :=
  if s.buffer.m_gotFin ∧ s.received = stream.length then 1 else 0

/-- The packets hold the intervals `ds`. -/
structure Inv (s : RxSession) (ds : List (ℕ × ℕ)) : Prop where
  data : s.buffer.m_data = ds.map (packet stream init)
  tidy : Intervals.Tidy ds
  bounds : ∀ x ∈ ds, s.extracted.length ≤ x.1 ∧ x.2 ≤ s.extracted.length + max M (2 ^ 30)
  in_stream : ∀ x ∈ ds, x.2 ≤ stream.length
  prefix_ : s.extracted <+: stream
  covered : ∀ k, s.extracted.length ≤ k → k < s.received → Intervals.Covers ds k
  gap : ¬ Intervals.Covers ds s.received
  next : s.buffer.m_nextRxSeq = pos (init + s.received + s.fin stream)
  finSeq : s.buffer.m_gotFin →
    s.buffer.m_finSeq = pos (init + stream.length) ∧ stream.length < s.received + 2 ^ 32
  size : s.buffer.m_size = Intervals.total ds
  accepted : ∀ k, s.accepted k ↔ k < s.extracted.length ∨ Intervals.Covers ds k
  maxBuffer : s.buffer.m_maxBuffer = M
  limit : 0 < M ∧ M + 1 < 2 ^ 31
  sack : Reports init ds s.received s.buffer.m_sackList

variable {stream : List UInt8} {init M : ℕ} {s : RxSession} {ds : List (ℕ × ℕ)}

theorem Inv.within (h : Inv stream init M s ds) : Within stream s.extracted.length ds := by
  intro x hx
  have h1 := h.bounds x hx
  have h2 := h.in_stream x hx
  have h3 := h.tidy.2 x hx
  have h4 := h.limit
  omega

/-- The next byte is in the window behind the extracted bytes, and in the stream or at its end. -/
theorem Inv.received_le (h : Inv stream init M s ds) :
    s.received ≤ s.extracted.length + max M (2 ^ 30) ∧ s.received ≤ stream.length := by
  have hlen := h.prefix_.length_le
  by_cases hav : s.buffer.m_availBytes = 0
  · unfold received
    omega
  · obtain ⟨x, hx, hk⟩ := h.covered (s.received - 1) (by unfold received; omega)
      (by unfold received; omega)
    have h1 := h.bounds x hx
    have h2 := h.in_stream x hx
    omega

theorem Inv.splits (h : Inv stream init M s ds) : Intervals.Splits ds s.received := by
  intro x hx hlt
  by_contra hc
  exact h.gap ⟨x, hx, hlt.le, by omega⟩

theorem fin_le (s : RxSession) : s.fin stream ≤ 1 := by
  unfold fin
  split
  · exact le_rfl
  · exact Nat.zero_le _

theorem Inv.size_le (h : Inv stream init M s ds) : s.buffer.m_size < 2 ^ 31 := by
  rw [h.size]
  have := Intervals.total_le h.tidy (by omega) h.bounds
  have := h.limit
  omega

theorem inv_start (hM : 0 < M) (hM' : M + 1 < 2 ^ 31) :
    Inv stream init M (start init M) [] where
  data := rfl
  tidy := Intervals.tidy_nil
  bounds _ hx := absurd hx List.not_mem_nil
  in_stream _ hx := absurd hx List.not_mem_nil
  prefix_ := List.nil_prefix
  covered k _ hk := absurd hk (Nat.not_lt_zero k)
  gap := Intervals.covers_nil _
  next := rfl
  finSeq hf := absurd hf Bool.false_ne_true
  size := rfl
  accepted k := by simp [start]
  maxBuffer := rfl
  limit := ⟨hM, hM'⟩
  sack _ hb := absurd hb List.not_mem_nil

/-! ## Extract -/

theorem diff_of_le {a b : ℕ} (hle : b ≤ a) (ha : a < 2 ^ 32) : diff a b = a - b := by
  unfold diff
  omega

/-- Taking out `m` available bytes leaves the intervals behind them. -/
theorem Inv.cut (h : Inv stream init M s ds) {m : ℕ} (hm : m ≤ s.buffer.m_availBytes)
    {b : TcpRxBuffer}
    (hb : b = { s.buffer with
      m_data := (Intervals.cut ds (s.extracted.length + m)).map (packet stream init)
      m_size := diff s.buffer.m_size m
      m_availBytes := diff s.buffer.m_availBytes m }) :
    Inv stream init M ⟨b, s.extracted ++ segment stream s.extracted.length (s.extracted.length + m),
      s.accepted⟩ (Intervals.cut ds (s.extracted.length + m)) := by
  obtain ⟨hle, hle'⟩ := h.received_le
  have hM := h.limit
  have hrec : s.extracted.length + m ≤ s.received := Nat.add_le_add_left hm _
  have hlen : (s.extracted ++ segment stream s.extracted.length
      (s.extracted.length + m)).length = s.extracted.length + m := by
    rw [List.length_append, length_segment (hrec.trans hle')]
    omega
  have hcov : ∀ k, s.extracted.length ≤ k → k < s.extracted.length + m → Intervals.Covers ds k :=
    fun k hk hk' => h.covered k hk (by omega)
  have htotal := Intervals.total_cut h.tidy (fun x hx => (h.bounds x hx).1) hcov
  have hsize := h.size_le
  have hnext : b.m_nextRxSeq = s.buffer.m_nextRxSeq := by rw [hb]
  have hgot : b.m_gotFin = s.buffer.m_gotFin := by rw [hb]
  have hseq : b.m_finSeq = s.buffer.m_finSeq := by rw [hb]
  have hmax : b.m_maxBuffer = s.buffer.m_maxBuffer := by rw [hb]
  have hsack : b.m_sackList = s.buffer.m_sackList := by rw [hb]
  have hreceived : received ⟨b, s.extracted ++ segment stream s.extracted.length
      (s.extracted.length + m), s.accepted⟩ = s.received := by
    subst hb
    unfold received at hle ⊢
    dsimp only
    rw [hlen, diff_of_le hm (by omega)]
    omega
  constructor
  case data => rw [hb]
  case tidy => exact Intervals.tidy_cut h.tidy _
  case bounds =>
    intro y hy
    obtain ⟨h1, -, x, hx, h2, h3⟩ := Intervals.mem_cut h.tidy hy
    have := h.bounds x hx
    rw [hlen]
    omega
  case in_stream =>
    intro y hy
    obtain ⟨-, -, x, hx, -, h3⟩ := Intervals.mem_cut h.tidy hy
    rw [h3]
    exact h.in_stream x hx
  case prefix_ =>
    dsimp only
    rw [List.prefix_iff_eq_take.mp h.prefix_, List.length_take, min_eq_left h.prefix_.length_le,
      take_append_segment (Nat.le_add_right _ _)]
    exact List.take_prefix _ _
  case covered =>
    intro k hk hk'
    rw [hreceived] at hk'
    rw [hlen] at hk
    exact (Intervals.covers_cut h.tidy).mpr ⟨h.covered k (by omega) hk', hk⟩
  case gap =>
    rw [hreceived, Intervals.covers_cut h.tidy]
    exact fun hc => h.gap hc.1
  case next =>
    have hfin : fin stream ⟨b, s.extracted ++ segment stream s.extracted.length
        (s.extracted.length + m), s.accepted⟩ = s.fin stream := by
      unfold fin
      rw [hreceived, hgot]
    rw [hreceived, hfin]
    exact hnext.trans h.next
  case finSeq =>
    intro hf
    obtain ⟨h1, h2⟩ := h.finSeq (hgot ▸ hf)
    rw [hreceived]
    exact ⟨hseq.trans h1, h2⟩
  case size =>
    rw [hb]
    dsimp only
    rw [h.size] at hsize ⊢
    rw [diff_of_le (by omega) (by omega)]
    omega
  case accepted =>
    intro k
    rw [hlen, Intervals.covers_cut h.tidy]
    dsimp only
    rw [h.accepted k]
    have hk := hcov k
    by_cases h1 : s.extracted.length + m ≤ k
    · rw [and_iff_left h1]
      have : k < s.extracted.length ↔ k < s.extracted.length + m := by omega
      rw [this]
    · have : k < s.extracted.length ∨ s.extracted.length ≤ k := by omega
      have : k < s.extracted.length + m := by omega
      tauto
  case maxBuffer => exact hmax.trans h.maxBuffer
  case limit => exact h.limit
  case sack =>
    rw [hreceived]
    dsimp only
    rw [hsack]
    intro block hblock
    obtain ⟨x, y, heq, hxy, hy, hc⟩ := h.sack block hblock
    refine ⟨x, y, heq, hxy, hy, ?_⟩
    -- the span begins behind the next byte, which is not covered
    have hx : s.received < x := by
      by_contra hle
      exact h.gap (hc s.received (by omega) hy)
    intro k hk hk'
    exact (Intervals.covers_cut h.tidy).mpr ⟨hc k hk hk', by omega⟩

theorem Inv.extract (h : Inv stream init M s ds) (n : ℕ) :
    ∃ s', s.step stream init (.extract n) = some s' ∧
      s'.extracted.length = s.extracted.length + min n s.buffer.m_availBytes ∧
      Inv stream init M s'
        (Intervals.cut ds (s.extracted.length + min n s.buffer.m_availBytes)) := by
  have hm : min n s.buffer.m_availBytes ≤ s.buffer.m_availBytes := min_le_right _ _
  obtain ⟨hle, hle'⟩ := h.received_le
  have hM := h.limit
  have hfin : s.fin stream ≤ 1 := fin_le s
  refine ⟨_, ?_, ?_, h.cut hm rfl⟩
  swap
  · rw [List.length_append, length_segment (by unfold received at hle'; omega)]
    omega
  unfold step TcpRxBuffer.extract
  dsimp only
  generalize min n s.buffer.m_availBytes = m at hm ⊢
  split
  · next h0 =>
    subst h0
    have hsize := h.size_le
    rw [Nat.add_zero, Intervals.cut_of_le fun x hx => ⟨(h.bounds x hx).1, h.tidy.2 x hx⟩, ← h.data,
      diff_of_le (Nat.zero_le _) (by omega), diff_of_le hm (by unfold received at hle; omega)]
    simp [segment]
  · next h0 =>
    have hloop := @extractLoop_map stream init _ ds h.within h.tidy s.extracted.length m
      (s.received + s.fin stream) (fun x hx => (h.bounds x hx).1)
      (by unfold received; omega) (by omega)
      (fun k hk hk' => h.covered k hk (by unfold received; omega))
    have hl : (segment stream s.extracted.length (s.extracted.length + m)).length = m := by
      rw [length_segment (by unfold received at hle'; omega)]
      omega
    rw [h.next, h.data, Nat.add_assoc, hloop]
    dsimp only [Option.bind_eq_bind, Option.bind_some, Option.pure_def]
    rw [hl]

/-! ## Add: the part that may be stored -/

/-- The end of a segment, cut at the receive limit. -/
def cutTail (M t : ℕ) : List (ℕ × ℕ) → ℕ
  | [] => t
  | x :: _ => min t (x.1 + M)

/-- The start of a segment, at most its end once there is a limit. -/
def cutHead (M t a : ℕ) : List (ℕ × ℕ) → ℕ
  | [] => a
  | x :: _ => min a (min t (x.1 + M))

theorem diff_pos {p q : ℕ} (hle : q ≤ p) (h : p < q + 2 ^ 32) :
    diff (pos p).m_value (pos q).m_value = p - q := by
  unfold diff pos
  dsimp only
  omega

theorem Inv.offset_eq (h : Inv stream init M s ds) {x : ℕ × ℕ} (hx : x ∈ ds) :
    s.offset init (packet stream init x).1 = x.1 := by
  have h1 := h.bounds x hx
  have h2 := h.tidy.2 x hx
  have hM := h.limit
  unfold offset packet
  rw [diff_pos (by omega) (by omega)]
  omega

/-- Nothing is available when there are no packets. -/
theorem Inv.received_of_nil (h : Inv stream init M s []) : s.received = s.extracted.length := by
  by_contra hne
  have hle : s.extracted.length ≤ s.received := Nat.le_add_right _ _
  exact Intervals.covers_nil _ (h.covered s.extracted.length le_rfl (by omega))

/-- The first packet begins at the next byte to extract when bytes are available. -/
theorem Inv.head_eq {x : ℕ × ℕ} (h : Inv stream init M s (x :: ds)) :
    x.1 = s.extracted.length ∨ s.received = s.extracted.length := by
  by_cases hav : s.buffer.m_availBytes = 0
  · right
    unfold received
    omega
  · left
    have hx := h.bounds x List.mem_cons_self
    obtain ⟨-, hlt, -⟩ := Intervals.tidy_cons.mp h.tidy
    rcases Intervals.covers_cons.mp (h.covered s.extracted.length le_rfl
      (by unfold received; omega)) with hc | ⟨y, hy, hc⟩
    · omega
    · have := hlt y hy
      have := h.tidy.2 x List.mem_cons_self
      omega

variable {a t : ℕ}

/-- The receive limit lies less than `2 ^ 31` behind the end of the segment. -/
theorem Inv.near {x : ℕ × ℕ} (h : Inv stream init M s (x :: ds))
    (hn : s.Near stream init (.add a t)) : x.1 + M < t + 2 ^ 31 := by
  have := hn (packet stream init x) (by rw [h.data]; rfl)
  rwa [h.offset_eq List.mem_cons_self, h.maxBuffer] at this

theorem Inv.trimToWindow (h : Inv stream init M s ds) (hl : s.Legal stream (.add a t))
    (hn : s.Near stream init (.add a t)) :
    s.buffer.trimToWindow (pos (init + a)) (pos (init + t)) =
      (pos (init + cutHead M t (max a (s.received + s.fin stream)) ds),
        pos (init + cutTail M t ds)) := by
  obtain ⟨h1, h2, h3, h4⟩ := hl
  obtain ⟨hr, -⟩ := h.received_le
  have hM := h.limit
  have hr' : s.extracted.length ≤ s.received := Nat.le_add_right _ _
  have hfin : s.fin stream ≤ 1 := fin_le s
  unfold TcpRxBuffer.trimToWindow
  rw [h.next, Nat.add_assoc, ite_lt_pos_max (by omega) (by omega),
    show max (init + a) (init + (s.received + s.fin stream)) =
      init + max a (s.received + s.fin stream) by omega]
  rw [h.data]
  cases ds with
  | nil => rfl
  | cons x ds =>
    have hx := h.bounds x List.mem_cons_self
    have hx' := h.tidy.2 x List.mem_cons_self
    have hnear := h.near hn
    have hhead := h.head_eq
    rw [List.map_cons]
    dsimp only [packet, cutHead, cutTail]
    rw [h.maxBuffer, pos_add, Nat.add_assoc, ite_lt_pos_min (by omega) (by omega),
      show min (init + (x.1 + M)) (init + t) = init + min t (x.1 + M) by omega,
      ite_lt_pos_min (by omega) (by omega),
      show min (init + min t (x.1 + M)) (init + max a (s.received + s.fin stream)) =
        init + min (max a (s.received + s.fin stream)) (min t (x.1 + M)) by omega]

/-- What is left of the intervals and of the segment. -/
def overlap (stream : List UInt8) (M : ℕ) (s : RxSession) (ds : List (ℕ × ℕ)) (a t : ℕ) :
    Intervals.Trimmed :=
  Intervals.trim ds (cutHead M t (max a (s.received + s.fin stream)) ds) (cutTail M t ds)

theorem Inv.removeOverlap (h : Inv stream init M s ds) (hl : s.Legal stream (.add a t))
    (hn : s.Near stream init (.add a t)) :
    TcpRxBuffer.removeOverlap s.buffer.m_data
        (pos (init + cutHead M t (max a (s.received + s.fin stream)) ds))
        (pos (init + cutTail M t ds)) =
      ⟨(overlap stream M s ds a t).kept.map (packet stream init),
        pos (init + (overlap stream M s ds a t).head),
        pos (init + (overlap stream M s ds a t).tail), (overlap stream M s ds a t).dropped⟩ ∧
    (pos (init + (overlap stream M s ds a t).head)).ge
        (pos (init + (overlap stream M s ds a t).tail)) =
      decide ((overlap stream M s ds a t).head ≥ (overlap stream M s ds a t).tail) := by
  obtain ⟨h1, h2, h3, h4⟩ := hl
  obtain ⟨hr, -⟩ := h.received_le
  have hM := h.limit
  have hr' : s.extracted.length ≤ s.received := Nat.le_add_right _ _
  have hfin : s.fin stream ≤ 1 := fin_le s
  unfold overlap
  rw [h.data]
  cases ds with
  | nil =>
    refine ⟨rfl, ?_⟩
    apply ge_near
    · dsimp only [Intervals.trim, cutHead, cutTail]
      omega
    · dsimp only [Intervals.trim, cutHead, cutTail]
      omega
  | cons x ds =>
    have hx := h.bounds x List.mem_cons_self
    have hx' := h.tidy.2 x List.mem_cons_self
    have hnear := h.near hn
    have hhead := h.head_eq
    generalize hh : cutHead M t (max a (s.received + s.fin stream)) (x :: ds) = head
    generalize ht : cutTail M t (x :: ds) = tail
    dsimp only [cutHead, cutTail] at hh ht
    by_cases hlt : tail < x.1
    · -- the segment ends before the first packet
      have htrim : Intervals.trim (x :: ds) head tail = ⟨x :: ds, head, tail, 0⟩ :=
        if_neg (by omega)
      rw [htrim, List.map_cons]
      constructor
      · unfold TcpRxBuffer.removeOverlap
        rw [packet, if_neg]
        rw [pos_le_iff (by omega) (by omega)]
        omega
      · apply ge_near
        · dsimp only
          omega
        · dsimp only
          omega
    · have hends := Intervals.trim_ends h.tidy head tail
      have hbounds := @Intervals.trim_bounds (x :: ds) s.extracted.length
        (s.extracted.length + 2 ^ 31 - 1) (fun y hy => by have := h.bounds y hy; omega) head tail
        (by omega) (by omega)
      refine ⟨removeOverlap_map h.within (by omega) (by omega) (by omega) (by omega), ?_⟩
      apply ge_near
      · omega
      · omega

/-- What is stored begins behind the next byte and ends near the extracted bytes. -/
theorem Inv.overlap_bounds (h : Inv stream init M s ds) (hl : s.Legal stream (.add a t))
    (hlt : cutHead M t (max a (s.received + s.fin stream)) ds < cutTail M t ds) :
    s.fin stream = 0 ∧ s.received ≤ cutHead M t (max a (s.received + s.fin stream)) ds ∧
      a ≤ cutHead M t (max a (s.received + s.fin stream)) ds ∧ cutTail M t ds ≤ t ∧
      cutTail M t ds ≤ s.extracted.length + max M (2 ^ 30) := by
  obtain ⟨h1, h2, h3, h4⟩ := hl
  have hfin : s.fin stream = 0 ∨ s.fin stream = 1 ∧ s.received = stream.length := by
    unfold fin
    split
    · next hf => exact Or.inr ⟨rfl, hf.2⟩
    · exact Or.inl rfl
  cases ds with
  | nil =>
    have := h.received_of_nil
    dsimp only [cutHead, cutTail] at hlt ⊢
    omega
  | cons x ds =>
    have hx := h.bounds x List.mem_cons_self
    have hhead := h.head_eq
    dsimp only [cutHead, cutTail] at hlt ⊢
    omega

/-! ## Add: the bytes are there already -/

/-- The bytes the buffer holds, near the extracted ones. -/
theorem holds_iff {b : TcpRxBuffer} {lo : ℕ} (hd : b.m_data = ds.map (packet stream init))
    (hw : Within stream lo ds) {k : ℕ} (hk : lo ≤ k + 2 ^ 31) (hk' : k < lo + 2 ^ 32) :
    b.Holds init k ↔ Intervals.Covers ds k := by
  unfold TcpRxBuffer.Holds Intervals.Covers
  rw [hd]
  constructor
  · rintro ⟨i, hi, j, hj, heq⟩
    obtain ⟨x, hx, rfl⟩ := List.mem_map.mp hi
    obtain ⟨h1, h2, h3, h4⟩ := hw x hx
    have hlen : (packet stream init x).2.length = x.2 - x.1 := length_segment h3
    rw [packet, pos_add, pos_eq_iff (by omega) (by omega)] at heq
    exact ⟨x, hx, by omega⟩
  · rintro ⟨x, hx, h⟩
    obtain ⟨h1, h2, h3, h4⟩ := hw x hx
    have hlen : (packet stream init x).2.length = x.2 - x.1 := length_segment h3
    refine ⟨_, List.mem_map_of_mem hx, k - x.1, by omega, ?_⟩
    rw [packet, pos_add, show init + x.1 + (k - x.1) = init + k by omega]

theorem Inv.received_near (h : Inv stream init M s ds) (hl : s.Legal stream (.add a t)) {k : ℕ}
    (hk : a ≤ k) (hk' : k < t) :
    s.extracted.length ≤ k + 2 ^ 31 ∧ k < s.extracted.length + 2 ^ 32 := by
  obtain ⟨h1, h2, h3, h4⟩ := hl
  obtain ⟨hr, -⟩ := h.received_le
  have hM := h.limit
  have hr' : s.extracted.length ≤ s.received := Nat.le_add_right _ _
  omega

/-- Packets with the same bytes. -/
theorem Inv.keep (h : Inv stream init M s ds) (hl : s.Legal stream (.add a t))
    {es : List (ℕ × ℕ)} (hs : es.Sublist ds)
    (hc : ∀ k, Intervals.Covers es k ↔ Intervals.Covers ds k) {b : TcpRxBuffer}
    (hb : b = { s.buffer with
      m_data := es.map (packet stream init)
      m_size := Intervals.total es }) :
    Inv stream init M
      ⟨b, s.extracted, fun k => s.accepted k ∨ a ≤ k ∧ k < t ∧ b.Holds init k⟩ es := by
  have hdata : b.m_data = es.map (packet stream init) := by rw [hb]
  have havail : b.m_availBytes = s.buffer.m_availBytes := by rw [hb]
  have hgot : b.m_gotFin = s.buffer.m_gotFin := by rw [hb]
  have hreceived : received ⟨b, s.extracted, fun k => s.accepted k ∨ a ≤ k ∧ k < t ∧
      b.Holds init k⟩ = s.received := congrArg (s.extracted.length + ·) havail
  have hfin : fin stream ⟨b, s.extracted, fun k => s.accepted k ∨ a ≤ k ∧ k < t ∧
      b.Holds init k⟩ = s.fin stream := by
    unfold fin
    rw [hreceived, hgot]
  constructor
  case data => exact hdata
  case tidy => exact h.tidy.sublist hs
  case bounds => exact fun x hx => h.bounds x (hs.subset hx)
  case in_stream => exact fun x hx => h.in_stream x (hs.subset hx)
  case prefix_ => exact h.prefix_
  case covered =>
    intro k hk hk'
    rw [hreceived] at hk'
    exact (hc k).mpr (h.covered k hk hk')
  case gap =>
    rw [hreceived, hc]
    exact h.gap
  case next =>
    rw [hreceived, hfin, ← h.next, hb]
  case finSeq =>
    rw [hreceived]
    rw [hb]
    exact h.finSeq
  case size => rw [hb]
  case accepted =>
    intro k
    dsimp only
    rw [h.accepted k, hc]
    constructor
    · rintro (hk | ⟨hk, hk', hh⟩)
      · exact hk
      · obtain ⟨h1, h2⟩ := h.received_near hl hk hk'
        exact Or.inr ((hc k).mp ((holds_iff hdata (fun x hx => h.within x (hs.subset hx)) h1
          h2).mp hh))
    · exact Or.inl
  case maxBuffer => rw [← h.maxBuffer, hb]
  case limit => exact h.limit
  case sack =>
    rw [hreceived, hb]
    exact h.sack.mono fun k => (hc k).mpr

/-! ## Add: new bytes -/

/-- The interval `y` joins the intervals `es`. -/
structure Joins (M : ℕ) (s : RxSession) (stream : List UInt8) (ds es : List (ℕ × ℕ)) (y : ℕ × ℕ)
    (a t : ℕ) : Prop where
  fin_eq : s.fin stream = 0
  sublist : es.Sublist ds
  lt : y.1 < y.2
  disjoint : ∀ x ∈ es, x.2 ≤ y.1 ∨ y.2 ≤ x.1
  received_le : s.received ≤ y.1
  le_tail : y.2 ≤ t
  head_le : a ≤ y.1
  le_bound : y.2 ≤ s.extracted.length + max M (2 ^ 30)
  mono : ∀ k, Intervals.Covers ds k → Intervals.Covers (Intervals.insert y es) k
  new : ∀ k, Intervals.Covers (Intervals.insert y es) k → Intervals.Covers ds k ∨ a ≤ k ∧ k < t

theorem Inv.joins (h : Inv stream init M s ds) (hl : s.Legal stream (.add a t))
    (hlt : (overlap stream M s ds a t).head < (overlap stream M s ds a t).tail) :
    Joins M s stream ds (overlap stream M s ds a t).kept
      ((overlap stream M s ds a t).head, (overlap stream M s ds a t).tail) a t := by
  have hends := Intervals.trim_ends h.tidy (cutHead M t (max a (s.received + s.fin stream)) ds)
    (cutTail M t ds)
  unfold overlap at hlt ⊢
  obtain ⟨hf, h1, h2, h3, h4⟩ := h.overlap_bounds hl (by omega)
  have hspec := Intervals.trim_spec h.tidy (by omega : cutHead M t (max a (s.received +
    s.fin stream)) ds < cutTail M t ds)
  generalize Intervals.trim ds (cutHead M t (max a (s.received + s.fin stream)) ds)
    (cutTail M t ds) = r at hlt hends hspec ⊢
  exact {
    fin_eq := hf
    sublist := hspec.sublist
    lt := hlt
    disjoint := hspec.disjoint hlt
    received_le := by dsimp only; omega
    le_tail := by dsimp only; omega
    head_le := by dsimp only; omega
    le_bound := by dsimp only; omega
    mono := fun k hk => Intervals.covers_insert.mpr ((hspec.covers k).mpr (Or.inl hk))
    new := fun k hk => by
      rcases (hspec.covers k).mp (Intervals.covers_insert.mp hk) with hc | hc
      · exact Or.inl hc
      · exact Or.inr (by omega) }

variable {es : List (ℕ × ℕ)} {y : ℕ × ℕ}

theorem Joins.tidy (j : Joins M s stream ds es y a t) (h : Inv stream init M s ds) :
    Intervals.Tidy (Intervals.insert y es) :=
  Intervals.tidy_insert (h.tidy.sublist j.sublist) j.lt j.disjoint

theorem Joins.bounds (j : Joins M s stream ds es y a t) (h : Inv stream init M s ds)
    (hl : s.Legal stream (.add a t)) : ∀ x ∈ Intervals.insert y es,
      (s.extracted.length ≤ x.1 ∧ x.2 ≤ s.extracted.length + max M (2 ^ 30)) ∧
        x.2 ≤ stream.length := by
  intro x hx
  have hr' : s.extracted.length ≤ s.received := Nat.le_add_right _ _
  rcases List.mem_cons.mp ((Intervals.perm_insert y es).mem_iff.mp hx) with rfl | hx
  · have h1 := j.received_le
    have h2 := j.le_bound
    have h3 := j.le_tail
    have h4 := hl.2.1
    omega
  · exact ⟨h.bounds x (j.sublist.subset hx), h.in_stream x (j.sublist.subset hx)⟩

theorem Joins.within (j : Joins M s stream ds es y a t) (h : Inv stream init M s ds)
    (hl : s.Legal stream (.add a t)) :
    Within stream s.extracted.length (Intervals.insert y es) := by
  intro x hx
  have h1 := j.bounds h hl x hx
  have h2 := (j.tidy h).2 x hx
  have hM := h.limit
  omega

theorem Joins.splits (j : Joins M s stream ds es y a t) (h : Inv stream init M s ds) :
    Intervals.Splits (Intervals.insert y es) s.received := by
  intro x hx hlt
  rcases List.mem_cons.mp ((Intervals.perm_insert y es).mem_iff.mp hx) with rfl | hx
  · exact absurd hlt (not_lt.mpr j.received_le)
  · exact h.splits x (j.sublist.subset hx) hlt

/-- The new next byte. -/
theorem Joins.advance_le (j : Joins M s stream ds es y a t) (h : Inv stream init M s ds)
    (hl : s.Legal stream (.add a t)) :
    Intervals.advance (Intervals.insert y es) s.received ≤ s.extracted.length + max M (2 ^ 30) ∧
      Intervals.advance (Intervals.insert y es) s.received ≤ stream.length := by
  obtain ⟨hle, hcov, -, -⟩ := Intervals.advance_spec (j.tidy h) (j.splits h)
  rcases Nat.eq_or_lt_of_le hle with heq | hlt
  · rw [← heq]
    exact h.received_le
  · obtain ⟨x, hx, hk⟩ := hcov (Intervals.advance (Intervals.insert y es) s.received - 1)
      (by omega) (by omega)
    have := j.bounds h hl x hx
    omega

/-- The SACK list after the new packet. -/
theorem Joins.sack (j : Joins M s stream ds es y a t) (h : Inv stream init M s ds)
    (hl : s.Legal stream (.add a t)) :
    ∃ blocks, (if (pos (init + y.1)).gt s.buffer.m_nextRxSeq then
        TcpRxBuffer.updateSackList s.buffer.m_nextRxSeq (pos (init + y.1)) (pos (init + y.2))
          s.buffer.m_sackList
      else some s.buffer.m_sackList) = some blocks ∧
      Reports init (Intervals.insert y es) s.received blocks := by
  have hr' : s.extracted.length ≤ s.received := Nat.le_add_right _ _
  have h1 := j.received_le
  have h2 := j.le_bound
  have h3 := j.lt
  have hM := h.limit
  have hold := h.sack.mono j.mono
  rw [h.next, j.fin_eq, Nat.add_zero]
  by_cases hgt : s.received < y.1
  · rw [if_pos ((pos_gt_iff (by omega) (by omega)).mpr (by omega))]
    exact updateSackList_spec (j.within h hl) hr' hgt j.lt
      (fun k hk hk' => Intervals.covers_insert.mpr (Or.inr ⟨hk, hk'⟩)) hold
  · rw [if_neg (mt (pos_gt_iff (by omega) (by omega)).mp (by omega))]
    exact ⟨_, rfl, hold⟩

/-- What `store` computes. -/
theorem Joins.store_eq (j : Joins M s stream ds es y a t) (h : Inv stream init M s ds)
    (hl : s.Legal stream (.add a t)) {b : TcpRxBuffer}
    (hb : b = { s.buffer with
      m_data := es.map (packet stream init)
      m_size := Intervals.total es }) :
    ∃ blocks, b.store (pos (init + y.1)) (pos (init + y.2)) (segment stream y.1 y.2) =
        some { s.buffer with
          m_data := (Intervals.insert y es).map (packet stream init)
          m_size := Intervals.total (Intervals.insert y es)
          m_nextRxSeq := pos (init + Intervals.advance (Intervals.insert y es) s.received +
            if s.buffer.m_gotFin ∧
              Intervals.advance (Intervals.insert y es) s.received = stream.length then 1 else 0)
          m_availBytes := Intervals.advance (Intervals.insert y es) s.received - s.extracted.length
          m_sackList := blocks } ∧
      Reports init (Intervals.insert y es)
        (Intervals.advance (Intervals.insert y es) s.received) blocks := by
  have hr' : s.extracted.length ≤ s.received := Nat.le_add_right _ _
  obtain ⟨hr, -⟩ := h.received_le
  obtain ⟨hadv, hadv'⟩ := j.advance_le h hl
  have hge := Intervals.le_advance (j.tidy h).2 s.received
  have h1 := j.received_le
  have h2 := j.le_bound
  have h3 := j.lt
  have hM := h.limit
  have h4 : y.2 ≤ stream.length := j.le_tail.trans hl.2.1
  obtain ⟨blocks, hsack, hrep⟩ := j.sack h hl
  have havail : s.buffer.m_availBytes = s.received - s.extracted.length := by
    unfold received
    omega
  obtain ⟨blocks', hnext, hrep'⟩ := updateNext_map (j.within h hl) (j.within h hl) hr' (by omega)
    (by rw [havail]; omega : s.buffer.m_availBytes +
      (Intervals.advance (Intervals.insert y es) s.received - s.received) < 2 ^ 32) hrep
  have hwithin : Within stream s.extracted.length es :=
    fun x hx => h.within x (j.sublist.subset hx)
  have hassign := @assignData_map stream init _ es hwithin y (by omega) (by omega) (by
    intro x hx heq
    have := j.disjoint x hx
    have := h.tidy.2 x (j.sublist.subset hx)
    omega)
  have hsize := Intervals.total_le (j.tidy h) (by omega) fun x hx => (j.bounds h hl x hx).1
  have hlen : (segment stream y.1 y.2).length = y.2 - y.1 := length_segment h4
  have htotal : Intervals.total es + (y.2 - y.1) = Intervals.total (Intervals.insert y es) := by
    rw [Intervals.total_insert, Nat.add_comm]
  have hn0 : pos (init + s.received) = s.buffer.m_nextRxSeq := by
    rw [h.next, j.fin_eq, Nat.add_zero]
  refine ⟨blocks', ?_, hrep'⟩
  subst hb
  unfold TcpRxBuffer.store
  dsimp only
  rw [hassign, hsack]
  dsimp only [Option.bind_eq_bind, Option.bind_some]
  rw [← hn0, hnext]
  dsimp only [Option.bind_eq_bind, Option.bind_some, Option.pure_def]
  rw [hlen, htotal, Nat.mod_eq_of_lt (by omega)]
  have hfin : (s.buffer.m_gotFin = true ∧
      pos (init + Intervals.advance (Intervals.insert y es) s.received) = s.buffer.m_finSeq) ↔
      s.buffer.m_gotFin = true ∧
        Intervals.advance (Intervals.insert y es) s.received = stream.length := by
    apply and_congr_right
    intro hg
    obtain ⟨hf, hnear⟩ := h.finSeq hg
    rw [hf, pos_eq_iff (by omega) (by omega)]
    omega
  congr 2
  · by_cases hc : s.buffer.m_gotFin = true ∧
        Intervals.advance (Intervals.insert y es) s.received = stream.length
    · rw [if_pos (hfin.mpr hc), if_pos hc, pos_succ]
    · rw [if_neg (mt hfin.mp hc), if_neg hc, Nat.add_zero]
  · omega

theorem Inv.store (h : Inv stream init M s ds) (hl : s.Legal stream (.add a t))
    (j : Joins M s stream ds es y a t) {b : TcpRxBuffer}
    (hb : b = { s.buffer with
      m_data := es.map (packet stream init)
      m_size := Intervals.total es }) :
    ∃ b', b.store (pos (init + y.1)) (pos (init + y.2)) (segment stream y.1 y.2) = some b' ∧
      Inv stream init M
        ⟨b', s.extracted, fun k => s.accepted k ∨ a ≤ k ∧ k < t ∧ b'.Holds init k⟩
        (Intervals.insert y es) := by
  obtain ⟨blocks, hstore, hrep⟩ := j.store_eq h hl hb
  obtain ⟨hadv, hadv'⟩ := j.advance_le h hl
  have hr' : s.extracted.length ≤ s.received := Nat.le_add_right _ _
  obtain ⟨hge, hcov, hgap, -⟩ := Intervals.advance_spec (j.tidy h) (j.splits h)
  refine ⟨_, hstore, ?_⟩
  generalize hadvance : Intervals.advance (Intervals.insert y es) s.received = adv at *
  generalize hb' : ({ s.buffer with
    m_data := (Intervals.insert y es).map (packet stream init)
    m_size := Intervals.total (Intervals.insert y es)
    m_nextRxSeq := pos (init + adv + if s.buffer.m_gotFin ∧ adv = stream.length then 1 else 0)
    m_availBytes := adv - s.extracted.length
    m_sackList := blocks } : TcpRxBuffer) = b'
  have hdata : b'.m_data = (Intervals.insert y es).map (packet stream init) := by rw [← hb']
  have hgot : b'.m_gotFin = s.buffer.m_gotFin := by rw [← hb']
  have havail : b'.m_availBytes = adv - s.extracted.length := by rw [← hb']
  have hreceived : received ⟨b', s.extracted, fun k => s.accepted k ∨ a ≤ k ∧ k < t ∧
      b'.Holds init k⟩ = adv := by
    unfold received
    dsimp only
    rw [havail]
    omega
  constructor
  case data => exact hdata
  case tidy => exact j.tidy h
  case bounds => exact fun x hx => (j.bounds h hl x hx).1
  case in_stream => exact fun x hx => (j.bounds h hl x hx).2
  case prefix_ => exact h.prefix_
  case covered =>
    intro k hk hk'
    rw [hreceived] at hk'
    by_cases hlt : k < s.received
    · exact j.mono k (h.covered k hk hlt)
    · exact hcov k (by omega) hk'
  case gap =>
    rw [hreceived]
    exact hgap
  case next =>
    unfold fin
    rw [hreceived, ← hb']
  case finSeq =>
    intro hg
    obtain ⟨h1, h2⟩ := h.finSeq (hgot ▸ hg)
    rw [hreceived]
    refine ⟨?_, by omega⟩
    rw [← h1, ← hb']
  case size => rw [← hb']
  case accepted =>
    intro k
    dsimp only
    rw [h.accepted k]
    constructor
    · rintro ((hk | hk) | ⟨hk, hk', hh⟩)
      · exact Or.inl hk
      · exact Or.inr (j.mono k hk)
      · obtain ⟨h1, h2⟩ := h.received_near hl hk hk'
        exact Or.inr ((holds_iff hdata (j.within h hl) h1 h2).mp hh)
    · rintro (hk | hk)
      · exact Or.inl (Or.inl hk)
      · rcases j.new k hk with hc | ⟨h1, h2⟩
        · exact Or.inl (Or.inr hc)
        · obtain ⟨h3, h4⟩ := h.received_near hl h1 h2
          exact Or.inr ⟨h1, h2, (holds_iff hdata (j.within h hl) h3 h4).mpr hk⟩
  case maxBuffer => rw [← h.maxBuffer, ← hb']
  case limit => exact h.limit
  case sack =>
    rw [hreceived, ← hb']
    exact hrep

/-- The intervals after `Add`. -/
def added (stream : List UInt8) (M : ℕ) (s : RxSession) (ds : List (ℕ × ℕ)) (a t : ℕ) :
    List (ℕ × ℕ) :=
  let r := overlap stream M s ds a t
  if r.tail ≤ r.head then r.kept else Intervals.insert (r.head, r.tail) r.kept

/-- What a segment does: nothing is left of it, or the packet that is left is stored. -/
theorem Inv.step_add (h : Inv stream init M s ds) (hl : s.Legal stream (.add a t))
    (hn : s.Near stream init (.add a t)) {b : TcpRxBuffer}
    (hb : b = { s.buffer with
      m_data := (overlap stream M s ds a t).kept.map (packet stream init)
      m_size := Intervals.total (overlap stream M s ds a t).kept }) :
    s.step stream init (.add a t) =
      (if (overlap stream M s ds a t).tail ≤ (overlap stream M s ds a t).head then some b
      else b.store (pos (init + (overlap stream M s ds a t).head))
        (pos (init + (overlap stream M s ds a t).tail))
        (segment stream (overlap stream M s ds a t).head (overlap stream M s ds a t).tail)).map
        fun b' => ⟨b', s.extracted, fun k => s.accepted k ∨ a ≤ k ∧ k < t ∧ b'.Holds init k⟩ := by
  have hlen : (segment stream a t).length = t - a := length_segment hl.2.1
  have htrim := h.trimToWindow hl hn
  obtain ⟨hloop, hge⟩ := h.removeOverlap hl hn
  have hdropped := Intervals.trim_dropped ds
    (cutHead M t (max a (s.received + s.fin stream)) ds) (cutTail M t ds)
  have hsize := h.size_le
  rw [← overlap] at hdropped
  unfold step TcpRxBuffer.add
  dsimp only
  rw [hlen, pos_add, Nat.add_assoc, Nat.add_sub_cancel' hl.1, htrim]
  dsimp only
  rw [hloop]
  dsimp only
  rw [hge, show diff s.buffer.m_size (overlap stream M s ds a t).dropped =
    Intervals.total (overlap stream M s ds a t).kept by
      rw [h.size] at hsize ⊢
      rw [diff_of_le (by omega) (by omega)]
      omega]
  subst hb
  by_cases hc : (overlap stream M s ds a t).tail ≤ (overlap stream M s ds a t).head
  · rw [if_pos (decide_eq_true hc), if_pos hc]
    rfl
  · rw [if_neg (by rwa [decide_eq_true_eq]), if_neg hc]
    have j := h.joins hl (not_le.mp hc)
    generalize overlap stream M s ds a t = r at hc j ⊢
    have h1 := j.received_le
    have h2 := j.le_bound
    have h3 := j.head_le
    have h4 := j.le_tail
    have h5 := hl.2.2.1
    have h6 := hl.2.2.2
    have hM := h.limit
    dsimp only at h1 h2 h3 h4
    rw [toUint32_sub_pos (by omega) (by omega), toUint32_sub_pos (by omega) (by omega),
      show init + r.head - (init + a) = r.head - a by omega,
      show init + r.tail - (init + r.head) = r.tail - r.head by omega,
      createFragment_segment h3 (by omega) h4 hl.2.1]
    dsimp only [Option.bind_eq_bind, Option.bind_some]
    rw [if_pos]
    · cases TcpRxBuffer.store _ (pos (init + r.head)) (pos (init + r.tail))
        (segment stream r.head r.tail) with
      | none => rfl
      | some b' => rfl
    · refine ⟨(length_segment (h4.trans hl.2.1)).symm, ?_⟩
      intro i hi
      obtain ⟨x, hx, rfl⟩ := List.mem_map.mp hi
      have hx' := h.within x (j.sublist.subset hx)
      have hdis := j.disjoint x hx
      have hr' : s.extracted.length ≤ s.received := Nat.le_add_right _ _
      rw [packet, ne_eq, eq_window hx'.1 (by omega) (by omega : s.extracted.length ≤ r.head)
        (by omega)]
      omega

theorem Inv.add (h : Inv stream init M s ds) (hl : s.Legal stream (.add a t))
    (hn : s.Near stream init (.add a t)) :
    ∃ s', s.step stream init (.add a t) = some s' ∧
      Inv stream init M s' (added stream M s ds a t) := by
  have hstep := h.step_add hl hn rfl
  unfold added
  by_cases hc : (overlap stream M s ds a t).tail ≤ (overlap stream M s ds a t).head
  · rw [if_pos hc] at hstep
    rw [if_pos hc]
    refine ⟨_, hstep, h.keep hl ?_ ?_ rfl⟩
    · exact Intervals.trim_sublist h.tidy _ _
    · exact Intervals.covers_trim h.tidy hc
  · rw [if_neg hc] at hstep
    rw [if_neg hc]
    obtain ⟨b', hstore, hinv⟩ := h.store hl (h.joins hl (not_le.mp hc)) rfl
    dsimp only at hstore
    rw [hstore] at hstep
    exact ⟨_, hstep, hinv⟩

/-! ## SetFinSequence -/

/-- The FIN is counted when it is the next byte and was not counted before. -/
theorem Inv.setFinSequence_eq (h : Inv stream init M s ds)
    (hn : s.Near stream init .setFinSequence) :
    s.buffer.setFinSequence (pos (init + stream.length)) = { s.buffer with
      m_gotFin := true
      m_finSeq := pos (init + stream.length)
      m_nextRxSeq := pos (init + s.received + if s.received = stream.length then 1 else 0) } := by
  obtain ⟨-, hle⟩ := h.received_le
  have hn : stream.length < s.received + 2 ^ 32 := hn
  have hnext := h.next
  unfold fin at hnext
  unfold TcpRxBuffer.setFinSequence
  dsimp only
  by_cases hr : s.received = stream.length
  · by_cases hg : s.buffer.m_gotFin = true
    · rw [if_pos ⟨hg, hr⟩] at hnext
      rw [hnext, if_neg, if_pos hr]
      rw [pos_eq_iff (by omega) (by omega)]
      omega
    · rw [if_neg (fun hc => hg hc.1), Nat.add_zero] at hnext
      rw [hnext, if_pos (by rw [hr]), if_pos hr, pos_succ]
  · rw [if_neg (fun hc => hr hc.2), Nat.add_zero] at hnext
    rw [hnext, if_neg, if_neg hr, Nat.add_zero]
    rw [pos_eq_iff (by omega) (by omega)]
    omega

theorem Inv.setFinSequence (h : Inv stream init M s ds)
    (hn : s.Near stream init .setFinSequence) :
    Inv stream init M
      { s with buffer := s.buffer.setFinSequence (pos (init + stream.length)) } ds := by
  rw [h.setFinSequence_eq hn]
  exact {
    data := h.data
    tidy := h.tidy
    bounds := h.bounds
    in_stream := h.in_stream
    prefix_ := h.prefix_
    covered := h.covered
    gap := h.gap
    next := by
      unfold fin received
      simp
    finSeq := fun _ => ⟨rfl, hn⟩
    size := h.size
    accepted := h.accepted
    maxBuffer := h.maxBuffer
    limit := h.limit
    sack := h.sack }

/-! ## Runs -/

theorem Inv.step (h : Inv stream init M s ds) {c : RxCall}
    (hl : s.Legal stream c) (hn : s.Near stream init c) :
    ∃ s' ds', s.step stream init c = some s' ∧ Inv stream init M s' ds' := by
  cases c with
  | add a t =>
    obtain ⟨s', hs, hi⟩ := h.add hl hn
    exact ⟨s', _, hs, hi⟩
  | setFinSequence => exact ⟨_, ds, rfl, h.setFinSequence hn⟩
  | extract n =>
    obtain ⟨s', hs, -, hi⟩ := h.extract n
    exact ⟨s', _, hs, hi⟩

theorem Run.inv (hM : 0 < M) (hM' : M + 1 < 2 ^ 31)
    (h : Run stream init M (fun s c => s.Near stream init c) s) :
    ∃ ds, Inv stream init M s ds := by
  induction h with
  | start => exact ⟨[], inv_start hM hM'⟩
  | step _ hl hn hstep ih =>
    obtain ⟨ds, hi⟩ := ih
    obtain ⟨s', ds', hs, hi'⟩ := hi.step hl hn
    rw [hs, Option.some.injEq] at hstep
    subst hstep
    exact ⟨ds', hi'⟩

/-- What the buffer of a session promises. -/
structure Reassembled (stream : List UInt8) (init : ℕ) (s : RxSession) : Prop where
  /-- The extracted bytes are a prefix of the stream. -/
  prefix_ : s.extracted <+: stream
  /-- With the available bytes they are the longest prefix that was accepted. -/
  longest : (∀ k < s.received, s.accepted k) ∧ ¬ s.accepted s.received
  /-- The next sequence number is behind this prefix, and behind the FIN once that is counted. -/
  next : s.buffer.m_nextRxSeq = pos (init + s.received +
    if s.buffer.m_gotFin ∧ s.received = stream.length then 1 else 0)
  /-- The packets hold disjoint parts of the stream at their sequence numbers. -/
  packets : ∃ ds : List (ℕ × ℕ), s.buffer.m_data = ds.map (packet stream init) ∧
    ds.Pairwise (fun x y => x.2 ≤ y.1) ∧
    ∀ x ∈ ds, s.extracted.length ≤ x.1 ∧ x.1 < x.2 ∧ x.2 ≤ stream.length
  size : s.buffer.m_size = (s.buffer.m_data.map fun i => i.2.length).sum

theorem Inv.reassembled (h : Inv stream init M s ds) : Reassembled stream init s where
  prefix_ := h.prefix_
  longest := by
    constructor
    · intro k hk
      rw [h.accepted]
      by_cases hlt : k < s.extracted.length
      · exact Or.inl hlt
      · exact Or.inr (h.covered k (by omega) hk)
    · rw [h.accepted]
      rintro (hlt | hc)
      · exact absurd hlt (not_lt.mpr (Nat.le_add_right _ _))
      · exact h.gap hc
  next := h.next
  packets := ⟨ds, h.data, h.tidy.1, fun x hx =>
    ⟨(h.bounds x hx).1, h.tidy.2 x hx, h.in_stream x hx⟩⟩
  size := by
    rw [h.size, h.data, List.map_map]
    unfold Intervals.total
    congr 1
    apply List.map_congr_left
    intro x hx
    exact (length_segment (h.in_stream x hx)).symm

/-- The buffer reassembles the stream, and no assertion fails on a further call. -/
theorem reassembles (stream : List UInt8) (init : ℕ) {M : ℕ} (hM : 0 < M)
    (hM' : M + 1 < 2 ^ 31) {s : RxSession}
    (h : Run stream init M (fun s c => s.Near stream init c) s) :
    Reassembled stream init s ∧
      ∀ c, s.Legal stream c → s.Near stream init c → (s.step stream init c).isSome := by
  obtain ⟨ds, hi⟩ := h.inv hM hM'
  refine ⟨hi.reassembled, ?_⟩
  intro c hl hn
  obtain ⟨s', ds', hs, -⟩ := hi.step hl hn
  rw [hs]
  rfl

/-- Two overlapping segments around the wrap of the sequence numbers, and the FIN. -/
theorem reassembles_wrap : ∃ s,
    Run [1, 2, 3, 4, 5] (2 ^ 32 - 2) 32768
      (fun s c => s.Near [1, 2, 3, 4, 5] (2 ^ 32 - 2) c) s ∧
    s.extracted = [1, 2, 3, 4] ∧ s.buffer.m_nextRxSeq = ⟨4⟩ ∧
    Reassembled [1, 2, 3, 4, 5] (2 ^ 32 - 2) s := by
  have h0 : Run [1, 2, 3, 4, 5] (2 ^ 32 - 2) 32768
      (fun s c => s.Near [1, 2, 3, 4, 5] (2 ^ 32 - 2) c) _ := Run.start
  have h1 := h0.add (h := 0) (t := 3) (r := true)
    (b := {
      m_nextRxSeq := ⟨1⟩
      m_size := 3
      m_availBytes := 3
      m_data := [(⟨2 ^ 32 - 2⟩, [1, 2, 3])] })
    (by decide) (by decide) (by decide)
  have h2 := h1.add (h := 1) (t := 5) (r := true)
    (b := {
      m_nextRxSeq := ⟨3⟩
      m_size := 5
      m_availBytes := 5
      m_data := [(⟨2 ^ 32 - 2⟩, [1, 2, 3]), (⟨1⟩, [4, 5])] })
    (by decide) (by decide) (by decide)
  have h3 := h2.step (c := .setFinSequence) trivial (by decide) rfl
  have h4 := h3.extract (n := 4) (p := [1, 2, 3, 4])
    (b := {
      m_nextRxSeq := ⟨4⟩
      m_gotFin := true
      m_finSeq := ⟨3⟩
      m_size := 1
      m_availBytes := 1
      m_data := [(⟨2⟩, [5])] })
    trivial (by decide)
  exact ⟨_, h4, rfl, rfl,
    (reassembles [1, 2, 3, 4, 5] (2 ^ 32 - 2) (by decide) (by decide) h4).1⟩

theorem segment_replicate {n h t : ℕ} (ht : h + t ≤ n) :
    segment (List.replicate n 0) h (h + t) = List.replicate t 0 := by
  unfold segment
  rw [List.drop_replicate, List.take_replicate]
  congr 1
  omega

theorem extracted_of_add {s' : RxSession} (h : s.step stream init (.add a t) = some s') :
    s'.extracted = s.extracted := by
  obtain ⟨r, -, hr⟩ := Option.bind_eq_some_iff.mp h
  rw [← Option.some.inj hr]

/-- A packet far behind the next byte ends an old segment at the receive limit. -/
theorem add_old {b : TcpRxBuffer} {p q : List UInt8} (hd : b.m_data = [(⟨2 ^ 31 - 10⟩, q)])
    (hn : b.m_nextRxSeq = ⟨2 ^ 30⟩) (hm : b.m_maxBuffer = 32768) (hp : p.length = 10)
    (hq : q.length = 10) : b.add ⟨0⟩ p = none := by
  have htrim : b.trimToWindow ⟨0⟩ ⟨10⟩ = (⟨2 ^ 30⟩, ⟨2 ^ 31 + 32758⟩) := by
    unfold TcpRxBuffer.trimToWindow
    rw [hd, hn, hm]
    simp [SequenceNumber32.add, lt, gt, diff, halfMaxValue]
  have hloop : TcpRxBuffer.removeOverlap [(⟨2 ^ 31 - 10⟩, q)] ⟨2 ^ 30⟩ ⟨2 ^ 31 + 32758⟩ =
      ⟨[], ⟨2 ^ 30⟩, ⟨2 ^ 31 + 32758⟩, 10⟩ := by
    simp [TcpRxBuffer.removeOverlap, hq, le, gt, lt, SequenceNumber32.add, diff, halfMaxValue]
  have hcreate : createFragment p (toUint32 (sub ⟨2 ^ 30⟩ ⟨0⟩))
      (toUint32 (sub ⟨2 ^ 31 + 32758⟩ ⟨2 ^ 30⟩)) = none := by
    unfold createFragment
    rw [hp]
    exact if_neg (by decide)
  unfold TcpRxBuffer.add
  rw [hp, show SequenceNumber32.add ⟨0⟩ ⟨10⟩ = ⟨10⟩ from rfl, htrim]
  dsimp only
  rw [hd, hloop]
  dsimp only
  rw [if_neg (by decide), hcreate]
  rfl

/-- A FIN `2 ^ 32` bytes ahead is counted before the first byte. -/
theorem fin_wraps : ∃ s, Run (List.replicate (2 ^ 32) 0) 0 32768 (fun _ _ => True) s ∧
    s.received = 9 ∧ ¬ s.accepted 0 := by
  have h0 : Run (List.replicate (2 ^ 32) 0) 0 32768 (fun _ _ => True) _ := Run.start
  have h1 := h0.step (c := .setFinSequence) trivial trivial rfl
  have hb : (start 0 32768).buffer.setFinSequence
      (pos (0 + (List.replicate (2 ^ 32) (0 : UInt8)).length)) =
      { m_nextRxSeq := ⟨1⟩, m_gotFin := true, m_finSeq := ⟨0⟩ } := by
    rw [List.length_replicate]
    decide
  rw [hb] at h1
  have h2 := h1.add (h := 0) (t := 10) (r := true)
    (b := {
      m_nextRxSeq := ⟨10⟩
      m_gotFin := true
      m_finSeq := ⟨0⟩
      m_size := 9
      m_availBytes := 9
      m_data := [(⟨1⟩, List.replicate 9 0)] })
    ⟨by decide, by rw [List.length_replicate]; decide, by decide, by decide⟩ trivial
    (by
      rw [segment_replicate (h := 0) (t := 10) (by decide)]
      decide)
  refine ⟨_, h2, rfl, ?_⟩
  rintro (hf | ⟨-, -, i, hi, j, hj, heq⟩)
  · exact hf
  · rw [List.mem_singleton.mp hi] at hj heq
    have hj' : j < 9 := hj
    have heq' : (1 + j) % 2 ^ 32 = 0 := congrArg SequenceNumber32.m_value heq
    omega

/-- After `2 ^ 30` bytes and a packet as far ahead as may be, an old segment fails an assertion. -/
theorem old_segment_fails (hlen : stream.length = 2 ^ 31) :
    ∃ s, Run stream 0 32768 (fun _ _ => True) s ∧ s.Legal stream (.add 0 10) ∧
      s.step stream 0 (.add 0 10) = none := by
  have i0 : Inv stream 0 32768 (start 0 32768) [] :=
    inv_start (by decide) (by decide)
  have l0 : (start 0 32768).Legal stream (.add 0 (2 ^ 30)) :=
    ⟨by decide, by rw [hlen]; decide, by decide, by decide⟩
  obtain ⟨s1, e1, i1⟩ := i0.add l0 (fun _ hi => by cases hi)
  have h1 : Run stream 0 32768 (fun _ _ => True) s1 := Run.start.step l0 trivial e1
  have d1 : added stream 32768 (start 0 32768) [] 0 (2 ^ 30) = [(0, 2 ^ 30)] := by
    simp [added, overlap, start, received, fin, cutHead, cutTail, Intervals.trim,
      Intervals.insert, TcpRxBuffer.create]
  rw [d1] at i1
  have hr1 : s1.extracted.length = 0 ∧ s1.received = 2 ^ 30 := by
    have := i1.bounds (0, 2 ^ 30) List.mem_cons_self
    have := i1.received_le
    have := i1.gap
    rw [Intervals.covers_cons] at this
    simp only [Intervals.covers_nil, or_false] at this
    omega
  obtain ⟨s2, e2, he2, i2⟩ := i1.extract (2 ^ 30)
  have h2 : Run stream 0 32768 (fun _ _ => True) s2 :=
    h1.step (c := .extract (2 ^ 30)) trivial trivial e2
  have hav : s1.buffer.m_availBytes = 2 ^ 30 := by
    have := hr1.2
    unfold received at this
    omega
  rw [hr1.1, hav, Nat.zero_add, min_self] at he2
  rw [hr1.1, hav, Nat.zero_add, min_self, show Intervals.cut [(0, 2 ^ 30)] (2 ^ 30) = [] from
    if_pos le_rfl] at i2
  have hr2 : s2.received = 2 ^ 30 := i2.received_of_nil.trans he2
  have l2 : s2.Legal stream (.add (2 ^ 31 - 10) (2 ^ 31)) :=
    ⟨by decide, by rw [hlen], by rw [hr2]; decide, by rw [hr2]; decide⟩
  obtain ⟨s3, e3, i3⟩ := i2.add l2 (fun i hi => by
    rw [i2.data] at hi
    cases hi)
  have h3 : Run stream 0 32768 (fun _ _ => True) s3 := h2.step l2 trivial e3
  have d3 : added stream 32768 s2 [] (2 ^ 31 - 10) (2 ^ 31) = [(2 ^ 31 - 10, 2 ^ 31)] := by
    simp [added, overlap, hr2, fin, cutHead, cutTail, Intervals.trim, Intervals.insert, hlen]
  rw [d3] at i3
  have he3 : s3.extracted.length = 2 ^ 30 := by rw [extracted_of_add e3, he2]
  have hr3 : s3.received = 2 ^ 30 := by
    by_contra hne
    have hle : s3.extracted.length ≤ s3.received := Nat.le_add_right _ _
    have := i3.covered (2 ^ 30) (by omega) (by omega)
    rw [Intervals.covers_cons] at this
    simp only [Intervals.covers_nil, or_false] at this
    omega
  have hf3 : s3.fin stream = 0 := if_neg (fun hc => by omega)
  have l3 : s3.Legal stream (.add 0 10) :=
    ⟨by decide, by rw [hlen]; decide, by rw [hr3]; decide, by rw [hr3]; decide⟩
  refine ⟨s3, h3, l3, ?_⟩
  have hnone : s3.buffer.add (pos (0 + 0)) (segment stream 0 10) = none := by
    refine add_old (i3.data.trans (congrArg (fun k => [(k, _)]) ?_)) ?_ i3.maxBuffer ?_ ?_
    · decide
    · rw [i3.next, hr3, hf3]
      decide
    · exact length_segment (by rw [hlen]; decide)
    · exact length_segment (by rw [hlen])
  dsimp only [step]
  rw [hnone]
  rfl

/-! ## Receive limits that do not work -/

variable {b : TcpRxBuffer} {k e : SequenceNumber32} {p q : List UInt8} {n : ℕ}

/-- A packet behind all others that begins at the next byte. -/
theorem updateNext_last {data : List (SequenceNumber32 × List UInt8)}
    (h : ∀ i ∈ data, i.1.lt k = true) (v : ℕ) :
    TcpRxBuffer.updateNext (data ++ [(k, p)]) k v [] =
      some (k.add ⟨p.length⟩, (v + p.length) % 2 ^ 32, []) := by
  induction data with
  | nil => simp [TcpRxBuffer.updateNext, TcpRxBuffer.clearSackList, lt, gt_self]
  | cons i data ih =>
    obtain ⟨hi, hdata⟩ := List.forall_mem_cons.mp h
    rw [List.cons_append, TcpRxBuffer.updateNext, if_pos hi, ih hdata]

theorem assignData_last {data : List (SequenceNumber32 × List UInt8)}
    (h : ∀ i ∈ data, i.1.lt k = true ∧ k.lt i.1 = false) :
    TcpRxBuffer.assignData k p data = data ++ [(k, p)] := by
  induction data with
  | nil => rfl
  | cons i data ih =>
    obtain ⟨⟨hi, hk⟩, hdata⟩ := List.forall_mem_cons.mp h
    rw [TcpRxBuffer.assignData, hk, if_neg Bool.false_ne_true, if_pos hi, ih hdata,
      List.cons_append]

/-- A segment at the next byte behind all packets. -/
theorem add_last (htrim : b.trimToWindow k (k.add ⟨p.length⟩) = (k, e))
    (hloop : TcpRxBuffer.removeOverlap b.m_data k e = ⟨b.m_data, k, e, 0⟩)
    (hlt : k.ge e = false) (hlen : toUint32 (e.sub k) = p.length)
    (hold : ∀ i ∈ b.m_data, i.1.lt k = true ∧ k.lt i.1 = false) (hnext : b.m_nextRxSeq = k)
    (hsack : b.m_sackList = []) (hfin : b.m_gotFin = false) :
    b.add k p = some ({ b with
      m_nextRxSeq := k.add ⟨p.length⟩
      m_size := (diff b.m_size 0 + p.length) % 2 ^ 32
      m_availBytes := (b.m_availBytes + p.length) % 2 ^ 32
      m_data := b.m_data ++ [(k, p)] }, true) := by
  have hq : createFragment p 0 p.length = some p := by simp [createFragment]
  have hnew : ∀ i ∈ b.m_data, i.1 ≠ k := by
    intro i hi heq
    have := (hold i hi).1
    rw [heq, lt, bne_self_eq_false, Bool.and_false] at this
    cases this
  unfold TcpRxBuffer.add
  rw [htrim]
  dsimp only
  rw [hloop]
  dsimp only
  rw [hlt, if_neg Bool.false_ne_true, toUint32_sub_self, hlen, hq]
  dsimp only [Option.bind_eq_bind, Option.bind_some]
  rw [if_pos ⟨rfl, hnew⟩]
  unfold TcpRxBuffer.store
  dsimp only
  rw [hnext, gt_self, if_neg Bool.false_ne_true, assignData_last hold, hsack]
  dsimp only [Option.bind_eq_bind, Option.bind_some]
  rw [updateNext_last fun i hi => (hold i hi).1]
  dsimp only [Option.bind_some, Option.pure_def]
  rw [hfin, if_neg fun hc => Bool.false_ne_true hc.1]

/-- No byte is extracted once the next byte seems to be before the first packet. -/
theorem extract_none {i : SequenceNumber32 × List UInt8}
    {data : List (SequenceNumber32 × List UInt8)} (hd : b.m_data = i :: data)
    (hle : i.1.le b.m_nextRxSeq = false) (hav : 0 < b.m_availBytes) : b.extract 1 = none := by
  have hmin : min 1 b.m_availBytes = 0 + 1 := by omega
  unfold TcpRxBuffer.extract
  dsimp only
  rw [hmin, if_neg (Nat.succ_ne_zero 0), hd, TcpRxBuffer.extractLoop, hle,
    if_neg Bool.false_ne_true]
  rfl

/-- The buffer with the first `m` bytes. -/
def firstPacket (M m : ℕ) (stream : List UInt8) : TcpRxBuffer where
  m_nextRxSeq := pos m
  m_size := m
  m_maxBuffer := M
  m_availBytes := m
  m_data := [packet stream 0 (0, m)]

theorem add_firstPacket {m : ℕ} (hm : 0 < m) (hm' : m < 2 ^ 31) (hlen : m ≤ stream.length) :
    (start 0 M).buffer.add (pos 0) (segment stream 0 m) = some (firstPacket M m stream, true) := by
  have hp : (segment stream 0 m).length = m := length_segment hlen
  have htail : (pos 0).add ⟨m⟩ = pos m := by rw [pos_add, Nat.zero_add]
  have hge : (pos 0).ge (pos m) = false := by
    rw [← Bool.not_eq_true, pos_ge_iff (by omega) (by omega)]
    omega
  have hsize : (diff 0 0 + m) % 2 ^ 32 = m := by
    unfold diff
    omega
  have havail : (0 + m) % 2 ^ 32 = m := by omega
  rw [add_last (b := (start 0 M).buffer) (k := pos 0) (e := pos m) (by rw [hp, htail]; rfl) rfl hge
    (by rw [toUint32_sub_pos (Nat.zero_le m) (by omega), hp, Nat.sub_zero])
    (fun i hi => absurd hi List.not_mem_nil) rfl rfl rfl, hp, htail]
  dsimp only [start, TcpRxBuffer.create]
  rw [hsize, havail]
  rfl

/-- The bytes behind them are taken up to `n`, where the receive limit does not cut them. -/
theorem add_secondPacket {m : ℕ} (hm : 0 < m) (hn : m < n) (hm' : m < 2 ^ 31)
    (hn' : n < m + 2 ^ 31) (hlen : n ≤ stream.length) (hmax : (pos M).lt (pos n) = false) :
    (firstPacket M m stream).add (pos m) (segment stream m n) =
      some ({ firstPacket M m stream with
        m_nextRxSeq := pos n
        m_size := n
        m_availBytes := n
        m_data := [packet stream 0 (0, m), packet stream 0 (m, n)] }, true) := by
  have hp : (segment stream 0 m).length = m := length_segment (by omega)
  have hq : (segment stream m n).length = n - m := length_segment hlen
  have htail : (pos m).add ⟨n - m⟩ = pos n := by rw [pos_add, Nat.add_sub_cancel' hn.le]
  have hge : (pos m).ge (pos n) = false := by
    rw [← Bool.not_eq_true, pos_ge_iff (by omega) (by omega)]
    omega
  have hlt : (pos n).lt (pos m) = false := by
    rw [← Bool.not_eq_true, pos_lt_iff (by omega) (by omega)]
    omega
  have hself : (pos m).lt (pos m) = false := by
    rw [← Bool.not_eq_true, pos_lt_iff (by omega) (by omega)]
    omega
  have htrim : (firstPacket M m stream).trimToWindow (pos m) (pos n) = (pos m, pos n) := by
    simp only [TcpRxBuffer.trimToWindow, firstPacket, packet, pos_add, Nat.add_zero, Nat.zero_add,
      hself, hmax, hlt, Bool.false_eq_true, if_false]
  have hloop : TcpRxBuffer.removeOverlap [packet stream 0 (0, m)] (pos m) (pos n) =
      ⟨[packet stream 0 (0, m)], pos m, pos n, 0⟩ := by
    simp only [TcpRxBuffer.removeOverlap, packet, hp, pos_add, Nat.add_zero, Nat.zero_add, gt_self,
      Bool.false_eq_true, if_false, ite_self]
  have hold : ∀ i ∈ (firstPacket M m stream).m_data,
      i.1.lt (pos m) = true ∧ (pos m).lt i.1 = false := by
    intro i hi
    rw [show i.1 = pos 0 from congrArg Prod.fst (List.mem_singleton.mp hi)]
    refine ⟨(pos_lt_iff (by omega) (by omega)).mpr hm, ?_⟩
    rw [← Bool.not_eq_true, pos_lt_iff (by omega) (by omega)]
    exact Nat.not_lt_zero m
  have hsize : (diff (firstPacket M m stream).m_size 0 + (n - m)) % 2 ^ 32 = n := by
    unfold firstPacket diff
    dsimp only
    omega
  have havail : ((firstPacket M m stream).m_availBytes + (n - m)) % 2 ^ 32 = n := by
    unfold firstPacket
    dsimp only
    omega
  rw [add_last (b := firstPacket M m stream) (k := pos m) (e := pos n)
    (by rw [hq, htail, htrim]) hloop hge (by rw [toUint32_sub_pos hn.le (by omega), hq]) hold rfl
    rfl rfl, hq, htail]
  rw [hsize, havail]
  unfold firstPacket packet
  rw [Nat.zero_add, Nat.zero_add]
  rfl

/-- The bytes up to `n` arrive in two segments. -/
theorem two_segments {m : ℕ} (hm : 0 < m) (hn : m < n) (hm' : m ≤ 2 ^ 30) (hn' : n ≤ m + 2 ^ 30)
    (hlen : n ≤ stream.length) (hmax : (pos M).lt (pos n) = false) (hM : M < n + 2 ^ 31) :
    ∃ s, Run stream 0 M (fun s c => s.Near stream 0 c) s ∧ s.buffer = { firstPacket M m stream with
      m_nextRxSeq := pos n
      m_size := n
      m_availBytes := n
      m_data := [packet stream 0 (0, m), packet stream 0 (m, n)] } := by
  have h0 : Run stream 0 M (fun s c => s.Near stream 0 c) (start 0 M) := Run.start
  have h1 := h0.add (h := 0) (t := m)
    ⟨hm.le, by omega, Nat.zero_le _, hm'.trans (Nat.le_add_left _ _)⟩
    (fun i hi => by cases hi) (add_firstPacket hm (by omega) (by omega))
  have h2 := h1.add (h := m) (t := n)
    ⟨hn.le, hlen, by simp [received, start, firstPacket], by simpa [received, start, firstPacket]⟩
    (fun i hi => by
      cases hi
      simpa [offset, packet, start, firstPacket, diff] using hM)
    (by rw [Nat.zero_add]; exact add_secondPacket hm hn (by omega) (by omega) hlen hmax)
  exact ⟨_, h2, rfl⟩

/-- A receive buffer of no bytes takes `2 ^ 31` bytes, and one of `2 ^ 31 - 1` bytes as many and the
FIN. The first packet is not before the next byte then, and nothing can be extracted. -/
theorem extract_fails :
    (∃ s, Run (List.replicate (2 ^ 31) 0) 0 0
      (fun s c => s.Near (List.replicate (2 ^ 31) 0) 0 c) s ∧
      s.step (List.replicate (2 ^ 31) 0) 0 (.extract 1) = none) ∧
    ∃ s, Run (List.replicate (2 ^ 31 - 1) 0) 0 (2 ^ 31 - 1)
      (fun s c => s.Near (List.replicate (2 ^ 31 - 1) 0) 0 c) s ∧
      s.step (List.replicate (2 ^ 31 - 1) 0) 0 (.extract 1) = none := by
  constructor
  · obtain ⟨s, hs, hb⟩ := @two_segments (List.replicate (2 ^ 31) 0) 0 (2 ^ 31) (2 ^ 30) (by decide)
      (by decide) (by decide) (by decide) List.length_replicate.ge (by decide) (by decide)
    refine ⟨s, hs, ?_⟩
    dsimp only [step]
    rw [extract_none (b := s.buffer) (by rw [hb]) (by rw [hb]; decide)
      (by rw [hb]; decide)]
    rfl
  · obtain ⟨s, hs, hb⟩ := @two_segments (List.replicate (2 ^ 31 - 1) 0) (2 ^ 31 - 1) (2 ^ 31 - 1)
      (2 ^ 30) (by decide) (by decide) (by decide) (by decide) List.length_replicate.ge (by decide)
      (by decide)
    have hlen : (List.replicate (2 ^ 31 - 1) (0 : UInt8)).length = 2 ^ 31 - 1 :=
      List.length_replicate
    have hnear : s.Near (List.replicate (2 ^ 31 - 1) 0) 0 .setFinSequence := by
      dsimp only [Near]
      rw [hlen]
      omega
    refine ⟨_, hs.step (c := .setFinSequence) trivial hnear rfl, ?_⟩
    dsimp only [step]
    rw [hlen, hb, extract_none rfl (by decide) (by decide)]
    rfl

/-- A FIN `2 ^ 32` bytes ahead is counted before the first byte; an old segment fails an assertion
once there is a packet almost `2 ^ 31` bytes ahead of it; and so does the extraction of a byte with
a receive limit of no bytes or of `2 ^ 31 - 1` bytes. -/
theorem reassembly_wraps :
    (∃ s, Run (List.replicate (2 ^ 32) 0) 0 32768 (fun _ _ => True) s ∧
      s.received = 9 ∧ ¬ s.accepted 0 ∧ ¬ Reassembled (List.replicate (2 ^ 32) 0) 0 s) ∧
    (∃ s, Run (List.replicate (2 ^ 31) 0) 0 32768 (fun _ _ => True) s ∧
      s.Legal (List.replicate (2 ^ 31) 0) (.add 0 10) ∧
      s.step (List.replicate (2 ^ 31) 0) 0 (.add 0 10) = none) ∧
    (∃ s, Run (List.replicate (2 ^ 31) 0) 0 0
      (fun s c => s.Near (List.replicate (2 ^ 31) 0) 0 c) s ∧
      s.step (List.replicate (2 ^ 31) 0) 0 (.extract 1) = none) ∧
    ∃ s, Run (List.replicate (2 ^ 31 - 1) 0) 0 (2 ^ 31 - 1)
      (fun s c => s.Near (List.replicate (2 ^ 31 - 1) 0) 0 c) s ∧
      s.step (List.replicate (2 ^ 31 - 1) 0) 0 (.extract 1) = none := by
  obtain ⟨s, hs, hr, ha⟩ := fin_wraps
  refine ⟨⟨s, hs, hr, ha, fun h => ha (h.longest.1 0 ?_)⟩,
    old_segment_fails List.length_replicate, extract_fails⟩
  rw [hr]
  decide

end RxSession

end Ns3.Internet
