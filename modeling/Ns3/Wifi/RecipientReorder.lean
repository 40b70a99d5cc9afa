import Ns3.Wifi.Scoreboard

/-!
# The loops of the reordering buffer

Positions in an unbounded sequence stand behind the 12-bit numbers: `pos m` is that of the MPDU `m`.
An insertion keeps the buffer in the order of the positions, and each loop passes up the entries
before some position.
-/

namespace Ns3.Wifi

open RecipientBlockAckAgreement

variable {π : Type} {pos : WifiMacQueueItem π → ℤ}

/-! ## The buffered entries -/

/-- Entries with their numbers, in the order of the positions, from `b` up to `top`. -/
structure Ordered (pos : WifiMacQueueItem π → ℤ) (b top : ℤ) (es : List (ℕ × WifiMacQueueItem π)) :
    Prop where
  key : ∀ e ∈ es, IsSeq e.1 (pos e.2)
  within : ∀ e ∈ es, b ≤ pos e.2 ∧ pos e.2 < top
  sorted : es.Pairwise fun d e => pos d.2 < pos e.2

/-- The first entries `up` are passed up; they are before `c` and the entries that stay are not. -/
structure Passes (pos : WifiMacQueueItem π → ℤ) (c : ℤ) (es : List (ℕ × WifiMacQueueItem π))
    (up : List (WifiMacQueueItem π)) (rest : List (ℕ × WifiMacQueueItem π)) : Prop where
  split : ∃ pre, es = pre ++ rest ∧ up = pre.map Prod.snd
  before : ∀ m ∈ up, pos m < c
  after : ∀ e ∈ rest, c ≤ pos e.2

variable {b c c' top : ℤ} {w x : ℕ} {e : ℕ × WifiMacQueueItem π}
  {es mid rest : List (ℕ × WifiMacQueueItem π)} {up up' : List (WifiMacQueueItem π)}

theorem Ordered.tail (h : Ordered pos b top (e :: es))
    (hlt : ∀ d ∈ es, c ≤ pos d.2) : Ordered pos c top es where
  key := fun d hd => h.key d (List.mem_cons_of_mem e hd)
  within := fun d hd => ⟨hlt d hd, (h.within d (List.mem_cons_of_mem e hd)).2⟩
  sorted := (List.pairwise_cons.mp h.sorted).2

theorem Ordered.suffix (h : Ordered pos b top es) (hp : Passes pos c es up rest) :
    Ordered pos c top rest := by
  obtain ⟨pre, rfl, -⟩ := hp.split
  constructor
  · intro e he
    exact h.key e (List.mem_append_right pre he)
  · intro e he
    exact ⟨hp.after e he, (h.within e (List.mem_append_right pre he)).2⟩
  · exact (List.pairwise_append.mp h.sorted).2.1

theorem Passes.trans (h : Passes pos c es up mid) (h' : Passes pos c' mid up' rest) (hle : c ≤ c') :
    Passes pos c' es (up ++ up') rest := by
  obtain ⟨pre, rfl, rfl⟩ := h.split
  obtain ⟨pre', rfl, rfl⟩ := h'.split
  refine ⟨⟨pre ++ pre', ?_, ?_⟩, ?_, h'.after⟩
  · rw [List.append_assoc]
  · rw [List.map_append]
  · intro m hm
    rcases List.mem_append.mp hm with hm | hm
    · exact lt_of_lt_of_le (h.before m hm) hle
    · exact h'.before m hm

theorem assertNoOld_eq (hw : IsSeq w b) (h : Ordered pos b top es) (htop : top ≤ b + 2048) :
    assertNoOld w es = some () := by
  unfold assertNoOld
  split
  · rfl
  · next e hlast =>
    have he : e ∈ es := List.mem_of_getLast? hlast
    have hin := h.within e he
    rw [(h.key e he).getDistance_of_le hw hin.1 (by omega), Option.bind_eq_bind, Option.bind_some,
      guard, if_pos (by omega)]
    rfl

/-! ## The loops -/

/-- Passing up until the first gap moves the start to it. -/
theorem untilFirstLost_passes (hw : IsSeq w b) (h : Ordered pos b top es) (htop : top ≤ b + 4096) :
    ∃ up w' rest b', untilFirstLost w es = (up, w', rest) ∧ IsSeq w' b' ∧ b ≤ b' ∧
      (b' = b ∨ b' ≤ top) ∧ Passes pos b' es up rest ∧ ∀ e ∈ rest, pos e.2 ≠ b' := by
  induction es generalizing w b with
  | nil =>
    refine ⟨[], w, [], b, rfl, hw, le_rfl, Or.inl rfl, ⟨⟨[], rfl, rfl⟩, ?_, ?_⟩, ?_⟩ <;> simp
  | cons e es ih =>
    obtain ⟨hfirst, -⟩ := List.pairwise_cons.mp h.sorted
    have hin := h.within e List.mem_cons_self
    have heq := (h.key e List.mem_cons_self).eq_iff hw hin.1 (by omega)
    unfold untilFirstLost
    by_cases hnext : e.1 = w
    · have hb := heq.mp hnext
      have htail : Ordered pos (b + 1) top es := by
        refine h.tail ?_
        intro d hd
        have := hfirst d hd
        omega
      have hw' : IsSeq ((w + 1) % 4096) (b + 1) := by
        unfold IsSeq at *
        omega
      obtain ⟨up, w', rest, b', hrun, hw'', hle, htop', hp, hgap⟩ := ih hw' htail (by omega)
      refine ⟨e.2 :: up, w', rest, b', ?_, hw'', by omega, Or.inr (by omega), ?_, hgap⟩
      · rw [if_pos hnext, hrun]
      · obtain ⟨pre, rfl, rfl⟩ := hp.split
        refine ⟨⟨e :: pre, rfl, rfl⟩, ?_, hp.after⟩
        intro m hm
        rcases List.mem_cons.mp hm with rfl | hm
        · omega
        · exact hp.before m hm
    · have hb : pos e.2 ≠ b := fun h => hnext (heq.mpr h)
      refine ⟨[], w, e :: es, b, if_neg hnext, hw, le_rfl, Or.inl rfl, ⟨⟨[], rfl, rfl⟩, ?_, ?_⟩, ?_⟩
      · simp
      · exact fun d hd => (h.within d hd).1
      · intro d hd
        rcases List.mem_cons.mp hd with rfl | hd
        · exact hb
        · have := hfirst d hd
          omega

/-- Passing up the entries before the new start. -/
theorem seqNumberLessThan_passes (hw : IsSeq w b) (hx : IsSeq x c) (hle : b ≤ c)
    (hlt : c < b + 4096) (h : Ordered pos b top es) (htop : top ≤ b + 4096) :
    ∃ up rest, seqNumberLessThan w x es = some (up, rest) ∧ Passes pos c es up rest := by
  induction es with
  | nil =>
    refine ⟨[], [], rfl, ⟨[], rfl, rfl⟩, ?_, ?_⟩ <;> simp
  | cons e es ih =>
    obtain ⟨hfirst, -⟩ := List.pairwise_cons.mp h.sorted
    have hin := h.within e List.mem_cons_self
    unfold seqNumberLessThan
    rw [(h.key e List.mem_cons_self).getDistance_of_le hw hin.1 (by omega),
      hx.getDistance_of_le hw hle hlt]
    simp only [Option.bind_eq_bind, Option.bind_some]
    by_cases hlow : pos e.2 < c
    · have htail : Ordered pos b top es :=
        h.tail fun d hd => (h.within d (List.mem_cons_of_mem e hd)).1
      obtain ⟨up, rest, hrun, hp⟩ := ih htail
      refine ⟨e.2 :: up, rest, ?_, ?_⟩
      · rw [if_pos (by omega), hrun]
        rfl
      · obtain ⟨pre, rfl, rfl⟩ := hp.split
        refine ⟨⟨e :: pre, rfl, rfl⟩, ?_, hp.after⟩
        intro m hm
        rcases List.mem_cons.mp hm with rfl | hm
        · exact hlow
        · exact hp.before m hm
    · refine ⟨[], e :: es, if_neg (by omega), ⟨[], rfl, rfl⟩, ?_, ?_⟩
      · simp
      · intro d hd
        rcases List.mem_cons.mp hd with rfl | hd
        · exact not_lt.mp hlow
        · have := hfirst d hd
          omega

theorem mem_insertMpdu {m : WifiMacQueueItem π} (he : e ∈ insertMpdu w x m es) :
    e = (x, m) ∨ e ∈ es := by
  induction es with
  | nil => exact Or.inl (List.mem_singleton.mp he)
  | cons d es ih =>
    unfold insertMpdu at he
    split at he
    · rcases List.mem_cons.mp he with rfl | he
      · exact Or.inr List.mem_cons_self
      · rcases ih he with h | h
        · exact Or.inl h
        · exact Or.inr (List.mem_cons_of_mem d h)
    · split at he
      · rcases List.mem_cons.mp he with rfl | he
        · exact Or.inl rfl
        · exact Or.inr he
      · exact Or.inr he

/-- An inserted MPDU takes its place by its position. -/
theorem Ordered.insert {m : WifiMacQueueItem π} (hw : IsSeq w b) (h : Ordered pos b top es)
    (htop : top ≤ b + 4096) (hx : IsSeq x (pos m)) (hlo : b ≤ pos m) (hhi : pos m < top) :
    Ordered pos b top (insertMpdu w x m es) := by
  refine ⟨?_, ?_, ?_⟩
  · intro e he
    rcases mem_insertMpdu he with rfl | he
    · exact hx
    · exact h.key e he
  · intro e he
    rcases mem_insertMpdu he with rfl | he
    · exact ⟨hlo, hhi⟩
    · exact h.within e he
  · induction es with
    | nil => exact List.pairwise_singleton _ _
    | cons d es ih =>
      obtain ⟨hfirst, hes⟩ := List.pairwise_cons.mp h.sorted
      have hin := h.within d List.mem_cons_self
      have hd := h.key d List.mem_cons_self
      have hdx := hw.compare_iff hd hx hin.1 (by omega) hlo (by omega)
      have hxd := hw.compare_iff hx hd hlo (by omega) hin.1 (by omega)
      unfold insertMpdu
      split
      · next hlt =>
        have htail : Ordered pos b top es :=
          h.tail fun d' hd' => (h.within d' (List.mem_cons_of_mem d hd')).1
        refine List.pairwise_cons.mpr ⟨?_, ih htail⟩
        intro e he
        rcases mem_insertMpdu he with rfl | he
        · exact hdx.mp hlt
        · exact hfirst e he
      · split
        · next hlt =>
          have hmd := hxd.mp hlt
          refine List.pairwise_cons.mpr ⟨?_, h.sorted⟩
          intro e he
          rcases List.mem_cons.mp he with rfl | he
          · exact hmd
          · exact hmd.trans (hfirst e he)
        · exact h.sorted

/-- After an insertion the position of the MPDU is buffered. -/
theorem insertMpdu_covers {m : WifiMacQueueItem π} (hw : IsSeq w b) (h : Ordered pos b top es)
    (htop : top ≤ b + 4096) (hx : IsSeq x (pos m)) (hlo : b ≤ pos m) (hhi : pos m < top) :
    (∃ e ∈ insertMpdu w x m es, pos e.2 = pos m) ∧ ∀ e ∈ es, e ∈ insertMpdu w x m es := by
  induction es with
  | nil => exact ⟨⟨(x, m), List.mem_singleton_self _, rfl⟩, by simp⟩
  | cons d es ih =>
    have hin := h.within d List.mem_cons_self
    have hd := h.key d List.mem_cons_self
    have hdx := hw.compare_iff hd hx hin.1 (by omega) hlo (by omega)
    have hxd := hw.compare_iff hx hd hlo (by omega) hin.1 (by omega)
    unfold insertMpdu
    split
    · have htail : Ordered pos b top es :=
        h.tail fun d' hd' => (h.within d' (List.mem_cons_of_mem d hd')).1
      obtain ⟨⟨e, he, heq⟩, hall⟩ := ih htail
      refine ⟨⟨e, List.mem_cons_of_mem d he, heq⟩, ?_⟩
      intro e' he'
      rcases List.mem_cons.mp he' with rfl | he'
      · exact List.mem_cons_self
      · exact List.mem_cons_of_mem d (hall e' he')
    · next hnlt =>
      split
      · exact ⟨⟨(x, m), List.mem_cons_self, rfl⟩, fun e he => List.mem_cons_of_mem _ he⟩
      · next hngt =>
        rw [hdx] at hnlt
        rw [hxd] at hngt
        exact ⟨⟨d, List.mem_cons_self, by omega⟩, fun e he => he⟩

end Ns3.Wifi
