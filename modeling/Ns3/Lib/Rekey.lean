import Mathlib.Data.List.AList

/-!
# Moving the entries of a table to new keys

A table is drained through a list of moves `(source, target)`: the entry of each source
is taken out and collected under its target in a second table, which keeps the first
entry it gets for a key. The drained table loses exactly the sources (`lookup_rekey_fst`),
and the collected one holds what was moved (`rekey_snd_sound`, `rekey_snd_complete`).
-/

namespace Ns3.Lib

abbrev Table (κ β : Type) := AList (fun _ : κ => β)

variable {κ β : Type} [DecidableEq κ]

namespace Table

/-- Insertion that keeps an existing entry. -/
def insertIfAbsent (m : Table κ β) (k : κ) (v : β) : Table κ β :=
  if k ∈ m then m else m.insert k v

theorem lookup_insertIfAbsent (m : Table κ β) (k x : κ) (v : β) :
    (m.insertIfAbsent k v).lookup x = (m.lookup x).or (if x = k then some v else none) := by
  unfold insertIfAbsent
  split
  · rename_i hk
    by_cases hx : x = k
    · subst hx
      obtain ⟨w, hw⟩ := Option.isSome_iff_exists.mp (AList.lookup_isSome.mpr hk)
      rw [hw]
      rfl
    · simp [hx]
  · rename_i hk
    by_cases hx : x = k
    · subst hx
      rw [AList.lookup_insert, AList.lookup_eq_none.mpr hk]
      simp
    · rw [AList.lookup_insert_ne hx]
      simp [hx]

/-- Adding all entries of a list, none of which replaces an entry. -/
def insertAll (m : Table κ β) (l : List (Sigma fun _ : κ => β)) : Table κ β :=
  l.foldl (fun m e => m.insertIfAbsent e.1 e.2) m

theorem lookup_insertAll (l : List (Sigma fun _ : κ => β)) (m : Table κ β) (x : κ) :
    (m.insertAll l).lookup x = (m.lookup x).or (l.dlookup x) := by
  induction l generalizing m with
  | nil => simp [insertAll]
  | cons e l ih =>
    change ((m.insertIfAbsent e.1 e.2).insertAll l).lookup x = _
    rw [ih, lookup_insertIfAbsent, Option.or_assoc]
    congr 1
    obtain ⟨k, v⟩ := e
    by_cases hx : x = k
    · subst hx
      rw [List.dlookup_cons_eq]
      simp
    · rw [List.dlookup_cons_ne _ _ hx]
      simp [hx]

end Table

/-- One move: the entry of the source, if it passes `keep`, goes to the target. -/
def rekey (keep : β → Bool) (st : Table κ β × Table κ β) (move : κ × κ) :
    Table κ β × Table κ β :=
  match st.1.lookup move.1 with
  | none => st
  | some v =>
    (st.1.erase move.1, if keep v then st.2.insertIfAbsent move.2 v else st.2)

theorem rekey_fst (keep : β → Bool) (st : Table κ β × Table κ β) (move : κ × κ) (x : κ) :
    (rekey keep st move).1.lookup x = if x = move.1 then none else st.1.lookup x := by
  unfold rekey
  split
  · rename_i h
    split
    · rename_i hx
      rw [hx, h]
    · rfl
  · by_cases hx : x = move.1
    · rw [if_pos hx, hx, AList.lookup_erase]
    · rw [if_neg hx, AList.lookup_erase_ne hx]

theorem rekey_snd (keep : β → Bool) (st : Table κ β × Table κ β) (move : κ × κ) (y : κ) :
    (rekey keep st move).2.lookup y =
      (st.2.lookup y).or (if y = move.2 then (st.1.lookup move.1).filter keep else none) := by
  unfold rekey
  split
  · rename_i h
    simp [h]
  · rename_i v h
    by_cases hk : keep v = true
    · simp [h, hk, Table.lookup_insertIfAbsent, Option.filter]
    · simp [h, hk, Option.filter]

/-- The drained table has lost exactly the sources. -/
theorem lookup_rekey_fst (keep : β → Bool) (moves : List (κ × κ)) (st : Table κ β × Table κ β)
    (x : κ) :
    (moves.foldl (rekey keep) st).1.lookup x =
      if x ∈ moves.map Prod.fst then none else st.1.lookup x := by
  induction moves generalizing st with
  | nil => simp
  | cons move rest ih =>
    rw [List.foldl_cons, ih, rekey_fst]
    by_cases h1 : x ∈ rest.map Prod.fst
    · simp [h1]
    · by_cases h2 : x = move.1
      · simp [h2]
      · simp [h1, h2]

/-- Every collected entry was there before, or has been moved to its key. -/
theorem rekey_snd_sound (keep : β → Bool) {moves : List (κ × κ)} {st : Table κ β × Table κ β}
    {y : κ} {v : β} (h : (moves.foldl (rekey keep) st).2.lookup y = some v) :
    st.2.lookup y = some v ∨ ∃ x, (x, y) ∈ moves ∧ st.1.lookup x = some v := by
  induction moves generalizing st with
  | nil => exact Or.inl h
  | cons move rest ih =>
    rcases ih h with hv | ⟨x, hx, hv⟩
    · rw [rekey_snd, Option.or_eq_some_iff] at hv
      rcases hv with hv | ⟨-, hv⟩
      · exact Or.inl hv
      · split at hv
        · rename_i hy
          refine Or.inr ⟨move.1, ?_, (Option.filter_eq_some_iff.mp hv).1⟩
          rw [hy]
          exact List.mem_cons_self
        · cases hv
    · rw [rekey_fst] at hv
      split at hv
      · cases hv
      · exact Or.inr ⟨x, List.mem_cons_of_mem _ hx, hv⟩

/-- A key that is present stays present. -/
theorem rekey_snd_isSome_mono (keep : β → Bool) (moves : List (κ × κ))
    {st : Table κ β × Table κ β} {y : κ} (h : (st.2.lookup y).isSome) :
    ((moves.foldl (rekey keep) st).2.lookup y).isSome := by
  induction moves generalizing st with
  | nil => exact h
  | cons move rest ih =>
    rw [List.foldl_cons]
    apply ih
    rw [rekey_snd, Option.isSome_or, h]
    rfl

/-- An entry that is moved is found under the target of the first move of its source. -/
theorem rekey_snd_complete (keep : β → Bool) {moves : List (κ × κ)} {st : Table κ β × Table κ β}
    {x : κ} {v : β} (hx : x ∈ moves.map Prod.fst) (hv : st.1.lookup x = some v)
    (hkeep : keep v = true) :
    ∃ y, (x, y) ∈ moves ∧ ((moves.foldl (rekey keep) st).2.lookup y).isSome := by
  induction moves generalizing st with
  | nil => simp at hx
  | cons move rest ih =>
    by_cases hm : x = move.1
    · refine ⟨move.2, by rw [hm]; exact List.mem_cons_self, ?_⟩
      rw [List.foldl_cons]
      apply rekey_snd_isSome_mono
      rw [rekey_snd, ← hm, hv]
      simp [Option.filter, hkeep]
    · have hx' : x ∈ rest.map Prod.fst := by simpa [hm] using hx
      have hv' : (rekey keep st move).1.lookup x = some v := by
        rw [rekey_fst, if_neg hm]
        exact hv
      obtain ⟨y, hy, hs⟩ := ih hx' hv'
      exact ⟨y, List.mem_cons_of_mem _ hy, hs⟩

end Ns3.Lib
