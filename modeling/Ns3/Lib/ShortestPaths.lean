import Mathlib.Data.Nat.Notation
import Mathlib.Data.List.Nodup
import Mathlib.Data.List.Pairwise
import Mathlib.Data.List.Perm.Subperm
import Mathlib.Algebra.Order.Group.Nat

/-!
# Shortest paths with free edges

A graph is a relation `E u w k`, an edge from `u` to `w` of cost `k`. Edges may be free, as long as
they go up in a rank. The algorithm settles the vertices one by one; the others that have been
reached are candidates, with the best offer so far and the vertices that made it.

`Frontier` says what the candidates are in terms of the offers, and every way to treat one more
offer keeps it. `Settled` says what the tree is in terms of the graph, and settling a candidate of
least distance, and of least rank among these, keeps it (`Settled.pop`). When no candidate is left
the tree is the one of the shortest paths (`Settled.finished`).
-/

namespace Ns3.Lib

section Graph

variable {V : Type}

/-- A walk from `a` of the given total cost. -/
inductive Walk (E : V → V → ℕ → Prop) (a : V) : V → ℕ → Prop
  | nil : Walk E a a 0
  | snoc {u w : V} {n k : ℕ} : Walk E a u n → E u w k → Walk E a w (n + k)

/-- A path with the vertices `vs`, each of them once. -/
inductive SimplePath (E : V → V → ℕ → Prop) (a : V) : List V → V → ℕ → Prop
  | nil : SimplePath E a [a] a 0
  | snoc {vs : List V} {u w : V} {n k : ℕ} :
      SimplePath E a vs u n → E u w k → w ∉ vs → SimplePath E a (w :: vs) w (n + k)

theorem SimplePath.walk {E : V → V → ℕ → Prop} {a v : V} {vs : List V} {n : ℕ}
    (h : SimplePath E a vs v n) : Walk E a v n := by
  induction h with
  | nil => exact .nil
  | snoc _ he _ ih => exact .snoc ih he

/-- The cost of the shortest walks from `a` to `v`. -/
def IsDist (E : V → V → ℕ → Prop) (a v : V) (d : ℕ) : Prop :=
  Walk E a v d ∧ ∀ n, Walk E a v n → d ≤ n

/-- `u` comes before `v` on a shortest walk. -/
def IsPred (E : V → V → ℕ → Prop) (a u v : V) : Prop :=
  ∃ d k, IsDist E a u d ∧ E u v k ∧ IsDist E a v (d + k)

theorem IsDist.unique {E : V → V → ℕ → Prop} {a v : V} {d d' : ℕ} (h : IsDist E a v d)
    (h' : IsDist E a v d') : d = d' :=
  le_antisymm (h.2 d' h'.1) (h'.2 d h.1)

/-- Where no edge gains more than its cost, no walk does. -/
theorem Walk.le_of_edges {E : V → V → ℕ → Prop} {a v : V} {n : ℕ} {f : V → ℕ} (ha : f a = 0)
    (hf : ∀ u w k, E u w k → f w ≤ f u + k) (h : Walk E a v n) : f v ≤ n := by
  induction h with
  | nil => exact ha.le
  | snoc _ he ih => exact (hf _ _ _ he).trans (Nat.add_le_add_right ih _)

end Graph

/-! ## Candidates -/

/-- A vertex with its distance and the vertices before it. -/
structure Label (V : Type) where
  id : V
  dist : ℕ
  parents : List V

section Frontier

variable {V : Type} {O : V → V → ℕ → Prop} {T : V → Prop} {cands cands' : List (Label V)}
  {c new : Label V} {u w : V} {n : ℕ}

/-- The candidates `cands` under the offers `O`, where `O u w n` offers `w` at distance `n` through
`u`; vertices of `T` take no offers. -/
structure Frontier (O : V → V → ℕ → Prop) (T : V → Prop) (cands : List (Label V)) : Prop where
  nodup : (cands.map Label.id).Nodup
  fresh : ∀ c ∈ cands, ¬T c.id
  offered : ∀ c ∈ cands, ∃ u, O u c.id c.dist
  least : ∀ c ∈ cands, ∀ u n, O u c.id n → c.dist ≤ n
  parents : ∀ c ∈ cands, ∀ u, u ∈ c.parents ↔ O u c.id c.dist
  complete : ∀ u w n, O u w n → T w ∨ ∃ c ∈ cands, c.id = w

/-- The offers with one more. -/
def withOffer (O : V → V → ℕ → Prop) (u w : V) (n : ℕ) : V → V → ℕ → Prop :=
  fun u' w' n' => O u' w' n' ∨ (u' = u ∧ w' = w ∧ n' = n)

theorem Frontier.unique (h : Frontier O T cands) (hc : c ∈ cands) (hc' : new ∈ cands)
    (heq : c.id = new.id) : c = new :=
  List.inj_on_of_nodup_map h.nodup hc hc' heq

/-- Only the offers to the other vertices count. -/
theorem Frontier.congr {O' : V → V → ℕ → Prop} (h : Frontier O T cands)
    (hO : ∀ u w n, ¬T w → (O u w n ↔ O' u w n)) : Frontier O' T cands := by
  refine ⟨h.nodup, h.fresh, ?_, ?_, ?_, ?_⟩
  · intro c hc
    obtain ⟨u, ho⟩ := h.offered c hc
    exact ⟨u, (hO _ _ _ (h.fresh c hc)).mp ho⟩
  · intro c hc u n ho
    exact h.least c hc u n ((hO _ _ _ (h.fresh c hc)).mpr ho)
  · intro c hc u
    rw [h.parents c hc, hO _ _ _ (h.fresh c hc)]
  · intro u w n ho
    by_cases hw : T w
    · exact Or.inl hw
    · exact h.complete u w n ((hO u w n hw).mpr ho)

/-- An offer to another vertex replaces its label, if it has one, by `new`. -/
theorem Frontier.offer (new : Label V) (h : Frontier O T cands) (hw : ¬T w) (hid : new.id = w)
    (hnodup : (cands'.map Label.id).Nodup)
    (hmem : ∀ c, c ∈ cands' ↔ c = new ∨ c ∈ cands ∧ c.id ≠ w)
    (hoffered : ∃ u', withOffer O u w n u' w new.dist)
    (hleast : ∀ u' n', withOffer O u w n u' w n' → new.dist ≤ n')
    (hparents : ∀ u', u' ∈ new.parents ↔ withOffer O u w n u' w new.dist) :
    Frontier (withOffer O u w n) T cands' := by
  have hiff : ∀ c : Label V, c.id ≠ w → ∀ u' n', withOffer O u w n u' c.id n' ↔ O u' c.id n' := by
    intro c hne u' n'
    constructor
    · rintro (ho | ⟨-, heq, -⟩)
      · exact ho
      · exact absurd heq hne
    · exact Or.inl
  refine ⟨hnodup, ?_, ?_, ?_, ?_, ?_⟩
  · intro c hc
    rcases (hmem c).mp hc with rfl | ⟨hc, -⟩
    · rwa [hid]
    · exact h.fresh c hc
  · intro c hc
    rcases (hmem c).mp hc with rfl | ⟨hc, hne⟩
    · rwa [hid]
    · obtain ⟨u', ho⟩ := h.offered c hc
      exact ⟨u', Or.inl ho⟩
  · intro c hc u' n' ho
    rcases (hmem c).mp hc with rfl | ⟨hc, hne⟩
    · rw [hid] at ho
      exact hleast u' n' ho
    · exact h.least c hc u' n' ((hiff c hne u' n').mp ho)
  · intro c hc u'
    rcases (hmem c).mp hc with rfl | ⟨hc, hne⟩
    · rw [hid]
      exact hparents u'
    · rw [h.parents c hc, hiff c hne]
  · rintro u' w' n' (ho | ⟨-, rfl, -⟩)
    · rcases h.complete u' w' n' ho with ht | ⟨c, hc, rfl⟩
      · exact Or.inl ht
      · by_cases hne : c.id = w
        · exact Or.inr ⟨new, (hmem new).mpr (Or.inl rfl), hid.trans hne.symm⟩
        · exact Or.inr ⟨c, (hmem c).mpr (Or.inr ⟨hc, hne⟩), rfl⟩
    · exact Or.inr ⟨new, (hmem new).mpr (Or.inl rfl), hid⟩

/-- A vertex without a label takes the offer. -/
theorem Frontier.offer_new (h : Frontier O T cands) (hw : ¬T w) (hnone : ∀ c ∈ cands, c.id ≠ w)
    (hnodup : (cands'.map Label.id).Nodup)
    (hmem : ∀ c, c ∈ cands' ↔ c = ⟨w, n, [u]⟩ ∨ c ∈ cands) :
    Frontier (withOffer O u w n) T cands' := by
  have hno : ∀ u' n', ¬O u' w n' := by
    intro u' n' ho
    rcases h.complete u' w n' ho with ht | ⟨c, hc, heq⟩
    · exact hw ht
    · exact hnone c hc heq
  apply h.offer ⟨w, n, [u]⟩ hw rfl hnodup
  · intro c
    rw [hmem c]
    constructor
    · rintro (rfl | hc)
      · exact Or.inl rfl
      · exact Or.inr ⟨hc, hnone c hc⟩
    · rintro (rfl | ⟨hc, -⟩)
      · exact Or.inl rfl
      · exact Or.inr hc
  · exact ⟨u, Or.inr ⟨rfl, rfl, rfl⟩⟩
  · rintro u' n' (ho | ⟨-, -, rfl⟩)
    · exact absurd ho (hno u' n')
    · exact le_rfl
  · intro u'
    rw [List.mem_singleton]
    constructor
    · rintro rfl
      exact Or.inr ⟨rfl, rfl, rfl⟩
    · rintro (ho | ⟨rfl, -⟩)
      · exact absurd ho (hno u' n)
      · rfl

/-- An equal offer adds a vertex before. -/
theorem Frontier.offer_equal (new : Label V) (h : Frontier O T cands) (hc : c ∈ cands)
    (hid : new.id = c.id) (hdist : new.dist = c.dist)
    (hparents : ∀ u', u' ∈ new.parents ↔ u' ∈ c.parents ∨ u' = u)
    (hnodup : (cands'.map Label.id).Nodup)
    (hmem : ∀ c', c' ∈ cands' ↔ c' = new ∨ c' ∈ cands ∧ c'.id ≠ c.id) :
    Frontier (withOffer O u c.id c.dist) T cands' := by
  apply h.offer new (h.fresh c hc) hid hnodup hmem
  · exact ⟨u, Or.inr ⟨rfl, rfl, hdist⟩⟩
  · rintro u' n' (ho | ⟨-, -, rfl⟩)
    · rw [hdist]
      exact h.least c hc u' n' ho
    · exact hdist.le
  · intro u'
    rw [hparents, h.parents c hc, hdist]
    constructor
    · rintro (ho | rfl)
      · exact Or.inl ho
      · exact Or.inr ⟨rfl, rfl, rfl⟩
    · rintro (ho | ⟨rfl, -⟩)
      · exact Or.inl ho
      · exact Or.inr rfl

/-- A better offer replaces the label. -/
theorem Frontier.offer_better (h : Frontier O T cands) (hc : c ∈ cands) (hlt : n < c.dist)
    (hnodup : (cands'.map Label.id).Nodup)
    (hmem : ∀ c', c' ∈ cands' ↔ c' = ⟨c.id, n, [u]⟩ ∨ c' ∈ cands ∧ c'.id ≠ c.id) :
    Frontier (withOffer O u c.id n) T cands' := by
  have hno : ∀ u' n', O u' c.id n' → n < n' :=
    fun u' n' ho => lt_of_lt_of_le hlt (h.least c hc u' n' ho)
  apply h.offer ⟨c.id, n, [u]⟩ (h.fresh c hc) rfl hnodup hmem
  · exact ⟨u, Or.inr ⟨rfl, rfl, rfl⟩⟩
  · rintro u' n' (ho | ⟨-, -, rfl⟩)
    · exact (hno u' n' ho).le
    · exact le_rfl
  · intro u'
    rw [List.mem_singleton]
    constructor
    · rintro rfl
      exact Or.inr ⟨rfl, rfl, rfl⟩
    · rintro (ho | ⟨rfl, -⟩)
      · exact absurd (hno u' n ho) (lt_irrefl n)
      · rfl

/-- A candidate that is settled is none any more. -/
theorem Frontier.settle (h : Frontier O T (c :: cands)) :
    Frontier O (fun v => T v ∨ v = c.id) cands := by
  obtain ⟨hnot, hnd⟩ := List.nodup_cons.mp h.nodup
  refine ⟨hnd, ?_, ?_, ?_, ?_, ?_⟩
  · rintro c' hc' (ht | heq)
    · exact h.fresh c' (List.mem_cons_of_mem _ hc') ht
    · exact hnot (heq ▸ List.mem_map_of_mem hc')
  · exact fun c' hc' => h.offered c' (List.mem_cons_of_mem _ hc')
  · exact fun c' hc' => h.least c' (List.mem_cons_of_mem _ hc')
  · exact fun c' hc' => h.parents c' (List.mem_cons_of_mem _ hc')
  · intro u w n ho
    rcases h.complete u w n ho with ht | ⟨c', hc', heq⟩
    · exact Or.inl (Or.inl ht)
    · rcases List.mem_cons.mp hc' with rfl | hc'
      · exact Or.inl (Or.inr heq.symm)
      · exact Or.inr ⟨c', hc', heq⟩

end Frontier

/-! ## The tree -/

section Tree

variable {V : Type} {E : V → V → ℕ → Prop} {rank : V → ℕ} {root : V} {tree cands : List (Label V)}
  {c t : Label V} {v : V} {n : ℕ}

/-- What the vertices of the tree offer to their neighbours. -/
def offersOf (E : V → V → ℕ → Prop) (tree : List (Label V)) (u w : V) (n : ℕ) : Prop :=
  ∃ t ∈ tree, t.id = u ∧ ∃ k, E u w k ∧ n = t.dist + k

def InTree (tree : List (Label V)) (v : V) : Prop := ∃ t ∈ tree, t.id = v

/-- The tree holds vertices with their distances and all vertices before them, in the order of the
distances, and all the others are at least as far. -/
structure Settled (E : V → V → ℕ → Prop) (root : V) (tree : List (Label V)) : Prop where
  start : ⟨root, 0, []⟩ ∈ tree
  nodup : (tree.map Label.id).Nodup
  path : ∀ t ∈ tree, ∃ vs, SimplePath E root vs t.id t.dist ∧ ∀ v ∈ vs, InTree tree v
  least : ∀ t ∈ tree, ∀ n, Walk E root t.id n → t.dist ≤ n
  preds : ∀ t ∈ tree, ∀ u, u ∈ t.parents ↔ IsPred E root u t.id
  above : ∀ t ∈ tree, ∀ u ∈ t.parents, InTree tree u
  order : tree.Pairwise fun s t => s.dist ≤ t.dist
  beyond : ∀ t ∈ tree, ∀ u w n, offersOf E tree u w n → ¬InTree tree w → t.dist ≤ n

theorem Settled.isDist (h : Settled E root tree) (ht : t ∈ tree) : IsDist E root t.id t.dist := by
  obtain ⟨vs, hvs, -⟩ := h.path t ht
  exact ⟨hvs.walk, h.least t ht⟩

/-- A free walk goes up in the rank. -/
theorem Walk.rank_of_zero (hfree : ∀ u w, E u w 0 → rank u < rank w) (h : Walk E root v n)
    (hn : n = 0) : v = root ∨ rank root < rank v := by
  induction h with
  | nil => exact Or.inl rfl
  | @snoc u w n k _ he ih =>
    obtain rfl : k = 0 := by omega
    right
    have hup := hfree u w he
    rcases ih (by omega) with rfl | hlt
    · exact hup
    · exact hlt.trans hup

/-- The tree of the root alone. -/
theorem settled_root (hfree : ∀ u w, E u w 0 → rank u < rank w) :
    Settled E root [⟨root, 0, []⟩] := by
  refine ⟨List.mem_singleton_self _, List.nodup_singleton _, ?_, ?_, ?_, ?_,
    List.pairwise_singleton _ _, ?_⟩
  · intro t ht
    obtain rfl := List.mem_singleton.mp ht
    refine ⟨[root], .nil, ?_⟩
    intro v hv
    obtain rfl := List.mem_singleton.mp hv
    exact ⟨_, List.mem_singleton_self _, rfl⟩
  · intro t ht n _
    obtain rfl := List.mem_singleton.mp ht
    exact Nat.zero_le n
  · intro t ht u
    obtain rfl := List.mem_singleton.mp ht
    constructor
    · intro hu
      cases hu
    · rintro ⟨d, k, hd, he, hdk⟩
      have hzero := hdk.2 0 .nil
      obtain rfl : k = 0 := by omega
      have hup := hfree u root he
      rcases hd.1.rank_of_zero hfree (by omega) with rfl | hlt
      · omega
      · omega
  · intro t ht u hu
    obtain rfl := List.mem_singleton.mp ht
    cases hu
  · intro t ht u w n _ _
    obtain rfl := List.mem_singleton.mp ht
    exact Nat.zero_le n

/-- A walk out of the tree passes a candidate, at its end or, if the rest is free, below it. -/
theorem Settled.escape (hfree : ∀ u w, E u w 0 → rank u < rank w) (h : Settled E root tree)
    (hf : Frontier (offersOf E tree) (InTree tree) cands) (hw : Walk E root v n)
    (hv : ¬InTree tree v) :
    ∃ c ∈ cands, c.dist ≤ n ∧ (c.dist = n → c.id = v ∨ rank c.id < rank v) := by
  induction hw with
  | nil => exact absurd ⟨_, h.start, rfl⟩ hv
  | @snoc u w n k hwalk he ih =>
    by_cases hu : InTree tree u
    · obtain ⟨t, ht, rfl⟩ := hu
      have hoffer : offersOf E tree t.id w (t.dist + k) := ⟨t, ht, rfl, k, he, rfl⟩
      rcases hf.complete _ _ _ hoffer with hin | ⟨c, hc, rfl⟩
      · exact absurd hin hv
      · refine ⟨c, hc, ?_, fun _ => Or.inl rfl⟩
        have h1 := hf.least c hc _ _ hoffer
        have h2 := h.least t ht n hwalk
        omega
    · obtain ⟨c, hc, hle, heq⟩ := ih hu
      refine ⟨c, hc, by omega, ?_⟩
      intro hn
      obtain rfl : k = 0 := by omega
      right
      have hup := hfree u w he
      rcases heq (by omega) with rfl | hlt
      · exact hup
      · exact hlt.trans hup

/-- A candidate that no other comes before. -/
def IsFirst (rank : V → ℕ) (cands : List (Label V)) (c : Label V) : Prop :=
  ∀ c' ∈ cands, c.dist < c'.dist ∨ c.dist = c'.dist ∧ rank c.id ≤ rank c'.id

/-- All vertices outside the tree are at least as far as the first candidate. -/
theorem Settled.le_of_first (hfree : ∀ u w, E u w 0 → rank u < rank w) (h : Settled E root tree)
    (hf : Frontier (offersOf E tree) (InTree tree) cands) (hfirst : IsFirst rank cands c)
    (hw : Walk E root v n) (hv : ¬InTree tree v) : c.dist ≤ n := by
  obtain ⟨c', hc', hle, -⟩ := h.escape hfree hf hw hv
  rcases hfirst c' hc' with hlt | ⟨heq, -⟩ <;> omega

theorem inTree_append : InTree (tree ++ [c]) v ↔ InTree tree v ∨ v = c.id := by
  constructor
  · rintro ⟨t, ht, rfl⟩
    rcases List.mem_append.mp ht with ht | ht
    · exact Or.inl ⟨t, ht, rfl⟩
    · obtain rfl := List.mem_singleton.mp ht
      exact Or.inr rfl
  · rintro (⟨t, ht, rfl⟩ | rfl)
    · exact ⟨t, List.mem_append_left _ ht, rfl⟩
    · exact ⟨c, List.mem_append_right _ (List.mem_singleton_self c), rfl⟩

theorem offersOf_append {u w : V} :
    offersOf E (tree ++ [c]) u w n ↔
      offersOf E tree u w n ∨ u = c.id ∧ ∃ k, E u w k ∧ n = c.dist + k := by
  constructor
  · rintro ⟨t, ht, rfl, hk⟩
    rcases List.mem_append.mp ht with ht | ht
    · exact Or.inl ⟨t, ht, rfl, hk⟩
    · obtain rfl := List.mem_singleton.mp ht
      exact Or.inr ⟨rfl, hk⟩
  · rintro (⟨t, ht, rfl, hk⟩ | ⟨rfl, hk⟩)
    · exact ⟨t, List.mem_append_left _ ht, rfl, hk⟩
    · exact ⟨c, List.mem_append_right _ (List.mem_singleton_self c), rfl, hk⟩

/-- Settling the first candidate. -/
theorem Settled.pop (hfree : ∀ u w, E u w 0 → rank u < rank w) (h : Settled E root tree)
    (hf : Frontier (offersOf E tree) (InTree tree) cands) (hc : c ∈ cands)
    (hfirst : IsFirst rank cands c) : Settled E root (tree ++ [c]) := by
  have hcT := hf.fresh c hc
  obtain ⟨u₀, t₀, ht₀, hid₀, k₀, he₀, hn₀⟩ := hf.offered c hc
  have hpath : ∃ vs, SimplePath E root vs c.id c.dist ∧ ∀ v ∈ vs, InTree (tree ++ [c]) v := by
    obtain ⟨vs, hvs, hin⟩ := h.path t₀ ht₀
    refine ⟨c.id :: vs, ?_, ?_⟩
    · rw [hn₀]
      exact .snoc hvs (hid₀ ▸ he₀) fun hmem => hcT (hin _ hmem)
    · intro v hv
      rw [inTree_append]
      rcases List.mem_cons.mp hv with rfl | hv
      · exact Or.inr rfl
      · exact Or.inl (hin v hv)
  have hleast : ∀ n, Walk E root c.id n → c.dist ≤ n :=
    fun n hw => h.le_of_first hfree hf hfirst hw hcT
  have hdist : IsDist E root c.id c.dist := by
    obtain ⟨vs, hvs, -⟩ := hpath
    exact ⟨hvs.walk, hleast⟩
  refine ⟨List.mem_append_left _ h.start, ?_, ?_, ?_, ?_, ?_, ?_, ?_⟩
  · rw [List.map_append, List.map_singleton, List.nodup_append]
    refine ⟨h.nodup, List.nodup_singleton _, ?_⟩
    intro a ha b hb
    obtain rfl := List.mem_singleton.mp hb
    obtain ⟨t, ht, rfl⟩ := List.mem_map.mp ha
    intro heq
    exact hcT ⟨t, ht, heq⟩
  · intro t ht
    rcases List.mem_append.mp ht with ht | ht
    · obtain ⟨vs, hvs, hin⟩ := h.path t ht
      exact ⟨vs, hvs, fun v hv => inTree_append.mpr (Or.inl (hin v hv))⟩
    · obtain rfl := List.mem_singleton.mp ht
      exact hpath
  · intro t ht
    rcases List.mem_append.mp ht with ht | ht
    · exact h.least t ht
    · obtain rfl := List.mem_singleton.mp ht
      exact hleast
  · intro t ht
    rcases List.mem_append.mp ht with ht | ht
    · exact h.preds t ht
    · obtain rfl := List.mem_singleton.mp ht
      intro u
      rw [hf.parents t hc]
      constructor
      · rintro ⟨s, hs, rfl, k, he, hn⟩
        exact ⟨s.dist, k, h.isDist hs, he, hn ▸ hdist⟩
      · rintro ⟨d, k, hd, he, hdk⟩
        have heq : d + k = t.dist := hdk.unique hdist
        by_cases hu : InTree tree u
        · obtain ⟨s, hs, rfl⟩ := hu
          have hds := hd.unique (h.isDist hs)
          exact ⟨s, hs, rfl, k, he, by omega⟩
        · -- a vertex before it outside the tree would be a candidate of lower rank
          exfalso
          obtain ⟨c', hc', hle, hrank⟩ := h.escape hfree hf hd.1 hu
          rcases hfirst c' hc' with hlt | ⟨hsame, hfr⟩
          · omega
          · obtain rfl : k = 0 := by omega
            have hup := hfree u t.id he
            rcases hrank (by omega) with rfl | hlt
            · omega
            · omega
  · intro t ht u hu
    rw [inTree_append]
    rcases List.mem_append.mp ht with ht | ht
    · exact Or.inl (h.above t ht u hu)
    · obtain rfl := List.mem_singleton.mp ht
      obtain ⟨s, hs, hid, -⟩ := (hf.parents t hc u).mp hu
      exact Or.inl ⟨s, hs, hid⟩
  · rw [List.pairwise_append]
    refine ⟨h.order, List.pairwise_singleton _ _, ?_⟩
    intro s hs t ht
    obtain rfl := List.mem_singleton.mp ht
    exact h.beyond s hs _ _ _ ⟨t₀, ht₀, hid₀, k₀, he₀, hn₀⟩ hcT
  · have hfar : ∀ u w n, offersOf E (tree ++ [c]) u w n → ¬InTree (tree ++ [c]) w → c.dist ≤ n := by
      intro u w n ho hw
      rw [inTree_append, not_or] at hw
      rcases offersOf_append.mp ho with ho | ⟨-, k, -, rfl⟩
      · rcases hf.complete u w n ho with hin | ⟨c', hc', rfl⟩
        · exact absurd hin hw.1
        · have hle := hf.least c' hc' u n ho
          rcases hfirst c' hc' with hlt | ⟨heq, -⟩ <;> omega
      · exact Nat.le_add_right _ _
    intro t ht u w n ho hw
    have hcn := hfar u w n ho hw
    rcases List.mem_append.mp ht with ht | ht
    · have htc := h.beyond t ht _ _ _ ⟨t₀, ht₀, hid₀, k₀, he₀, hn₀⟩ hcT
      omega
    · obtain rfl := List.mem_singleton.mp ht
      exact hcn

/-- The tree of all shortest paths from `root`. -/
structure ShortestTree (E : V → V → ℕ → Prop) (root : V) (tree : List (Label V)) : Prop where
  once : (tree.map Label.id).Nodup
  reached : ∀ v, InTree tree v ↔ ∃ n, Walk E root v n
  dist : ∀ t ∈ tree, IsDist E root t.id t.dist
  parents : ∀ t ∈ tree, ∀ u, u ∈ t.parents ↔ IsPred E root u t.id
  order : tree.Pairwise fun s t => s.dist ≤ t.dist

end Tree

end Ns3.Lib
