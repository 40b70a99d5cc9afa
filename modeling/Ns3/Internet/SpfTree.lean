import Ns3.Internet.SpfCandidates

/-!
# The tree of the shortest path calculation

`Expanding` is what holds of the tree, the flags and the candidates before the neighbours of the
last vertex of the tree are considered. Considering them all and taking the first candidate into the
tree keep it.
-/

namespace Ns3.Internet

open Ns3.Lib GlobalRouteManagerLSDB

/-- `root` is the one with the least address of the vertices before `v`. -/
def FirstParent (db : GlobalRouteManagerLSDB) (addr : ℕ → ℕ) (root v : ℕ) : Prop :=
  IsPred (Edge db) root root v ∧ ∀ u, IsPred (Edge db) root u v → addr root ≤ addr u

section Tree

variable {db : GlobalRouteManagerLSDB} {addr : ℕ → ℕ} {node : Option Ipv4InterfaceList}
  {root fuel : ℕ} {v : SPFVertex} {st st' : SpfState} {pre : List SPFVertex}
  {O : ℕ → ℕ → ℕ → Prop} {T : ℕ → Prop}

/-! ## All neighbours of a vertex -/

/-- The tree `pre ++ [v]` before the neighbours of `v` are considered. -/
structure Expanding (db : GlobalRouteManagerLSDB) (addr : ℕ → ℕ) (root : ℕ) (pre : List SPFVertex)
    (v : SPFVertex) (st : SpfState) : Prop where
  tree : Settled (Edge db) root ((pre ++ [v]).map label)
  tracks : Tracks db addr (offersOf (Edge db) (pre.map label))
    (InTree ((pre ++ [v]).map label)) st
  made : ∀ t ∈ pre ++ [v], MadeFrom db t
  parents : ∀ t ∈ pre ++ [v], t.m_parents.Pairwise fun a b => addr a < addr b
  far : ∀ w n, ¬InTree ((pre ++ [v]).map label) w → Walk (Edge db) root w n →
    v.m_distanceFromRoot ≤ n
  unseen : ∀ t ∈ pre, ¬IsPred (Edge db) root v.m_vertexId t.m_vertexId
  begun : v.m_vertexId = root → pre = [] ∧ st.candidate = []
  rooted : ∀ t ∈ pre ++ [v], t.m_vertexId = root → t.m_vertexType = .vertexRouter

/-- The next hops through `v` are found for all vertices that need them. -/
def Passed (db : GlobalRouteManagerLSDB) (root : ℕ) (v : SPFVertex) : Prop :=
  ∀ t ∈ targets db v.m_lsa, t.1.m_linkStateId ≠ root →
    v.m_vertexId = root ∨ IsPred (Edge db) root v.m_vertexId t.1.m_linkStateId →
      HopsFound root v t.1

theorem label_mem_last (pre : List SPFVertex) (v : SPFVertex) :
    label v ∈ (pre ++ [v]).map label :=
  List.mem_map_of_mem (List.mem_append_right _ (List.mem_singleton_self v))

theorem Expanding.made_last (h : Expanding db addr root pre v st) : MadeFrom db v :=
  h.made v (List.mem_append_right _ (List.mem_singleton_self v))

theorem Expanding.link (hdb : WellFormed db) (h : Expanding db addr root pre v st)
    (hv : v.m_vertexId = root) : ∀ t ∈ targets db v.m_lsa, t.2 ≠ none := by
  intro t ht
  rcases hdb.targets_shape h.made_last ht with ⟨-, hl⟩ | ⟨hnet, -, -⟩
  · exact hl
  · rw [h.rooted v (List.mem_append_right _ (List.mem_singleton_self v)) hv] at hnet
    cases hnet

theorem Expanding.router (hdb : WellFormed db) (h : Expanding db addr root pre v st)
    (hv : v.m_vertexType = .vertexNetwork) :
    ∀ t ∈ targets db v.m_lsa, t.1.m_lsType = .routerLSA ∧ t.2 = none := by
  intro t ht
  rcases hdb.targets_shape h.made_last ht with ⟨hr, -⟩ | ⟨-, ht⟩
  · rw [hv] at hr
    cases hr
  · exact ht

/-- All candidates are covered: from a network there is no way to improve on them, from the root
there are none, and through another router the next hops are known. -/
theorem Expanding.covered (hdb : WellFormed db) (h : Expanding db addr root pre v st) :
    Covered root v (targets db v.m_lsa) st.candidate := by
  intro c hc
  by_cases hroot : v.m_vertexId = root
  · rw [(h.begun hroot).2] at hc
    cases hc
  · rcases h.made_last.kind with ⟨htype, -⟩ | ⟨htype, ht⟩
    · left
      unfold HopsFound
      rw [if_neg hroot, htype]
      intro hnet
      cases hnet
    · right
      intro l hl
      have hfree : linkCost l = 0 := by
        have hnone : l = none := (h.router hdb htype _ hl).2
        rw [hnone]
        rfl
      have hcand : label c ∈ st.candidate.map label := List.mem_map_of_mem hc
      have hfresh := h.tracks.frontier.fresh _ hcand
      obtain ⟨u, s, hs, rfl, k', he, hn⟩ := h.tracks.frontier.offered _ hcand
      have hsin : s ∈ (pre ++ [v]).map label := by
        rw [List.map_append]
        exact List.mem_append_left _ hs
      have hwalk := Walk.snoc (h.tree.isDist hsin).1 he
      have hfar := h.far _ _ hfresh hwalk
      rw [← hn] at hfar
      rw [hfree]
      exact hfar

/-- The root is the first parent recorded where it is the first parent. -/
theorem Expanding.getParent_iff (h : Expanding db addr root pre v st) {t : SPFVertex}
    (ht : t ∈ pre ++ [v]) :
    t.getParent = some root ↔ FirstParent db addr root t.m_vertexId := by
  have hpreds : ∀ u, u ∈ t.m_parents ↔ IsPred (Edge db) root u t.m_vertexId :=
    h.tree.preds _ (List.mem_map_of_mem ht)
  have hsorted := h.parents t ht
  unfold SPFVertex.getParent
  constructor
  · intro hparent
    obtain ⟨us, hus⟩ := List.head?_eq_some_iff.mp hparent
    refine ⟨(hpreds root).mp (hus ▸ List.mem_cons_self ..), ?_⟩
    intro u hu
    rw [hus] at hsorted
    have hmem := (hpreds u).mpr hu
    rw [hus] at hmem
    rcases List.mem_cons.mp hmem with rfl | hmem
    · exact le_rfl
    · exact ((List.pairwise_cons.mp hsorted).1 u hmem).le
  · intro hfirst
    have hin := (hpreds root).mpr hfirst.1
    cases hp : t.m_parents with
    | nil =>
      rw [hp] at hin
      cases hin
    | cons u us =>
      have hle := hfirst.2 u ((hpreds u).mp (hp ▸ List.mem_cons_self ..))
      rw [hp] at hin hsorted
      rcases List.mem_cons.mp hin with rfl | hmem
      · rfl
      · have hlt := (List.pairwise_cons.mp hsorted).1 root hmem
        omega

theorem Expanding.start (hdb : WellFormed db) {lsa : GlobalRoutingLSA}
    (hroot : getLSA db root = some lsa) (hrouter : lsa.m_lsType = .routerLSA) :
    Expanding db addr root [] ((SPFVertex.ofLsa lsa).setDistanceFromRoot 0)
      (SpfState.setStatus ⟨fun _ => .notExplored, []⟩ root .inSpftree) := by
  obtain rfl := hdb.id_of_getLSA hroot
  have htree : ([] ++ [(SPFVertex.ofLsa lsa).setDistanceFromRoot 0]).map label =
      [⟨lsa.m_linkStateId, 0, []⟩] := rfl
  have hmade : MadeFrom db ((SPFVertex.ofLsa lsa).setDistanceFromRoot 0) :=
    have hof := MadeFrom.ofLsa hroot (Or.inl hrouter)
    ⟨hof.lsa, hof.kind⟩
  have hin : ∀ id, InTree [(⟨lsa.m_linkStateId, 0, []⟩ : Label ℕ)] id ↔
      id = lsa.m_linkStateId := by
    intro id
    constructor
    · rintro ⟨t, ht, rfl⟩
      rw [List.mem_singleton.mp ht]
    · rintro rfl
      exact ⟨_, List.mem_singleton_self _, rfl⟩
  constructor
  · rw [htree]
    exact settled_root fun u w => hdb.rank_lt
  · rw [htree]
    constructor
    · refine ⟨List.nodup_nil, ?_, ?_, ?_, ?_, ?_⟩
      · exact fun c hc => absurd hc List.not_mem_nil
      · exact fun c hc => absurd hc List.not_mem_nil
      · exact fun c hc => absurd hc List.not_mem_nil
      · exact fun c hc => absurd hc List.not_mem_nil
      · rintro u w n ⟨t, ht, -⟩
        cases ht
    · intro id
      rw [hin id]
      change (if id = lsa.m_linkStateId then SPFStatus.inSpftree else .notExplored) = _ ↔ _
      split_ifs with hid <;> simp [hid]
    · intro id
      change (if id = lsa.m_linkStateId then SPFStatus.inSpftree else .notExplored) = _ ↔ _
      split_ifs <;> simp [SpfState.setStatus]
    · exact fun c hc => absurd hc List.not_mem_nil
    · exact List.Pairwise.nil
    · exact fun c hc => absurd hc List.not_mem_nil
  · intro t ht
    obtain rfl := List.mem_singleton.mp ht
    exact hmade
  · intro t ht
    obtain rfl := List.mem_singleton.mp ht
    exact List.Pairwise.nil
  · exact fun w n _ _ => Nat.zero_le n
  · exact fun t ht => absurd ht List.not_mem_nil
  · exact fun _ => ⟨rfl, rfl⟩
  · intro t ht _
    obtain rfl := List.mem_singleton.mp ht
    simp only [SPFVertex.setDistanceFromRoot, SPFVertex.ofLsa, hrouter]

/-- The first candidate goes into the tree. -/
theorem Expanding.pop (hdb : WellFormed db) (h : Expanding db addr root pre v st)
    {c : SPFVertex} {q : List SPFVertex}
    (ht : Tracks db addr (offersOf (Edge db) ((pre ++ [v]).map label))
      (InTree ((pre ++ [v]).map label)) st') (hq : st'.candidate = c :: q) :
    Expanding db addr root (pre ++ [v]) c
      ({ st' with candidate := q }.setStatus c.m_vertexId .inSpftree) := by
  have hfree : ∀ u w, Edge db u w 0 → vertexRank db u < vertexRank db w := fun u w => hdb.rank_lt
  have hfront := ht.frontier
  have hsorted := ht.sorted
  have hmade := ht.made
  rw [hq] at hfront hsorted hmade
  obtain ⟨hbehind, hsorted'⟩ := List.pairwise_cons.mp hsorted
  have hcmem : label c ∈ (c :: q).map label := List.mem_map_of_mem (List.mem_cons_self ..)
  have hcT := hfront.fresh _ hcmem
  have hfirst : IsFirst (vertexRank db) ((c :: q).map label) (label c) := by
    intro l hl
    obtain ⟨x, hx, rfl⟩ := List.mem_map.mp hl
    have hcx := hmade c (List.mem_cons_self ..)
    have hxx := hmade x hx
    rw [label_id, label_id, ← hcx.rank, ← hxx.rank]
    rcases List.mem_cons.mp hx with rfl | hx
    · exact Or.inr ⟨rfl, le_rfl⟩
    · exact hbehind x hx
  have hgrow : (fun w => InTree ((pre ++ [v]).map label) w ∨ w = c.m_vertexId) =
      InTree ((pre ++ [v] ++ [c]).map label) := by
    ext w
    have hsplit : (pre ++ [v] ++ [c]).map label = (pre ++ [v]).map label ++ [label c] :=
      List.map_append
    rw [hsplit, inTree_append]
    rfl
  have hin : ∀ w, InTree ((pre ++ [v] ++ [c]).map label) w ↔
      InTree ((pre ++ [v]).map label) w ∨ w = c.m_vertexId :=
    fun w => (congrFun hgrow w).symm.to_iff
  have hclear : ∀ x ∈ q, x.m_vertexId ≠ c.m_vertexId := by
    intro x hx heq
    have hnd := hfront.nodup
    rw [map_id_label, List.map_cons, List.nodup_cons] at hnd
    exact hnd.1 (heq ▸ List.mem_map_of_mem hx)
  constructor
  · rw [List.map_append, List.map_singleton]
    exact h.tree.pop hfree hfront hcmem hfirst
  · constructor
    · rw [← hgrow]
      exact hfront.settle
    · intro id
      rw [hin id, ← ht.settled id]
      change (if id = c.m_vertexId then SPFStatus.inSpftree else st'.status id) = _ ↔ _
      split_ifs with hid
      · exact ⟨fun _ => Or.inr hid, fun _ => rfl⟩
      · exact ⟨Or.inl, fun hs => hs.resolve_right hid⟩
    · intro id
      change (if id = c.m_vertexId then SPFStatus.inSpftree else st'.status id) = _ ↔
        ∃ x ∈ q, x.m_vertexId = id
      split_ifs with hid
      · constructor
        · intro hs
          cases hs
        · rintro ⟨x, hx, rfl⟩
          exact absurd hid (hclear x hx)
      · rw [ht.waiting id, hq]
        constructor
        · rintro ⟨x, hx, rfl⟩
          rcases List.mem_cons.mp hx with rfl | hx
          · exact absurd rfl hid
          · exact ⟨x, hx, rfl⟩
        · rintro ⟨x, hx, rfl⟩
          exact ⟨x, List.mem_cons_of_mem _ hx, rfl⟩
    · exact fun x hx => hmade x (List.mem_cons_of_mem _ hx)
    · exact hsorted'
    · exact fun x hx => ht.parents x (hq ▸ List.mem_cons_of_mem _ hx)
  · intro t htm
    rcases List.mem_append.mp htm with htm | htm
    · exact h.made t htm
    · obtain rfl := List.mem_singleton.mp htm
      exact hmade t (List.mem_cons_self ..)
  · intro t htm
    rcases List.mem_append.mp htm with htm | htm
    · exact h.parents t htm
    · obtain rfl := List.mem_singleton.mp htm
      exact ht.parents t (hq ▸ List.mem_cons_self ..)
  · intro w n hw hwalk
    rw [hin w, not_or] at hw
    exact h.tree.le_of_first hfree hfront hfirst hwalk hw.1
  · intro t htm hpred
    -- a vertex of the tree has all vertices before it in the tree
    have htl : label t ∈ (pre ++ [v]).map label := List.mem_map_of_mem htm
    exact hcT (h.tree.above _ htl _ ((h.tree.preds _ htl _).mpr hpred))
  · intro hroot
    refine absurd ⟨_, h.tree.start, ?_⟩ hcT
    exact hroot.symm
  · intro t htm hroot
    rcases List.mem_append.mp htm with htm | htm
    · exact h.rooted t htm hroot
    · obtain rfl := List.mem_singleton.mp htm
      refine absurd ⟨_, h.tree.start, ?_⟩ hcT
      exact hroot.symm

end Tree

end Ns3.Internet
