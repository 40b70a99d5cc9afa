import Ns3.Internet.RootExits

/-!
# The shortest path calculation

Where the next hops are found (`ExitsFound`) the calculation ends with the tree of the shortest
paths, and elsewhere it does not end.
-/

namespace Ns3.Internet

open Ns3.Lib GlobalRouteManagerLSDB

/-- The calculation asks for the exit of the network `v`: on the way to a router behind it, which
names the network where the root is its first parent. -/
def Asked (db : GlobalRouteManagerLSDB) (addr : ℕ → ℕ) (root v : ℕ) : Prop :=
  ∃ lsa w w_lsa, getLSA db v = some lsa ∧ lsa.m_lsType = .networkLSA ∧
    IsPred (Edge db) root v w ∧ getLSA db w = some w_lsa ∧
      (FirstParent db addr root v → recordsTo w_lsa v ≠ [])

section Calculation

variable {db : GlobalRouteManagerLSDB} {addr : ℕ → ℕ} {node : Option Ipv4InterfaceList}
  {root fuel : ℕ} {v : SPFVertex} {st st' : SpfState} {pre : List SPFVertex}

/-- The tree never outgrows the database. -/
theorem Expanding.length_le (h : Expanding db addr root pre v st) :
    (pre ++ [v]).length ≤ db.length := by
  have hnd := h.tree.nodup
  rw [map_id_label] at hnd
  have hsub : (pre ++ [v]).map SPFVertex.m_vertexId ⊆ db.map Prod.fst := by
    intro id hid
    obtain ⟨t, ht, rfl⟩ := List.mem_map.mp hid
    exact List.mem_map_of_mem (getLSA_mem (h.made t ht).lsa)
  have hle := (List.subperm_of_subset hnd hsub).length_le
  rwa [List.length_map, List.length_map] at hle

/-- A tree whose vertices all passed. -/
structure AllPassed (db : GlobalRouteManagerLSDB) (addr : ℕ → ℕ)
    (node : Option Ipv4InterfaceList) (root : ℕ) (pre : List SPFVertex) (v : SPFVertex)
    (st : SpfState) : Prop where
  expanding : Expanding db addr root pre v st
  known : ExitsKnown db addr node root pre v st
  shortest : ShortestTree (Edge db) root ((pre ++ [v]).map label)
  passed : ∀ t ∈ pre ++ [v], Passed db root t

theorem AllPassed.vertex (h : AllPassed db addr node root pre v st) {u n : ℕ}
    (hw : Walk (Edge db) root u n) : ∃ t ∈ pre ++ [v], t.m_vertexId = u := by
  obtain ⟨l, hl, rfl⟩ := (h.shortest.reached u).mpr ⟨n, hw⟩
  obtain ⟨t, ht, rfl⟩ := List.mem_map.mp hl
  exact ⟨t, ht, rfl⟩

/-- A vertex behind a network was considered when the network was expanded. -/
theorem AllPassed.network (hdb : WellFormed db) (h : AllPassed db addr node root pre v st)
    {t : SPFVertex} (ht : t ∈ pre ++ [v]) (htype : t.m_vertexType = .vertexNetwork) {w : ℕ}
    {w_lsa : GlobalRoutingLSA} (hpred : IsPred (Edge db) root t.m_vertexId w)
    (hw : getLSA db w = some w_lsa) : t.m_vertexId ≠ root ∧ HopsFound root t w_lsa := by
  have hne : t.m_vertexId ≠ root := by
    intro hroot
    rw [h.expanding.rooted t ht hroot] at htype
    cases htype
  obtain ⟨d, k, hd, hedge, hdk⟩ := hpred
  obtain ⟨x, l, hx, hxl, rfl⟩ := hdb.target_of_edge (h.expanding.made t ht).lsa hedge
  obtain rfl := Option.some.inj (hw.symm.trans hx)
  obtain rfl := hdb.id_of_getLSA hw
  refine ⟨hne, h.passed t ht (w_lsa, l) hxl ?_ (Or.inr ⟨d, _, hd, hedge, hdk⟩)⟩
  intro hwr
  change w_lsa.m_linkStateId = root at hwr
  rw [hwr] at hdk hedge
  have hzero := hdk.2 0 .nil
  have hk : linkCost l = 0 := by omega
  have hd0 : d = 0 := by omega
  rw [hk] at hedge
  have hfree : ∀ u w, Edge db u w 0 → vertexRank db u < vertexRank db w :=
    fun u w => hdb.rank_lt
  rcases hd.1.rank_of_zero hfree hd0 with hr | hlt
  · exact hne hr
  · exact absurd (hdb.rank_lt hedge) (by omega)

/-- A network that was asked for its exit has one. -/
theorem AllPassed.one (hdb : WellFormed db) (h : AllPassed db addr node root pre v st) {u : ℕ}
    (hu : Asked db addr root u) :
    ∃ t ∈ pre ++ [v], t.m_vertexId = u ∧ t.m_vertexId ≠ root ∧
      ∃ exit, t.m_ecmpRootExits = [exit] := by
  obtain ⟨lsa, w, w_lsa, hlsa, hnet, hpred, hw, hnamed⟩ := hu
  have ⟨d, k, hd, _, _⟩ := hpred
  obtain ⟨t, ht, rfl⟩ := h.vertex hd.1
  obtain rfl := Option.some.inj ((h.expanding.made t ht).lsa.symm.trans hlsa)
  have htype : t.m_vertexType = .vertexNetwork := by
    rcases (h.expanding.made t ht).kind with ⟨-, hr⟩ | ⟨hn, -⟩
    · rw [hnet] at hr
      cases hr
    · exact hn
  obtain ⟨hne, hops⟩ := h.network hdb ht htype hpred hw
  unfold HopsFound at hops
  rw [if_neg hne] at hops
  have hone := (hops htype).2 fun hparent => hnamed ((h.expanding.getParent_iff ht).mp hparent)
  exact ⟨t, ht, rfl, hne, List.length_eq_one_iff.mp hone⟩

end Calculation

/-- The routers 1 and 2 on a LAN and with a longer link of their own, and the routers 2 and 3 on
another LAN. -/
def lanBehindLan : GlobalRouteManagerLSDB :=
  [(1, ⟨.routerLSA, 1, [⟨10, 101, .transitNetwork, 1⟩, ⟨2, 201, .pointToPoint, 5⟩], [], 0⟩),
    (2, ⟨.routerLSA, 2, [⟨10, 102, .transitNetwork, 1⟩, ⟨1, 202, .pointToPoint, 5⟩,
      ⟨20, 302, .transitNetwork, 1⟩], [], 0⟩),
    (3, ⟨.routerLSA, 3, [⟨20, 303, .transitNetwork, 1⟩], [], 0⟩),
    (10, ⟨.networkLSA, 10, [], [101, 102], 0xffffff00⟩),
    (20, ⟨.networkLSA, 20, [], [302, 303], 0xffffff00⟩)]

namespace lanBehindLan

/-- The edges with their ends and costs. -/
def edges : List (ℕ × ℕ × ℕ) :=
  [(1, 10, 1), (1, 2, 5), (2, 10, 1), (2, 1, 5), (2, 20, 1), (3, 20, 1), (10, 1, 0), (10, 2, 0),
    (20, 2, 0), (20, 3, 0)]

/-- The distances from the router 1. -/
def dist (u : ℕ) : ℕ := if u = 1 then 0 else if u = 10 ∨ u = 2 then 1 else 2

theorem mem_edges {u w k : ℕ} (h : Edge lanBehindLan u w k) : (u, w, k) ∈ edges := by
  have hlinks : ∀ i ∈ lanBehindLan, ∀ l ∈ i.2.m_linkRecords,
      (i.1, l.m_linkId, l.m_metric) ∈ edges := by decide
  have hattached : ∀ i ∈ lanBehindLan, ∀ a ∈ i.2.m_attachedRouters, ∀ j ∈ lanBehindLan,
      hasLinkData j.2 a = true → (i.1, j.1, 0) ∈ edges := by decide
  cases h with
  | link hu _ hl _ => exact hlinks _ (getLSA_mem hu) _ hl
  | attached hu _ ha hw _ hwa => exact hattached _ (getLSA_mem hu) _ ha _ (getLSA_mem hw) hwa

/-- The edges of the shortest paths. -/
theorem tree_edges : Edge lanBehindLan 1 10 1 ∧ Edge lanBehindLan 10 2 0 ∧
    Edge lanBehindLan 2 20 1 ∧ Edge lanBehindLan 20 3 0 := by
  refine ⟨?_, ?_, ?_, ?_⟩
  · exact Edge.link (u := 1) (l := ⟨10, 101, .transitNetwork, 1⟩) rfl rfl (by decide) (by decide)
  · exact Edge.attached (u := 10) (w := 2) (a := 102) rfl rfl (by decide) rfl rfl rfl
  · exact Edge.link (u := 2) (l := ⟨20, 302, .transitNetwork, 1⟩) rfl rfl (by decide) (by decide)
  · exact Edge.attached (u := 20) (w := 3) (a := 303) rfl rfl (by decide) rfl rfl rfl

theorem isDist_iff {u n : ℕ} (hu : u ∈ [1, 2, 3, 10, 20]) :
    IsDist (Edge lanBehindLan) 1 u n ↔ n = dist u := by
  have hbound : ∀ u w k, Edge lanBehindLan u w k → dist w ≤ dist u + k := by
    intro u w k he
    have hall : ∀ t ∈ edges, dist t.2.1 ≤ dist t.1 + t.2.2 := by decide
    exact hall _ (mem_edges he)
  have hwalk : Walk (Edge lanBehindLan) 1 u (dist u) := by
    obtain ⟨h10, h2, h20, h3⟩ := tree_edges
    simp only [List.mem_cons, List.not_mem_nil, or_false] at hu
    rcases hu with rfl | rfl | rfl | rfl | rfl
    · exact .nil
    · exact .snoc (.snoc .nil h10) h2
    · exact .snoc (.snoc (.snoc (.snoc .nil h10) h2) h20) h3
    · exact .snoc .nil h10
    · exact .snoc (.snoc (.snoc .nil h10) h2) h20
  have hdist : IsDist (Edge lanBehindLan) 1 u (dist u) :=
    ⟨hwalk, fun n hn => hn.le_of_edges rfl hbound⟩
  exact ⟨fun h => h.unique hdist, fun h => h ▸ hdist⟩

/-- The vertices before a vertex. -/
theorem isPred_iff {u w : ℕ} :
    IsPred (Edge lanBehindLan) 1 u w ↔ (u, w) ∈ [(1, 10), (10, 2), (2, 20), (20, 3)] := by
  constructor
  · rintro ⟨d, k, hd, he, hdk⟩
    have hall : ∀ t ∈ edges, t.1 ∈ [1, 2, 3, 10, 20] ∧ t.2.1 ∈ [1, 2, 3, 10, 20] ∧
        (dist t.2.1 = dist t.1 + t.2.2 →
          (t.1, t.2.1) ∈ [(1, 10), (10, 2), (2, 20), (20, 3)]) := by decide
    obtain ⟨hu, hw, hpred⟩ := hall _ (mem_edges he)
    rw [isDist_iff hu] at hd
    rw [isDist_iff hw, hd] at hdk
    exact hpred hdk.symm
  · obtain ⟨h10, h2, h20, h3⟩ := tree_edges
    have hpred : ∀ {u w k}, u ∈ [1, 2, 3, 10, 20] → w ∈ [1, 2, 3, 10, 20] →
        Edge lanBehindLan u w k → dist u + k = dist w → IsPred (Edge lanBehindLan) 1 u w :=
      fun hu hw he hk => ⟨_, _, (isDist_iff hu).mpr rfl, he, (isDist_iff hw).mpr hk⟩
    intro h
    simp only [List.mem_cons, List.not_mem_nil, or_false, Prod.mk.injEq] at h
    rcases h with ⟨rfl, rfl⟩ | ⟨rfl, rfl⟩ | ⟨rfl, rfl⟩ | ⟨rfl, rfl⟩
    · exact hpred (by decide) (by decide) h10 rfl
    · exact hpred (by decide) (by decide) h2 rfl
    · exact hpred (by decide) (by decide) h20 rfl
    · exact hpred (by decide) (by decide) h3 rfl

theorem nextToRoot_iff {v : ℕ} : NextToRoot lanBehindLan id 1 v ↔ v = 10 := by
  constructor
  · rintro ⟨-, hfirst, -⟩
    rw [isPred_iff] at hfirst
    simpa using hfirst
  · rintro rfl
    refine ⟨⟨_, rfl, rfl⟩, ?_, ?_⟩
    · rw [isPred_iff]
      decide
    · intro u hu
      rw [isPred_iff] at hu
      simp at hu
      rw [hu]

variable {node : Option Ipv4InterfaceList} {e : NodeExit}

end lanBehindLan

end Ns3.Internet
