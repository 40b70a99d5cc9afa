import Ns3.Internet.GlobalRouteManager
import Ns3.Lib.ShortestPaths

/-!
# The graph of a link state database

What a well formed database is, its graph, and the neighbours that `SPFNext` considers. The next hop
calculation ends for the vertices of `HopsFound` and for no others, and hands on `exitsThrough`.
-/

namespace Ns3.Internet

open Ns3.Lib GlobalRouteManagerLSDB

/-- A record of a link to a router or to a transit network. -/
def GlobalRoutingLinkRecord.IsTransit (l : GlobalRoutingLinkRecord) : Prop :=
  l.m_linkType = .pointToPoint ∨ l.m_linkType = .transitNetwork

instance (l : GlobalRoutingLinkRecord) : Decidable l.IsTransit :=
  inferInstanceAs (Decidable (_ ∨ _))

/-- A router or network LSA. -/
def GlobalRoutingLSA.IsVertex (lsa : GlobalRoutingLSA) : Prop :=
  lsa.m_lsType = .routerLSA ∨ lsa.m_lsType = .networkLSA

instance (lsa : GlobalRoutingLSA) : Decidable lsa.IsVertex :=
  inferInstanceAs (Decidable (_ ∨ _))

/-- The ids are unique, the links lead to vertices at a cost, and each attached router address
belongs to one router LSA. -/
structure WellFormed (db : GlobalRouteManagerLSDB) : Prop where
  keys : ∀ i ∈ db, i.1 = i.2.m_linkStateId
  nodup : (db.map Prod.fst).Nodup
  legal : ∀ i ∈ db, ∀ l ∈ i.2.m_linkRecords, l.IsTransit ∨ l.m_linkType = .stubNetwork
  named : ∀ i ∈ db, ∀ l ∈ i.2.m_linkRecords, l.IsTransit →
    ∃ j ∈ db, j.1 = l.m_linkId ∧ j.2.IsVertex
  attached : ∀ i ∈ db, i.2.m_lsType = .networkLSA → ∀ a ∈ i.2.m_attachedRouters,
    ∃ j ∈ db, j.2.m_lsType = .routerLSA ∧ hasLinkData j.2 a = true ∧
      ∀ j' ∈ db, hasLinkData j'.2 a = true → j' = j
  metric : ∀ i ∈ db, ∀ l ∈ i.2.m_linkRecords, l.IsTransit → 1 ≤ l.m_metric

instance (db : GlobalRouteManagerLSDB) : Decidable (WellFormed db) :=
  decidable_of_iff
    ((∀ i ∈ db, i.1 = i.2.m_linkStateId) ∧ (db.map Prod.fst).Nodup ∧
      (∀ i ∈ db, ∀ l ∈ i.2.m_linkRecords, l.IsTransit ∨ l.m_linkType = .stubNetwork) ∧
      (∀ i ∈ db, ∀ l ∈ i.2.m_linkRecords, l.IsTransit →
        ∃ j ∈ db, j.1 = l.m_linkId ∧ j.2.IsVertex) ∧
      (∀ i ∈ db, i.2.m_lsType = .networkLSA → ∀ a ∈ i.2.m_attachedRouters,
        ∃ j ∈ db, j.2.m_lsType = .routerLSA ∧ hasLinkData j.2 a = true ∧
          ∀ j' ∈ db, hasLinkData j'.2 a = true → j' = j) ∧
      ∀ i ∈ db, ∀ l ∈ i.2.m_linkRecords, l.IsTransit → 1 ≤ l.m_metric)
    ⟨fun ⟨h₁, h₂, h₃, h₄, h₅, h₆⟩ => ⟨h₁, h₂, h₃, h₄, h₅, h₆⟩,
      fun h => ⟨h.keys, h.nodup, h.legal, h.named, h.attached, h.metric⟩⟩

/-- From a router to a neighbour at the metric of the link, from a network to an attached router
for free. -/
inductive Edge (db : GlobalRouteManagerLSDB) : ℕ → ℕ → ℕ → Prop
  | link {u : ℕ} {lsa : GlobalRoutingLSA} {l : GlobalRoutingLinkRecord} :
      getLSA db u = some lsa → lsa.m_lsType = .routerLSA → l ∈ lsa.m_linkRecords → l.IsTransit →
        Edge db u l.m_linkId l.m_metric
  | attached {u w a : ℕ} {lsa wlsa : GlobalRoutingLSA} :
      getLSA db u = some lsa → lsa.m_lsType = .networkLSA → a ∈ lsa.m_attachedRouters →
        getLSA db w = some wlsa → wlsa.m_lsType = .routerLSA → hasLinkData wlsa a = true →
          Edge db u w 0

/-- The edges with the link records of the routers. -/
inductive Hop (db : GlobalRouteManagerLSDB) : ℕ → ℕ → Option GlobalRoutingLinkRecord → Prop
  | link {u : ℕ} {lsa : GlobalRoutingLSA} {l : GlobalRoutingLinkRecord} :
      getLSA db u = some lsa → lsa.m_lsType = .routerLSA → l ∈ lsa.m_linkRecords → l.IsTransit →
        Hop db u l.m_linkId (some l)
  | attached {u w a : ℕ} {lsa wlsa : GlobalRoutingLSA} :
      getLSA db u = some lsa → lsa.m_lsType = .networkLSA → a ∈ lsa.m_attachedRouters →
        getLSA db w = some wlsa → wlsa.m_lsType = .routerLSA → hasLinkData wlsa a = true →
          Hop db u w none

theorem edge_iff {db : GlobalRouteManagerLSDB} {u w k : ℕ} :
    Edge db u w k ↔ ∃ l, Hop db u w l ∧ k = linkCost l := by
  constructor
  · intro h
    cases h with
    | link hu ht hl htr => exact ⟨_, .link hu ht hl htr, rfl⟩
    | attached hu ht ha hw hwt hwa => exact ⟨_, .attached hu ht ha hw hwt hwa, rfl⟩
  · rintro ⟨l, h, rfl⟩
    cases h with
    | link hu ht hl htr => exact .link hu ht hl htr
    | attached hu ht ha hw hwt hwa => exact .attached hu ht ha hw hwt hwa

theorem Hop.edge {db : GlobalRouteManagerLSDB} {u w : ℕ} {l : Option GlobalRoutingLinkRecord}
    (h : Hop db u w l) : Edge db u w (linkCost l) :=
  edge_iff.mpr ⟨l, h, rfl⟩

/-- Networks are ranked before routers. -/
def vertexRank (db : GlobalRouteManagerLSDB) (u : ℕ) : ℕ :=
  match getLSA db u with
  | none => 1
  | some lsa => if lsa.m_lsType = .networkLSA then 0 else 1

/-! ## Look-ups -/

section Lookup

variable {db : GlobalRouteManagerLSDB} {lsa w_lsa : GlobalRoutingLSA} {u a : ℕ}

theorem getLSA_mem (h : getLSA db u = some lsa) : (u, lsa) ∈ db := by
  unfold getLSA at h
  obtain ⟨i, hi, rfl⟩ := Option.map_eq_some_iff.mp h
  have hu : i.1 = u := by simpa using List.find?_some hi
  rw [← hu]
  exact List.mem_of_find?_eq_some hi

theorem WellFormed.getLSA_of_mem (hdb : WellFormed db) {i : ℕ × GlobalRoutingLSA} (hi : i ∈ db) :
    getLSA db i.1 = some i.2 := by
  unfold getLSA
  cases hf : db.find? fun j => j.1 = i.1 with
  | none =>
    have hnone := List.find?_eq_none.mp hf i hi
    simp at hnone
  | some j =>
    have hj := List.mem_of_find?_eq_some hf
    have hij : j.1 = i.1 := by simpa using List.find?_some hf
    rw [List.inj_on_of_nodup_map hdb.nodup hj hi hij]
    rfl

theorem WellFormed.id_of_getLSA (hdb : WellFormed db) (h : getLSA db u = some lsa) :
    lsa.m_linkStateId = u :=
  (hdb.keys _ (getLSA_mem h)).symm

theorem WellFormed.exists_named (hdb : WellFormed db) (h : (u, lsa) ∈ db)
    {l : GlobalRoutingLinkRecord} (hl : l ∈ lsa.m_linkRecords) (ht : l.IsTransit) :
    ∃ w_lsa, getLSA db l.m_linkId = some w_lsa ∧ w_lsa.IsVertex := by
  obtain ⟨j, hj, hid, hv⟩ := hdb.named _ h l hl ht
  exact ⟨j.2, hid ▸ hdb.getLSA_of_mem hj, hv⟩

theorem WellFormed.exists_attached (hdb : WellFormed db) (h : getLSA db u = some lsa)
    (ht : lsa.m_lsType = .networkLSA) (ha : a ∈ lsa.m_attachedRouters) :
    ∃ w_lsa, getLSAByLinkData db a = some w_lsa ∧
      getLSA db w_lsa.m_linkStateId = some w_lsa ∧ w_lsa.m_lsType = .routerLSA ∧
        hasLinkData w_lsa a = true := by
  obtain ⟨j, hj, hjt, hja, hone⟩ := hdb.attached _ (getLSA_mem h) ht a ha
  refine ⟨j.2, ?_, ?_, hjt, hja⟩
  · unfold getLSAByLinkData
    cases hf : db.find? fun i => hasLinkData i.2 a with
    | none =>
      have hnone := List.find?_eq_none.mp hf j hj
      exact absurd hja (by simpa using hnone)
    | some i =>
      have hi := List.mem_of_find?_eq_some hf
      have hia : hasLinkData i.2 a = true := by simpa using List.find?_some hf
      rw [hone i hi hia]
      rfl
  · rw [← hdb.keys j hj]
    exact hdb.getLSA_of_mem hj

/-- A free edge leads from a network to a router. -/
theorem WellFormed.rank_lt (hdb : WellFormed db) {w : ℕ} (h : Edge db u w 0) :
    vertexRank db u < vertexRank db w := by
  generalize hk : 0 = k at h
  cases h with
  | link hu _ hl ht =>
    have hpos := hdb.metric _ (getLSA_mem hu) _ hl ht
    omega
  | attached hu hut _ hw hwt _ =>
    unfold vertexRank
    rw [hu, hw]
    simp [hut, hwt]

end Lookup

/-! ## The neighbours -/

/-- An LSA that `SPFNext` considers, with the link of a router to it. -/
abbrev Target := GlobalRoutingLSA × Option GlobalRoutingLinkRecord

/-- The LSAs that `SPFNext` considers. -/
def targets (db : GlobalRouteManagerLSDB) (lsa : GlobalRoutingLSA) : List Target :=
  match lsa.m_lsType with
  | .routerLSA => lsa.m_linkRecords.filterMap fun l =>
    if l.IsTransit then (getLSA db l.m_linkId).map fun w_lsa => (w_lsa, some l) else none
  | .networkLSA => lsa.m_attachedRouters.filterMap fun a =>
    (getLSAByLinkData db a).map fun w_lsa => (w_lsa, none)
  | _ => []

/-- A vertex of the database. -/
structure MadeFrom (db : GlobalRouteManagerLSDB) (v : SPFVertex) : Prop where
  lsa : getLSA db v.m_vertexId = some v.m_lsa
  kind : v.m_vertexType = .vertexRouter ∧ v.m_lsa.m_lsType = .routerLSA ∨
    v.m_vertexType = .vertexNetwork ∧ v.m_lsa.m_lsType = .networkLSA

section Targets

variable {db : GlobalRouteManagerLSDB} {lsa w_lsa : GlobalRoutingLSA} {v : SPFVertex}
  {l : Option GlobalRoutingLinkRecord}

theorem MadeFrom.known (h : MadeFrom db v) : v.Known := by
  unfold SPFVertex.Known
  rcases h.kind with ⟨ht, -⟩ | ⟨ht, -⟩ <;> simp [ht]

theorem MadeFrom.rank (h : MadeFrom db v) : v.m_vertexType.rank = vertexRank db v.m_vertexId := by
  unfold vertexRank
  rw [h.lsa]
  rcases h.kind with ⟨ht, hl⟩ | ⟨ht, hl⟩ <;> simp [ht, hl, VertexType.rank]

theorem MadeFrom.ofLsa (h : getLSA db w_lsa.m_linkStateId = some w_lsa)
    (hw : w_lsa.IsVertex) : MadeFrom db (.ofLsa w_lsa) := by
  refine ⟨h, ?_⟩
  rcases hw with hw | hw <;> simp [SPFVertex.ofLsa, hw]

/-- The neighbours are those of the graph. -/
theorem WellFormed.mem_targets (hdb : WellFormed db) {u : ℕ} (hu : getLSA db u = some lsa) :
    (w_lsa, l) ∈ targets db lsa ↔
      getLSA db w_lsa.m_linkStateId = some w_lsa ∧ Hop db u w_lsa.m_linkStateId l := by
  unfold targets
  constructor
  · intro h
    split at h
    · rename_i ht
      obtain ⟨l, hl, hlw⟩ := List.mem_filterMap.mp h
      split_ifs at hlw with htr
      obtain ⟨x, hx, hxw⟩ := Option.map_eq_some_iff.mp hlw
      obtain ⟨rfl, rfl⟩ := Prod.mk.inj hxw
      have hid := hdb.id_of_getLSA hx
      rw [hid]
      exact ⟨hx, .link hu ht hl htr⟩
    · rename_i ht
      obtain ⟨a, ha, haw⟩ := List.mem_filterMap.mp h
      obtain ⟨x, hx, hxw⟩ := Option.map_eq_some_iff.mp haw
      obtain ⟨rfl, rfl⟩ := Prod.mk.inj hxw
      obtain ⟨y, hy, hyid, hyt, hya⟩ := hdb.exists_attached hu ht ha
      obtain rfl : x = y := Option.some.inj (hx.symm.trans hy)
      exact ⟨hyid, .attached hu ht ha hyid hyt hya⟩
    · cases h
  · rintro ⟨hw, he⟩
    generalize hid : w_lsa.m_linkStateId = w at hw he
    cases he with
    | @link lsa' l hu' ht hl htr =>
      obtain rfl : lsa = lsa' := Option.some.inj (hu.symm.trans hu')
      rw [ht]
      refine List.mem_filterMap.mpr ⟨l, hl, ?_⟩
      rw [if_pos htr, hw]
      rfl
    | @attached _ a lsa' wlsa hu' ht ha hw' hwt hwa =>
      obtain rfl : lsa = lsa' := Option.some.inj (hu.symm.trans hu')
      obtain rfl : w_lsa = wlsa := Option.some.inj (hw.symm.trans hw')
      rw [ht]
      refine List.mem_filterMap.mpr ⟨a, ha, ?_⟩
      obtain ⟨j, hj, _, _, hone⟩ := hdb.attached _ (getLSA_mem hu) ht a ha
      obtain ⟨y, hy, hyid, _, hya⟩ := hdb.exists_attached hu ht ha
      have h1 := hone _ (getLSA_mem hw) hwa
      have h2 := hone _ (getLSA_mem hyid) hya
      obtain rfl : w_lsa = y := congrArg Prod.snd (h1.trans h2.symm)
      rw [hy]
      rfl

/-- An edge leads to a neighbour that is considered. -/
theorem WellFormed.target_of_edge (hdb : WellFormed db) {u w k : ℕ} (hu : getLSA db u = some lsa)
    (h : Edge db u w k) :
    ∃ w_lsa l, getLSA db w = some w_lsa ∧ (w_lsa, l) ∈ targets db lsa ∧ k = linkCost l := by
  obtain ⟨l, hop, rfl⟩ := edge_iff.mp h
  have hw : ∃ w_lsa, getLSA db w = some w_lsa := by
    cases hop with
    | link hu' _ hl htr =>
      obtain ⟨x, hx, -⟩ := hdb.exists_named (getLSA_mem hu') hl htr
      exact ⟨x, hx⟩
    | attached _ _ _ hw => exact ⟨_, hw⟩
  obtain ⟨w_lsa, hw⟩ := hw
  obtain rfl := hdb.id_of_getLSA hw
  exact ⟨w_lsa, l, hw, (hdb.mem_targets hu).mpr ⟨hw, hop⟩, rfl⟩

theorem WellFormed.targets_isVertex (hdb : WellFormed db) {u : ℕ} (hu : getLSA db u = some lsa)
    (h : (w_lsa, l) ∈ targets db lsa) : w_lsa.IsVertex := by
  obtain ⟨hw, he⟩ := (hdb.mem_targets hu).mp h
  generalize hid : w_lsa.m_linkStateId = w at hw he
  cases he with
  | link hu' ht hl htr =>
    obtain ⟨x, hx, hxv⟩ := hdb.exists_named (getLSA_mem hu') hl htr
    obtain rfl : w_lsa = x := Option.some.inj (hw.symm.trans hx)
    exact hxv
  | attached hu' ht ha hw' hwt hwa =>
    obtain rfl := Option.some.inj (hw.symm.trans hw')
    exact Or.inl hwt

/-- From a router there is a link, and from a network there are routers. -/
theorem WellFormed.targets_shape (hdb : WellFormed db) (hv : MadeFrom db v)
    (h : (w_lsa, l) ∈ targets db v.m_lsa) :
    v.m_vertexType = .vertexRouter ∧ l ≠ none ∨
      v.m_vertexType = .vertexNetwork ∧ w_lsa.m_lsType = .routerLSA ∧ l = none := by
  obtain ⟨hw, he⟩ := (hdb.mem_targets hv.lsa).mp h
  generalize hid : w_lsa.m_linkStateId = w at hw he
  cases he with
  | link hu ht _ _ =>
    obtain rfl := Option.some.inj (hv.lsa.symm.trans hu)
    rcases hv.kind with ⟨htype, -⟩ | ⟨-, hnet⟩
    · exact Or.inl ⟨htype, Option.some_ne_none _⟩
    · rw [ht] at hnet
      cases hnet
  | attached hu ht _ hw' hwt _ =>
    obtain rfl := Option.some.inj (hv.lsa.symm.trans hu)
    obtain rfl := Option.some.inj (hw.symm.trans hw')
    rcases hv.kind with ⟨-, hrouter⟩ | ⟨htype, -⟩
    · rw [ht] at hrouter
      cases hrouter
    · exact Or.inr ⟨htype, hwt, rfl⟩

variable {addr : ℕ → ℕ} {node : Option Ipv4InterfaceList} {root fuel : ℕ}

end Targets

/-! ## The next hops -/

/-- The link records of `lsa` that name the vertex `id`. -/
def recordsTo (lsa : GlobalRoutingLSA) (id : ℕ) : List GlobalRoutingLinkRecord :=
  lsa.m_linkRecords.filter fun l => l.m_linkId = id

/-- The next hops to the vertex of `w_lsa` through `v` are found: from the root by the first link
back to it, from a network next to the root by the links back to the network, of which only two can
be passed, and by the one exit of the network, and from another network by its one exit. -/
def HopsFound (root : ℕ) (v : SPFVertex) (w_lsa : GlobalRoutingLSA) : Prop :=
  if v.m_vertexId = root then w_lsa.m_lsType = .routerLSA → recordsTo w_lsa root ≠ []
  else v.m_vertexType = .vertexNetwork →
    (v.getParent = some root → (recordsTo w_lsa v.m_vertexId).length ≤ 2) ∧
      ((v.getParent = some root → recordsTo w_lsa v.m_vertexId ≠ []) →
        v.m_ecmpRootExits.length = 1)

/-- The exits through `v` to the vertex of `w_lsa`, which has the exits `old`. -/
def exitsThrough (node : Option Ipv4InterfaceList) (root : ℕ) (v : SPFVertex)
    (w_lsa : GlobalRoutingLSA) (l : Option GlobalRoutingLinkRecord) (old : List NodeExit) :
    List NodeExit :=
  if v.m_vertexId = root then
    if w_lsa.m_lsType = .routerLSA then
      match l, (recordsTo w_lsa root).head? with
      | some l, some linkRemote =>
        [(linkRemote.m_linkData, findOutgoingInterfaceId node l.m_linkData)]
      | _, _ => old
    else [(0, findOutgoingInterfaceId node w_lsa.m_linkStateId w_lsa.m_networkLSANetworkMask)]
  else if v.m_vertexType = .vertexNetwork ∧ v.getParent = some root then
    match (recordsTo w_lsa v.m_vertexId).head? with
    | none => old
    | some linkRemote => v.m_ecmpRootExits.map fun exit => (linkRemote.m_linkData, exit.2)
  else v.m_ecmpRootExits

/-- The vertex `w` reached through `v`. -/
def SPFVertex.through (node : Option Ipv4InterfaceList) (root : ℕ) (v w : SPFVertex)
    (l : Option GlobalRoutingLinkRecord) (distance : ℕ) : SPFVertex :=
  { w with
    m_distanceFromRoot := distance
    m_parents := [v.m_vertexId]
    m_ecmpRootExits := exitsThrough node root v w.m_lsa l w.m_ecmpRootExits }

section NextHops

variable {id root fuel d : ℕ} {v w w' : SPFVertex} {l : Option GlobalRoutingLinkRecord}
  {node : Option Ipv4InterfaceList}

/-- The kinds of vertices for which the assertions hold. -/
structure Fits (root : ℕ) (v w : SPFVertex) (l : Option GlobalRoutingLinkRecord) : Prop where
  kind : w.m_vertexType = .vertexRouter ∧ w.m_lsa.m_lsType = .routerLSA ∨
    w.m_vertexType = .vertexNetwork ∧ w.m_lsa.m_lsType = .networkLSA
  link : v.m_vertexId = root → l ≠ none
  router : v.m_vertexType = .vertexNetwork → w.m_vertexType = .vertexRouter

variable {w_lsa : GlobalRoutingLSA} {old : List NodeExit} {e : NodeExit}

end NextHops

end Ns3.Internet
