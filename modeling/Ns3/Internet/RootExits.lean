import Ns3.Internet.SpfTree

/-!
# The exits from the root

`Exit` says through which next hops and interfaces of the root the shortest paths to a vertex go.
`Carries` ties the exits of the candidates to the exits that the tree has handed on.
-/

namespace Ns3.Internet

open Ns3.Lib CandidateQueue GlobalRouteManagerLSDB

/-- `v` is a network, and the root is its first parent. -/
def NextToRoot (db : GlobalRouteManagerLSDB) (addr : ℕ → ℕ) (root v : ℕ) : Prop :=
  (∃ lsa, getLSA db v = some lsa ∧ lsa.m_lsType = .networkLSA) ∧ FirstParent db addr root v

/-- The exits of a vertex. A router next to the root has one for each shortest link of the root to
it, and so does a network. A router behind a network next to the root has those of its first record
that names the network over the interfaces of the network, and all other vertices have the exits of
the vertices before them. -/
inductive Exit (db : GlobalRouteManagerLSDB) (addr : ℕ → ℕ) (node : Option Ipv4InterfaceList)
    (root : ℕ) : ℕ → NodeExit → Prop
  | router {l r : GlobalRoutingLinkRecord} {w_lsa : GlobalRoutingLSA} :
      Hop db root l.m_linkId (some l) → IsDist (Edge db) root l.m_linkId l.m_metric →
        getLSA db l.m_linkId = some w_lsa → w_lsa.m_lsType = .routerLSA →
          (recordsTo w_lsa root).head? = some r →
            Exit db addr node root l.m_linkId
              (r.m_linkData, findOutgoingInterfaceId node l.m_linkData)
  | network {l : GlobalRoutingLinkRecord} {w_lsa : GlobalRoutingLSA} :
      Hop db root l.m_linkId (some l) → IsDist (Edge db) root l.m_linkId l.m_metric →
        getLSA db l.m_linkId = some w_lsa → w_lsa.m_lsType = .networkLSA →
          Exit db addr node root l.m_linkId
            (0, findOutgoingInterfaceId node l.m_linkId w_lsa.m_networkLSANetworkMask)
  | lan {v w : ℕ} {w_lsa : GlobalRoutingLSA} {r : GlobalRoutingLinkRecord} {e : NodeExit} :
      NextToRoot db addr root v → IsPred (Edge db) root v w → getLSA db w = some w_lsa →
        (recordsTo w_lsa v).head? = some r → Exit db addr node root v e →
          Exit db addr node root w (r.m_linkData, e.2)
  | behind {v w : ℕ} {e : NodeExit} :
      v ≠ root → ¬NextToRoot db addr root v → IsPred (Edge db) root v w →
        Exit db addr node root v e → Exit db addr node root w e

/-! ## The candidates -/

/-- The candidates `q` have the exits that came with their offers, where `X u w n e` is the exit `e`
of an offer to `w` at distance `n` through `u`. Under `P` they have no others. -/
structure Carries (X : ℕ → ℕ → ℕ → NodeExit → Prop) (P : Prop) (q : List SPFVertex) : Prop where
  nodup : ∀ c ∈ q, c.m_ecmpRootExits.Nodup
  all : ∀ c ∈ q, ∀ u e, X u c.m_vertexId c.m_distanceFromRoot e → e ∈ c.m_ecmpRootExits
  only : P → ∀ c ∈ q, ∀ e ∈ c.m_ecmpRootExits, ∃ u, X u c.m_vertexId c.m_distanceFromRoot e

section Carries

variable {db : GlobalRouteManagerLSDB} {addr : ℕ → ℕ} {node : Option Ipv4InterfaceList}
  {root fuel d : ℕ} {v : SPFVertex} {w_lsa : GlobalRoutingLSA}
  {l : Option GlobalRoutingLinkRecord} {st st' : SpfState} {O : ℕ → ℕ → ℕ → Prop} {T : ℕ → Prop}
  {X X' : ℕ → ℕ → ℕ → NodeExit → Prop} {P : Prop} {q q' : List SPFVertex}

theorem Carries.congr (h : Carries X P q)
    (hX : ∀ c ∈ q, ∀ u n e, X u c.m_vertexId n e ↔ X' u c.m_vertexId n e) : Carries X' P q := by
  constructor
  · exact h.nodup
  · intro c hc u e he
    exact h.all c hc u e ((hX c hc u _ e).mpr he)
  · intro hP c hc e he
    obtain ⟨u, hu⟩ := h.only hP c hc e he
    exact ⟨u, (hX c hc u _ e).mp hu⟩

/-- One candidate is new or changed, and the others keep their exits. -/
theorem Carries.change (h : Carries X P q) {w : SPFVertex}
    (hmem : ∀ x ∈ q', x = w ∨ x ∈ q ∧ x.m_vertexId ≠ w.m_vertexId)
    (hX : ∀ u w' n e, w' ≠ w.m_vertexId → (X u w' n e ↔ X' u w' n e))
    (hnodup : w.m_ecmpRootExits.Nodup)
    (hall : ∀ u e, X' u w.m_vertexId w.m_distanceFromRoot e → e ∈ w.m_ecmpRootExits)
    (honly : P → ∀ e ∈ w.m_ecmpRootExits, ∃ u, X' u w.m_vertexId w.m_distanceFromRoot e) :
    Carries X' P q' := by
  constructor
  · intro c hc
    rcases hmem c hc with rfl | ⟨hc, -⟩
    · exact hnodup
    · exact h.nodup c hc
  · intro c hc u e he
    rcases hmem c hc with rfl | ⟨hc, hne⟩
    · exact hall u e he
    · exact h.all c hc u e ((hX u _ _ e hne).mpr he)
  · intro hP c hc e he
    rcases hmem c hc with rfl | ⟨hc, hne⟩
    · exact honly hP e he
    · obtain ⟨u, hu⟩ := h.only hP c hc e he
      exact ⟨u, (hX u _ _ e hne).mp hu⟩

end Carries

/-! ## The tree -/

/-- The exits that the vertices of the tree hand on. -/
def exitsOf (db : GlobalRouteManagerLSDB) (node : Option Ipv4InterfaceList) (root : ℕ)
    (tree : List SPFVertex) (u w n : ℕ) (e : NodeExit) : Prop :=
  ∃ t ∈ tree, t.m_vertexId = u ∧ ∃ s ∈ targets db t.m_lsa, s.1.m_linkStateId = w ∧
    n = t.m_distanceFromRoot + linkCost s.2 ∧ e ∈ exitsThrough node root t s.1 s.2 []

/-- Where a router is reached through a network next to the root and does not name the network, no
router that is as near as the network has a longer way to it, which would leave its exits. -/
def NothingOld (db : GlobalRouteManagerLSDB) (addr : ℕ → ℕ) (root : ℕ) : Prop :=
  ∀ v w w_lsa, NextToRoot db addr root v → IsPred (Edge db) root v w →
    getLSA db w = some w_lsa → recordsTo w_lsa v = [] → ∀ d u n k, IsDist (Edge db) root v d →
      IsDist (Edge db) root u n → Edge db u w k → n ≤ d → n + k ≤ d

/-- The exits recorded in the tree are those of its vertices. -/
structure ExitsKnown (db : GlobalRouteManagerLSDB) (addr : ℕ → ℕ)
    (node : Option Ipv4InterfaceList) (root : ℕ) (pre : List SPFVertex) (v : SPFVertex)
    (st : SpfState) : Prop where
  nodup : ∀ t ∈ pre ++ [v], t.m_ecmpRootExits.Nodup
  all : ∀ t ∈ pre ++ [v], t.m_vertexId ≠ root → ∀ e,
    Exit db addr node root t.m_vertexId e → e ∈ t.m_ecmpRootExits
  only : NothingOld db addr root → ∀ t ∈ pre ++ [v], ∀ e ∈ t.m_ecmpRootExits,
    Exit db addr node root t.m_vertexId e
  carries : Carries (exitsOf db node root pre) (NothingOld db addr root) st.candidate

section Tree

variable {db : GlobalRouteManagerLSDB} {addr : ℕ → ℕ} {node : Option Ipv4InterfaceList}
  {root fuel : ℕ} {v : SPFVertex} {st st' : SpfState} {pre : List SPFVertex} {u w n : ℕ}
  {e : NodeExit}

/-- A network next to the root, as the calculation sees it. -/
theorem Expanding.nextToRoot_iff (h : Expanding db addr root pre v st) {t : SPFVertex}
    (ht : t ∈ pre ++ [v]) :
    NextToRoot db addr root t.m_vertexId ↔
      t.m_vertexType = .vertexNetwork ∧ t.getParent = some root := by
  rw [h.getParent_iff ht]
  refine and_congr ?_ Iff.rfl
  have hmade := h.made t ht
  constructor
  · rintro ⟨lsa, hlsa, hnet⟩
    obtain rfl := Option.some.inj (hmade.lsa.symm.trans hlsa)
    rcases hmade.kind with ⟨-, hr⟩ | ⟨htype, -⟩
    · rw [hnet] at hr
      cases hr
    · exact htype
  · intro htype
    rcases hmade.kind with ⟨hr, -⟩ | ⟨-, hnet⟩
    · rw [htype] at hr
      cases hr
    · exact ⟨t.m_lsa, hmade.lsa, hnet⟩

/-- The exits that a vertex of the tree hands on to one behind it are exits of that one. -/
theorem Expanding.exit_of_handed (hdb : WellFormed db) (h : Expanding db addr root pre v st)
    {t : SPFVertex} (ht : t ∈ pre ++ [v])
    (hknown : ∀ e ∈ t.m_ecmpRootExits, Exit db addr node root t.m_vertexId e)
    {s : Target} (hs : s ∈ targets db t.m_lsa)
    (hpred : IsDist (Edge db) root s.1.m_linkStateId (t.m_distanceFromRoot + linkCost s.2))
    (he : e ∈ exitsThrough node root t s.1 s.2 []) :
    Exit db addr node root s.1.m_linkStateId e := by
  have hmade := h.made t ht
  obtain ⟨hlsa, hop⟩ := (hdb.mem_targets hmade.lsa).mp hs
  have hdist : IsDist (Edge db) root t.m_vertexId t.m_distanceFromRoot :=
    h.tree.isDist (List.mem_map_of_mem ht)
  have hbefore : IsPred (Edge db) root t.m_vertexId s.1.m_linkStateId :=
    ⟨_, _, hdist, hop.edge, hpred⟩
  unfold exitsThrough at he
  by_cases hroot : t.m_vertexId = root
  · rw [if_pos hroot] at he
    rw [hroot] at hdist hop
    have hzero : t.m_distanceFromRoot = 0 := hdist.unique ⟨.nil, fun n _ => Nat.zero_le n⟩
    rw [hzero, Nat.zero_add] at hpred
    rcases hdb.targets_shape hmade hs with ⟨-, hl⟩ | ⟨hnet, -, -⟩
    · obtain ⟨l, hl⟩ := Option.ne_none_iff_exists'.mp hl
      have hid : s.1.m_linkStateId = l.m_linkId := by
        rw [hl] at hop
        generalize s.1.m_linkStateId = w at hop
        cases hop
        rfl
      rw [hl] at he hop hpred
      rw [hid] at hop hpred hlsa ⊢
      split_ifs at he with hr
      · cases hhead : (recordsTo s.1 root).head? with
        | none =>
          rw [hhead] at he
          cases he
        | some r =>
          rw [hhead] at he
          obtain rfl := List.mem_singleton.mp he
          exact .router hop hpred hlsa hr hhead
      · obtain rfl := List.mem_singleton.mp he
        rw [hid]
        refine .network hop hpred hlsa ?_
        exact (hdb.targets_isVertex hmade.lsa hs).resolve_left hr
    · rw [h.rooted t ht hroot] at hnet
      cases hnet
  · rw [if_neg hroot] at he
    by_cases hlan : t.m_vertexType = .vertexNetwork ∧ t.getParent = some root
    · rw [if_pos hlan] at he
      cases hhead : (recordsTo s.1 t.m_vertexId).head? with
      | none =>
        rw [hhead] at he
        cases he
      | some r =>
        rw [hhead] at he
        obtain ⟨x, hx, rfl⟩ := List.mem_map.mp he
        exact .lan ((h.nextToRoot_iff ht).mpr hlan) hbefore hlsa hhead (hknown x hx)
    · rw [if_neg hlan] at he
      exact .behind hroot (fun hn => hlan ((h.nextToRoot_iff ht).mp hn)) hbefore (hknown e he)

/-- Every exit of a vertex is handed on by a vertex of the tree that holds those before it. -/
theorem Expanding.handed_of_exit (hdb : WellFormed db) (h : Expanding db addr root pre v st)
    (hknown : ∀ t ∈ pre ++ [v], t.m_vertexId ≠ root → ∀ e,
      Exit db addr node root t.m_vertexId e → e ∈ t.m_ecmpRootExits)
    {w_lsa : GlobalRoutingLSA} (hw : getLSA db w = some w_lsa) (hdist : IsDist (Edge db) root w n)
    (hbefore : ∀ u, IsPred (Edge db) root u w → ∃ t ∈ pre ++ [v], t.m_vertexId = u)
    (he : Exit db addr node root w e) :
    ∃ u, exitsOf db node root (pre ++ [v]) u w n e := by
  obtain ⟨r, hr, hrl⟩ := List.mem_map.mp h.tree.start
  have hrid : r.m_vertexId = root := congrArg Label.id hrl
  have hrdist : r.m_distanceFromRoot = 0 := congrArg Label.dist hrl
  have hrlsa := (h.made r hr).lsa
  have hid := hdb.id_of_getLSA hw
  -- a vertex before `w` hands its exits on over the edge between them
  have hover : ∀ u, IsPred (Edge db) root u w → ∃ t ∈ pre ++ [v], t.m_vertexId = u ∧
      ∃ l, (w_lsa, l) ∈ targets db t.m_lsa ∧ n = t.m_distanceFromRoot + linkCost l := by
    intro u hu
    obtain ⟨t, ht, rfl⟩ := hbefore u hu
    obtain ⟨d, k, hd, hedge, hdk⟩ := hu
    obtain ⟨x, l, hx, hxl, rfl⟩ := hdb.target_of_edge (h.made t ht).lsa hedge
    obtain rfl := Option.some.inj (hw.symm.trans hx)
    have htdist : IsDist (Edge db) root t.m_vertexId t.m_distanceFromRoot :=
      h.tree.isDist (List.mem_map_of_mem ht)
    refine ⟨t, ht, rfl, l, hxl, ?_⟩
    rw [hdist.unique hdk, htdist.unique hd]
  cases he with
  | @router l r' x hop hdl hx hxr hhead =>
    obtain rfl := Option.some.inj (hw.symm.trans hx)
    rw [← hrid] at hop
    refine ⟨root, r, hr, hrid, (w_lsa, some l), ?_, hid, ?_, ?_⟩
    · exact (hdb.mem_targets hrlsa).mpr ⟨hid.symm ▸ hw, hid.symm ▸ hop⟩
    · rw [hdist.unique hdl, hrdist, Nat.zero_add]
      rfl
    · unfold exitsThrough
      rw [if_pos hrid, if_pos hxr, hhead]
      exact List.mem_singleton_self _
  | @network l x hop hdl hx hxn =>
    obtain rfl := Option.some.inj (hw.symm.trans hx)
    rw [← hrid] at hop
    refine ⟨root, r, hr, hrid, (w_lsa, some l), ?_, hid, ?_, ?_⟩
    · exact (hdb.mem_targets hrlsa).mpr ⟨hid.symm ▸ hw, hid.symm ▸ hop⟩
    · rw [hdist.unique hdl, hrdist, Nat.zero_add]
      rfl
    · have hxr : w_lsa.m_lsType ≠ .routerLSA := by
        rw [hxn]
        exact LSType.noConfusion
      unfold exitsThrough
      rw [if_pos hrid, if_neg hxr, hid]
      exact List.mem_singleton_self _
  | @lan u _ x r' e hnext hpred hx hhead hexit =>
    obtain rfl := Option.some.inj (hw.symm.trans hx)
    obtain ⟨t, ht, rfl, l, hl, hn⟩ := hover u hpred
    have hlan := (h.nextToRoot_iff ht).mp hnext
    have hroot : t.m_vertexId ≠ root := by
      intro hroot
      have htype := hlan.1
      rw [h.rooted t ht hroot] at htype
      cases htype
    refine ⟨_, t, ht, rfl, (w_lsa, l), hl, hid, hn, ?_⟩
    unfold exitsThrough
    rw [if_neg hroot, if_pos hlan]
    simp only [hhead]
    exact List.mem_map_of_mem (hknown t ht hroot e hexit)
  | @behind u _ _ hroot hnext hpred hexit =>
    obtain ⟨t, ht, rfl, l, hl, hn⟩ := hover u hpred
    have hlan := mt (h.nextToRoot_iff ht).mpr hnext
    refine ⟨_, t, ht, rfl, (w_lsa, l), hl, hid, hn, ?_⟩
    unfold exitsThrough
    rw [if_neg hroot, if_neg hlan]
    exact hknown t ht hroot e hexit

theorem ExitsKnown.start (rlsa : GlobalRoutingLSA) :
    ExitsKnown db addr node rlsa.m_linkStateId []
      ((SPFVertex.ofLsa rlsa).setDistanceFromRoot 0)
      (SpfState.setStatus ⟨fun _ => .notExplored, []⟩ rlsa.m_linkStateId .inSpftree) := by
  constructor
  · intro t ht
    obtain rfl := List.mem_singleton.mp ht
    exact List.nodup_nil
  · intro t ht hne
    obtain rfl := List.mem_singleton.mp ht
    exact absurd rfl hne
  · intro _ t ht e he
    obtain rfl := List.mem_singleton.mp ht
    cases he
  · constructor
    · exact fun c hc => absurd hc List.not_mem_nil
    · exact fun c hc => absurd hc List.not_mem_nil
    · exact fun _ c hc => absurd hc List.not_mem_nil

/-- The first candidate goes into the tree with its exits. -/
theorem ExitsKnown.pop (hdb : WellFormed db) (h : Expanding db addr root pre v st)
    (hx : ExitsKnown db addr node root pre v st) {c : SPFVertex} {q : List SPFVertex}
    (ht : Tracks db addr (offersOf (Edge db) ((pre ++ [v]).map label))
      (InTree ((pre ++ [v]).map label)) st') (hq : st'.candidate = c :: q)
    (hcar : Carries (exitsOf db node root (pre ++ [v])) (NothingOld db addr root) st'.candidate) :
    ExitsKnown db addr node root (pre ++ [v]) c
      ({ st' with candidate := q }.setStatus c.m_vertexId .inSpftree) := by
  have h' := h.pop hdb ht hq
  have hc : c ∈ st'.candidate := hq ▸ List.mem_cons_self ..
  have hdist : IsDist (Edge db) root c.m_vertexId c.m_distanceFromRoot :=
    h'.tree.isDist (label_mem_last (pre ++ [v]) c)
  have hlsa : getLSA db c.m_vertexId = some c.m_lsa := (ht.made c hc).lsa
  have hbefore : ∀ u, IsPred (Edge db) root u c.m_vertexId →
      ∃ t ∈ pre ++ [v], t.m_vertexId = u := by
    intro u hu
    have hmem := (h'.tree.preds _ (label_mem_last (pre ++ [v]) c) u).mpr hu
    obtain ⟨x, hxm, rfl, -⟩ :=
      (ht.frontier.parents (label c) (List.mem_map_of_mem hc) u).mp hmem
    obtain ⟨t, htm, rfl⟩ := List.mem_map.mp hxm
    exact ⟨t, htm, rfl⟩
  constructor
  · intro t htm
    rcases List.mem_append.mp htm with htm | htm
    · exact hx.nodup t htm
    · obtain rfl := List.mem_singleton.mp htm
      exact hcar.nodup t hc
  · intro t htm hne e he
    rcases List.mem_append.mp htm with htm | htm
    · exact hx.all t htm hne e he
    · obtain rfl := List.mem_singleton.mp htm
      obtain ⟨u, hu⟩ := h.handed_of_exit hdb hx.all hlsa hdist hbefore he
      exact hcar.all t hc u e hu
  · intro hold t htm e he
    rcases List.mem_append.mp htm with htm | htm
    · exact hx.only hold t htm e he
    · obtain rfl := List.mem_singleton.mp htm
      obtain ⟨u, t', ht', rfl, s, hs, hid, hn, hthrough⟩ := hcar.only hold t hc e he
      rw [← hid]
      exact h.exit_of_handed hdb ht' (hx.only hold t' ht') hs (by rwa [hid, ← hn]) hthrough
  · constructor
    · exact fun x hxq => hcar.nodup x (hq ▸ List.mem_cons_of_mem _ hxq)
    · exact fun x hxq => hcar.all x (hq ▸ List.mem_cons_of_mem _ hxq)
    · exact fun hold x hxq => hcar.only hold x (hq ▸ List.mem_cons_of_mem _ hxq)

end Tree

end Ns3.Internet
