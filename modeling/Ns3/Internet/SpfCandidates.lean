import Ns3.Internet.NextHops

/-!
# The candidates of the shortest path calculation

`Tracks` ties the status flags and the candidate queue to the offers that the tree has made. Each
LSA that `SPFNext` considers is one more offer.
-/

namespace Ns3.Internet

open Ns3.Lib CandidateQueue GlobalRouteManagerLSDB

/-- The result of the calculation for a vertex. -/
def label (v : SPFVertex) : Label ℕ := ⟨v.m_vertexId, v.m_distanceFromRoot, v.m_parents⟩

@[simp] theorem label_id (v : SPFVertex) : (label v).id = v.m_vertexId := rfl
@[simp] theorem label_parents (v : SPFVertex) : (label v).parents = v.m_parents := rfl

theorem map_id_label (q : List SPFVertex) :
    (q.map label).map Label.id = q.map SPFVertex.m_vertexId := List.map_map ..

/-- The flags and the queue hold the candidates under the offers `O` of the vertices of `T`. -/
structure Tracks (db : GlobalRouteManagerLSDB) (addr : ℕ → ℕ) (O : ℕ → ℕ → ℕ → Prop)
    (T : ℕ → Prop) (st : SpfState) : Prop where
  frontier : Frontier O T (st.candidate.map label)
  settled : ∀ id, st.status id = .inSpftree ↔ T id
  waiting : ∀ id, st.status id = .candidate ↔ ∃ c ∈ st.candidate, c.m_vertexId = id
  made : ∀ c ∈ st.candidate, MadeFrom db c
  sorted : st.candidate.Pairwise NotBehind
  parents : ∀ c ∈ st.candidate, c.m_parents.Pairwise fun a b => addr a < addr b

/-! ## What one LSA changes -/

section Consider

variable {db : GlobalRouteManagerLSDB} {addr : ℕ → ℕ} {node : Option Ipv4InterfaceList}
  {root fuel d : ℕ} {v : SPFVertex} {w_lsa : GlobalRoutingLSA}
  {l : Option GlobalRoutingLinkRecord} {st st' : SpfState} {O O' : ℕ → ℕ → ℕ → Prop} {T : ℕ → Prop}

theorem Tracks.congr (h : Tracks db addr O T st)
    (hO : ∀ u w n, ¬T w → (O u w n ↔ O' u w n)) : Tracks db addr O' T st :=
  { h with frontier := h.frontier.congr hO }

/-- A new LSA becomes a candidate. -/
theorem Tracks.push (h : Tracks db addr O T st) {w : SPFVertex} (hmade : MadeFrom db w)
    (hnew : st.status w.m_vertexId = .notExplored) {u : ℕ} (hparents : w.m_parents = [u]) :
    Tracks db addr (withOffer O u w.m_vertexId w.m_distanceFromRoot) T
      { st.setStatus w.m_vertexId .candidate with
        candidate := CandidateQueue.push w st.candidate } := by
  have hT : ¬T w.m_vertexId := by
    rw [← h.settled, hnew]
    exact SPFStatus.noConfusion
  have hnone : ∀ c ∈ st.candidate, c.m_vertexId ≠ w.m_vertexId := by
    intro c hc heq
    have hwait := (h.waiting w.m_vertexId).mpr ⟨c, hc, heq⟩
    rw [hnew] at hwait
    cases hwait
  have hlabel : label w = ⟨w.m_vertexId, w.m_distanceFromRoot, [u]⟩ := by
    rw [← hparents]
    rfl
  constructor
  · apply h.frontier.offer_new hT
    · intro c hc
      obtain ⟨x, hx, rfl⟩ := List.mem_map.mp hc
      exact hnone x hx
    · rw [map_id_label]
      refine (push_perm.map SPFVertex.m_vertexId).nodup_iff.mpr (List.nodup_cons.mpr ⟨?_, ?_⟩)
      · intro hmem
        obtain ⟨c, hc, heq⟩ := List.mem_map.mp hmem
        exact hnone c hc heq
      · rw [← map_id_label]
        exact h.frontier.nodup
    · intro c
      rw [← hlabel, (push_perm.map label).mem_iff]
      exact List.mem_cons
  · intro id
    change (if id = w.m_vertexId then SPFStatus.candidate else st.status id) = _ ↔ _
    split_ifs with hid
    · rw [hid]
      exact ⟨fun hs => (by cases hs), fun ht => absurd ht hT⟩
    · exact h.settled id
  · intro id
    change (if id = w.m_vertexId then SPFStatus.candidate else st.status id) = _ ↔ _
    split_ifs with hid
    · exact ⟨fun _ => ⟨w, mem_push.mpr (Or.inl rfl), hid.symm⟩, fun _ => rfl⟩
    · rw [h.waiting id]
      constructor
      · rintro ⟨c, hc, hcid⟩
        exact ⟨c, mem_push.mpr (Or.inr hc), hcid⟩
      · rintro ⟨c, hc, hcid⟩
        rcases mem_push.mp hc with rfl | hc
        · exact absurd hcid.symm hid
        · exact ⟨c, hc, hcid⟩
  · intro c hc
    rcases mem_push.mp hc with rfl | hc
    · exact hmade
    · exact h.made c hc
  · exact push_sorted hmade.known (fun c hc => (h.made c hc).known) h.sorted
  · intro c hc
    rcases mem_push.mp hc with rfl | hc
    · rw [hparents]
      exact List.pairwise_singleton _ _
    · exact h.parents c hc

/-- A candidate takes a new value and a place in the order. -/
theorem Tracks.change (h : Tracks db addr O T st) {c w : SPFVertex} {q : List SPFVertex}
    (hc : c ∈ st.candidate) (hid : w.m_vertexId = c.m_vertexId) (hmade : MadeFrom db w)
    (hparents : w.m_parents.Pairwise fun a b => addr a < addr b)
    (hperm : q.Perm (update w st.candidate)) (hsorted : q.Pairwise NotBehind)
    (hfrontier : (((q.map label).map Label.id).Nodup) →
      (∀ l, l ∈ q.map label ↔ l = label w ∨ l ∈ st.candidate.map label ∧ l.id ≠ c.m_vertexId) →
        Frontier O' T (q.map label)) :
    Tracks db addr O' T { st with candidate := q } := by
  have hmem : ∀ x, x ∈ q ↔ x = w ∨ x ∈ st.candidate ∧ x.m_vertexId ≠ w.m_vertexId := by
    intro x
    rw [hperm.mem_iff]
    exact mem_update ⟨c, hc, hid.symm⟩
  constructor
  · apply hfrontier
    · rw [map_id_label]
      refine (hperm.map SPFVertex.m_vertexId).nodup_iff.mpr ?_
      rw [map_id_update, ← map_id_label]
      exact h.frontier.nodup
    · intro l
      rw [List.mem_map, List.mem_map]
      constructor
      · rintro ⟨x, hx, rfl⟩
        rcases (hmem x).mp hx with rfl | ⟨hx, hne⟩
        · exact Or.inl rfl
        · exact Or.inr ⟨⟨x, hx, rfl⟩, hid ▸ hne⟩
      · rintro (rfl | ⟨⟨x, hx, rfl⟩, hne⟩)
        · exact ⟨w, (hmem w).mpr (Or.inl rfl), rfl⟩
        · exact ⟨x, (hmem x).mpr (Or.inr ⟨hx, hid ▸ hne⟩), rfl⟩
  · exact h.settled
  · intro id
    change st.status id = _ ↔ ∃ x ∈ q, _
    rw [h.waiting id]
    constructor
    · rintro ⟨x, hx, rfl⟩
      by_cases hxw : x.m_vertexId = w.m_vertexId
      · exact ⟨w, (hmem w).mpr (Or.inl rfl), hxw.symm⟩
      · exact ⟨x, (hmem x).mpr (Or.inr ⟨hx, hxw⟩), rfl⟩
    · rintro ⟨x, hx, rfl⟩
      rcases (hmem x).mp hx with rfl | ⟨hx, -⟩
      · exact ⟨c, hc, hid.symm⟩
      · exact ⟨x, hx, rfl⟩
  · intro x hx
    rcases (hmem x).mp hx with rfl | ⟨hx, -⟩
    · exact hmade
    · exact h.made x hx
  · exact hsorted
  · intro x hx
    rcases (hmem x).mp hx with rfl | ⟨hx, -⟩
    · exact hparents
    · exact h.parents x hx

theorem Tracks.unique (h : Tracks db addr O T st) {c c' : SPFVertex} (hc : c ∈ st.candidate)
    (hc' : c' ∈ st.candidate) (heq : c.m_vertexId = c'.m_vertexId) : c = c' := by
  have hnd := h.frontier.nodup
  rw [map_id_label] at hnd
  exact List.inj_on_of_nodup_map hnd hc hc' heq

/-- A better offer to a candidate. -/
theorem Tracks.improve (h : Tracks db addr O T st) {c : SPFVertex} (hc : c ∈ st.candidate)
    (hlt : d < c.m_distanceFromRoot) :
    Tracks db addr (withOffer O v.m_vertexId c.m_vertexId d) T
      { st with candidate := reorder (update (v.through node root c l d) st.candidate) } := by
  have hmade : MadeFrom db (v.through node root c l d) := ⟨(h.made c hc).lsa, (h.made c hc).kind⟩
  apply h.change (w := v.through node root c l d) hc rfl hmade
    (List.pairwise_singleton _ _) reorder_perm
  · apply reorder_sorted
    intro x hx
    rcases (mem_update (w := v.through node root c l d) ⟨c, hc, rfl⟩).mp hx with rfl | ⟨hx, -⟩
    · exact hmade.known
    · exact (h.made x hx).known
  · intro hnd hmem
    exact h.frontier.offer_better (c := label c) (List.mem_map_of_mem hc) hlt hnd hmem

/-- An equal offer to a candidate. -/
theorem Tracks.merge (hinj : Function.Injective addr) (h : Tracks db addr O T st)
    {c w : SPFVertex} (hc : c ∈ st.candidate) {u : ℕ} (hw : w.m_parents = [u]) :
    Tracks db addr (withOffer O u c.m_vertexId c.m_distanceFromRoot) T
      { st with
        candidate := update ((c.mergeRootExitDirections w).mergeParent addr w) st.candidate } := by
  have hmade : MadeFrom db ((c.mergeRootExitDirections w).mergeParent addr w) :=
    ⟨(h.made c hc).lsa, (h.made c hc).kind⟩
  apply h.change (w := (c.mergeRootExitDirections w).mergeParent addr w) hc rfl hmade
    (SPFVertex.mergeParent_sorted hinj _ w) (List.Perm.refl _)
  · apply update_sorted h.sorted
    intro x hx hid
    obtain rfl := h.unique hx hc hid
    exact ⟨rfl, rfl⟩
  · intro hnd hmem
    refine h.frontier.offer_equal (c := label c)
      (label ((c.mergeRootExitDirections w).mergeParent addr w))
      (List.mem_map_of_mem hc) rfl rfl ?_ hnd hmem
    intro u'
    change u' ∈ ((c.mergeRootExitDirections w).mergeParent addr w).m_parents ↔ _
    rw [SPFVertex.mem_mergeParent, hw, List.mem_singleton]
    rfl

/-- The next hops through `v` to the candidates are found, or no offer of `v` to them is worse than
what they have. -/
def Covered (root : ℕ) (v : SPFVertex)
    (ts : List Target) (q : List SPFVertex) : Prop :=
  ∀ c ∈ q, HopsFound root v c.m_lsa ∨
    ∀ l, (c.m_lsa, l) ∈ ts → v.m_distanceFromRoot + linkCost l ≤ c.m_distanceFromRoot

end Consider

end Ns3.Internet
