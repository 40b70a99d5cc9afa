import Mathlib.Data.Nat.Notation
import Mathlib.Data.List.Perm.Basic
import Mathlib.Algebra.Order.Group.Nat

/-!
# SPFVertex and CandidateQueue

The vertices of the shortest path first tree and the list of those that wait for it. A vertex is
known by its id; `m_parents` holds ids, and `addr` is where a vertex lies in memory, the order by
which the pointers to the parents are sorted. The children mirror the parents, and `m_nextHop` and
`m_rootOif` the root exit; they are left out.
-/

namespace Ns3.Internet

inductive LinkType
  | unknown | pointToPoint | transitNetwork | stubNetwork | virtualLink
deriving DecidableEq, Repr

structure GlobalRoutingLinkRecord where
  m_linkId : ℕ
  m_linkData : ℕ
  m_linkType : LinkType
  m_metric : ℕ
deriving DecidableEq, Repr

inductive LSType
  | unknown | routerLSA | networkLSA | summaryLSA_IP | summaryLSA_ASBR | asExternalLSAs
deriving DecidableEq, Repr

/-- A `GlobalRoutingLSA`; its status is kept beside it, see `SpfState`. -/
structure GlobalRoutingLSA where
  m_lsType : LSType
  m_linkStateId : ℕ
  m_linkRecords : List GlobalRoutingLinkRecord := []
  m_attachedRouters : List ℕ := []
  m_networkLSANetworkMask : ℕ := 0
deriving DecidableEq, Repr

inductive VertexType
  | vertexUnknown | vertexRouter | vertexNetwork
deriving DecidableEq, Repr

/-- `NodeExit_t`: the next hop and the interface through which the root is left. -/
abbrev NodeExit := ℕ × ℤ

structure SPFVertex where
  m_vertexType : VertexType
  m_vertexId : ℕ
  m_lsa : GlobalRoutingLSA
  m_distanceFromRoot : ℕ := 0xffffffff
  m_parents : List ℕ := []
  m_ecmpRootExits : List NodeExit := []
deriving DecidableEq, Repr

namespace SPFVertex

/-- The constructor. It leaves the type of a vertex for another kind of LSA as it is in memory. -/
def ofLsa (lsa : GlobalRoutingLSA) : SPFVertex where
  m_vertexType :=
    match lsa.m_lsType with
    | .routerLSA => .vertexRouter
    | .networkLSA => .vertexNetwork
    | _ => .vertexUnknown
  m_vertexId := lsa.m_linkStateId
  m_lsa := lsa

def setDistanceFromRoot (v : SPFVertex) (distance : ℕ) : SPFVertex :=
  { v with m_distanceFromRoot := distance }

/-- `GetParent ()`. -/
def getParent (v : SPFVertex) : Option ℕ := v.m_parents.head?

/-- `std::list::unique`. -/
def unique {α : Type} [DecidableEq α] : List α → List α
  | [] => []
  | [a] => [a]
  | a :: b :: l => if a = b then unique (b :: l) else a :: unique (b :: l)

def mergeParent (addr : ℕ → ℕ) (cw w : SPFVertex) : SPFVertex :=
  { cw with
    m_parents := unique ((cw.m_parents ++ w.m_parents).mergeSort fun a b => addr a ≤ addr b) }

/-- The order of the pairs. -/
def exitLe (a b : NodeExit) : Bool := a.1 < b.1 || a.1 = b.1 && a.2 ≤ b.2

def mergeRootExitDirections (cw w : SPFVertex) : SPFVertex :=
  { cw with m_ecmpRootExits := unique ((cw.m_ecmpRootExits ++ w.m_ecmpRootExits).mergeSort exitLe) }

end SPFVertex

/-- `CandidateQueue::CompareSPFVertex`. -/
def compareSPFVertex (v1 v2 : SPFVertex) : Bool :=
  if v1.m_distanceFromRoot < v2.m_distanceFromRoot then true
  else if v1.m_distanceFromRoot = v2.m_distanceFromRoot then
    v1.m_vertexType = .vertexNetwork && v2.m_vertexType = .vertexRouter
  else false

namespace CandidateQueue

/-- `Push`: before the first vertex that it comes before. -/
def push (vNew : SPFVertex) : List SPFVertex → List SPFVertex
  | [] => [vNew]
  | v :: candidates =>
    if compareSPFVertex vNew v then vNew :: v :: candidates else v :: push vNew candidates

def find (addr : ℕ) (candidates : List SPFVertex) : Option SPFVertex :=
  candidates.find? fun v => v.m_vertexId = addr

/-- `Reorder`: `std::list::sort`, which keeps the order of vertices that do not come before each
other. -/
def reorder (candidates : List SPFVertex) : List SPFVertex :=
  candidates.foldl (fun sorted v => push v sorted) []

/-- The candidates after a change of the one `cw` is the new value of. -/
def update (cw : SPFVertex) (candidates : List SPFVertex) : List SPFVertex :=
  candidates.map fun v => if v.m_vertexId = cw.m_vertexId then cw else v

end CandidateQueue

/-! ## The order of the candidates -/

/-- Networks are ranked before routers. -/
def VertexType.rank : VertexType → ℕ
  | .vertexNetwork => 0
  | _ => 1

/-- `a` may stand before `b`. -/
def NotBehind (a b : SPFVertex) : Prop :=
  a.m_distanceFromRoot < b.m_distanceFromRoot ∨
    a.m_distanceFromRoot = b.m_distanceFromRoot ∧ a.m_vertexType.rank ≤ b.m_vertexType.rank

theorem NotBehind.trans {a b c : SPFVertex} (hab : NotBehind a b) (hbc : NotBehind b c) :
    NotBehind a c := by
  unfold NotBehind at *
  omega

/-- The vertices made from router and network LSAs. -/
def SPFVertex.Known (v : SPFVertex) : Prop := v.m_vertexType ≠ .vertexUnknown

theorem notBehind_of_compare {a b : SPFVertex} (h : compareSPFVertex a b = true) :
    NotBehind a b := by
  unfold compareSPFVertex at h
  split_ifs at h with hlt heq
  · exact Or.inl hlt
  · simp only [Bool.and_eq_true, decide_eq_true_eq] at h
    refine Or.inr ⟨heq, ?_⟩
    rw [h.1, h.2]
    exact Nat.zero_le 1

theorem notBehind_of_not_compare {a b : SPFVertex} (ha : a.Known) (hb : b.Known)
    (h : compareSPFVertex a b = false) : NotBehind b a := by
  unfold compareSPFVertex at h
  split_ifs at h with hlt heq
  · refine Or.inr ⟨heq.symm, ?_⟩
    unfold SPFVertex.Known at ha hb
    cases hta : a.m_vertexType <;> cases htb : b.m_vertexType <;> simp_all [VertexType.rank]
  · exact Or.inl (by omega)

namespace CandidateQueue

variable {v w : SPFVertex} {q : List SPFVertex}

theorem mem_push : w ∈ push v q ↔ w = v ∨ w ∈ q := by
  induction q with
  | nil => simp [push]
  | cons x q ih =>
    unfold push
    split_ifs
    · exact List.mem_cons
    · rw [List.mem_cons, ih, List.mem_cons]
      exact or_left_comm

theorem push_perm : (push v q).Perm (v :: q) := by
  induction q with
  | nil => exact List.Perm.refl _
  | cons x q ih =>
    unfold push
    split_ifs
    · exact List.Perm.refl _
    · exact (ih.cons x).trans (List.Perm.swap v x q)

theorem push_sorted (hv : v.Known) (hk : ∀ w ∈ q, w.Known) (hq : q.Pairwise NotBehind) :
    (push v q).Pairwise NotBehind := by
  induction q with
  | nil => exact List.pairwise_singleton _ _
  | cons x q ih =>
    obtain ⟨hx, hq'⟩ := List.pairwise_cons.mp hq
    unfold push
    split_ifs with hc
    · have hvx := notBehind_of_compare hc
      refine List.pairwise_cons.mpr ⟨?_, hq⟩
      intro w hw
      rcases List.mem_cons.mp hw with rfl | hw
      · exact hvx
      · exact hvx.trans (hx w hw)
    · have hxv := notBehind_of_not_compare hv (hk x (List.mem_cons_self ..)) (by simpa using hc)
      refine List.pairwise_cons.mpr ⟨?_, ih (fun w hw => hk w (List.mem_cons_of_mem _ hw)) hq'⟩
      intro w hw
      rcases mem_push.mp hw with rfl | hw
      · exact hxv
      · exact hx w hw

theorem foldl_push_perm (sorted : List SPFVertex) :
    (q.foldl (fun sorted v => push v sorted) sorted).Perm (q ++ sorted) := by
  induction q generalizing sorted with
  | nil => exact List.Perm.refl _
  | cons x q ih =>
    have hmid : (q ++ push x sorted).Perm (q ++ x :: sorted) := push_perm.append_left q
    exact ((ih (push x sorted)).trans hmid).trans List.perm_middle

theorem reorder_perm : (reorder q).Perm q := by
  have h := foldl_push_perm (q := q) []
  rwa [List.append_nil] at h

theorem reorder_sorted (hk : ∀ w ∈ q, w.Known) : (reorder q).Pairwise NotBehind := by
  have hrun : ∀ sorted : List SPFVertex, (∀ w ∈ sorted, w.Known) → sorted.Pairwise NotBehind →
      (q.foldl (fun sorted v => push v sorted) sorted).Pairwise NotBehind := by
    induction q with
    | nil => exact fun sorted _ hs => hs
    | cons x q ih =>
      intro sorted hks hs
      have hx := hk x (List.mem_cons_self ..)
      apply ih (fun w hw => hk w (List.mem_cons_of_mem _ hw))
      · intro w hw
        rcases mem_push.mp hw with rfl | hw
        · exact hx
        · exact hks w hw
      · exact push_sorted hx hks hs
  exact hrun [] (fun w hw => absurd hw List.not_mem_nil) List.Pairwise.nil

/-- A changed candidate takes its place. -/
theorem mem_update (hmem : ∃ v ∈ q, v.m_vertexId = w.m_vertexId) :
    v ∈ update w q ↔ v = w ∨ v ∈ q ∧ v.m_vertexId ≠ w.m_vertexId := by
  unfold update
  rw [List.mem_map]
  constructor
  · rintro ⟨x, hx, rfl⟩
    split_ifs with hid
    · exact Or.inl rfl
    · exact Or.inr ⟨hx, hid⟩
  · rintro (rfl | ⟨hv, hid⟩)
    · obtain ⟨x, hx, hid⟩ := hmem
      exact ⟨x, hx, if_pos hid⟩
    · exact ⟨v, hv, if_neg hid⟩

theorem map_id_update : (update w q).map SPFVertex.m_vertexId = q.map SPFVertex.m_vertexId := by
  unfold update
  rw [List.map_map]
  apply List.map_congr_left
  intro v _
  change (if v.m_vertexId = w.m_vertexId then w else v).m_vertexId = v.m_vertexId
  split_ifs with hid
  · exact hid.symm
  · rfl

/-- A change that moves no candidate keeps the order. -/
theorem update_sorted (hq : q.Pairwise NotBehind)
    (hsame : ∀ v ∈ q, v.m_vertexId = w.m_vertexId →
      v.m_distanceFromRoot = w.m_distanceFromRoot ∧ v.m_vertexType = w.m_vertexType) :
    (update w q).Pairwise NotBehind := by
  unfold update
  rw [List.pairwise_map]
  have hkey : ∀ v ∈ q, (if v.m_vertexId = w.m_vertexId then w else v).m_distanceFromRoot =
      v.m_distanceFromRoot ∧
      (if v.m_vertexId = w.m_vertexId then w else v).m_vertexType = v.m_vertexType := by
    intro v hv
    split_ifs with hid
    · exact ⟨(hsame v hv hid).1.symm, (hsame v hv hid).2.symm⟩
    · exact ⟨rfl, rfl⟩
  apply hq.imp_of_mem
  intro a b ha hb hab
  unfold NotBehind at hab ⊢
  rwa [(hkey a ha).1, (hkey a ha).2, (hkey b hb).1, (hkey b hb).2]

theorem find_isSome {id : ℕ} (h : ∃ v ∈ q, v.m_vertexId = id) :
    ∃ v ∈ q, v.m_vertexId = id ∧ find id q = some v := by
  obtain ⟨x, hx, hid⟩ := h
  have hs : (find id q).isSome = true := by
    unfold find
    rw [List.find?_isSome]
    exact ⟨x, hx, by simpa using hid⟩
  obtain ⟨v, hv⟩ := Option.isSome_iff_exists.mp hs
  exact ⟨v, List.mem_of_find?_eq_some hv, by simpa using List.find?_some hv, hv⟩

end CandidateQueue

/-! ## The parents and the exits -/

namespace SPFVertex

section Unique

variable {α : Type} [DecidableEq α]

theorem mem_unique {a : α} (l : List α) : a ∈ unique l ↔ a ∈ l := by
  fun_induction unique l with
  | case1 => rfl
  | case2 => rfl
  | case3 b l ih =>
    rw [ih]
    simp
  | case4 b c l _ ih => rw [List.mem_cons, ih, ← List.mem_cons]

/-- In a sorted list equal elements stand together. -/
theorem unique_sorted {r : α → α → Bool} (htrans : ∀ a b c, r a b → r b c → r a c)
    (hanti : ∀ a b, r a b → r b a → a = b) (l : List α) (h : l.Pairwise fun a b => r a b) :
    (unique l).Pairwise fun a b => r a b ∧ a ≠ b := by
  fun_induction unique l with
  | case1 => exact List.Pairwise.nil
  | case2 => exact List.pairwise_singleton _ _
  | case3 b l ih => exact ih (List.pairwise_cons.mp h).2
  | case4 b c l hne ih =>
    obtain ⟨hb, hcl⟩ := List.pairwise_cons.mp h
    have hbc := hb c (List.mem_cons_self ..)
    refine List.pairwise_cons.mpr ⟨?_, ih hcl⟩
    intro x hx
    rcases List.mem_cons.mp ((mem_unique (c :: l)).mp hx) with rfl | hx
    · exact ⟨hbc, hne⟩
    · have hcx := (List.pairwise_cons.mp hcl).1 x hx
      refine ⟨htrans b c x hbc hcx, ?_⟩
      rintro rfl
      exact hne (hanti b c hbc hcx)

/-- Sorting and removing what is there twice. -/
theorem unique_mergeSort {r : α → α → Bool} (htrans : ∀ a b c, r a b → r b c → r a c)
    (htotal : ∀ a b, r a b || r b a) (hanti : ∀ a b, r a b → r b a → a = b) (l : List α) :
    (unique (l.mergeSort r)).Pairwise fun a b => r a b ∧ a ≠ b :=
  unique_sorted htrans hanti _ (List.pairwise_mergeSort htrans htotal l)

end Unique

variable {addr : ℕ → ℕ} {cw w : SPFVertex}

theorem mem_mergeParent {u : ℕ} :
    u ∈ (mergeParent addr cw w).m_parents ↔ u ∈ cw.m_parents ∨ u ∈ w.m_parents := by
  change u ∈ unique _ ↔ _
  rw [mem_unique, List.mem_mergeSort, List.mem_append]

theorem mergeParent_sorted (hinj : Function.Injective addr) (cw w : SPFVertex) :
    (mergeParent addr cw w).m_parents.Pairwise fun a b => addr a < addr b := by
  have h := unique_mergeSort (r := fun a b => decide (addr a ≤ addr b)) (by simp; omega)
    (by simp; omega) (by simpa using fun a b hab hba => hinj (Nat.le_antisymm hab hba))
    (cw.m_parents ++ w.m_parents)
  apply h.imp
  rintro a b ⟨hab, hne⟩
  exact lt_of_le_of_ne (by simpa using hab) (hinj.ne hne)

end SPFVertex

end Ns3.Internet
