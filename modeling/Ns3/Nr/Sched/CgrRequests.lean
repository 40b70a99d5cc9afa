import Ns3.Nr.Sched.BufferStatus
import Mathlib.Data.List.Dedup

/-!
# Requests for configured grants

The MAC reports the UEs that asked for a configured grant together with their buffer sizes, and
`DoSchedUlCgrInfoReq` merges both lists into those that wait for the next UL slot. An RNTI that
waits already is not added again, but its size is. The slot then takes the sizes by position, so a
repeated request shifts the sizes of all UEs that ask for the first time after it, and it gives them
to the channel that the last call named (`cgr_paired_iff`).
-/

namespace Ns3.Nr.Sched

/-! ## Embedding -/

/-- `GetLCId`. -/
def Lcg.getLCId (l : Lcg) : List Nat := l.lcMap.map Prod.fst

/-- `SchedUlCgrInfoReqParameters`. -/
structure UlCgrInfoReq where
  srList : List Nat
  bufCgr : List Nat
  lcid : Nat
deriving DecidableEq, Repr

/-- The members of the scheduler that the requests go through. `ueMap` gives the LCGs of a UE in the
order of its map. -/
structure CgrSched where
  ueMap : Nat → Option (List (Nat × Lcg))
  srList : List Nat := []
  bufCgr : List Nat := []
  lcidConfiguredGrant : Nat := 0

/-- The loop of `DoSchedUlCgrInfoReq` at one RNTI. -/
def mergeRnti (srList : List Nat) (ue : Nat) : List Nat :=
  if ue ∈ srList then srList else srList ++ [ue]

/-- The bytes of the level of a size with its overhead. -/
def cgrSize (b : Nat) : Nat := fromLevelToBytes (fromBytesToLevel ((b + (8 + 2)) % 2 ^ 32))

/-- One LCG of the UE; `buf` is what `bufSizeUeIt` points at. -/
def updateCgLcg (lcid : Nat) (buf : Option Nat) (el : Nat × Lcg) : Result (Nat × Lcg) :=
  match el.2.getLCId with
  | [] => .error .outOfRange
  | first :: _ =>
    match buf with
    | some b =>
      if first = lcid then (el.2.updateInfoBsr (cgrSize b)).map fun l => (el.1, l) else .ok el
    | none => .ok el

/-- The loop of `DoScheduleUlresources_configuredGrant`, with the rest of `m_bufCgr` from
`bufSizeUeIt` on. -/
def cgLoop (lcid : Nat) : List Nat → List Nat → (Nat → Option (List (Nat × Lcg))) →
    Result (Nat → Option (List (Nat × Lcg)))
  | [], _, ueMap => .ok ueMap
  | v :: rntiList, bufs, ueMap =>
    match ueMap v with
    | none => .error .outOfRange
    | some ulLCG => do
      let ulLCG ← ulLCG.mapM (updateCgLcg lcid bufs.head?)
      match bufs with
      -- past the end of the list
      | [] => .error .outOfRange
      | _ :: bufs => cgLoop lcid rntiList bufs (Function.update ueMap v (some ulLCG))

namespace CgrSched

def doSchedUlCgrInfoReq (s : CgrSched) (params : UlCgrInfoReq) : Result CgrSched :=
  let srList := params.srList.foldl mergeRnti s.srList
  -- `NS_ASSERT (m_srList.size () >= params.m_srList.size ())`
  if srList.length < params.srList.length then .error .abort
  else .ok { s with
    srList
    bufCgr := s.bufCgr ++ params.bufCgr
    lcidConfiguredGrant := params.lcid }

def doScheduleUlresourcesConfiguredGrant (s : CgrSched) (rntiList : List Nat) :
    Result (Nat → Option (List (Nat × Lcg))) :=
  cgLoop s.lcidConfiguredGrant rntiList s.bufCgr s.ueMap

/-- What `DoScheduleUl` does with the requests, with configured grants. -/
def doScheduleUl (s : CgrSched) (ulSymAvail : Nat) : Result CgrSched :=
  if ulSymAvail > 0 ∧ s.srList.length > 0 then do
    let ueMap ← s.doScheduleUlresourcesConfiguredGrant s.srList
    return { s with ueMap, srList := [], bufCgr := [] }
  else .ok s

end CgrSched

/-! ## The list of RNTIs -/

/-- Every RNTI where it is requested for the first time. -/
def firstRequests (rntis : List Nat) : List Nat := rntis.foldl mergeRnti []

section FirstRequests

variable {rntis : List Nat} {r k : Nat}

theorem firstRequests_concat (rntis : List Nat) (r : Nat) :
    firstRequests (rntis ++ [r]) = mergeRnti (firstRequests rntis) r := by
  simp [firstRequests]

@[simp] theorem mem_mergeRnti {ue : Nat} {l : List Nat} : r ∈ mergeRnti l ue ↔ r ∈ l ∨ r = ue := by
  unfold mergeRnti
  split
  · next hmem =>
    constructor
    · exact Or.inl
    · rintro (h | rfl)
      · exact h
      · exact hmem
  · simp

@[simp] theorem mem_firstRequests : r ∈ firstRequests rntis ↔ r ∈ rntis := by
  induction rntis using List.reverseRecOn with
  | nil => simp [firstRequests]
  | append_singleton rntis ue ih => simp [firstRequests_concat, ih]

theorem firstRequests_concat_of_mem (h : r ∈ rntis) :
    firstRequests (rntis ++ [r]) = firstRequests rntis := by
  rw [firstRequests_concat, mergeRnti, if_pos (mem_firstRequests.mpr h)]

theorem firstRequests_concat_of_notMem (h : r ∉ rntis) :
    firstRequests (rntis ++ [r]) = firstRequests rntis ++ [r] := by
  rw [firstRequests_concat, mergeRnti, if_neg (mt mem_firstRequests.mp h)]

theorem nodup_firstRequests (rntis : List Nat) : (firstRequests rntis).Nodup := by
  induction rntis using List.reverseRecOn with
  | nil => exact List.nodup_nil
  | append_singleton rntis r ih =>
    by_cases h : r ∈ rntis
    · rw [firstRequests_concat_of_mem h]
      exact ih
    · rw [firstRequests_concat_of_notMem h]
      apply ih.append (List.nodup_singleton r)
      simpa using h

/-- There are as many as there are distinct RNTIs. -/
theorem length_firstRequests (rntis : List Nat) :
    (firstRequests rntis).length = rntis.dedup.length := by
  apply List.Perm.length_eq
  rw [List.perm_ext_iff_of_nodup (nodup_firstRequests rntis) rntis.nodup_dedup]
  simp

/-- The RNTI at a position is requested for the first time where so many distinct ones precede it.
-/
theorem getElem?_firstRequests : (firstRequests rntis)[k]? = some r ↔
    ∃ i, rntis[i]? = some r ∧ r ∉ rntis.take i ∧ (rntis.take i).dedup.length = k := by
  induction rntis using List.reverseRecOn with
  | nil => simp [firstRequests]
  | append_singleton rntis ue ih =>
    have hearlier : ∀ i < rntis.length,
        ((rntis ++ [ue])[i]? = some r ∧ r ∉ (rntis ++ [ue]).take i ∧
          ((rntis ++ [ue]).take i).dedup.length = k) ↔
        (rntis[i]? = some r ∧ r ∉ rntis.take i ∧ (rntis.take i).dedup.length = k) := by
      intro i hi
      rw [List.getElem?_append_left hi, List.take_append_of_le_length hi.le]
    have hlast : ((rntis ++ [ue])[rntis.length]? = some r ∧
        r ∉ (rntis ++ [ue]).take rntis.length ∧
        ((rntis ++ [ue]).take rntis.length).dedup.length = k) ↔
        ue = r ∧ r ∉ rntis ∧ (firstRequests rntis).length = k := by
      simp [length_firstRequests]
    have hsplit : (∃ i, (rntis ++ [ue])[i]? = some r ∧ r ∉ (rntis ++ [ue]).take i ∧
        ((rntis ++ [ue]).take i).dedup.length = k) ↔
        (firstRequests rntis)[k]? = some r ∨
          ue = r ∧ r ∉ rntis ∧ (firstRequests rntis).length = k := by
      rw [ih, ← hlast]
      constructor
      · rintro ⟨i, hget, hrest⟩
        have hi : i < (rntis ++ [ue]).length := (List.getElem?_eq_some_iff.mp hget).1
        rw [List.length_append, List.length_singleton] at hi
        by_cases hlt : i < rntis.length
        · exact Or.inl ⟨i, (hearlier i hlt).mp ⟨hget, hrest⟩⟩
        · obtain rfl : i = rntis.length := by omega
          exact Or.inr ⟨hget, hrest⟩
      · rintro (⟨i, hget, hrest⟩ | h)
        · exact ⟨i, (hearlier i (List.getElem?_eq_some_iff.mp hget).1).mpr ⟨hget, hrest⟩⟩
        · exact ⟨_, h⟩
    rw [hsplit]
    by_cases h : ue ∈ rntis
    · rw [firstRequests_concat_of_mem h]
      constructor
      · exact Or.inl
      · rintro (hget | ⟨rfl, hnot, -⟩)
        · exact hget
        · exact absurd h hnot
    · rw [firstRequests_concat_of_notMem h, List.getElem?_append]
      split
      · next hk =>
        constructor
        · exact Or.inl
        · rintro (hget | ⟨-, -, hlen⟩)
          · exact hget
          · omega
      · next hk =>
        rw [List.getElem?_eq_none (by omega : (firstRequests rntis).length ≤ k),
          List.getElem?_singleton]
        constructor
        · intro hget
          split at hget
          · cases hget
            exact Or.inr ⟨rfl, h, by omega⟩
          · cases hget
        · rintro (hget | ⟨rfl, -, hlen⟩)
          · cases hget
          · simp [hlen]

end FirstRequests

/-! ## The sizes that the groups get -/

/-- The LCG of the configured grant with the queue size `size`. -/
def Lcg.withGrant (l : Lcg) (lcid size : Nat) : Lcg :=
  if l.getLCId.head? = some lcid then
    { lcMap := l.lcMap.map fun el => (el.1, { el.2 with rlcTransmissionQueueSize := size })
      totalSize := size }
  else l

/-- The LCGs of a UE have one channel each, and that of the configured grant is there. -/
structure HasCgLcg (lcid : Nat) (ulLCG : List (Nat × Lcg)) : Prop where
  one_channel : ∀ el ∈ ulLCG, ∃ id, el.2.getLCId = [id]
  has : ∃ el ∈ ulLCG, el.2.getLCId.head? = some lcid

/-- The LCGs of a UE after `UpdateInfo` with the size for `b`. -/
def grantLcgs (lcid b : Nat) (ulLCG : List (Nat × Lcg)) : List (Nat × Lcg) :=
  ulLCG.map fun el => (el.1, el.2.withGrant lcid (cgrSize b))

section Loop

variable {lcid : Nat} {ulLCG : List (Nat × Lcg)} {el : Nat × Lcg}
  {ueMap : Nat → Option (List (Nat × Lcg))}

theorem updateCgLcg_eq (b : Nat) (hone : ∃ id, el.2.getLCId = [id]) :
    updateCgLcg lcid (some b) el = .ok (el.1, el.2.withGrant lcid (cgrSize b)) := by
  obtain ⟨id, hids⟩ := hone
  have hlen : el.2.lcMap.length = 1 := by
    have hmap := congrArg List.length hids
    simpa [Lcg.getLCId] using hmap
  unfold updateCgLcg Lcg.withGrant
  simp only [hids, List.head?_cons, Option.some.injEq]
  by_cases hid : id = lcid
  · simp [hid, Lcg.updateInfoBsr, hlen, Except.map]
  · simp [hid]

theorem mapM_updateCgLcg (hone : ∀ el ∈ ulLCG, ∃ id, el.2.getLCId = [id]) (b : Nat) :
    ulLCG.mapM (updateCgLcg lcid (some b)) = .ok (grantLcgs lcid b ulLCG) := by
  unfold grantLcgs
  induction ulLCG with
  | nil => rfl
  | cons el ulLCG ih =>
    rw [List.mapM_cons, updateCgLcg_eq b (hone el List.mem_cons_self),
      ih fun el' hel => hone el' (List.mem_cons_of_mem _ hel)]
    rfl

/-- The loop gives the UE at each position the size at this position. -/
theorem cgLoop_eq (lcid : Nat) {ueMap : Nat → Option (List (Nat × Lcg))} {rntis bufs : List Nat}
    (hnodup : rntis.Nodup) (hlen : rntis.length ≤ bufs.length)
    (hues : ∀ v ∈ rntis, ∃ ulLCG, ueMap v = some ulLCG ∧ ∀ el ∈ ulLCG, ∃ id, el.2.getLCId = [id]) :
    ∃ ueMap', cgLoop lcid rntis bufs ueMap = .ok ueMap' ∧ (∀ v ∉ rntis, ueMap' v = ueMap v) ∧
      ∀ k v b : Nat, rntis[k]? = some v → bufs[k]? = some b →
        ueMap' v = (ueMap v).map (grantLcgs lcid b) := by
  induction rntis generalizing bufs ueMap with
  | nil => exact ⟨ueMap, rfl, fun _ _ => rfl, fun k v b hv => by simp at hv⟩
  | cons v rntis ih =>
    cases bufs with
    | nil => simp at hlen
    | cons b bufs =>
      obtain ⟨hv, hnodup⟩ := List.nodup_cons.mp hnodup
      obtain ⟨ulLCG, hmap, hone⟩ := hues v List.mem_cons_self
      have hother : ∀ v' ∈ rntis, v' ≠ v := fun v' hv' heq => hv (heq ▸ hv')
      obtain ⟨ueMap', hloop, hframe, hsizes⟩ := @ih
        (Function.update ueMap v (some (grantLcgs lcid b ulLCG))) bufs hnodup
        (Nat.le_of_succ_le_succ hlen) (by
          intro v' hv'
          rw [Function.update_of_ne (hother v' hv')]
          exact hues v' (List.mem_cons_of_mem _ hv'))
      refine ⟨ueMap', ?_, ?_, ?_⟩
      · rw [cgLoop, hmap]
        simp only [List.head?_cons, mapM_updateCgLcg hone b]
        exact hloop
      · intro v' hv'
        rw [List.mem_cons, not_or] at hv'
        rw [hframe v' hv'.2, Function.update_of_ne hv'.1]
      · intro k v' b' hget hbuf
        cases k with
        | zero =>
          cases hget
          cases hbuf
          rw [hframe v hv, Function.update_self, hmap, Option.map_some]
        | succ k =>
          have hmem : v' ∈ rntis := List.mem_of_getElem? hget
          rw [hsizes k v' b' hget hbuf, Function.update_of_ne (hother v' hmem)]

end Loop

/-! ## Runs -/

/-- One RNTI of a call, with its size and the channel of the call. -/
structure CgrRequest where
  rnti : Nat
  buf : Nat
  lcid : Nat
deriving DecidableEq, Repr

def UlCgrInfoReq.requests (params : UlCgrInfoReq) : List CgrRequest :=
  (params.srList.zip params.bufCgr).map fun q => ⟨q.1, q.2, params.lcid⟩

/-- The state of a run with configured grants. `requests` are those that were reported since the
lists were cleared. In between, the groups of the UEs may change. -/
inductive CgrReached : CgrSched → List CgrRequest → Prop
  | start {s : CgrSched} (hsr : s.srList = []) (hbuf : s.bufCgr = []) : CgrReached s []
  | request {s s' : CgrSched} {requests : List CgrRequest} (h : CgrReached s requests)
    (params : UlCgrInfoReq) (hlen : params.srList.length = params.bufCgr.length)
    (hs' : s.doSchedUlCgrInfoReq params = .ok s') : CgrReached s' (requests ++ params.requests)
  | slot {s s' : CgrSched} {requests : List CgrRequest} (h : CgrReached s requests)
    (ulSymAvail : Nat) (hs' : s.doScheduleUl ulSymAvail = .ok s') :
    CgrReached s' (if ulSymAvail > 0 then [] else requests)
  | ues {s : CgrSched} {requests : List CgrRequest} (h : CgrReached s requests)
    (ueMap : Nat → Option (List (Nat × Lcg))) : CgrReached { s with ueMap } requests

/-- What waits is every RNTI once and every size. -/
structure CgrWaits (s : CgrSched) (requests : List CgrRequest) : Prop where
  srList_eq : s.srList = firstRequests (requests.map CgrRequest.rnti)
  bufCgr_eq : s.bufCgr = requests.map CgrRequest.buf

section Requests

variable {params : UlCgrInfoReq} {s s' : CgrSched} {requests : List CgrRequest}

theorem rntis_requests (hlen : params.srList.length = params.bufCgr.length) :
    params.requests.map CgrRequest.rnti = params.srList := by
  rw [UlCgrInfoReq.requests, List.map_map]
  exact List.map_fst_zip hlen.le

theorem bufs_requests (hlen : params.srList.length = params.bufCgr.length) :
    params.requests.map CgrRequest.buf = params.bufCgr := by
  rw [UlCgrInfoReq.requests, List.map_map]
  exact List.map_snd_zip hlen.ge

theorem CgrWaits.merge (h : CgrWaits s requests) (rntis : List Nat) :
    rntis.foldl mergeRnti s.srList =
      firstRequests (requests.map CgrRequest.rnti ++ rntis) := by
  rw [h.srList_eq, firstRequests, firstRequests, List.foldl_append]

/-- A call goes through when as many distinct RNTIs wait after it as it names. -/
theorem CgrWaits.request_ok_iff (h : CgrWaits s requests) (params : UlCgrInfoReq) :
    (∃ s', s.doSchedUlCgrInfoReq params = .ok s') ↔
      params.srList.length ≤ (requests.map CgrRequest.rnti ++ params.srList).dedup.length := by
  unfold CgrSched.doSchedUlCgrInfoReq
  dsimp only
  rw [h.merge, length_firstRequests]
  constructor
  · rintro ⟨s', hs'⟩
    split at hs'
    · cases hs'
    · omega
  · intro hle
    rw [if_neg (not_lt.mpr hle)]
    exact ⟨_, rfl⟩

theorem CgrWaits.request (h : CgrWaits s requests)
    (hlen : params.srList.length = params.bufCgr.length)
    (hs' : s.doSchedUlCgrInfoReq params = .ok s') : CgrWaits s' (requests ++ params.requests) := by
  unfold CgrSched.doSchedUlCgrInfoReq at hs'
  dsimp only at hs'
  split at hs'
  · cases hs'
  · cases hs'
    constructor
    · rw [List.map_append, rntis_requests hlen]
      exact h.merge params.srList
    · rw [List.map_append, bufs_requests hlen, ← h.bufCgr_eq]

theorem CgrWaits.slot (h : CgrWaits s requests) {ulSymAvail : Nat}
    (hs' : s.doScheduleUl ulSymAvail = .ok s') :
    CgrWaits s' (if ulSymAvail > 0 then [] else requests) := by
  unfold CgrSched.doScheduleUl at hs'
  by_cases hsym : ulSymAvail > 0
  · rw [if_pos hsym]
    by_cases hsr : s.srList.length > 0
    · rw [if_pos ⟨hsym, hsr⟩] at hs'
      cases hloop : s.doScheduleUlresourcesConfiguredGrant s.srList with
      | error e => simp [hloop, bind, Except.bind] at hs'
      | ok ueMap =>
        simp only [hloop, bind, Except.bind, pure, Except.pure, Except.ok.injEq] at hs'
        subst hs'
        exact ⟨rfl, rfl⟩
    · rw [if_neg fun hand => hsr hand.2] at hs'
      cases hs'
      have hnil : s.srList = [] := List.eq_nil_of_length_eq_zero (by omega)
      have hrequests : requests = [] := by
        cases requests with
        | nil => rfl
        | cons q requests =>
          have hmem : q.rnti ∈ firstRequests ((q :: requests).map CgrRequest.rnti) := by simp
          rw [← h.srList_eq, hnil] at hmem
          cases hmem
      rw [hrequests] at h
      exact h
  · rw [if_neg hsym]
    rw [if_neg fun hand => hsym hand.1] at hs'
    cases hs'
    exact h

theorem CgrReached.waits (h : CgrReached s requests) : CgrWaits s requests := by
  induction h with
  | start hsr hbuf => exact ⟨hsr, hbuf⟩
  | request h params hlen hs' ih => exact ih.request hlen hs'
  | slot h ulSymAvail hs' ih => exact ih.slot hs'
  | ues h ueMap ih => exact ⟨ih.srList_eq, ih.bufCgr_eq⟩

end Requests

/-! ## The pairing -/

/-- The UEs have the groups that their requests are for. -/
def HasGroups (ueMap : Nat → Option (List (Nat × Lcg))) (requests : List CgrRequest) : Prop :=
  ∀ q ∈ requests, ∃ ulLCG, ueMap q.rnti = some ulLCG ∧ HasCgLcg q.lcid ulLCG

/-- The UL slot updates each waiting UE as one of its own requests asks. -/
def CgrSched.Paired (s : CgrSched) (requests : List CgrRequest) : Prop :=
  ∃ ueMap, s.doScheduleUlresourcesConfiguredGrant s.srList = .ok ueMap ∧
    ∀ rnti ∈ s.srList, ∃ q ∈ requests, q.rnti = rnti ∧
      ueMap rnti = (s.ueMap rnti).map (grantLcgs q.lcid q.buf)

/-- An RNTI that is requested for the first time has a request for the channel of the last call with
a size of the same level as the one at the position that the number of distinct RNTIs before it
gives. -/
def SizesMatch (lcid : Nat) (requests : List CgrRequest) : Prop :=
  ∀ i rnti, (requests.map CgrRequest.rnti)[i]? = some rnti →
    rnti ∉ (requests.map CgrRequest.rnti).take i → ∃ q ∈ requests, q.rnti = rnti ∧ q.lcid = lcid ∧
      (requests.map fun q => cgrSize q.buf)[((requests.map CgrRequest.rnti).take i).dedup.length]? =
        some (cgrSize q.buf)

/-- No RNTI is requested for the first time after a repeated request, and the first requests are for
the channel of the last call. `named` are the RNTIs and channels of the requests. -/
def NewBeforeRepeated (lcid : Nat) (named : List (Nat × Nat)) : Prop :=
  ∀ i r, named[i]? = some r → r.1 ∉ (named.map Prod.fst).take i →
    ((named.map Prod.fst).take i).Nodup ∧ r.2 = lcid

/-- The requests with these sizes. -/
def withBufs (named : List (Nat × Nat)) (bufs : List Nat) : List CgrRequest :=
  (named.zip bufs).map fun q => ⟨q.1.1, q.2, q.1.2⟩

section Pairing

variable {s : CgrSched} {requests : List CgrRequest} {lcid : Nat} {named : List (Nat × Nat)}

/-- The lists are as long as the iterator needs. -/
theorem CgrWaits.length_le (h : CgrWaits s requests) : s.srList.length ≤ s.bufCgr.length := by
  rw [h.srList_eq, h.bufCgr_eq, length_firstRequests, List.length_map]
  apply (List.Sublist.length_le (List.dedup_sublist _)).trans
  rw [List.length_map]

/-- The size at the position of a waiting RNTI. -/
theorem CgrWaits.buf (h : CgrWaits s requests) {k rnti : Nat} (hk : s.srList[k]? = some rnti) :
    ∃ b, s.bufCgr[k]? = some b ∧
      (requests.map fun q => cgrSize q.buf)[k]? = some (cgrSize b) := by
  have hlt : k < s.bufCgr.length := (List.getElem?_eq_some_iff.mp hk).1.trans_le h.length_le
  refine ⟨s.bufCgr[k], List.getElem?_eq_getElem hlt, ?_⟩
  have hmap : (requests.map fun q => cgrSize q.buf) = s.bufCgr.map cgrSize := by
    rw [h.bufCgr_eq, List.map_map]
    rfl
  rw [hmap, List.getElem?_map, List.getElem?_eq_getElem hlt, Option.map_some]

/-- The slot goes through the list. -/
theorem CgrWaits.loop (h : CgrWaits s requests) (hues : HasGroups s.ueMap requests) :
    ∃ ueMap, s.doScheduleUlresourcesConfiguredGrant s.srList = .ok ueMap ∧
      ∀ k v b : Nat, s.srList[k]? = some v → s.bufCgr[k]? = some b →
        ueMap v = (s.ueMap v).map (grantLcgs s.lcidConfiguredGrant b) := by
  have hnodup : s.srList.Nodup := by
    rw [h.srList_eq]
    exact nodup_firstRequests _
  obtain ⟨ueMap, hloop, -, hsizes⟩ := cgLoop_eq s.lcidConfiguredGrant hnodup
    h.length_le (by
      intro v hv
      rw [h.srList_eq, mem_firstRequests] at hv
      obtain ⟨q, hq, rfl⟩ := List.mem_map.mp hv
      obtain ⟨ulLCG, hmap, hcg⟩ := hues q hq
      exact ⟨ulLCG, hmap, hcg.one_channel⟩)
  exact ⟨ueMap, hloop, hsizes⟩

theorem CgrWaits.paired (h : CgrWaits s requests) (hues : HasGroups s.ueMap requests)
    (hmatch : SizesMatch s.lcidConfiguredGrant requests) : s.Paired requests := by
  obtain ⟨ueMap, hloop, hsizes⟩ := h.loop hues
  refine ⟨ueMap, hloop, ?_⟩
  intro rnti hmem
  obtain ⟨k, hk⟩ := List.mem_iff_getElem?.mp hmem
  obtain ⟨b, hb, hlevel⟩ := h.buf hk
  have hfirst := hk
  rw [h.srList_eq, getElem?_firstRequests] at hfirst
  obtain ⟨i, hi, hnew, rfl⟩ := hfirst
  obtain ⟨q, hq, hrnti, hlcid, hsame⟩ := hmatch i rnti hi hnew
  refine ⟨q, hq, hrnti, ?_⟩
  rw [hlevel] at hsame
  rw [hsizes _ rnti b hk hb, hlcid]
  unfold grantLcgs
  rw [Option.some.inj hsame]

/-- A UE with an empty slate: a group for each channel that it requests, with one byte. -/
def oneByteGroups (requests : List CgrRequest) (rnti : Nat) : Option (List (Nat × Lcg)) :=
  some ((requests.filter fun q => q.rnti = rnti).map fun q =>
    (q.lcid, ⟨[(q.lcid, { rlcTransmissionQueueSize := 1 })], 1⟩))

theorem hasGroups_oneByteGroups (requests : List CgrRequest) :
    HasGroups (oneByteGroups requests) requests := by
  intro q hq
  refine ⟨_, rfl, ?_, ?_⟩
  · intro el hel
    obtain ⟨q', -, rfl⟩ := List.mem_map.mp hel
    exact ⟨q'.lcid, rfl⟩
  · refine ⟨_, List.mem_map_of_mem (List.mem_filter.mpr ⟨hq, decide_eq_true rfl⟩), rfl⟩

/-- No level stands for one byte. -/
theorem cgrSize_ne_one (b : Nat) : cgrSize b ≠ 1 := by
  have hall : ∀ l ≤ 31, fromLevelToBytes l ≠ 1 := by decide
  exact hall _ (fromBytesToLevel_le _)

theorem CgrWaits.sizesMatch (h : CgrWaits s requests)
    (hpaired : ∀ ueMap, HasGroups ueMap requests → CgrSched.Paired { s with ueMap } requests) :
    SizesMatch s.lcidConfiguredGrant requests := by
  intro i rnti hi hnew
  have hues := hasGroups_oneByteGroups requests
  have hwaits : CgrWaits { s with ueMap := oneByteGroups requests } requests :=
    ⟨h.srList_eq, h.bufCgr_eq⟩
  obtain ⟨ueMap, hloop, hsizes⟩ := hwaits.loop hues
  obtain ⟨ueMap', hloop', hown⟩ := hpaired _ hues
  obtain rfl : ueMap = ueMap' := Except.ok.inj (hloop.symm.trans hloop')
  have hk : s.srList[((requests.map CgrRequest.rnti).take i).dedup.length]? = some rnti := by
    rw [h.srList_eq]
    exact getElem?_firstRequests.mpr ⟨i, hi, hnew, rfl⟩
  obtain ⟨b, hb, hlevel⟩ := h.buf hk
  obtain ⟨q, hq, hrnti, hupdated⟩ := hown rnti (List.mem_of_getElem? hk)
  rw [hsizes _ rnti b hk hb] at hupdated
  have hlists := Option.some.inj hupdated
  have hentry := List.map_inj_left.mp hlists (q.lcid, ⟨[(q.lcid, ⟨1, 0, 0⟩)], 1⟩)
    (List.mem_map_of_mem (List.mem_filter.mpr ⟨hq, decide_eq_true hrnti⟩))
  have htotal : (Lcg.withGrant ⟨[(q.lcid, ⟨1, 0, 0⟩)], 1⟩ s.lcidConfiguredGrant
      (cgrSize b)).totalSize = cgrSize q.buf := by
    have := congrArg (fun e : Nat × Lcg => e.2.totalSize) hentry
    simpa [Lcg.withGrant, Lcg.getLCId] using this
  by_cases hlcid : q.lcid = s.lcidConfiguredGrant
  · refine ⟨q, hq, hrnti, hlcid, ?_⟩
    rw [hlevel, ← htotal]
    simp [Lcg.withGrant, Lcg.getLCId, hlcid]
  · have hone : 1 = cgrSize q.buf := by
      rw [← htotal]
      simp [Lcg.withGrant, Lcg.getLCId, hlcid]
    exact absurd hone.symm (cgrSize_ne_one q.buf)

theorem rntis_withBufs {bufs : List Nat} (hlen : bufs.length = named.length) :
    (withBufs named bufs).map CgrRequest.rnti = named.map Prod.fst := by
  have hcomp : (CgrRequest.rnti ∘ fun q : (Nat × Nat) × Nat => (⟨q.1.1, q.2, q.1.2⟩ : CgrRequest)) =
      Prod.fst ∘ Prod.fst := rfl
  rw [withBufs, List.map_map, hcomp, ← List.map_map, List.map_fst_zip hlen.ge]

theorem getElem_withBufs {bufs : List Nat} (hlen : bufs.length = named.length) {i : Nat}
    {r : Nat × Nat} (hi : named[i]? = some r) :
    ∃ b, bufs[i]? = some b ∧ (withBufs named bufs)[i]? = some ⟨r.1, b, r.2⟩ := by
  have hlt : i < bufs.length := hlen ▸ (List.getElem?_eq_some_iff.mp hi).1
  have hb := List.getElem?_eq_getElem hlt
  have hzip : (named.zip bufs)[i]? = some (r, bufs[i]) := List.getElem?_zip_eq_some.mpr ⟨hi, hb⟩
  refine ⟨bufs[i], hb, ?_⟩
  rw [withBufs, List.getElem?_map, hzip, Option.map_some]

/-- Without a new RNTI after a repeated one, the positions are right. -/
theorem NewBeforeRepeated.sizesMatch (h : NewBeforeRepeated lcid named) {bufs : List Nat}
    (hlen : bufs.length = named.length) : SizesMatch lcid (withBufs named bufs) := by
  intro i rnti hi hnew
  rw [rntis_withBufs hlen] at hi hnew ⊢
  rw [List.getElem?_map] at hi
  obtain ⟨r, hr, rfl⟩ := Option.map_eq_some_iff.mp hi
  obtain ⟨hnodup, hlcid⟩ := h i r hr hnew
  obtain ⟨b, -, hget⟩ := getElem_withBufs hlen hr
  have hlength : ((named.map Prod.fst).take i).dedup.length = i := by
    have hlt := (List.getElem?_eq_some_iff.mp hr).1
    rw [hnodup.dedup, List.length_take_of_le (by simpa using hlt.le)]
  refine ⟨_, List.mem_of_getElem? hget, rfl, hlcid, ?_⟩
  rw [hlength, List.getElem?_map, hget, Option.map_some]

/-- The position that a first request is paired with. -/
theorem length_dedup_take_le (named : List (Nat × Nat)) (i : Nat) :
    ((named.map Prod.fst).take i).dedup.length ≤ i := by
  have hle := (List.dedup_sublist ((named.map Prod.fst).take i)).length_le
  exact hle.trans (List.length_take_le _ _)

/-- Otherwise the position of a first request belongs to another RNTI or to another channel. -/
theorem exists_other (h : ¬NewBeforeRepeated lcid named) :
    ∃ i r p, named[i]? = some r ∧ r.1 ∉ (named.map Prod.fst).take i ∧
      named[((named.map Prod.fst).take i).dedup.length]? = some p ∧ p ≠ (r.1, lcid) := by
  unfold NewBeforeRepeated at h
  push Not at h
  obtain ⟨i, r, hi, hnew, hrepeated⟩ := h
  have hlt : i < named.length := (List.getElem?_eq_some_iff.mp hi).1
  have hk := length_dedup_take_le named i
  by_cases hnodup : ((named.map Prod.fst).take i).Nodup
  · have hlength : ((named.map Prod.fst).take i).dedup.length = i := by
      rw [hnodup.dedup, List.length_take_of_le (by simpa using hlt.le)]
    refine ⟨i, r, r, hi, hnew, by rw [hlength, hi], ?_⟩
    intro heq
    exact hrepeated hnodup (congrArg Prod.snd heq)
  · have hne : ((named.map Prod.fst).take i).dedup.length ≠ i := by
      intro heq
      have htake : ((named.map Prod.fst).take i).length = i :=
        List.length_take_of_le (by simpa using hlt.le)
      have hself := (List.dedup_sublist _).eq_of_length (heq.trans htake.symm)
      exact hnodup (List.dedup_eq_self.mp hself)
    have hkn : ((named.map Prod.fst).take i).dedup.length < named.length := by omega
    refine ⟨i, r, named[((named.map Prod.fst).take i).dedup.length], hi, hnew,
      List.getElem?_eq_getElem hkn, ?_⟩
    intro heq
    apply hnew
    rw [← congrArg Prod.fst heq, List.mem_take_iff_getElem]
    exact ⟨_, by simp; omega, List.getElem_map _⟩

theorem mem_withBufs {q : CgrRequest} {f : Nat × Nat → Nat}
    (hq : q ∈ withBufs named (named.map f)) : q.buf = f (q.rnti, q.lcid) := by
  obtain ⟨⟨r, b⟩, hmem, rfl⟩ := List.mem_map.mp hq
  obtain ⟨j, hj, hget⟩ := List.mem_iff_getElem.mp hmem
  rw [List.getElem_zip, List.getElem_map, Prod.mk.injEq] at hget
  dsimp only
  rw [← hget.2, hget.1]

/-- Then there are sizes with which some UE gets that of another request. -/
theorem not_sizesMatch (h : ¬NewBeforeRepeated lcid named) :
    ∃ bufs, bufs.length = named.length ∧ ¬SizesMatch lcid (withBufs named bufs) := by
  obtain ⟨i, r, p, hi, hnew, hp, hne⟩ := exists_other h
  have hlen : (named.map fun p => if p = (r.1, lcid) then 0 else 100).length = named.length :=
    List.length_map _
  refine ⟨_, hlen, ?_⟩
  intro hmatch
  obtain ⟨q, hq, hrnti, hlcid, hsame⟩ := hmatch i r.1
    (by rw [rntis_withBufs hlen, List.getElem?_map, hi, Option.map_some])
    (by rwa [rntis_withBufs hlen])
  obtain ⟨b, hb, hget⟩ := getElem_withBufs hlen hp
  rw [List.getElem?_map, hp, Option.map_some, if_neg hne] at hb
  rw [rntis_withBufs hlen, List.getElem?_map, hget, Option.map_some] at hsame
  have hbuf := mem_withBufs hq
  rw [hrnti, hlcid, if_pos rfl] at hbuf
  have hlevel := Option.some.inj hsame
  rw [hbuf, ← Option.some.inj hb] at hlevel
  have hlevels : cgrSize 100 ≠ cgrSize 0 := by decide
  exact hlevels hlevel

end Pairing

/-- Whatever the queues of the UEs hold, their groups get the sizes of their own requests exactly
when the channel of the last call is theirs and the sizes that the positions give have the same
levels; and for all sizes exactly when no RNTI is new after a repeated one. The iterator never runs
past the end of the sizes, and a call aborts exactly when fewer distinct RNTIs wait after it than it
names. -/
theorem cgr_paired_iff (s : CgrSched) (requests : List CgrRequest) (h : CgrReached s requests) :
    s.srList.length ≤ s.bufCgr.length ∧
    ((∀ ueMap, HasGroups ueMap requests → CgrSched.Paired { s with ueMap } requests) ↔
      SizesMatch s.lcidConfiguredGrant requests) ∧
    (∀ params : UlCgrInfoReq, (∃ s', s.doSchedUlCgrInfoReq params = .ok s') ↔
      params.srList.length ≤ (requests.map CgrRequest.rnti ++ params.srList).dedup.length) ∧
    ∀ named lcid, (∀ bufs : List Nat, bufs.length = named.length →
      SizesMatch lcid (withBufs named bufs)) ↔ NewBeforeRepeated lcid named := by
  have hwaits := h.waits
  refine ⟨hwaits.length_le, ⟨hwaits.sizesMatch, ?_⟩, hwaits.request_ok_iff, ?_⟩
  · intro hmatch ueMap hues
    have hother : CgrWaits { s with ueMap } requests := ⟨hwaits.srList_eq, hwaits.bufCgr_eq⟩
    exact hother.paired hues hmatch
  · intro named lcid
    constructor
    · intro hall
      by_contra hnot
      obtain ⟨bufs, hlen, hsizes⟩ := not_sizesMatch hnot
      exact hsizes (hall bufs hlen)
    · intro hnew bufs hlen
      exact hnew.sizesMatch hlen

/-- Two UEs with a group for the channel 3. -/
def cgrTwoUes : CgrSched where
  ueMap := fun v => if v = 1 ∨ v = 2 then some [(1, ⟨[(3, {})], 0⟩)] else none

theorem hasCgLcg_three : HasCgLcg 3 [(1, ⟨[(3, {})], 0⟩)] where
  one_channel := by simp [Lcg.getLCId]
  has := by simp [Lcg.getLCId]

/-- The first UE asks in one call, and the second one in the next. -/
theorem cgr_paired_iff_two :
    (∀ ueMap, HasGroups ueMap [⟨1, 100000, 3⟩, ⟨2, 50, 3⟩] →
      CgrSched.Paired ⟨ueMap, [1, 2], [100000, 50], 3⟩ [⟨1, 100000, 3⟩, ⟨2, 50, 3⟩]) ↔
      SizesMatch 3 [⟨1, 100000, 3⟩, ⟨2, 50, 3⟩] := by
  have hreached : CgrReached ⟨cgrTwoUes.ueMap, [1, 2], [100000, 50], 3⟩
      [⟨1, 100000, 3⟩, ⟨2, 50, 3⟩] :=
    .request (.request (.start (s := cgrTwoUes) rfl rfl) ⟨[1], [100000], 3⟩ rfl rfl)
      ⟨[2], [50], 3⟩ rfl rfl
  exact (cgr_paired_iff _ _ hreached).2.1

/-- The first UE asks in two calls, and the second one in the second of them. -/
theorem cgr_paired_fails :
    ∃ s requests, CgrReached s requests ∧ HasGroups s.ueMap requests ∧ ¬s.Paired requests := by
  have hreached : CgrReached ⟨cgrTwoUes.ueMap, [1, 2], [100000, 100000, 50], 3⟩
      [⟨1, 100000, 3⟩, ⟨1, 100000, 3⟩, ⟨2, 50, 3⟩] :=
    .request (.request (.start (s := cgrTwoUes) rfl rfl) ⟨[1], [100000], 3⟩ rfl rfl)
      ⟨[1, 2], [100000, 50], 3⟩ rfl rfl
  have hues : HasGroups cgrTwoUes.ueMap [⟨1, 100000, 3⟩, ⟨1, 100000, 3⟩, ⟨2, 50, 3⟩] := by
    intro q hq
    refine ⟨[(1, ⟨[(3, {})], 0⟩)], ?_, ?_⟩
    · simp only [List.mem_cons, List.not_mem_nil, or_false] at hq
      rcases hq with rfl | rfl | rfl <;> rfl
    · simp only [List.mem_cons, List.not_mem_nil, or_false] at hq
      rcases hq with rfl | rfl | rfl <;> exact hasCgLcg_three
  refine ⟨_, _, hreached, hues, ?_⟩
  rintro ⟨ueMap, hloop, hown⟩
  obtain ⟨q, hq, hrnti, hupdated⟩ := hown 2 (by decide)
  have hq2 : q = ⟨2, 50, 3⟩ := by
    simp only [List.mem_cons, List.not_mem_nil, or_false] at hq
    rcases hq with rfl | rfl | rfl
    · cases hrnti
    · cases hrnti
    · rfl
  rw [hq2] at hupdated
  have hslot : (CgrSched.doScheduleUlresourcesConfiguredGrant
      ⟨cgrTwoUes.ueMap, [1, 2], [100000, 100000, 50], 3⟩ [1, 2]).map (fun m => m 2) =
      .ok (some (grantLcgs 3 100000 [(1, ⟨[(3, {})], 0⟩)])) := by rfl
  rw [hloop] at hslot
  have htwo : ueMap 2 = some (grantLcgs 3 100000 [(1, ⟨[(3, {})], 0⟩)]) := Except.ok.inj hslot
  rw [htwo] at hupdated
  have htotal := congrArg (fun g : Option (List (Nat × Lcg)) => g.map fun l => l.map fun e =>
    e.2.totalSize) hupdated
  revert htotal
  decide

/-- A call that names an RNTI twice aborts when no other one waits. -/
example : cgrTwoUes.doSchedUlCgrInfoReq ⟨[1, 1], [100, 100], 3⟩ = .error .abort := rfl

end Ns3.Nr.Sched
