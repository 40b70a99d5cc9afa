import Ns3.Internet.Ipv4StaticRouting

/-!
# The route that `LookupStatic` chooses

Without a full mask the loop keeps the longest mask, and the least metric for it. At the first
matching route with a full mask it ends: later ones with a smaller metric are not seen. It does not
come back from a route that it takes when the interface has no address (`GoesThrough`).
-/

namespace Ns3.Internet.StaticRouting

variable {δ : Type}

/-- A route matches the destination, on the device if one is given. -/
def Matching (ipv4 : Ipv4 δ) (dest : UInt32) (oif : Option δ) (r : NetworkRoute) : Prop :=
  isMatch r.1.destNetworkMask dest r.1.dest = true ∧
    (oif = none ∨ ipv4.getNetDevice r.1.interface = some oif)

instance [DecidableEq δ] (ipv4 : Ipv4 δ) (dest : UInt32) (oif : Option δ) :
    DecidablePred (Matching ipv4 dest oif) :=
  fun _ => inferInstanceAs (Decidable (_ ∧ _))

/-- The mask length of a route. -/
abbrev masklen (r : NetworkRoute) : Nat := getPrefixLength r.1.destNetworkMask

/-- A longest mask, and a least metric among the routes with masks of that length. -/
def Preferred (routes : List NetworkRoute) (r : NetworkRoute) : Prop :=
  r ∈ routes ∧ ∀ x ∈ routes, masklen x < masklen r ∨ (masklen x = masklen r ∧ r.2 ≤ x.2)

/-- What the variables of the loop say about the matching routes so far. -/
structure Search.Holds (ipv4 : Ipv4 δ) (s : Search δ) (seen : List NetworkRoute) : Prop where
  none_iff : s.rtentry = none ↔ seen = []
  start : seen = [] → s.longestMask = 0 ∧ s.shortestMetric = 0xffffffff
  best : seen ≠ [] → ∃ r rt, Preferred seen r ∧ route ipv4 r.1 = some rt ∧
    s.rtentry = some rt ∧ s.longestMask = masklen r ∧ s.shortestMetric = r.2

/-- A matching route that is not taken. -/
def Search.Skips (s : Search δ) (r : NetworkRoute) : Prop :=
  masklen r < s.longestMask ∨ (masklen r = s.longestMask ∧ s.shortestMetric < r.2)

instance (s : Search δ) (r : NetworkRoute) : Decidable (s.Skips r) :=
  inferInstanceAs (Decidable (_ ∨ _))

/-- The variables after a route that is taken. -/
def Search.taken (r : NetworkRoute) (rt : Ipv4Route δ) : Search δ := ⟨some rt, masklen r, r.2⟩

/-- The device of a route can be compared with the requested one. -/
def KnownDevice (ipv4 : Ipv4 δ) (oif : Option δ) (r : NetworkRoute) : Prop :=
  oif = none ∨ ∃ iface, ipv4.getInterface r.1.interface = some iface

/-- The interface of a route is there and has an address. -/
def HasAddress (ipv4 : Ipv4 δ) (r : NetworkRoute) : Prop :=
  ∃ iface, ipv4.getInterface r.1.interface = some iface ∧ iface.ifaddrs ≠ []

theorem not_lt_maxMetric (metric : UInt32) : ¬(0xffffffff : UInt32) < metric := by
  rw [UInt32.lt_iff_toNat_lt]
  have := metric.toNat_lt
  show ¬2 ^ 32 - 1 < metric.toNat
  omega

/-- The source address and the device are found when the interface has an address. -/
theorem route_isSome_iff (ipv4 : Ipv4 δ) (r : NetworkRoute) :
    (∃ rt, route ipv4 r.1 = some rt) ↔ HasAddress ipv4 r := by
  unfold route HasAddress Ipv4.sourceAddressSelection Ipv4.getNetDevice Ipv4.getAddress
  cases hiface : ipv4.getInterface r.1.interface with
  | none => simp
  | some iface =>
    cases haddrs : iface.ifaddrs with
    | nil => simp [haddrs]
    | cons a addrs =>
      cases addrs with
      | nil => simp [haddrs]
      | cons b addrs => simp [haddrs]

theorem route_eq_some {ipv4 : Ipv4 δ} {j : RoutingTableEntry} {rt : Ipv4Route δ}
    (h : route ipv4 j = some rt) :
    rt.gateway = j.gateway ∧ ipv4.getNetDevice j.interface = some rt.outputDevice := by
  obtain ⟨source, -, h⟩ := Option.bind_eq_some_iff.mp h
  obtain ⟨device, hdevice, h⟩ := Option.bind_eq_some_iff.mp h
  cases h
  exact ⟨rfl, hdevice⟩

/-- The test on the device fails when there is no interface. -/
theorem notRequested_eq_none [DecidableEq δ] {ipv4 : Ipv4 δ} {oif : Option δ} {r : NetworkRoute} :
    notRequested ipv4 oif r.1.interface = none ↔ ¬KnownDevice ipv4 oif r := by
  unfold notRequested KnownDevice Ipv4.getNetDevice
  cases oif with
  | none => simp
  | some device =>
    cases ipv4.getInterface r.1.interface with
    | none => simp
    | some iface => simp

theorem notRequested_eq_false [DecidableEq δ] {ipv4 : Ipv4 δ} {oif : Option δ} {r : NetworkRoute} :
    notRequested ipv4 oif r.1.interface = some false ↔
      oif = none ∨ ipv4.getNetDevice r.1.interface = some oif := by
  unfold notRequested
  cases oif with
  | none => simp
  | some device =>
    cases ipv4.getNetDevice r.1.interface with
    | none => simp
    | some d =>
      simp only [Option.map_some, Option.some.injEq, decide_eq_false_iff_not, not_not,
        reduceCtorEq, false_or]
      exact eq_comm

/-- One turn of the loop. A metric is never above the one that a longer mask resets. -/
theorem lookupLoop_cons [DecidableEq δ] (ipv4 : Ipv4 δ) (dest : UInt32) (oif : Option δ)
    (r : NetworkRoute) (rest : List NetworkRoute) (s : Search δ) :
    lookupLoop ipv4 dest oif (r :: rest) s =
      if isMatch r.1.destNetworkMask dest r.1.dest = true then
        match notRequested ipv4 oif r.1.interface with
        | none => none
        | some true => lookupLoop ipv4 dest oif rest s
        | some false =>
          if s.Skips r then lookupLoop ipv4 dest oif rest s
          else
            match route ipv4 r.1 with
            | none => none
            | some rt =>
              if masklen r = 32 then some (Search.taken r rt)
              else lookupLoop ipv4 dest oif rest (Search.taken r rt)
      else lookupLoop ipv4 dest oif rest s := by
  have hmax := not_lt_maxMetric r.2
  obtain ⟨j, metric⟩ := r
  rw [lookupLoop]
  by_cases hmatch : isMatch j.destNetworkMask dest j.dest = true
  · simp only [if_pos hmatch]
    cases notRequested ipv4 oif j.interface with
    | none => rfl
    | some skip =>
      cases skip with
      | true => rfl
      | false =>
        rcases Nat.lt_trichotomy (getPrefixLength j.destNetworkMask) s.longestMask with
          hshort | hequal | hlong
        · have hskips : s.Skips (j, metric) := Or.inl hshort
          simp only [if_pos hshort, if_pos hskips]
        · have hskips : s.Skips (j, metric) ↔ s.shortestMetric < metric :=
            ⟨fun h => h.elim (fun hlt => absurd hequal (Nat.ne_of_lt hlt)) And.right,
              fun h => Or.inr ⟨hequal, h⟩⟩
          have hsame : ¬getPrefixLength j.destNetworkMask > s.longestMask :=
            Nat.not_lt.mpr (Nat.le_of_eq hequal)
          have hself : { s with longestMask := getPrefixLength j.destNetworkMask } = s := by
            rw [hequal]
          simp only [if_neg (Nat.not_lt.mpr (Nat.le_of_eq hequal.symm)), if_neg hsame, hself,
            if_congr hskips rfl rfl]
          rfl
        · have hskips : ¬s.Skips (j, metric) := by
            rintro (hlt | ⟨heq, -⟩)
            · exact Nat.lt_asymm hlong hlt
            · exact Nat.ne_of_gt hlong heq
          simp only [if_neg (Nat.lt_asymm hlong), if_neg hskips, if_pos hlong, if_neg hmax]
          rfl
  · simp only [if_neg hmatch]

theorem Search.Holds.nil (ipv4 : Ipv4 δ) : Search.Holds ipv4 {} [] :=
  ⟨⟨fun _ => rfl, fun _ => rfl⟩, fun _ => ⟨rfl, rfl⟩, fun h => absurd rfl h⟩

theorem Preferred.concat {seen : List NetworkRoute} {b r : NetworkRoute} (h : Preferred seen b)
    (hr : masklen r < masklen b ∨ (masklen r = masklen b ∧ b.2 ≤ r.2)) :
    Preferred (seen ++ [r]) b := by
  refine ⟨List.mem_append_left _ h.1, fun x hx => ?_⟩
  rcases List.mem_append.mp hx with hx | hx
  · exact h.2 x hx
  · exact List.mem_singleton.mp hx ▸ hr

/-- The first route is taken: no mask is shorter, and no metric is larger, than those at the
start. -/
theorem Search.Holds.ne_nil {ipv4 : Ipv4 δ} {s : Search δ} {seen : List NetworkRoute}
    (h : s.Holds ipv4 seen) {r : NetworkRoute} (hskips : s.Skips r) : seen ≠ [] := by
  intro hseen
  obtain ⟨hmask, hmetric⟩ := h.start hseen
  rcases hskips with hshort | ⟨-, hlarge⟩
  · rw [hmask] at hshort
    exact Nat.not_lt_zero _ hshort
  · rw [hmetric] at hlarge
    exact not_lt_maxMetric _ hlarge

theorem Search.Holds.skip {ipv4 : Ipv4 δ} {s : Search δ} {seen : List NetworkRoute}
    (h : s.Holds ipv4 seen) {r : NetworkRoute} (hskips : s.Skips r) :
    s.Holds ipv4 (seen ++ [r]) := by
  have hne := h.ne_nil hskips
  obtain ⟨b, rt, hb, hrt, hroute, hmask, hmetric⟩ := h.best hne
  have happ : seen ++ [r] ≠ [] := List.append_ne_nil_of_left_ne_nil hne _
  refine ⟨⟨fun hnone => absurd (h.none_iff.mp hnone) hne, fun hnil => absurd hnil happ⟩,
    fun hnil => absurd hnil happ, fun _ => ⟨b, rt, hb.concat ?_, hrt, hroute, hmask, hmetric⟩⟩
  rw [← hmask, ← hmetric]
  exact hskips.imp_right (And.imp_right UInt32.le_of_lt)

/-- A route is taken when it is preferred among those so far. -/
theorem Search.Holds.preferred_iff {ipv4 : Ipv4 δ} {s : Search δ} {seen : List NetworkRoute}
    (h : s.Holds ipv4 seen) {r : NetworkRoute} : Preferred (seen ++ [r]) r ↔ ¬s.Skips r := by
  constructor
  · rintro ⟨-, hall⟩ hskips
    obtain ⟨b, rt, hb, -, -, hmask, hmetric⟩ := h.best (h.ne_nil hskips)
    have hless := hall b (List.mem_append_left _ hb.1)
    rw [Search.Skips, hmask, hmetric, UInt32.lt_iff_toNat_lt] at hskips
    rw [UInt32.le_iff_toNat_le] at hless
    omega
  · intro hskips
    refine ⟨List.mem_append_right _ List.mem_cons_self, fun x hx => ?_⟩
    rcases List.mem_append.mp hx with hx | hx
    · obtain ⟨b, rt, hb, -, -, hmask, hmetric⟩ := h.best (List.ne_nil_of_mem hx)
      have hx := hb.2 x hx
      rw [Search.Skips, hmask, hmetric, not_or, not_and, UInt32.not_lt] at hskips
      rw [UInt32.le_iff_toNat_le] at hskips hx ⊢
      omega
    · rw [List.mem_singleton.mp hx]
      exact Or.inr ⟨rfl, UInt32.le_refl _⟩

theorem Search.Holds.take {ipv4 : Ipv4 δ} {s : Search δ} {seen : List NetworkRoute}
    (h : s.Holds ipv4 seen) {r : NetworkRoute} (hskips : ¬s.Skips r) {rt : Ipv4Route δ}
    (hrt : route ipv4 r.1 = some rt) : (Search.taken r rt).Holds ipv4 (seen ++ [r]) := by
  have happ : seen ++ [r] ≠ [] := List.append_ne_nil_of_right_ne_nil _ (List.cons_ne_nil _ _)
  exact ⟨⟨fun hnone => absurd hnone (Option.some_ne_none _), fun hnil => absurd hnil happ⟩,
    fun hnil => absurd hnil happ,
    fun _ => ⟨r, rt, h.preferred_iff.mpr hskips, hrt, rfl, rfl, rfl⟩⟩

/-- A full mask is at least as long as any other one. -/
def FullMask (r : NetworkRoute) : Bool := masklen r = 32

/-- What the loop returns: the first route with a full mask, or else a preferred one. -/
def Chosen (ipv4 : Ipv4 δ) (routes : List NetworkRoute) (result : Option (Ipv4Route δ)) : Prop :=
  match routes.find? FullMask with
  | some r => ∃ rt, route ipv4 r.1 = some rt ∧ result = some rt
  | none => (result = none ∧ routes = []) ∨
      ∃ r rt, Preferred routes r ∧ route ipv4 r.1 = some rt ∧ result = some rt

/-- No step of the loop fails. At a route that matches the destination, up to the first one with a
full mask, a requested device can be compared with its own; and if the route is on the device and
preferred among those so far, its interface has an address. `seen` are the routes before. -/
def GoesThrough [DecidableEq δ] (ipv4 : Ipv4 δ) (dest : UInt32) (oif : Option δ)
    (seen routes : List NetworkRoute) : Prop :=
  ∀ before r after, routes = before ++ r :: after →
    (before.filter (Matching ipv4 dest oif)).find? FullMask = none →
    isMatch r.1.destNetworkMask dest r.1.dest = true → KnownDevice ipv4 oif r ∧
      (Matching ipv4 dest oif r →
        Preferred (seen ++ before.filter (Matching ipv4 dest oif) ++ [r]) r → HasAddress ipv4 r)

/-- A table whose interfaces have addresses. -/
theorem goesThrough_of_forall [DecidableEq δ] {ipv4 : Ipv4 δ} {seen routes : List NetworkRoute}
    (h : ∀ r ∈ routes, HasAddress ipv4 r) (dest : UInt32) (oif : Option δ) :
    GoesThrough ipv4 dest oif seen routes := by
  rintro before r after rfl - -
  have hr := h r (List.mem_append_right _ List.mem_cons_self)
  obtain ⟨iface, hiface, -⟩ := id hr
  exact ⟨Or.inr ⟨iface, hiface⟩, fun _ _ => hr⟩

theorem goesThrough_nil [DecidableEq δ] (ipv4 : Ipv4 δ) (dest : UInt32) (oif : Option δ)
    (seen : List NetworkRoute) : GoesThrough ipv4 dest oif seen [] := by
  intro before r after h
  cases before <;> cases h

theorem goesThrough_cons [DecidableEq δ] {ipv4 : Ipv4 δ} {dest : UInt32} {oif : Option δ}
    {seen rest : List NetworkRoute} {r : NetworkRoute} :
    GoesThrough ipv4 dest oif seen (r :: rest) ↔
      (isMatch r.1.destNetworkMask dest r.1.dest = true → KnownDevice ipv4 oif r ∧
        (Matching ipv4 dest oif r → Preferred (seen ++ [r]) r → HasAddress ipv4 r)) ∧
      (if Matching ipv4 dest oif r then
        FullMask r = false → GoesThrough ipv4 dest oif (seen ++ [r]) rest
      else GoesThrough ipv4 dest oif seen rest) := by
  have hlater : ∀ before r' after, (r :: rest = (r :: before) ++ r' :: after) ↔
      rest = before ++ r' :: after := by simp
  constructor
  · intro h
    refine ⟨?_, ?_⟩
    · have hfirst := h [] r rest rfl rfl
      rwa [List.filter_nil, List.append_nil] at hfirst
    · split
      · rename_i hmatch
        intro hfull before r' after heq hnone
        have hnext := h (r :: before) r' after ((hlater _ _ _).mpr heq)
        rw [List.filter_cons_of_pos (by simpa using hmatch), List.find?_cons, hfull,
          List.append_cons seen r] at hnext
        exact hnext hnone
      · rename_i hmatch
        intro before r' after heq hnone
        have hnext := h (r :: before) r' after ((hlater _ _ _).mpr heq)
        rw [List.filter_cons_of_neg (by simpa using hmatch)] at hnext
        exact hnext hnone
  · rintro ⟨hfirst, hrest⟩ before r' after heq hnone
    cases before with
    | nil =>
      cases heq
      rwa [List.filter_nil, List.append_nil]
    | cons r₁ before =>
      obtain ⟨rfl, hlist⟩ := List.cons.inj heq
      split at hrest
      · rename_i hmatch
        rw [List.filter_cons_of_pos (by simpa using hmatch), List.find?_cons] at hnone
        split at hnone
        · cases hnone
        · rename_i hfull
          have hnext := hrest hfull before r' after hlist hnone
          rw [List.filter_cons_of_pos (by simpa using hmatch), List.append_cons seen r]
          exact hnext
      · rename_i hmatch
        rw [List.filter_cons_of_neg (by simpa using hmatch)] at hnone ⊢
        exact hrest before r' after hlist hnone

/-- A route that is not taken has no full mask, when none was seen before. -/
theorem Search.Holds.find?_skip {ipv4 : Ipv4 δ} {s : Search δ} {seen : List NetworkRoute}
    (h : s.Holds ipv4 seen) (hseen : seen.find? FullMask = none) {r : NetworkRoute}
    (hskips : s.Skips r) : (seen ++ [r]).find? FullMask = none := by
  obtain ⟨b, rt, hb, -, -, hmask, -⟩ := h.best (h.ne_nil hskips)
  have hle : masklen b ≤ 32 := getPrefixLength_le b.1.destNetworkMask
  have hnot : masklen b ≠ 32 := by
    have := List.find?_eq_none.mp hseen b hb.1
    simpa [FullMask] using this
  have hr : masklen r ≠ 32 := by
    rcases hskips with hshort | ⟨hequal, -⟩
    · omega
    · omega
  rw [List.find?_append, hseen]
  simp [FullMask, hr]

/-- The loop comes back exactly when no step fails, and returns the route that it should. -/
theorem lookupLoop_spec [DecidableEq δ] (ipv4 : Ipv4 δ) (dest : UInt32) (oif : Option δ)
    (rest : List NetworkRoute) {s : Search δ} {seen : List NetworkRoute}
    (h : s.Holds ipv4 seen) (hseen : seen.find? FullMask = none) :
    (GoesThrough ipv4 dest oif seen rest ∧ ∃ s', lookupLoop ipv4 dest oif rest s = some s' ∧
      Chosen ipv4 (seen ++ rest.filter (Matching ipv4 dest oif)) s'.rtentry) ∨
    (¬GoesThrough ipv4 dest oif seen rest ∧ lookupLoop ipv4 dest oif rest s = none) := by
  induction rest generalizing s seen with
  | nil =>
    refine Or.inl ⟨goesThrough_nil ipv4 dest oif seen, s, rfl, ?_⟩
    rw [List.filter_nil, List.append_nil, Chosen, hseen]
    by_cases hnil : seen = []
    · exact Or.inl ⟨h.none_iff.mpr hnil, hnil⟩
    · obtain ⟨b, rt, hb, hrt, hroute, -⟩ := h.best hnil
      exact Or.inr ⟨b, rt, hb, hrt, hroute⟩
  | cons r rest ih =>
    rw [lookupLoop_cons, goesThrough_cons]
    by_cases hdest : isMatch r.1.destNetworkMask dest r.1.dest = true
    swap
    · have hmatch : ¬Matching ipv4 dest oif r := fun hboth => hdest hboth.1
      rw [if_neg hdest, if_neg hmatch, List.filter_cons_of_neg (by simpa using hmatch)]
      simpa [hdest] using ih h hseen
    rw [if_pos hdest]
    cases hrequest : notRequested ipv4 oif r.1.interface with
    | none =>
      have hunknown := notRequested_eq_none.mp hrequest
      exact Or.inr ⟨fun hgoes => hunknown (hgoes.1 hdest).1, rfl⟩
    | some skip =>
      have hknown : KnownDevice ipv4 oif r := by
        by_contra hunknown
        rw [notRequested_eq_none.mpr hunknown] at hrequest
        cases hrequest
      cases skip with
      | true =>
        have hmatch : ¬Matching ipv4 dest oif r := by
          rintro ⟨-, hdevice⟩
          rw [notRequested_eq_false.mpr hdevice] at hrequest
          cases hrequest
        rw [if_neg hmatch, List.filter_cons_of_neg (by simpa using hmatch)]
        simpa [hdest, hknown, hmatch] using ih h hseen
      | false =>
        have hmatch : Matching ipv4 dest oif r := ⟨hdest, notRequested_eq_false.mp hrequest⟩
        rw [if_pos hmatch, List.filter_cons_of_pos (by simpa using hmatch),
          List.append_cons seen r (rest.filter _), h.preferred_iff]
        by_cases hskips : s.Skips r
        · have hnotFull : FullMask r = false := by
            have hnone := h.find?_skip hseen hskips
            rw [List.find?_append, hseen, Option.none_or, List.find?_singleton] at hnone
            by_contra hfull
            rw [Bool.not_eq_false] at hfull
            simp [hfull] at hnone
          have hnext := ih (h.skip hskips) (h.find?_skip hseen hskips)
          dsimp only
          rw [if_pos hskips]
          simpa [hknown, hskips, hnotFull] using hnext
        · dsimp only
          rw [if_neg hskips]
          cases hroute : route ipv4 r.1 with
          | none =>
            refine Or.inr ⟨?_, rfl⟩
            rintro ⟨hgoes, -⟩
            obtain ⟨rt, hrt⟩ := (route_isSome_iff ipv4 r).mpr ((hgoes hdest).2 hmatch hskips)
            rw [hroute] at hrt
            cases hrt
          | some rt =>
            have haddress := (route_isSome_iff ipv4 r).mp ⟨rt, hroute⟩
            dsimp only
            split
            · rename_i hfull
              refine Or.inl ⟨⟨fun _ => ⟨hknown, fun _ _ => haddress⟩, ?_⟩, _, rfl, ?_⟩
              · intro hnot
                simp [FullMask, hfull] at hnot
              · have hfind : (seen ++ [r] ++ rest.filter (Matching ipv4 dest oif)).find? FullMask =
                    some r := by
                  rw [List.append_assoc, List.find?_append, hseen]
                  simp [FullMask, hfull]
                rw [Chosen, hfind]
                exact ⟨rt, hroute, rfl⟩
            · rename_i hfull
              have hnotFull : FullMask r = false := decide_eq_false hfull
              have hnone : (seen ++ [r]).find? FullMask = none := by
                rw [List.find?_append, hseen]
                simp [hnotFull]
              simpa [hknown, haddress, hnotFull] using ih (h.take hskips hroute) hnone

theorem Chosen.congr {ipv4 : Ipv4 δ} {routes routes' : List NetworkRoute}
    {result : Option (Ipv4Route δ)} (hmem : ∀ r, r ∈ routes ↔ r ∈ routes')
    (hfind : routes.find? FullMask = routes'.find? FullMask) (h : Chosen ipv4 routes result) :
    Chosen ipv4 routes' result := by
  have hpreferred (r : NetworkRoute) : Preferred routes r ↔ Preferred routes' r :=
    and_congr (hmem r) (forall_congr' fun x => imp_congr (hmem x) Iff.rfl)
  have hnil : routes = [] ↔ routes' = [] := by
    simp only [List.eq_nil_iff_forall_not_mem, hmem]
  rw [Chosen, ← hfind]
  rw [Chosen] at h
  split
  · rename_i f hf
    rw [hf] at h
    exact h
  · rename_i hf
    rw [hf] at h
    simpa only [hnil, hpreferred] using h

/-- The routes of the calls that match. -/
def matchingRoutes [DecidableEq δ] (ipv4 : Ipv4 δ) (calls : List Call) (dest : UInt32)
    (oif : Option δ) : List NetworkRoute :=
  (calls.map Call.networkRoute).filter (Matching ipv4 dest oif)

theorem lookupStatic_spec [DecidableEq δ] (ipv4 : Ipv4 δ) (calls : List Call) {dest : UInt32}
    (hdest : isLocalMulticast dest = false) (oif : Option δ) :
    (GoesThrough ipv4 dest oif [] (networkRoutes calls) ∧
      ∃ result, lookupStatic ipv4 (networkRoutes calls) dest oif = some result ∧
        Chosen ipv4 (matchingRoutes ipv4 calls dest oif) result) ∨
    (¬GoesThrough ipv4 dest oif [] (networkRoutes calls) ∧
      lookupStatic ipv4 (networkRoutes calls) dest oif = none) := by
  rw [lookupStatic, if_neg (by rw [hdest]; exact Bool.false_ne_true)]
  refine (lookupLoop_spec ipv4 dest oif (networkRoutes calls) (Search.Holds.nil ipv4) rfl).imp ?_ ?_
  · rintro ⟨hgoes, s', hloop, hchosen⟩
    refine ⟨hgoes, s'.rtentry, by rw [hloop, Option.map_some], hchosen.congr (fun r => ?_) ?_⟩
    · rw [List.nil_append, matchingRoutes, List.mem_filter, List.mem_filter, mem_networkRoutes]
    · rw [List.nil_append, matchingRoutes, List.find?_filter, List.find?_filter,
        find?_networkRoutes]
  · rintro ⟨hfails, hloop⟩
    exact ⟨hfails, by rw [hloop, Option.map_none]⟩

/-- The call comes back. No route is found exactly when none matches. A route that is found has the
gateway and the device of a matching route with a longest mask and, for that length, a least
metric. -/
def FindsPreferred [DecidableEq δ] (ipv4 : Ipv4 δ) (calls : List Call) (dest : UInt32)
    (oif : Option δ) : Prop :=
  ∃ result, lookupStatic ipv4 (networkRoutes calls) dest oif = some result ∧
    (result = none ↔ matchingRoutes ipv4 calls dest oif = []) ∧
    ∀ rt, result = some rt →
      ∃ r, Preferred (matchingRoutes ipv4 calls dest oif) r ∧ rt.gateway = r.1.gateway ∧
        ipv4.getNetDevice r.1.interface = some rt.outputDevice

/-- The first matching route with a full mask leads where one with a least metric leads. -/
def FirstFullMaskSuffices [DecidableEq δ] (ipv4 : Ipv4 δ) (calls : List Call) (dest : UInt32)
    (oif : Option δ) : Prop :=
  ∀ f, (matchingRoutes ipv4 calls dest oif).find? FullMask = some f →
    ∃ r ∈ matchingRoutes ipv4 calls dest oif, FullMask r ∧
      (∀ x ∈ matchingRoutes ipv4 calls dest oif, FullMask x → r.2 ≤ x.2) ∧
      r.1.gateway = f.1.gateway ∧
      ipv4.getNetDevice r.1.interface = ipv4.getNetDevice f.1.interface

theorem preferred_iff_fullMask {routes : List NetworkRoute} {f r : NetworkRoute}
    (hf : routes.find? FullMask = some f) : Preferred routes r ↔
      r ∈ routes ∧ FullMask r ∧ ∀ x ∈ routes, FullMask x → r.2 ≤ x.2 := by
  have hfull (x : NetworkRoute) : FullMask x = true ↔ masklen x = 32 := decide_eq_true_iff
  have hle (x : NetworkRoute) : masklen x ≤ 32 := getPrefixLength_le x.1.destNetworkMask
  have hf32 := (hfull f).mp (List.find?_some hf)
  simp only [hfull]
  constructor
  · rintro ⟨hr, hall⟩
    have hr32 : masklen r = 32 := by
      have := hall f (List.mem_of_find?_eq_some hf)
      have := hle r
      omega
    refine ⟨hr, hr32, fun x hx hx32 => ?_⟩
    rcases hall x hx with hlt | ⟨-, hmetric⟩
    · omega
    · exact hmetric
  · rintro ⟨hr, hr32, hall⟩
    refine ⟨hr, fun x hx => ?_⟩
    by_cases hx32 : masklen x = 32
    · exact Or.inr ⟨hx32.trans hr32.symm, hall x hx hx32⟩
    · have := hle x
      exact Or.inl (by omega)

/-- The lookup is right exactly when no step of it fails and the first full mask suffices. -/
theorem lookupStatic_findsPreferred_iff [DecidableEq δ] (ipv4 : Ipv4 δ) (calls : List Call)
    (dest : UInt32) (hdest : isLocalMulticast dest = false) (oif : Option δ) :
    FindsPreferred ipv4 calls dest oif ↔
      GoesThrough ipv4 dest oif [] (networkRoutes calls) ∧
        FirstFullMaskSuffices ipv4 calls dest oif := by
  rcases lookupStatic_spec ipv4 calls hdest oif with ⟨hgoes, result, hlookup, hchosen⟩ |
    ⟨hfails, hlookup⟩
  swap
  · refine iff_of_false ?_ fun hboth => hfails hboth.1
    rintro ⟨result, hsome, -⟩
    rw [hlookup] at hsome
    cases hsome
  rw [and_iff_right hgoes, FindsPreferred, FirstFullMaskSuffices, hlookup]
  simp only [Option.some.injEq, exists_eq_left']
  rw [Chosen] at hchosen
  split at hchosen
  · rename_i f hf
    obtain ⟨rt, hrt, rfl⟩ := hchosen
    obtain ⟨hrtGateway, hrtDevice⟩ := route_eq_some hrt
    have hne : matchingRoutes ipv4 calls dest oif ≠ [] :=
      List.ne_nil_of_mem (List.mem_of_find?_eq_some hf)
    constructor
    · rintro ⟨-, hfinds⟩ f' hf'
      cases hf.symm.trans hf'
      obtain ⟨r, hr, hgateway, hdevice⟩ := hfinds _ rfl
      obtain ⟨hmem, hr32, hall⟩ := (preferred_iff_fullMask hf).mp hr
      exact ⟨r, hmem, hr32, hall, hgateway.symm.trans hrtGateway, hdevice.trans hrtDevice.symm⟩
    · intro hsuffices
      obtain ⟨r, hmem, hr32, hall, hgateway, hdevice⟩ := hsuffices f hf
      refine ⟨iff_of_false (Option.some_ne_none _) hne, ?_⟩
      rintro rt' hrt'
      cases hrt'
      exact ⟨r, (preferred_iff_fullMask hf).mpr ⟨hmem, hr32, hall⟩,
        hrtGateway.trans hgateway.symm, hdevice.trans hrtDevice⟩
  · rename_i hf
    refine iff_of_true ?_ fun f hfind => by cases hf.symm.trans hfind
    rcases hchosen with ⟨rfl, hnil⟩ | ⟨r, rt, hr, hrt, rfl⟩
    · exact ⟨iff_of_true rfl hnil, fun rt hrt => by cases hrt⟩
    · refine ⟨iff_of_false (Option.some_ne_none _) (List.ne_nil_of_mem hr.1), ?_⟩
      intro rt' hrt'
      cases hrt'
      obtain ⟨hgateway, hdevice⟩ := route_eq_some hrt
      exact ⟨r, hr, hgateway, hdevice⟩

/-- Four interfaces; interface `i` has device `i` and an address. -/
def numberedDevices : Ipv4 Nat where
  interfaces := [⟨some 0, [⟨0x7f000001, 0xff000000, false⟩]⟩,
    ⟨some 1, [⟨0x0a000002, 0xffffff00, false⟩]⟩, ⟨some 2, [⟨0x0a010002, 0xffff0000, false⟩]⟩,
    ⟨some 3, [⟨0x0a000004, 0xffffff00, false⟩, ⟨0x0a020004, 0xffff0000, true⟩]⟩]
  reverseInterfaces device := if device < 4 then some device.toUInt32 else none

/-- A default route, a network route and a host route to 10.1.1.1. -/
def threeRoutes : List Call :=
  [.setDefaultRoute 0x0a000001 1 0, .addNetworkRouteTo 0x0a010000 0xffff0000 none 2 7,
    .addHostRouteTo 0x0a010101 (some 0x0a000003) 3 9]

theorem hasAddress_threeRoutes :
    ∀ r ∈ networkRoutes threeRoutes, HasAddress numberedDevices r := by
  intro r hr
  rw [mem_networkRoutes] at hr
  simp only [threeRoutes, List.map_cons, List.map_nil, List.mem_cons, List.not_mem_nil,
    or_false] at hr
  rcases hr with rfl | rfl | rfl
  · exact ⟨_, rfl, List.cons_ne_nil _ _⟩
  · exact ⟨_, rfl, List.cons_ne_nil _ _⟩
  · exact ⟨_, rfl, List.cons_ne_nil _ _⟩

theorem lookupStatic_findsPreferred_iff_threeRoutes :
    FindsPreferred numberedDevices threeRoutes 0x0a010101 none ∧
      FindsPreferred numberedDevices threeRoutes 0x0a010101 (some 2) := by
  have hgoes : ∀ oif,
      GoesThrough numberedDevices 0x0a010101 oif [] (networkRoutes threeRoutes) :=
    goesThrough_of_forall hasAddress_threeRoutes 0x0a010101
  refine ⟨(lookupStatic_findsPreferred_iff numberedDevices threeRoutes 0x0a010101 rfl none).mpr
      ⟨hgoes none, ?_⟩,
    (lookupStatic_findsPreferred_iff numberedDevices threeRoutes 0x0a010101 rfl (some 2)).mpr
      ⟨hgoes (some 2), ?_⟩⟩
  · intro f hf
    refine ⟨f, List.mem_of_find?_eq_some hf, List.find?_some hf, ?_, rfl, rfl⟩
    revert f
    decide
  · intro f hf
    revert f
    decide

/-- Two host routes to one destination, the second one with the smaller metric. -/
def twoHostRoutes : List Call :=
  [.addHostRouteTo 0x0a010101 none 1 10, .addHostRouteTo 0x0a010101 none 2 5]

/-- The loop ends at the first host route. -/
theorem lookupStatic_not_findsPreferred : isLocalMulticast 0x0a010101 = false ∧
    ¬FindsPreferred numberedDevices twoHostRoutes 0x0a010101 none := by
  refine ⟨rfl, ?_⟩
  rintro ⟨result, hlookup, -, hfinds⟩
  have hone : lookupStatic numberedDevices (networkRoutes twoHostRoutes) 0x0a010101 none =
      some (some ⟨0x0a010101, 0x0a000002, 0, some 1⟩) := by decide
  obtain rfl := Option.some.inj (hone.symm.trans hlookup)
  have hroutes : matchingRoutes numberedDevices twoHostRoutes 0x0a010101 none =
      [(⟨0x0a010101, 0xffffffff, 0, 1⟩, 10), (⟨0x0a010101, 0xffffffff, 0, 2⟩, 5)] := by
    decide
  obtain ⟨r, ⟨hmem, hall⟩, -, hdevice⟩ := hfinds _ rfl
  rw [hroutes] at hmem hall
  obtain hr | hr := List.mem_pair.mp hmem
  · have hleast := hall _ (List.mem_pair.mpr (Or.inr rfl))
    subst hr
    exact absurd hleast (by decide)
  · subst hr
    exact absurd hdevice (by decide)

end Ns3.Internet.StaticRouting
