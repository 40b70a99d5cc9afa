import Mathlib.Algebra.Order.Ring.Int
import Mathlib.Data.List.Basic
import Mathlib.Data.List.Induction

/-!
# Static routes

`Ipv4StaticRouting` keeps its routes in the order in which they were added, and `LookupStatic` goes
over them once. A route replaces the one chosen before when its mask is longer, or as long with a
metric that is not larger. The loop ends at the first route with a full mask.
-/

namespace Ns3.Internet.StaticRouting

/-- `Ipv4RoutingTableEntry`. Addresses and masks are numbers in host order. -/
structure RoutingTableEntry where
  dest : UInt32
  destNetworkMask : UInt32
  gateway : UInt32
  interface : UInt32
deriving DecidableEq, Repr

/-- An element of `NetworkRoutes`: an entry and its metric. -/
abbrev NetworkRoute := RoutingTableEntry × UInt32

/-- `Ipv4Route`. A pointer to a device may be null. -/
structure Ipv4Route (δ : Type) where
  destination : UInt32
  source : UInt32
  gateway : UInt32
  outputDevice : Option δ
deriving DecidableEq, Repr

/-! ## The interfaces -/

structure Ipv4InterfaceAddress where
  localAddress : UInt32
  mask : UInt32
  secondary : Bool := false
deriving DecidableEq, Repr

/-- `Ipv4Interface`. A device may be missing. -/
structure Ipv4Interface (δ : Type) where
  device : Option δ
  ifaddrs : List Ipv4InterfaceAddress
deriving DecidableEq, Repr

/-- What is used of `Ipv4L3Protocol`. `reverseInterfaces` is `m_reverseInterfacesContainer`. -/
structure Ipv4 (δ : Type) where
  interfaces : List (Ipv4Interface δ)
  reverseInterfaces : δ → Option UInt32

namespace Ipv4

variable {δ : Type}

/-- `GetInterface`. An index out of range gives a null pointer. -/
def getInterface (ipv4 : Ipv4 δ) (index : UInt32) : Option (Ipv4Interface δ) :=
  ipv4.interfaces[index.toNat]?

/-- `GetNetDevice`; `none` is the use of a null pointer. -/
def getNetDevice (ipv4 : Ipv4 δ) (i : UInt32) : Option (Option δ) :=
  (ipv4.getInterface i).map Ipv4Interface.device

/-- `GetAddress`; also `none` for the fatal error of an index out of bounds. -/
def getAddress (ipv4 : Ipv4 δ) (interfaceIndex : UInt32) (addressIndex : Nat) :
    Option Ipv4InterfaceAddress := do
  let interface ← ipv4.getInterface interfaceIndex
  interface.ifaddrs[addressIndex]?

/-- `SourceAddressSelection`. -/
def sourceAddressSelection (ipv4 : Ipv4 δ) (interfaceIdx dest : UInt32) : Option UInt32 := do
  let interface ← ipv4.getInterface interfaceIdx
  if interface.ifaddrs.length = 1 then
    return (← ipv4.getAddress interfaceIdx 0).localAddress
  let candidate ← ipv4.getAddress interfaceIdx 0
  let onLink := interface.ifaddrs.find? fun test =>
    test.localAddress &&& test.mask == dest &&& test.mask && !test.secondary
  return (onLink.getD candidate).localAddress

end Ipv4

/-! ## Masks -/

/-- The loop of `GetPrefixLength`, when at most `n` shifts are left. -/
def prefixLengthLoop : (n mask tmp : Nat) → Nat
  | 0, _, tmp => tmp
  | n + 1, mask, tmp => if mask ≠ 0 then prefixLengthLoop n (mask <<< 1 % 2 ^ 32) (tmp + 1) else tmp

/-- `Ipv4Mask::GetPrefixLength`. A mask of 32 bits is zero after 32 shifts. -/
def getPrefixLength (mask : UInt32) : Nat := prefixLengthLoop 32 mask.toNat 0

/-- `Ipv4Mask::IsMatch`. -/
def isMatch (mask a b : UInt32) : Bool := a &&& mask == b &&& mask

/-- `Ipv4Address::IsLocalMulticast`. -/
def isLocalMulticast (address : UInt32) : Bool := address &&& 0xffffff00 == 0xe0000000

/-! ## The table -/

/-- `LookupRoute`. -/
def lookupRoute (networkRoutes : List NetworkRoute) (route : RoutingTableEntry) (metric : UInt32) :
    Bool :=
  networkRoutes.any fun j =>
    j.1.dest == route.dest && j.1.destNetworkMask == route.destNetworkMask &&
      j.1.gateway == route.gateway && j.1.interface == route.interface && j.2 == metric

/-- `AddNetworkRouteTo`. Without a next hop the gateway is zero. -/
def addNetworkRouteTo (networkRoutes : List NetworkRoute) (network networkMask : UInt32)
    (nextHop : Option UInt32) (interface metric : UInt32) : List NetworkRoute :=
  let route : RoutingTableEntry := ⟨network, networkMask, nextHop.getD 0, interface⟩
  if lookupRoute networkRoutes route metric then networkRoutes
  else networkRoutes ++ [(route, metric)]

/-- `AddHostRouteTo`. -/
def addHostRouteTo (networkRoutes : List NetworkRoute) (dest : UInt32) (nextHop : Option UInt32)
    (interface metric : UInt32) : List NetworkRoute :=
  addNetworkRouteTo networkRoutes dest 0xffffffff nextHop interface metric

/-- `SetDefaultRoute`. -/
def setDefaultRoute (networkRoutes : List NetworkRoute) (nextHop interface metric : UInt32) :
    List NetworkRoute :=
  addNetworkRouteTo networkRoutes 0 0 (some nextHop) interface metric

/-- The calls that add a route. -/
inductive Call where
  | addNetworkRouteTo (network networkMask : UInt32) (nextHop : Option UInt32)
      (interface metric : UInt32)
  | addHostRouteTo (dest : UInt32) (nextHop : Option UInt32) (interface metric : UInt32)
  | setDefaultRoute (nextHop interface metric : UInt32)

def Call.apply (networkRoutes : List NetworkRoute) : Call → List NetworkRoute
  | .addNetworkRouteTo network networkMask nextHop interface metric =>
    StaticRouting.addNetworkRouteTo networkRoutes network networkMask nextHop interface metric
  | .addHostRouteTo dest nextHop interface metric =>
    StaticRouting.addHostRouteTo networkRoutes dest nextHop interface metric
  | .setDefaultRoute nextHop interface metric =>
    StaticRouting.setDefaultRoute networkRoutes nextHop interface metric

/-- `m_networkRoutes` after a sequence of calls. -/
def networkRoutes (calls : List Call) : List NetworkRoute := calls.foldl Call.apply []

/-! ## The lookup -/

variable {δ : Type}

/-- The local variables of `LookupStatic`. -/
structure Search (δ : Type) where
  rtentry : Option (Ipv4Route δ) := none
  longestMask : Nat := 0
  shortestMetric : UInt32 := 0xffffffff

/-- The route that is made of an entry. -/
def route (ipv4 : Ipv4 δ) (j : RoutingTableEntry) : Option (Ipv4Route δ) := do
  let source ← ipv4.sourceAddressSelection j.interface j.dest
  let outputDevice ← ipv4.getNetDevice j.interface
  return ⟨j.dest, source, j.gateway, outputDevice⟩

/-- The test on the device, which reads the one of the entry when one is requested. -/
def notRequested [DecidableEq δ] (ipv4 : Ipv4 δ) (oif : Option δ) (interface : UInt32) :
    Option Bool :=
  match oif with
  | none => some false
  | some device => (ipv4.getNetDevice interface).map fun d => decide (some device ≠ d)

/-- The loop over `m_networkRoutes`; `none` is a run that does not come back. -/
def lookupLoop [DecidableEq δ] (ipv4 : Ipv4 δ) (dest : UInt32) (oif : Option δ) :
    List NetworkRoute → Search δ → Option (Search δ)
  | [], s => some s
  | (j, metric) :: networkRoutes, s =>
    let mask := j.destNetworkMask
    let masklen := getPrefixLength mask
    if isMatch mask dest j.dest then
      match notRequested ipv4 oif j.interface with
      | none => none
      | some true => lookupLoop ipv4 dest oif networkRoutes s
      | some false =>
        if masklen < s.longestMask then lookupLoop ipv4 dest oif networkRoutes s
        else
          let s := if masklen > s.longestMask then { s with shortestMetric := 0xffffffff } else s
          let s := { s with longestMask := masklen }
          if metric > s.shortestMetric then lookupLoop ipv4 dest oif networkRoutes s
          else
            match route ipv4 j with
            | none => none
            | some rtentry =>
              let s := { s with shortestMetric := metric, rtentry := some rtentry }
              -- `break`
              if masklen = 32 then some s else lookupLoop ipv4 dest oif networkRoutes s
    else lookupLoop ipv4 dest oif networkRoutes s

/-- `LookupStatic`; the inner `none` is the null route. -/
def lookupStatic [DecidableEq δ] (ipv4 : Ipv4 δ) (networkRoutes : List NetworkRoute)
    (dest : UInt32) (oif : Option δ) : Option (Option (Ipv4Route δ)) :=
  if isLocalMulticast dest then do
    -- `NS_ASSERT_MSG (oif, ..)`
    let device ← oif
    -- without an interface the index is -1, and `GetInterface` gives a null pointer
    let interface ← ipv4.reverseInterfaces device
    let address ← ipv4.getAddress interface 0
    return some ⟨dest, address.localAddress, 0, oif⟩
  else (lookupLoop ipv4 dest oif networkRoutes {}).map Search.rtentry

/-! ## The routes of a table -/

theorem prefixLengthLoop_le (n mask tmp : Nat) : prefixLengthLoop n mask tmp ≤ tmp + n := by
  induction n generalizing mask tmp with
  | zero => exact Nat.le_refl _
  | succ n ih =>
    rw [prefixLengthLoop]
    split
    · have := ih (mask <<< 1 % 2 ^ 32) (tmp + 1)
      omega
    · omega

theorem getPrefixLength_le (mask : UInt32) : getPrefixLength mask ≤ 32 := by
  have := prefixLengthLoop_le 32 mask.toNat 0
  rw [getPrefixLength]
  omega

theorem lookupRoute_eq_true (networkRoutes : List NetworkRoute) (route : RoutingTableEntry)
    (metric : UInt32) :
    lookupRoute networkRoutes route metric = true ↔ (route, metric) ∈ networkRoutes := by
  rw [lookupRoute, List.any_eq_true]
  constructor
  · rintro ⟨⟨j, m⟩, hj, hsame⟩
    simp only [Bool.and_eq_true, beq_iff_eq] at hsame
    obtain ⟨⟨⟨⟨hdest, hmask⟩, hgateway⟩, hinterface⟩, rfl⟩ := hsame
    cases j
    cases route
    simp only at hdest hmask hgateway hinterface
    subst hdest hmask hgateway hinterface
    exact hj
  · intro hj
    exact ⟨_, hj, by simp⟩

/-- The route of a call. -/
def Call.networkRoute : Call → NetworkRoute
  | .addNetworkRouteTo network networkMask nextHop interface metric =>
    (⟨network, networkMask, nextHop.getD 0, interface⟩, metric)
  | .addHostRouteTo dest nextHop interface metric =>
    (⟨dest, 0xffffffff, nextHop.getD 0, interface⟩, metric)
  | .setDefaultRoute nextHop interface metric => (⟨0, 0, nextHop, interface⟩, metric)

/-- A call adds its route, unless the table has it. -/
theorem Call.apply_eq (networkRoutes : List NetworkRoute) (call : Call) :
    call.apply networkRoutes = if call.networkRoute ∈ networkRoutes then networkRoutes
      else networkRoutes ++ [call.networkRoute] := by
  have hadd (route : RoutingTableEntry) (metric : UInt32) :
      (if lookupRoute networkRoutes route metric then networkRoutes
        else networkRoutes ++ [(route, metric)]) =
      if (route, metric) ∈ networkRoutes then networkRoutes
        else networkRoutes ++ [(route, metric)] :=
    if_congr (lookupRoute_eq_true networkRoutes route metric) rfl rfl
  cases call <;> exact hadd _ _

theorem networkRoutes_concat (calls : List Call) (call : Call) :
    networkRoutes (calls ++ [call]) = call.apply (networkRoutes calls) := by
  rw [networkRoutes, List.foldl_append]
  rfl

theorem mem_networkRoutes (calls : List Call) (r : NetworkRoute) :
    r ∈ networkRoutes calls ↔ r ∈ calls.map Call.networkRoute := by
  induction calls using List.reverseRecOn with
  | nil => exact Iff.rfl
  | append_singleton calls call ih =>
    rw [networkRoutes_concat, Call.apply_eq, List.map_append, List.mem_append, ← ih,
      List.map_singleton, List.mem_singleton]
    split
    · rename_i hmem
      exact ⟨Or.inl, fun h => h.elim id fun h => h ▸ hmem⟩
    · rw [List.mem_append, List.mem_singleton]

/-- The first route of a kind is the same in the table and among the calls. -/
theorem find?_networkRoutes (calls : List Call) (p : NetworkRoute → Bool) :
    (networkRoutes calls).find? p = (calls.map Call.networkRoute).find? p := by
  induction calls using List.reverseRecOn with
  | nil => rfl
  | append_singleton calls call ih =>
    rw [networkRoutes_concat, Call.apply_eq, List.map_append, List.find?_append, ← ih,
      List.map_singleton]
    split
    · rename_i hmem
      cases hfind : (networkRoutes calls).find? p with
      | some r => rfl
      | none => simp [List.find?_eq_none.mp hfind _ hmem]
    · rw [List.find?_append]

end Ns3.Internet.StaticRouting
