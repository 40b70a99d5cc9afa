import Ns3.Internet.CandidateQueue

/-!
# GlobalRouteManagerImpl

The shortest path first calculation over a link state database. `none` stands for a null pointer
that is followed, a failed assertion or a loop that has not ended within `fuel` rounds. The routes
and the stub networks of the second stage are left out. The exits from the root stay: the next hop
calculation asserts that a network has one of them.
-/

namespace Ns3.Internet

/-- `m_database`, a `std::map` from addresses to LSAs in the order of the addresses. -/
abbrev GlobalRouteManagerLSDB := List (ℕ × GlobalRoutingLSA)

namespace GlobalRouteManagerLSDB

def getLSA (db : GlobalRouteManagerLSDB) (addr : ℕ) : Option GlobalRoutingLSA :=
  (db.find? fun i => i.1 = addr).map Prod.snd

/-- One of the link records is to a transit network over the interface `addr`. -/
def hasLinkData (lsa : GlobalRoutingLSA) (addr : ℕ) : Bool :=
  lsa.m_linkRecords.any fun lr => lr.m_linkType = .transitNetwork && lr.m_linkData = addr

def getLSAByLinkData (db : GlobalRouteManagerLSDB) (addr : ℕ) : Option GlobalRoutingLSA :=
  (db.find? fun i => hasLinkData i.2 addr).map Prod.snd

end GlobalRouteManagerLSDB

open GlobalRouteManagerLSDB

inductive SPFStatus
  | notExplored | candidate | inSpftree
deriving DecidableEq, Repr

/-- The status of the LSAs, by their id, and the candidate queue. -/
structure SpfState where
  status : ℕ → SPFStatus
  candidate : List SPFVertex

def SpfState.setStatus (st : SpfState) (id : ℕ) (status : SPFStatus) : SpfState :=
  { st with status := fun i => if i = id then status else st.status i }

/-- The addresses of the interfaces of a node. -/
abbrev Ipv4InterfaceList := List (List ℕ)

/-- The index of the first interface with an address of the prefix, or -1. -/
def getInterfaceForPrefix (m_interfaces : Ipv4InterfaceList) (address mask : ℕ) : ℤ :=
  match m_interfaces.findIdx? fun i => i.any fun loc => loc &&& mask = address &&& mask with
  | none => -1
  | some interface => interface

/-- `node` holds the interfaces of the node that has the router id of the root, if there is one. -/
def findOutgoingInterfaceId (node : Option Ipv4InterfaceList) (a : ℕ) (amask : ℕ := 0xffffffff) :
    ℤ :=
  match node with
  | none => -1
  | some ipv4 => getInterfaceForPrefix ipv4 a amask

/-- What a link adds to the distance, which is nothing from a network. -/
def linkCost (l : Option GlobalRoutingLinkRecord) : ℕ := l.elim 0 GlobalRoutingLinkRecord.m_metric

section Spf

variable (db : GlobalRouteManagerLSDB) (addr : ℕ → ℕ) (node : Option Ipv4InterfaceList)
  (m_spfroot fuel : ℕ)

end Spf

end Ns3.Internet
