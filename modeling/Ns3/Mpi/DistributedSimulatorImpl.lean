import Mathlib
import Ns3.Mpi.LocalSimulator

/-!
# DistributedSimulatorImpl

The simulators of all ranks, with the messages between them. A rank takes the events up to its
granted time; when it has none left, it takes part in an `MPI_Allgather` of the next times, from
which the new granted time follows. The messages of a rank are the packets sent over its channels to
other ranks; a poll finds any of those in flight, or none.
-/

namespace Ns3.Mpi

open Ns3.Core

/-- The value of a 64-bit time. -/
def int64 (x : ℤ) : ℤ := x.bmod (2 ^ 64)

structure LbtsMessage where
  m_rxCount : ℕ
  m_txCount : ℕ
  m_myId : ℕ
  m_isFinished : Bool
  m_smallestTime : ℕ
deriving DecidableEq, Repr

/-- A point-to-point channel, with the ranks of its two nodes. -/
structure RemoteChannel (n : ℕ) where
  rank₀ : Fin n
  rank₁ : Fin n
  delay : ℕ
deriving DecidableEq, Repr

/-- The channel has a local node and one of another rank. -/
def RemoteChannel.Leaves {n : ℕ} (channel : RemoteChannel n) (i : Fin n) : Prop :=
  channel.rank₀ ≠ channel.rank₁ ∧ (channel.rank₀ = i ∨ channel.rank₁ = i)

instance {n : ℕ} (channel : RemoteChannel n) : DecidablePred channel.Leaves := fun _ =>
  inferInstanceAs (Decidable (_ ∧ _))

/-- The rank of the remote node of a channel that leaves `i`. -/
def RemoteChannel.remote {n : ℕ} (channel : RemoteChannel n) (i : Fin n) : Fin n :=
  if channel.rank₀ = i then channel.rank₁ else channel.rank₀

/-- The channels of all ranks, and `m_lookAhead` before the run: the maximum, or what
`BoundLookAhead` made of it. -/
structure Network (n : ℕ) where
  channels : List (RemoteChannel n)
  bound : Fin n → ℕ
  bound_le : ∀ i, bound i ≤ maximumSimulationTime

namespace Network

variable {n : ℕ}

/-- `CalculateLookAhead` up to `MPI_Allreduce`. -/
def localLookAhead (net : Network n) (i : Fin n) : ℕ :=
  if n ≤ 1 then 0
  else
    net.channels.foldl
      (fun m_lookAhead channel =>
        if channel.Leaves i then
          if channel.delay < m_lookAhead then channel.delay else m_lookAhead
        else m_lookAhead)
      (net.bound i)

/-- What a rank gives to the reduction; without channels to other ranks that is 0. -/
def sendbuf (net : Network n) (i : Fin n) : ℕ :=
  if net.localLookAhead i = maximumSimulationTime then 0 else net.localLookAhead i

/-- `CalculateLookAhead`. -/
def lookAhead (net : Network n) (i : Fin n) : ℕ :=
  let recvbuf := (List.ofFn net.sendbuf).foldl max 0
  if net.localLookAhead i = maximumSimulationTime ∧ recvbuf ≠ 0 then recvbuf
  else net.localLookAhead i

end Network

/-- A rank: the simulator and what `GrantedTimeWindowMpiInterface` counts. -/
structure DistributedSimulatorImpl where
  simulator : LocalSimulator := LocalSimulator.start
  m_globalFinished : Bool := false
  m_lookAhead : ℕ := maximumSimulationTime
  m_grantedTime : ℤ := 0
  g_rxCount : ℕ := 0
  g_txCount : ℕ := 0

namespace DistributedSimulatorImpl

/-- `NextTs`. -/
def nextTs (s : DistributedSimulatorImpl) : ℕ :=
  if s.simulator.isFinished then maximumSimulationTime else s.simulator.peekTs.getD 0

/-- The start of `Run`, with the look-ahead that all ranks worked out. -/
def enter (s : DistributedSimulatorImpl) (m_lookAhead : ℕ) : DistributedSimulatorImpl :=
  { s with
    m_lookAhead := m_lookAhead
    m_grantedTime := m_lookAhead
    simulator := { s.simulator with m_stop := false }
    m_globalFinished := false }

/-- The message to all ranks. -/
def lMsg (s : DistributedSimulatorImpl) (myId : ℕ) : LbtsMessage where
  m_rxCount := s.g_rxCount
  m_txCount := s.g_txCount
  m_myId := myId
  m_isFinished := s.simulator.isFinished
  m_smallestTime := s.nextTs

end DistributedSimulatorImpl

/-! ## What the ranks make of the messages -/

def smallestTime : List LbtsMessage → ℕ
  | [] => maximumSimulationTime
  | m :: ms =>
    ms.foldl (fun t m => if m.m_smallestTime < t then m.m_smallestTime else t) m.m_smallestTime

/-- `totRx`, a 32-bit sum. -/
def totRx (m_pLBTS : List LbtsMessage) : ℕ := (m_pLBTS.map LbtsMessage.m_rxCount).sum % 2 ^ 32

/-- `totTx`, a 32-bit sum. -/
def totTx (m_pLBTS : List LbtsMessage) : ℕ := (m_pLBTS.map LbtsMessage.m_txCount).sum % 2 ^ 32

def globalFinished (m_pLBTS : List LbtsMessage) : Bool :=
  m_pLBTS.all LbtsMessage.m_isFinished && totRx m_pLBTS == totTx m_pLBTS

/-- What follows `MPI_Allgather`. -/
def DistributedSimulatorImpl.update (s : DistributedSimulatorImpl) (m_pLBTS : List LbtsMessage) :
    DistributedSimulatorImpl :=
  { s with
    m_globalFinished := globalFinished m_pLBTS
    m_grantedTime :=
      if totRx m_pLBTS = totTx m_pLBTS then
        if s.m_lookAhead = maximumSimulationTime then maximumSimulationTime
        else int64 (smallestTime m_pLBTS + s.m_lookAhead)
      else s.m_grantedTime }

/-! ## The system -/

/-- A packet between two ranks: the arguments of `SendPacket`, the event that is to receive it, and
the rank of its node. -/
structure Message (n : ℕ) where
  dest : Fin n
  rxTime : ℕ
  node : ℕ
  event : ℕ
deriving DecidableEq, Repr

/-- Where a rank is: outside `Run`, in `MPI_Allreduce`, at the head of the loop, polling, in
`MPI_Allgather`, behind it, before the second test of the next time, in an event, or out of
`Run`. -/
inductive RankPhase
  | outside
  | reducing
  | head
  | polling
  | gathering
  | gathered (m_pLBTS : List LbtsMessage)
  | deciding
  | invocation
  | left
deriving DecidableEq, Repr

/-- The program of the rank runs: before `Run`, and in the events. -/
def RankPhase.calls : RankPhase → Bool
  | .outside | .invocation => true
  | _ => false

structure DistributedSystem (n : ℕ) where
  impl : Fin n → DistributedSimulatorImpl
  phase : Fin n → RankPhase
  inFlight : List (Message n)

inductive DistributedStep (n : ℕ)
  | call (i : Fin n) (a : Action)
  | sendPacket (i : Fin n) (channel : RemoteChannel n) (txTime node event : ℕ)
  | run (i : Fin n)
  | reduce
  | head (i : Fin n)
  | receive (i : Fin n) (m : Message n)
  | endPoll (i : Fin n)
  | gather
  | update (i : Fin n)
  | decide (i : Fin n)
  | finishEvent (i : Fin n)
deriving DecidableEq, Repr

namespace DistributedSystem

variable {n : ℕ}

def start (n : ℕ) : DistributedSystem n := ⟨fun _ => {}, fun _ => .outside, []⟩

/-- One rank becomes another state. -/
def set (s : DistributedSystem n) (i : Fin n) (impl : DistributedSimulatorImpl)
    (phase : RankPhase) : DistributedSystem n :=
  { s with impl := Function.update s.impl i impl, phase := Function.update s.phase i phase }

/-- `PointToPointRemoteChannel::TransmitStart` and `SendPacket`. -/
def sendPacket (s : DistributedSystem n) (i : Fin n) (channel : RemoteChannel n)
    (txTime node event : ℕ) : DistributedSystem n :=
  let rxTime := (s.impl i).simulator.m_currentTs + txTime + channel.delay
  { s.set i { s.impl i with g_txCount := ((s.impl i).g_txCount + 1) % 2 ^ 32 } (s.phase i) with
    inFlight := ⟨channel.remote i, rxTime, node, event⟩ :: s.inFlight }

/-- One turn of the loop of `ReceiveMessages` that finds a message. -/
def receive (s : DistributedSystem n) (i : Fin n) (m : Message n) : DistributedSystem n :=
  let simulator := (s.impl i).simulator
  let delay : ℤ := m.rxTime - simulator.m_currentTs
  { s.set i
      { s.impl i with
        simulator := (simulator.scheduleWithContext m.node delay m.event).1
        g_rxCount := ((s.impl i).g_rxCount + 1) % 2 ^ 32 } (s.phase i) with
    inFlight := s.inFlight.erase m }

/-- The test at the head of the loop and the first one of the next time. -/
def headPhase (s : DistributedSimulatorImpl) : RankPhase :=
  if s.m_globalFinished then .left
  else if s.m_grantedTime < s.nextTs ∨ s.simulator.isFinished = true then .polling
  else .deciding

/-- `ProcessOneEvent` up to the invocation, when the next event is in the time window. -/
def decideRank (s : DistributedSimulatorImpl) : Option (DistributedSimulatorImpl × RankPhase) :=
  if s.nextTs ≤ s.m_grantedTime ∧ s.simulator.isFinished = false then do
    let (_, simulator) ← s.simulator.takeEvent
    return ({ s with simulator := simulator }, .invocation)
  else some (s, .head)

def step (net : Network n) (s : DistributedSystem n) : DistributedStep n →
    Option (DistributedSystem n)
  | .call i a =>
    if RankPhase.calls (s.phase i) then
      some (s.set i { s.impl i with simulator := (s.impl i).simulator.call a } (s.phase i))
    else none
  | .sendPacket i channel txTime node event =>
    if RankPhase.calls (s.phase i) ∧ channel ∈ net.channels ∧ channel.Leaves i then
      some (s.sendPacket i channel txTime node event)
    else none
  | .run i => if s.phase i = .outside then some (s.set i (s.impl i) .reducing) else none
  | .reduce =>
    if ∀ i, s.phase i = .reducing then
      some { s with impl := fun i => (s.impl i).enter (net.lookAhead i), phase := fun _ => .head }
    else none
  | .head i => if s.phase i = .head then some (s.set i (s.impl i) (headPhase (s.impl i))) else none
  | .receive i m =>
    if s.phase i = .polling ∧ m ∈ s.inFlight ∧ m.dest = i then some (s.receive i m) else none
  | .endPoll i => if s.phase i = .polling then some (s.set i (s.impl i) .gathering) else none
  | .gather =>
    if ∀ i, s.phase i = .gathering then
      some { s with phase := fun _ => .gathered (List.ofFn fun i => (s.impl i).lMsg i) }
    else none
  | .update i =>
    match s.phase i with
    | .gathered m_pLBTS => some (s.set i ((s.impl i).update m_pLBTS) .deciding)
    | _ => none
  | .decide i =>
    if s.phase i = .deciding then do
      let (impl, phase) ← decideRank (s.impl i)
      return s.set i impl phase
    else none
  | .finishEvent i => if s.phase i = .invocation then some (s.set i (s.impl i) .head) else none

/-- What the program promises, and fewer than `2 ^ 32` messages in flight at an `MPI_Allgather`. -/
def Fits (s : DistributedSystem n) : DistributedStep n → Prop
  | .call i a => (s.impl i).simulator.Promised a
  | .sendPacket i channel txTime _ _ =>
    (s.impl i).simulator.m_currentTs + txTime + channel.delay ≤ maximumSimulationTime
  | .gather => s.inFlight.length < 2 ^ 32
  | _ => True

instance (s : DistributedSystem n) : DecidablePred s.Fits
  | .call i a => inferInstanceAs (Decidable ((s.impl i).simulator.Promised a))
  | .sendPacket _ _ _ _ _ => inferInstanceAs (Decidable (_ ≤ _))
  | .gather => inferInstanceAs (Decidable (_ < _))
  | .run _ | .reduce | .head _ | .receive _ _ | .endPoll _ | .update _ | .decide _
  | .finishEvent _ => isTrue trivial

/-- The runs of the ranks, in any interleaving. -/
inductive Run (net : Network n) : DistributedSystem n → Prop
  | start : Run net (start n)
  | step {s s' : DistributedSystem n} (h : Run net s) (r : DistributedStep n) (hf : s.Fits r)
    (hs : s.step net r = some s') : Run net s'

end DistributedSystem

end Ns3.Mpi
