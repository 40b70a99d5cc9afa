import Mathlib
import Ns3.Mpi.DistributedSimulatorImpl

/-!
# NullMessageSimulatorImpl

The simulators of all ranks under the null message algorithm. A rank has a bundle for each rank that
a channel connects it to, and takes the events up to its safe time, the smallest time that the
others have guaranteed. Each message to another rank carries a new guarantee, and where there are no
packets a null message event of the bundle sends one. MPI keeps the messages from one rank to
another in order. The packets leave through point-to-point devices, which send one packet at a time.
All times are in the range of the simulator.
-/

namespace Ns3.Mpi

open Ns3.Core

/-- The channels of all ranks. `tuned` is the product of `m_schedulerTune`, which is at most 1, and
a delay. -/
structure NullMessageNetwork (n m : ℕ) where
  channels : Fin m → RemoteChannel n
  tuned : ℕ → ℕ
  tuned_le : ∀ delay, tuned delay ≤ delay

namespace NullMessageNetwork

variable {n m : ℕ} (net : NullMessageNetwork n m)

/-- The channel joins the ranks. -/
def Joins (c : Fin m) (i j : Fin n) : Prop :=
  (net.channels c).Leaves i ∧ (net.channels c).remote i = j

instance (c : Fin m) (i j : Fin n) : Decidable (net.Joins c i j) :=
  inferInstanceAs (Decidable (_ ∧ _))

/-- The rank `i` has a `RemoteChannelBundle` to `j`. -/
def Bundle (i j : Fin n) : Prop := ∃ c, net.Joins c i j

instance (i j : Fin n) : Decidable (net.Bundle i j) :=
  inferInstanceAs (Decidable (∃ c, net.Joins c i j))

/-- `m_delay` of the bundle, after all calls of `AddChannel`. -/
def delay (i j : Fin n) : ℕ :=
  (List.finRange m).foldl
    (fun m_delay c => if net.Joins c i j then min m_delay (net.channels c).delay else m_delay)
    maximumSimulationTime

/-- The bundles of a rank, in the order of the map. -/
def bundles (i : Fin n) : List (Fin n) := (List.finRange n).filter fun j => net.Bundle i j

/-- No two channels join the same ranks. -/
def Single : Prop := ∀ c c' i j, net.Joins c i j → net.Joins c' i j → c = c'

end NullMessageNetwork

/-- What the event objects of the simulator itself call. -/
inductive Callback (n m : ℕ)
  | nullMessageEventHandler (bundle : Fin n)
  | transmitComplete (channel : Fin m)
deriving DecidableEq, Repr

/-- A rank: the simulator, the guarantee times and null message events of its bundles, and its
devices at the channels. `callback` says what an event object calls, when it is one of the
simulator's. -/
structure NullMessageSimulatorImpl (n m : ℕ) where
  simulator : LocalSimulator := LocalSimulator.start
  m_safeTime : ℕ := 0
  m_guaranteeTime : Fin n → ℕ := fun _ => 0
  m_nullEventId : Fin n → EventId := fun _ => ⟨none, 0, 0, 0⟩
  busy : Fin m → Bool := fun _ => false
  callback : ℕ → Option (Callback n m) := fun _ => none

/-- A message to another rank; the reception time of a null message is 0. -/
structure NullMessage where
  rxTime : ℕ
  guaranteeUpdate : ℕ
  node : ℕ := 0
  event : ℕ := 0
deriving DecidableEq, Repr

namespace NullMessageSimulatorImpl

variable {n m : ℕ} (net : NullMessageNetwork n m) (i : Fin n)

/-- `RemoteChannelBundleManager::GetSafeTime`. -/
def getSafeTime (r : NullMessageSimulatorImpl n m) : ℕ :=
  (net.bundles i).foldl (fun safeTime j => min safeTime (r.m_guaranteeTime j)) maximumSimulationTime

/-- `CalculateSafeTime`. -/
def calculateSafeTime (r : NullMessageSimulatorImpl n m) : NullMessageSimulatorImpl n m :=
  { r with m_safeTime := r.getSafeTime net i }

/-- `Schedule` with a new object of the simulator. -/
def scheduleCallback (r : NullMessageSimulatorImpl n m) (delay obj : ℕ) (callback : Callback n m) :
    NullMessageSimulatorImpl n m × Event :=
  let (simulator, ev) := r.simulator.schedule delay obj
  ({ r with
      simulator := simulator
      callback := Function.update r.callback obj (some callback) }, ev)

/-- `ScheduleNullMessageEvent`. -/
def scheduleNullMessageEvent (r : NullMessageSimulatorImpl n m) (j : Fin n) (obj : ℕ) :
    NullMessageSimulatorImpl n m :=
  let (r, ev) := r.scheduleCallback (net.tuned (net.delay i j)) obj (.nullMessageEventHandler j)
  { r with m_nullEventId := Function.update r.m_nullEventId j ev.id }

/-- `RescheduleNullMessageEvent`. -/
def rescheduleNullMessageEvent (r : NullMessageSimulatorImpl n m) (j : Fin n) (obj : ℕ) :
    NullMessageSimulatorImpl n m :=
  let r := { r with simulator := r.simulator.cancel (r.m_nullEventId j) }
  r.scheduleNullMessageEvent net i j obj

/-- `CalculateGuaranteeTime`, when there is a next event. -/
def calculateGuaranteeTime (r : NullMessageSimulatorImpl n m) (j : Fin n) : Option ℕ := do
  let next ← r.simulator.peekTs
  return min next r.m_safeTime + net.delay i j

/-- `PointToPointNetDevice::TransmitStart` at the channel `c`, with the new objects for
`TransmitComplete` and for the null message event of the bundle: the rank, and the message that
`SendPacket` sends. -/
def transmitStart (r : NullMessageSimulatorImpl n m) (c : Fin m) (txTime gap node event complete
    obj : ℕ) : Option (NullMessageSimulatorImpl n m × NullMessage) := do
  let j := (net.channels c).remote i
  let (r, _) := { r with busy := Function.update r.busy c true }.scheduleCallback (txTime + gap)
    complete (.transmitComplete c)
  let guaranteeUpdate ← r.calculateGuaranteeTime net i j
  let rxTime := r.simulator.m_currentTs + txTime + (net.channels c).delay
  return (r.rescheduleNullMessageEvent net i j obj, ⟨rxTime, guaranteeUpdate, node, event⟩)

/-- `NullMessageEventHandler`: the rank, and the null message. -/
def nullMessageEventHandler (r : NullMessageSimulatorImpl n m) (j : Fin n) (obj : ℕ) :
    Option (NullMessageSimulatorImpl n m × NullMessage) := do
  let time ← r.calculateGuaranteeTime net i j
  return (r.scheduleNullMessageEvent net i j obj, ⟨0, time, 0, 0⟩)

/-- What the loop of `ReceiveMessages` does with a message from the rank `j`. -/
def receiveMessage (r : NullMessageSimulatorImpl n m) (j : Fin n) (msg : NullMessage) :
    NullMessageSimulatorImpl n m :=
  let r :=
    if msg.rxTime > 0 then
      { r with
        simulator := (r.simulator.scheduleWithContext msg.node
          (msg.rxTime - r.simulator.m_currentTs) msg.event).1 }
    else r
  { r with m_guaranteeTime := Function.update r.m_guaranteeTime j msg.guaranteeUpdate }

/-- A number that is not the one of an object of the simulator or of a stored event. -/
def Fresh (r : NullMessageSimulatorImpl n m) (obj : ℕ) : Prop :=
  r.callback obj = none ∧ r.simulator.m_cancel obj = false ∧
    ∀ ev ∈ r.simulator.m_events.m_events, ev.impl ≠ obj

instance (r : NullMessageSimulatorImpl n m) (obj : ℕ) : Decidable (r.Fresh obj) :=
  inferInstanceAs (Decidable (_ ∧ _ ∧ _))

/-- The program has objects of its own, and ids of their events. -/
def Own (r : NullMessageSimulatorImpl n m) : Action → Prop
  | .schedule _ event | .scheduleNow event | .scheduleWithContext _ _ event
  | .scheduleDestroy event => r.callback event = none
  | .cancel id => ∀ obj ∈ id.m_eventImpl, r.callback obj = none
  | .remove id => (∀ obj ∈ id.m_eventImpl, r.callback obj = none) ∧
    ∀ ev ∈ r.simulator.m_events.m_events, ev.key.m_uid = id.m_uid → r.callback ev.impl = none
  | .stop => True

instance (r : NullMessageSimulatorImpl n m) : DecidablePred r.Own
  | .schedule _ _ | .scheduleNow _ | .scheduleWithContext _ _ _ | .scheduleDestroy _ =>
    inferInstanceAs (Decidable (_ = _))
  | .cancel _ => inferInstanceAs (Decidable (∀ _ ∈ _, _))
  | .remove _ => inferInstanceAs (Decidable ((∀ _ ∈ _, _) ∧ ∀ _ ∈ _, _ → _))
  | .stop => isTrue trivial

/-- The guarantees up to the safe time are in the range of the simulator. -/
def InRange (r : NullMessageSimulatorImpl n m) : Prop :=
  ∀ j, net.Bundle i j → r.m_safeTime + net.delay i j ≤ maximumSimulationTime

instance (r : NullMessageSimulatorImpl n m) : Decidable (r.InRange net i) :=
  inferInstanceAs (Decidable (∀ _, _ → _))

end NullMessageSimulatorImpl

/-- Where a rank is: outside `Run`, in `InitializeNullMessageEvents` with the bundles still to come,
at the head of the loop, in an event of the program, in the non-blocking or the blocking
`ReceiveMessages`, or out of `Run`. -/
inductive NullPhase (n : ℕ)
  | outside
  | initializing (bundles : List (Fin n))
  | head
  | invocation
  | polling
  | waiting
  | left
deriving DecidableEq, Repr

/-- The program of the rank runs: before `Run`, and in the events. -/
def NullPhase.calls {n : ℕ} : NullPhase n → Bool
  | .outside | .invocation => true
  | _ => false

structure NullMessageSystem (n m : ℕ) where
  impl : Fin n → NullMessageSimulatorImpl n m
  phase : Fin n → NullPhase n
  /-- The messages from the first rank to the second, in their order. -/
  channel : Fin n → Fin n → List NullMessage

inductive NullStep (n m : ℕ)
  | call (i : Fin n) (a : Action)
  | transmitStart (i : Fin n) (c : Fin m) (txTime gap node event complete obj : ℕ)
  | run (i : Fin n)
  | initBundle (i : Fin n) (obj : ℕ)
  | head (i : Fin n) (obj : ℕ)
  | finishEvent (i : Fin n)
  | receive (i j : Fin n)
  | endPoll (i : Fin n)
deriving DecidableEq, Repr

namespace NullMessageSystem

variable {n m : ℕ} (net : NullMessageNetwork n m)

def start (n m : ℕ) : NullMessageSystem n m := ⟨fun _ => {}, fun _ => .outside, fun _ _ => []⟩

/-- One rank becomes another state. -/
def set (s : NullMessageSystem n m) (i : Fin n) (impl : NullMessageSimulatorImpl n m)
    (phase : NullPhase n) : NullMessageSystem n m :=
  { s with impl := Function.update s.impl i impl, phase := Function.update s.phase i phase }

/-- A message goes from `i` to `j`. -/
def send (s : NullMessageSystem n m) (i j : Fin n) (msg : NullMessage) : NullMessageSystem n m :=
  { s with channel := Function.update s.channel i (Function.update (s.channel i) j
    (s.channel i j ++ [msg])) }

/-- `ProcessOneEvent`: the callbacks of the simulator at once, an event of the program up to its
invocation. A cancelled event does nothing. -/
def processOneEvent (s : NullMessageSystem n m) (i : Fin n) (obj : ℕ) :
    Option (NullMessageSystem n m) := do
  let (next, simulator) ← (s.impl i).simulator.takeEvent
  let r := { s.impl i with simulator := simulator }
  if simulator.m_cancel next.impl then some (s.set i r .polling)
  else
    match r.callback next.impl with
    | some (.nullMessageEventHandler j) => do
      let (r, msg) ← r.nullMessageEventHandler net i j obj
      return (s.set i r .polling).send i j msg
    | some (.transmitComplete c) =>
      some (s.set i { r with busy := Function.update r.busy c false } .invocation)
    | none => some (s.set i r .invocation)

/-- The loop of `Run` at its head. Without bundles the blocking receive returns at once. -/
def headStep (s : NullMessageSystem n m) (i : Fin n) (obj : ℕ) : Option (NullMessageSystem n m) :=
  if (s.impl i).simulator.isFinished then some (s.set i (s.impl i) .left)
  else do
    let nextTime ← (s.impl i).simulator.peekTs
    if nextTime ≤ (s.impl i).m_safeTime then s.processOneEvent net i obj
    else if net.bundles i = [] then some (s.set i ((s.impl i).calculateSafeTime net i) .head)
    else some (s.set i (s.impl i) .waiting)

/-- A message is received; the blocking receive ends with it. -/
def receive (s : NullMessageSystem n m) (i j : Fin n) (msg : NullMessage)
    (rest : List NullMessage) :
    NullMessageSystem n m :=
  let r := (s.impl i).receiveMessage j msg
  let s := { s with channel := Function.update s.channel j (Function.update (s.channel j) i rest) }
  if s.phase i = .waiting then s.set i (r.calculateSafeTime net i) .head else s.set i r .polling

def step (s : NullMessageSystem n m) : NullStep n m → Option (NullMessageSystem n m)
  | .call i a =>
    if NullPhase.calls (s.phase i) then
      some (s.set i { s.impl i with simulator := (s.impl i).simulator.call a } (s.phase i))
    else none
  | .transmitStart i c txTime gap node event complete obj =>
    if s.phase i = .invocation ∧ (net.channels c).Leaves i ∧ (s.impl i).busy c = false then do
      let (r, msg) ← (s.impl i).transmitStart net i c txTime gap node event complete obj
      return (s.set i r .invocation).send i ((net.channels c).remote i) msg
    else none
  | .run i =>
    if s.phase i = .outside then
      some (s.set i { s.impl i with m_safeTime := 0 } (.initializing (net.bundles i)))
    else none
  | .initBundle i obj =>
    match s.phase i with
    | .initializing (j :: bundles) =>
      some ((s.set i ((s.impl i).scheduleNullMessageEvent net i j obj)
        (.initializing bundles)).send i j ⟨0, net.delay i j, 0, 0⟩)
    | .initializing [] =>
      some (s.set i { s.impl i with simulator := { (s.impl i).simulator with m_stop := false } }
        .head)
    | _ => none
  | .head i obj => if s.phase i = .head then s.headStep net i obj else none
  | .finishEvent i =>
    if s.phase i = .invocation then some (s.set i (s.impl i) .polling) else none
  | .receive i j =>
    match s.channel j i with
    | [] => none
    | msg :: rest =>
      if s.phase i = .polling ∨ s.phase i = .waiting then some (s.receive net i j msg rest)
      else none
  | .endPoll i =>
    if s.phase i = .polling then some (s.set i ((s.impl i).calculateSafeTime net i) .head) else none

/-- What the program promises, and that new objects are new. -/
def Fits (s : NullMessageSystem n m) : NullStep n m → Prop
  | .call i a => (s.impl i).simulator.Promised a ∧ (s.impl i).Own a
  | .transmitStart i c txTime gap _ _ complete obj =>
    (s.impl i).Fresh complete ∧ (s.impl i).Fresh obj ∧ complete ≠ obj ∧
      (s.impl i).simulator.m_currentTs + (txTime + gap) ≤ maximumSimulationTime ∧
      (s.impl i).simulator.m_currentTs + txTime + (net.channels c).delay ≤ maximumSimulationTime ∧
      (s.impl i).InRange net i
  | .initBundle i obj | .head i obj => (s.impl i).Fresh obj ∧ (s.impl i).InRange net i
  | .receive i j => ∀ msg ∈ (s.channel j i).head?, (s.impl i).callback msg.event = none
  | _ => True

instance (s : NullMessageSystem n m) : DecidablePred (s.Fits net)
  | .call _ _ => inferInstanceAs (Decidable (_ ∧ _))
  | .transmitStart _ _ _ _ _ _ _ _ => inferInstanceAs (Decidable (_ ∧ _ ∧ _ ∧ _ ∧ _ ∧ _))
  | .initBundle _ _ | .head _ _ => inferInstanceAs (Decidable (_ ∧ _))
  | .receive _ _ => inferInstanceAs (Decidable (∀ _ ∈ _, _))
  | .run _ | .finishEvent _ | .endPoll _ => isTrue trivial

/-- The runs of the ranks, in any interleaving. -/
inductive Run : NullMessageSystem n m → Prop
  | start : Run (start n m)
  | step {s s' : NullMessageSystem n m} (h : Run s) (q : NullStep n m) (hf : s.Fits net q)
    (hs : s.step net q = some s') : Run s'

end NullMessageSystem

end Ns3.Mpi
