import Mathlib.Data.Nat.Bitwise
import Mathlib.Logic.Function.Basic

/-!
# The middle of the receiver

`MacRxMiddle` filters the duplicates of the frames of each originator and puts the fragments of its
packets together. An originator has one list of fragments and one last sequence control.
-/

namespace Ns3.Wifi.MacRx

/-- An assertion that fails. -/
inductive Fault where
  | assertion
deriving DecidableEq, Repr

/-- A packet, as its bytes. -/
abbrev Packet := List UInt8

/-- `Mac48Address`. The first octet is the highest one. -/
abbrev Mac48Address := BitVec 48

/-- `IsGroup`. -/
def isGroup (a : Mac48Address) : Bool := a.getLsbD 40

/-- What `IsMgt`, `IsData`, `IsQosData` and `GetQosTid` tell. -/
inductive FrameType where
  | ctl
  | mgt
  | data
  | qosData (tid : Fin 16)
deriving DecidableEq, Repr

/-- The fields of `WifiMacHeader` that are read here. -/
structure WifiMacHeader where
  type : FrameType
  addr1 : Mac48Address
  addr2 : Mac48Address
  retry : Bool
  moreFragments : Bool
  seqSeq : Fin 4096
  seqFrag : Fin 16
deriving DecidableEq, Repr

/-- `GetSequenceControl`. -/
def WifiMacHeader.getSequenceControl (hdr : WifiMacHeader) : Nat :=
  hdr.seqSeq.val <<< 4 ||| hdr.seqFrag.val

/-! ## One originator -/

/-- `OriginatorRxStatus`, as it is constructed. -/
structure OriginatorRxStatus where
  defragmenting : Bool := false
  lastSequenceControl : Nat := 0xffff
  fragments : List Packet := []
deriving DecidableEq, Repr

namespace OriginatorRxStatus

/-- `AccumulateFirstFragment`. -/
def accumulateFirstFragment (o : OriginatorRxStatus) (packet : Packet) :
    Except Fault OriginatorRxStatus :=
  if o.defragmenting then .error .assertion
  else .ok { o with defragmenting := true, fragments := o.fragments ++ [packet] }

/-- `AccumulateLastFragment`, with the full packet. -/
def accumulateLastFragment (o : OriginatorRxStatus) (packet : Packet) :
    Except Fault (OriginatorRxStatus × Packet) :=
  if o.defragmenting then
    .ok ({ o with defragmenting := false, fragments := [] }, (o.fragments ++ [packet]).flatten)
  else .error .assertion

/-- `AccumulateFragment`. -/
def accumulateFragment (o : OriginatorRxStatus) (packet : Packet) :
    Except Fault OriginatorRxStatus :=
  if o.defragmenting then .ok { o with fragments := o.fragments ++ [packet] }
  else .error .assertion

/-- `IsNextFragment`. -/
def isNextFragment (o : OriginatorRxStatus) (sequenceControl : Nat) : Bool :=
  sequenceControl >>> 4 == o.lastSequenceControl >>> 4 &&
    sequenceControl &&& 0x0f == (o.lastSequenceControl &&& 0x0f) + 1

/-- `SetSequenceControl`. -/
def setSequenceControl (o : OriginatorRxStatus) (sequenceControl : Nat) : OriginatorRxStatus :=
  { o with lastSequenceControl := sequenceControl }

end OriginatorRxStatus

/-- `IsDuplicate`. -/
def isDuplicate (hdr : WifiMacHeader) (o : OriginatorRxStatus) : Bool :=
  hdr.retry && o.lastSequenceControl == hdr.getSequenceControl

/-- `HandleFragments`. Nothing is returned for a null pointer. -/
def handleFragments (packet : Packet) (hdr : WifiMacHeader) (o : OriginatorRxStatus) :
    Except Fault (OriginatorRxStatus × Option Packet) :=
  if o.defragmenting then
    if hdr.moreFragments then
      if o.isNextFragment hdr.getSequenceControl then do
        let o ← o.accumulateFragment packet
        .ok (o.setSequenceControl hdr.getSequenceControl, none)
      else .ok (o, none)
    else
      if o.isNextFragment hdr.getSequenceControl then do
        let (o, p) ← o.accumulateLastFragment packet
        .ok (o.setSequenceControl hdr.getSequenceControl, some p)
      else .ok (o, none)
  else
    if hdr.moreFragments then do
      let o ← o.accumulateFirstFragment packet
      .ok (o.setSequenceControl hdr.getSequenceControl, none)
    else .ok (o, some packet)

/-! ## All originators -/

/-- The keys of `m_originatorStatus` and `m_qosOriginatorStatus`. -/
inductive Originator where
  | source (address : Mac48Address)
  | qosSource (address : Mac48Address) (tid : Fin 16)
deriving DecidableEq, Repr

/-- The key that `Lookup` takes. -/
def WifiMacHeader.originator (hdr : WifiMacHeader) : Originator :=
  match hdr.type with
  | .qosData tid => if isGroup hdr.addr2 then .source hdr.addr2 else .qosSource hdr.addr2 tid
  | _ => .source hdr.addr2

/-- `MacRxMiddle`. An originator that is looked up for the first time gets a new status. -/
abbrev MacRxMiddle := Originator → OriginatorRxStatus

/-- `Receive`, with the packet for `m_callback`. -/
def receive (m : MacRxMiddle) (hdr : WifiMacHeader) (packet : Packet) :
    Except Fault (MacRxMiddle × Option Packet) :=
  if hdr.type = .ctl then .error .assertion
  else
    let originator := m hdr.originator
    if isDuplicate hdr originator then .ok (m, none)
    else do
      let (originator, aggregate) ← handleFragments packet hdr originator
      match aggregate with
      | none => .ok (Function.update m hdr.originator originator, none)
      | some aggregate =>
        let originator := if isGroup hdr.addr1 then originator
          else originator.setSequenceControl hdr.getSequenceControl
        .ok (Function.update m hdr.originator originator, some aggregate)

/-! ## Frames of one originator -/

/-- No assertion on the fragments fails: the flag is tested before each of them. -/
theorem handleFragments_ok (packet : Packet) (hdr : WifiMacHeader) (o : OriginatorRxStatus) :
    ∃ r, handleFragments packet hdr o = .ok r := by
  rw [handleFragments]
  split
  · rename_i hdefrag
    split
    · split
      · rw [OriginatorRxStatus.accumulateFragment, if_pos hdefrag]
        exact ⟨_, rfl⟩
      · exact ⟨_, rfl⟩
    · split
      · rw [OriginatorRxStatus.accumulateLastFragment, if_pos hdefrag]
        exact ⟨_, rfl⟩
      · exact ⟨_, rfl⟩
  · rename_i hdefrag
    split
    · rw [OriginatorRxStatus.accumulateFirstFragment, if_neg hdefrag]
      exact ⟨_, rfl⟩
    · exact ⟨_, rfl⟩

/-- A frame changes the status of its own originator only. -/
theorem receive_ok (m : MacRxMiddle) {hdr : WifiMacHeader} (packet : Packet)
    (hdata : hdr.type ≠ .ctl) : ∃ m' p, receive m hdr packet = .ok (m', p) ∧
      ∀ o, o ≠ hdr.originator → m' o = m o := by
  obtain ⟨⟨status, aggregate⟩, hhandle⟩ := handleFragments_ok packet hdr (m hdr.originator)
  rw [receive, if_neg hdata]
  simp only [hhandle]
  split
  · exact ⟨m, none, rfl, fun _ _ => rfl⟩
  · cases aggregate with
    | none => exact ⟨_, none, rfl, fun o ho => Function.update_of_ne ho _ _⟩
    | some p => exact ⟨_, some p, rfl, fun o ho => Function.update_of_ne ho _ _⟩

end Ns3.Wifi.MacRx
