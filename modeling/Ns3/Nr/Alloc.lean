import Ns3.Lib.Grid
import Ns3.Nr.SfnSf

/-!
# Scheduling data shared by the MAC and the PHY

The records of `nr-phy-mac-common.h` and `nr-control-messages.h` that travel between
the scheduler, the MAC and the PHY: DCIs, the allocations of one slot, and the slot
types of a TDD pattern. Machine words are natural numbers; where an operation can
wrap, the operation says so.
-/

namespace Ns3.Nr

/-- `LteNrTddSlotType`, in the order of its `uint8_t` values. -/
inductive LteNrTddSlotType
  /-- DL CTRL + DL DATA -/
  | DL
  /-- DL CTRL + DL DATA + UL CTRL -/
  | S
  /-- DL CTRL + DL DATA + UL DATA + UL CTRL -/
  | F
  /-- UL DATA + UL CTRL -/
  | UL
deriving DecidableEq, Repr

/-- The `uint8_t` behind the enumeration; the PHY compares slot types by it. -/
def LteNrTddSlotType.val : LteNrTddSlotType → Nat
  | DL => 0
  | S => 1
  | F => 2
  | UL => 3

/-- `DciInfoElementTdma::DciFormat`. -/
inductive DciFormat
  | DL
  | UL
deriving DecidableEq, Repr

/-- `DciInfoElementTdma::VarTtiType`. -/
inductive VarTtiType
  | SRS
  | DATA
  | CTRL
deriving DecidableEq, Repr

/-- `DciInfoElementTdma`. The per-stream members are lists indexed by the stream. -/
structure DciInfoElementTdma where
  rnti : Nat := 0
  format : DciFormat := .DL
  symStart : Nat := 0
  numSym : Nat := 0
  mcs : List Nat := []
  tbSize : List Nat := []
  ndi : List Nat := []
  rv : List Nat := []
  type : VarTtiType := .SRS
  bwpIndex : Nat := 0
  harqProcess : Nat := 0
  rbgBitmask : List Nat := []
  tpc : Nat := 0
deriving DecidableEq, Repr

/-- `RlcPduInfo`. -/
structure RlcPduInfo where
  lcid : Nat := 0
  size : Nat := 0
deriving DecidableEq, Repr

/-- `VarTtiAllocInfo`. -/
structure VarTtiAllocInfo where
  dci : DciInfoElementTdma
  rlcPduInfo : List (List RlcPduInfo) := []
deriving DecidableEq, Repr

/-- `SlotAllocInfo::AllocationType`. -/
inductive AllocationType
  | NONE
  | DL
  | UL
  | BOTH
deriving DecidableEq, Repr

/-- `SlotAllocInfo`; the deque of allocations is a list with its front first. -/
structure SlotAllocInfo where
  sfnSf : SfnSf
  numSymAlloc : Nat := 0
  varTtiAllocInfo : List VarTtiAllocInfo := []
  type : AllocationType := .NONE
deriving DecidableEq, Repr

/-- `PointInFTPlane`. -/
structure PointInFTPlane where
  rbg : Nat
  sym : Nat
deriving DecidableEq, Repr

/-- The RBGs of a mask. -/
def maskRows (mask : List Nat) : Set Nat := { i | mask[i]? = some 1 }

/-- The cells an allocation covers. -/
def allocBlock (alloc : VarTtiAllocInfo) : Lib.Block :=
  ⟨alloc.dci.symStart, alloc.dci.numSym, maskRows alloc.dci.rbgBitmask⟩

end Ns3.Nr
