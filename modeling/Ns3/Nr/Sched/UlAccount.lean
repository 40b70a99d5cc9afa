import Ns3.Nr.Sched.ActiveUe
import Ns3.Nr.Sched.Ofdma
import Ns3.Nr.Sched.UlPhases

/-!
# The symbols of the uplink add up

At its end `DoScheduleUl` asserts that the symbols the phases have taken from the slot are
those of the allocations, where allocations with the same starting symbol are counted once.
This holds if the starting symbols of different phases differ and the retransmissions are
counted right (`HarqCloses`).

SRS breaks it: the data phase starts at the last SRS symbol, so the first DCI is not counted,
and SRS symbols below 0 are out of the range of the table. Two beams of the OFDMA scheduler
that start at the same symbol break it as well.
-/

namespace Ns3.Nr.Sched

open Lib

/-- A scheduler in one of its two ways of access. -/
inductive UlAccess
  | tdma (c : SchedConf)
  | ofdma (c : OfdmaConf)

def UlAccess.conf : UlAccess → SchedConf
  | .tdma c => c
  | .ofdma c => c.toSchedConf

def UlAccess.scheduler : UlAccess → UlScheduler
  | .tdma c => tdmaUl c
  | .ofdma c => ofdmaUl c

/-- Some RBG may be used. -/
def UlAccess.Usable : UlAccess → Prop
  | .tdma c => 0 < c.ulAssignable
  | .ofdma c => c.ulMask.length = c.bandwidthInRbg ∧ 0 < c.ulMask.count 1

/-- With `schOFDMA = 1`, only one beam with UEs gets symbols; in the other modes of the OFDMA
scheduler there are no symbols or no beams for data. -/
def UlAccess.OneBeam (symAvail : Nat) (activeUl : ActiveUeMap) : UlAccess → Prop
  | .tdma _ => True
  | .ofdma c =>
    if c.schOFDMA = 1 then (servedBeams c symAvail activeUl).length ≤ 1
    else symAvail = 0 ∨ activeUl = []

theorem UlAccess.placed {access : UlAccess} (husable : access.Usable) {sym symAvail : Nat}
    {activeUl : ActiveUeMap} (hfresh : ∀ el ∈ activeUl, Fresh el.2) (hend : sym + symAvail ≤ 128)
    (hone : access.OneBeam symAvail activeUl) (havail : 0 < symAvail) (hactive : activeUl ≠ []) :
    UlPlaced sym symAvail
      (doScheduleUlData access.conf access.scheduler ⟨0, sym⟩ symAvail activeUl []) := by
  cases access with
  | tdma c =>
    obtain ⟨allocs, hdone, hle, -⟩ := tdma_doScheduleUlData husable hfresh
      (show sym + symAvail < 256 by omega) []
    exact hdone.placed hle
  | ofdma c =>
    rw [UlAccess.OneBeam] at hone
    split at hone
    · next hsch => exact ofdma_placed hsch husable.1 husable.2 hfresh hend hone
    · exact absurd hone (not_or.mpr ⟨havail.ne', hactive⟩)

/-! ## The table -/

section Close

variable {conf : SlotConf} {c : SchedConf} {s : UlScheduler} {type : LteNrTddSlotType}
  {ulSfn : Nat} {fbs : List UlHarqInfo} {activeUl : ActiveUeMap} {st st' : UlSchedState}
  {slot : UlSlot}

end Close

/-! ## The allocations of the phases -/

section Srs

variable (c : SchedConf) (rnti : Nat) {sym n : Nat}

end Srs

section Main

variable {conf : SlotConf} {access : UlAccess} {type : LteNrTddSlotType} {ulSfn : Nat}
  {activeUl : ActiveUeMap} {st : UlSchedState} {xs : List Retx}

/-- What the phases leave when there is no SRS: the retransmissions are in front of the symbol
`mid` and the data from there on, and every symbol that is not available any more is counted. -/
structure PhasesApart (conf : SlotConf) (c : SchedConf) (type : LteNrTddSlotType) (mid : Nat)
    (slot : UlSlot) : Prop where
  srs : slot.srs = []
  ctrl : slot.ctrl = (UlSlot.start conf c type).ctrl
  le_mid : conf.startSym type ≤ mid
  mid_lt : mid < conf.symbolsPerSlot
  harq : Packed (conf.startSym type) mid (slot.harq.map allocBlock)
  data : Packed mid (conf.symbolsPerSlot - 1) (slot.data.map allocBlock)
  first : slot.data ≠ [] → ∃ a ∈ slot.data, a.dci.symStart = mid
  len : ∀ a ∈ slot.harq ++ slot.data, 0 < a.dci.numSym
  format : ∀ a ∈ slot.harq ++ slot.data, a.dci.format = .UL
  dataType : ∀ a ∈ slot.data, a.dci.type = .DATA
  counted : slot.ulSymAvail + tally (slot.data.map allocBlock) + tally (slot.harq.map allocBlock) =
    conf.dataSymPerSlot type

end Main

end Ns3.Nr.Sched
