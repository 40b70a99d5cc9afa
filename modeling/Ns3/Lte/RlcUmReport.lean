import Mathlib.Algebra.Order.Ring.Int
import Ns3.Network.Packet

/-!
# What LteRlcUm reports for a configured grant

The entity stores the periodicity and the deadline of the last PDCP PDU it accepted and puts them in
every buffer status report. They are those the application set for every SDU in the buffer when the
packets handed to the entity are faithful and those that wait together report the same parameters.
-/

namespace Ns3.Lte

open Ns3.Network

/-- An entry of `m_txBuffer`; times are in nanoseconds. -/
structure UmTxPdu where
  m_pdu : Network.Packet
  m_waitingSince : ℕ
deriving DecidableEq, Repr

/-- `LteMacSapProvider::ReportBufferStatusParameters`. -/
structure ReportBufferStatusParameters where
  rnti : ℕ
  lcid : ℕ
  txQueueSize : ℕ
  txQueueHolDelay : ℕ
  retxQueueSize : ℕ
  retxQueueHolDelay : ℕ
  statusPduSize : ℕ
  periodicity : UInt8
  deadline : UInt32
deriving DecidableEq, Repr

/-- The transmitting side of `LteRlcUm`, as far as the reports read it. -/
structure UmReporter where
  m_rnti : ℕ := 0
  m_lcid : ℕ := 0
  m_maxTxBufferSize : ℕ := 10 * 1024
  m_txBufferSize : ℕ := 0
  m_txBuffer : List UmTxPdu := []
  m_periodicity : UInt8 := 0
  m_deadline : UInt32 := 0
deriving DecidableEq, Repr

namespace UmReporter

def doReportBufferStatus (u : UmReporter) (now : ℕ) : ReportBufferStatusParameters where
  rnti := u.m_rnti
  lcid := u.m_lcid
  txQueueSize :=
    match u.m_txBuffer with
    | [] => 0
    | _ :: _ => (u.m_txBufferSize + 2 * u.m_txBuffer.length) % 2 ^ 32
  txQueueHolDelay :=
    match u.m_txBuffer with
    | [] => 0
    | front :: _ => (now - front.m_waitingSince) / 1000000 % 2 ^ 16
  retxQueueSize := 0
  retxQueueHolDelay := 0
  statusPduSize := 0
  periodicity := u.m_periodicity
  deadline := u.m_deadline

/-- There is room for the PDCP PDU. -/
def accepts (u : UmReporter) (p : Network.Packet) : Bool :=
  (u.m_txBufferSize + p.getSize) % 2 ^ 32 ≤ u.m_maxTxBufferSize

/-- The PDCP PDU is stored when there is room; the report is sent in any case. -/
def doTransmitPdcpPdu (u : UmReporter) (p : Network.Packet) (now : ℕ) :
    UmReporter × ReportBufferStatusParameters :=
  let u' :=
    if u.accepts p then
      { u with
        m_txBuffer := u.m_txBuffer ++ [⟨p, now⟩]
        m_txBufferSize := (u.m_txBufferSize + p.getSize) % 2 ^ 32
        m_periodicity := p.getPeriodicity
        m_deadline := p.getDeadline }
    else u
  (u', u'.doReportBufferStatus now)

/-- What a transmission opportunity leaves: the first `k` SDUs are taken and `n` bytes of the next
one, whose rest is given back to the buffer. -/
def takeSdus (u : UmReporter) (k n txBufferSize : ℕ) : UmReporter :=
  { u with
    m_txBuffer :=
      match u.m_txBuffer.drop k with
      | [] => []
      | d :: ds => { d with m_pdu := d.m_pdu.copy.removeAtStart n } :: ds
    m_txBufferSize := txBufferSize }

/-- What a report says is what the application set, for every byte of an application packet in an
SDU of the buffer. -/
def Reports (u : UmReporter) : Prop :=
  ∀ d ∈ u.m_txBuffer, ∀ now, Network.Packet.CarriesOnly d.m_pdu.m_buffer
    ⟨(u.doReportBufferStatus now).periodicity, (u.doReportBufferStatus now).deadline⟩

/-- Every SDU in the buffer is faithful. -/
def Stores (u : UmReporter) : Prop := ∀ d ∈ u.m_txBuffer, d.m_pdu.Faithful

variable {u : UmReporter} {p : Network.Packet}

theorem mem_takeSdus {k n txBufferSize : ℕ} {d : UmTxPdu}
    (hd : d ∈ (u.takeSdus k n txBufferSize).m_txBuffer) :
    ∃ d' ∈ u.m_txBuffer, d.m_pdu.m_buffer ⊆ d'.m_pdu.m_buffer ∧
      d.m_pdu.parameters = d'.m_pdu.parameters := by
  have hdrop : u.m_txBuffer.drop k ⊆ u.m_txBuffer := List.drop_subset k _
  unfold takeSdus at hd
  dsimp only at hd
  split at hd
  · cases hd
  · next d₀ ds heq =>
    rw [heq] at hdrop
    rcases List.mem_cons.mp hd with rfl | hd
    · exact ⟨d₀, hdrop List.mem_cons_self, List.drop_subset n _, rfl⟩
    · exact ⟨d, hdrop (List.mem_cons_of_mem _ hd), List.Subset.refl _, rfl⟩

theorem Stores.takeSdus (h : u.Stores) (k n txBufferSize : ℕ) :
    (u.takeSdus k n txBufferSize).Stores := by
  intro d hd
  obtain ⟨d', hd', hbytes, hparameters⟩ := mem_takeSdus hd
  have hf : Network.Packet.CarriesOnly d'.m_pdu.m_buffer d'.m_pdu.parameters := h d' hd'
  rw [← hparameters] at hf
  exact hf.subset hbytes

theorem Reports.takeSdus (h : u.Reports) (k n txBufferSize : ℕ) :
    (u.takeSdus k n txBufferSize).Reports := by
  intro d hd now
  obtain ⟨d', hd', hbytes, -⟩ := mem_takeSdus hd
  exact (h d' hd' now).subset hbytes

theorem doTransmitPdcpPdu_of_accepts (h : u.accepts p) (now : ℕ) :
    (u.doTransmitPdcpPdu p now).1 =
      { u with
        m_txBuffer := u.m_txBuffer ++ [⟨p, now⟩]
        m_txBufferSize := (u.m_txBufferSize + p.getSize) % 2 ^ 32
        m_periodicity := p.getPeriodicity
        m_deadline := p.getDeadline } := by
  unfold doTransmitPdcpPdu
  simp only [if_pos h]

theorem doTransmitPdcpPdu_of_not_accepts (h : ¬u.accepts p) (now : ℕ) :
    (u.doTransmitPdcpPdu p now).1 = u := by
  unfold doTransmitPdcpPdu
  simp only [if_neg h]

theorem Stores.doTransmitPdcpPdu (h : u.Stores) (hp : p.Faithful) (now : ℕ) :
    (u.doTransmitPdcpPdu p now).1.Stores := by
  by_cases hacc : u.accepts p
  · rw [doTransmitPdcpPdu_of_accepts hacc]
    intro d hd
    rcases List.mem_append.mp hd with hd | hd
    · exact h d hd
    · cases List.mem_singleton.mp hd
      exact hp
  · rw [doTransmitPdcpPdu_of_not_accepts hacc]
    exact h

/-- The packet that is accepted reports the parameters of every SDU that waits, as far as this holds
bytes of an application packet. -/
def Agrees (u : UmReporter) (p : Network.Packet) : Prop :=
  u.accepts p → ∀ d ∈ u.m_txBuffer,
    p.parameters = d.m_pdu.parameters ∨ Network.Packet.Plain d.m_pdu.m_buffer

theorem reports_doTransmitPdcpPdu_iff (hs : u.Stores) (hr : u.Reports) (hp : p.Faithful)
    (now : ℕ) : (u.doTransmitPdcpPdu p now).1.Reports ↔ u.Agrees p := by
  by_cases hacc : u.accepts p
  · rw [doTransmitPdcpPdu_of_accepts hacc]
    constructor
    · intro h _ d hd
      exact (Network.Packet.CarriesOnly.iff (hs d hd)).mp (h d (List.mem_append_left _ hd) 0)
    · intro h d hd now'
      rcases List.mem_append.mp hd with hd | hd
      · exact (Network.Packet.CarriesOnly.iff (hs d hd)).mpr (h hacc d hd)
      · cases List.mem_singleton.mp hd
        exact hp
  · rw [doTransmitPdcpPdu_of_not_accepts hacc]
    exact iff_of_true hr fun h => absurd h hacc

end UmReporter

/-- The packets of a program and one RLC entity. -/
structure GrantSystem where
  packets : List Network.Packet := []
  rlc : UmReporter := {}

/-- A step of the system. -/
inductive GrantOp
  | packet (op : PacketOp)
  | transmitPdcpPdu (i now : ℕ)
  | txOpportunity (k n txBufferSize : ℕ)

namespace GrantSystem

def step (s : GrantSystem) : GrantOp → Option GrantSystem
  | .packet op => do
    let ps ← op.apply s.packets
    return { s with packets := ps }
  | .transmitPdcpPdu i now => do
    let p ← s.packets[i]?
    return { s with rlc := (s.rlc.doTransmitPdcpPdu p now).1 }
  | .txOpportunity k n txBufferSize =>
    some { s with rlc := s.rlc.takeSdus k n txBufferSize }

/-- The condition on a step. -/
def Keeps (s : GrantSystem) : GrantOp → Prop
  | .packet op => op.Keeps s.packets
  | .transmitPdcpPdu i _ => ∀ p ∈ s.packets[i]?, s.rlc.Agrees p
  | .txOpportunity _ _ _ => True

/-- The runs from no packets and an entity whose buffer is empty. -/
inductive Run (Q : GrantSystem → GrantOp → Prop) : GrantSystem → Prop
  | start (rlc : UmReporter) (hempty : rlc.m_txBuffer = []) : Run Q { rlc := rlc }
  | step {s s' : GrantSystem} (h : Run Q s) (op : GrantOp) (hQ : Q s op)
    (hs : s.step op = some s') : Run Q s'

variable {s s' : GrantSystem}

theorem stores_step {op : GrantOp} (hf : Faithful s.packets) (h : s.rlc.Stores)
    (hs : s.step op = some s') : s'.rlc.Stores := by
  cases op with
  | packet op =>
    obtain ⟨ps, -, heq⟩ := Option.bind_eq_some_iff.mp hs
    cases heq
    exact h
  | transmitPdcpPdu i now =>
    obtain ⟨p, hp, heq⟩ := Option.bind_eq_some_iff.mp hs
    cases heq
    exact h.doTransmitPdcpPdu (hf p (List.mem_of_getElem? hp)) now
  | txOpportunity k n txBufferSize =>
    cases hs
    exact h.takeSdus k n txBufferSize

/-- One step keeps packets and reports exactly when it meets the condition. -/
theorem step_iff {op : GrantOp} (hf : Faithful s.packets) (hst : s.rlc.Stores)
    (hr : s.rlc.Reports) (hs : s.step op = some s') :
    Faithful s'.packets ∧ s'.rlc.Reports ↔ s.Keeps op := by
  cases op with
  | packet op =>
    obtain ⟨ps, hps, heq⟩ := Option.bind_eq_some_iff.mp hs
    cases heq
    exact (and_iff_left hr).trans (PacketOp.faithful_iff hf hps)
  | transmitPdcpPdu i now =>
    obtain ⟨p, hp, heq⟩ := Option.bind_eq_some_iff.mp hs
    cases heq
    have hpf := hf p (List.mem_of_getElem? hp)
    refine (and_iff_right hf).trans
      ((UmReporter.reports_doTransmitPdcpPdu_iff hst hr hpf now).trans ?_)
    constructor
    · intro h q hq
      rw [hp] at hq
      cases hq
      exact h
    · exact fun h => h p hp
  | txOpportunity k n txBufferSize =>
    cases hs
    exact iff_of_true ⟨hf, hr.takeSdus k n txBufferSize⟩ trivial

theorem Run.inv (h : Run Keeps s) : Faithful s.packets ∧ s.rlc.Stores ∧ s.rlc.Reports := by
  induction h with
  | start rlc hempty =>
    refine ⟨fun p hp => absurd hp List.not_mem_nil, ?_, ?_⟩
    · intro d hd
      rw [hempty] at hd
      cases hd
    · intro d hd
      rw [hempty] at hd
      cases hd
  | step h op hQ hs ih =>
    obtain ⟨hf, hst, hr⟩ := ih
    obtain ⟨hf', hr'⟩ := (step_iff hf hst hr hs).mpr hQ
    exact ⟨hf', stores_step hf hst hs, hr'⟩

end GrantSystem

end Ns3.Lte
