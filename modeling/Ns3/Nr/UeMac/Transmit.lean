import Ns3.Nr.UeMac.Mac

/-!
# What a transmission of the UE MAC changes

Filling a transport block changes the machines only by the reports that the RLC entities make
meanwhile, and without one the buffer does not grow (`Sent`). It leaves the configured grants
alone, and all its PDUs go to one slot and symbol (`NrUeMac.SentTo`).
-/

namespace Ns3.Nr.UeMac

open Lib

/-- The variables of the two state machines. -/
structure Machine where
  cgScheduling : Bool
  srState : SrBsrMachine
  srStateConfiguredGrant : SrCgMachine
  requestSent : Bool
deriving DecidableEq

namespace Machine

def idle (m : Machine) : Bool :=
  if m.cgScheduling then
    m.srStateConfiguredGrant = .INACTIVE_CG || m.srStateConfiguredGrant = .ACTIVE_CG
  else m.srState = .INACTIVE

def toSend (m : Machine) : Bool :=
  if m.cgScheduling then m.srStateConfiguredGrant = .TO_SEND_TrafficInfo else m.srState = .TO_SEND

def waiting (m : Machine) : Bool :=
  if m.cgScheduling then m.srStateConfiguredGrant = .TO_RECEIVE_CG else m.srState = .ACTIVE

/-- The machine after a report. -/
def reported (m : Machine) : Machine :=
  if m.cgScheduling then
    match m.srStateConfiguredGrant with
    | .INACTIVE_CG =>
      { m with srStateConfiguredGrant := .TO_SEND_TrafficInfo, requestSent := false }
    | .ACTIVE_CG => { m with srStateConfiguredGrant := .SCH_CG_DATA }
    | _ => m
  else
    match m.srState with
    | .INACTIVE => { m with srState := .TO_SEND, requestSent := false }
    | _ => m

def emptied (m : Machine) : Machine :=
  if m.cgScheduling then { m with srStateConfiguredGrant := .ACTIVE_CG }
  else { m with srState := .INACTIVE }

/-- Whoever waits has sent a request. -/
def Asked (m : Machine) : Prop := m.waiting = true → m.requestSent = true

variable (m : Machine)

theorem idle_reported : m.reported.idle = false := by
  obtain ⟨cg, sr, srCg, sent⟩ := m
  cases cg
  · cases sr <;> rfl
  · cases srCg <;> rfl

theorem reported_reported : m.reported.reported = m.reported := by
  obtain ⟨cg, sr, srCg, sent⟩ := m
  cases cg
  · cases sr <;> rfl
  · cases srCg <;> rfl

theorem waiting_emptied : m.emptied.waiting = false := by
  obtain ⟨cg, sr, srCg, sent⟩ := m
  cases cg <;> rfl

variable {m}

theorem Asked.reported (h : m.Asked) : m.reported.Asked := by
  obtain ⟨cg, sr, srCg, sent⟩ := m
  cases cg
  · cases sr
    · exact fun hw => by cases hw
    · exact h
    · exact h
  · cases srCg
    · exact fun hw => by cases hw
    · exact h
    · exact h
    · exact fun hw => by cases hw
    · exact h

end Machine

/-- Transmission changes the machine only by reports; without one the buffer does not grow. -/
def Sent (size size' : Nat) (m m' : Machine) : Prop := (m' = m ∧ size' ≤ size) ∨ m' = m.reported

theorem Sent.refl (size : Nat) (m : Machine) : Sent size size m m := Or.inl ⟨rfl, le_rfl⟩

theorem Sent.trans {size₁ size₂ size₃ : Nat} {m₁ m₂ m₃ : Machine} (h : Sent size₁ size₂ m₁ m₂)
    (h' : Sent size₂ size₃ m₂ m₃) : Sent size₁ size₃ m₁ m₃ := by
  rcases h with ⟨rfl, hle⟩ | rfl
  · rcases h' with ⟨rfl, hle'⟩ | rfl
    · exact Or.inl ⟨rfl, hle'.trans hle⟩
    · exact Or.inr rfl
  · rcases h' with ⟨rfl, -⟩ | rfl
    · exact Or.inr rfl
    · exact Or.inr m₁.reported_reported

theorem Sent.asked {size size' : Nat} {m m' : Machine} (h : Sent size size' m m') (hm : m.Asked) :
    m'.Asked := by
  rcases h with ⟨rfl, -⟩ | rfl
  · exact hm
  · exact hm.reported

/-- An idle machine has made no report. -/
theorem Sent.le_of_idle {size size' : Nat} {m m' : Machine} (h : Sent size size' m m')
    (hidle : m'.idle = true) : m.idle = true ∧ size' ≤ size := by
  rcases h with ⟨rfl, hle⟩ | rfl
  · exact ⟨hidle, hle⟩
  · rw [m.idle_reported] at hidle
    cases hidle

namespace NrUeMac

def machine (mac : NrUeMac) : Machine :=
  ⟨mac.cgScheduling, mac.srState, mac.srStateConfiguredGrant, mac.requestSent⟩

section Modes

variable {mac : NrUeMac}

theorem idle_dynamic (h : mac.cgScheduling = false) :
    mac.machine.idle = decide (mac.srState = .INACTIVE) :=
  if_neg (ne_true_of_eq_false h)

theorem toSend_dynamic (h : mac.cgScheduling = false) :
    mac.machine.toSend = decide (mac.srState = .TO_SEND) :=
  if_neg (ne_true_of_eq_false h)

theorem idle_configuredGrant (h : mac.cgScheduling = true) :
    mac.machine.idle = (decide (mac.srStateConfiguredGrant = .INACTIVE_CG) ||
      decide (mac.srStateConfiguredGrant = .ACTIVE_CG)) :=
  if_pos h

theorem toSend_configuredGrant (h : mac.cgScheduling = true) :
    mac.machine.toSend = decide (mac.srStateConfiguredGrant = .TO_SEND_TrafficInfo) :=
  if_pos h

theorem waiting_configuredGrant (h : mac.cgScheduling = true) :
    mac.machine.waiting = decide (mac.srStateConfiguredGrant = .TO_RECEIVE_CG) :=
  if_pos h

end Modes

/-! ## What stays -/

/-- The variables that a transmission only reads. -/
structure Fixed where
  cgScheduling : Bool
  configurationTime : Nat
  cgPeriod : Nat
  rnti : Nat
  currentSlot : SfnSf
  ulDciSfnsf : SfnSf
  ulDci : DciInfoElementTdma
  dciGrantedStored : Nat → Option DciInfoElementTdma
  dciCgMap : Table Nat DciInfoElementTdma
  cgSlotCounterDci : Nat
  cgSlotCounterDci2 : Nat

def fixed (mac : NrUeMac) : Fixed :=
  ⟨mac.cgScheduling, mac.configurationTime, mac.cgPeriod, mac.rnti, mac.currentSlot, mac.ulDciSfnsf,
    mac.ulDci, mac.dciGrantedStored, mac.dciCgMap, mac.cgSlotCounterDci, mac.cgSlotCounterDci2⟩

/-- A PDU for the slot and symbol of the DCI. -/
def Addressed (mac : NrUeMac) (pdu : MacPdu) : Prop :=
  pdu.sfn = mac.ulDciSfnsf ∧ pdu.symStart = mac.ulDci.symStart ∧ pdu.streamId = 0

structure Kept (mac mac' : NrUeMac) : Prop where
  fixed : mac'.fixed = mac.fixed
  pdus : ∃ new, mac'.macPdus = new ++ mac.macPdus ∧ ∀ pdu ∈ new, mac.Addressed pdu

variable {mac mac' mac₁ mac₂ : NrUeMac} {rlc : Rlc}

theorem Kept.of_eq (hfixed : mac'.fixed = mac.fixed) (hpdus : mac'.macPdus = mac.macPdus) :
    mac.Kept mac' :=
  ⟨hfixed, [], hpdus, by simp⟩

theorem Kept.refl (mac : NrUeMac) : mac.Kept mac := Kept.of_eq rfl rfl

theorem Kept.trans (h : mac.Kept mac₁) (h' : mac₁.Kept mac₂) : mac.Kept mac₂ := by
  obtain ⟨new, heq, hnew⟩ := h.pdus
  obtain ⟨new', heq', hnew'⟩ := h'.pdus
  refine ⟨h'.fixed.trans h.fixed, new' ++ new, ?_, ?_⟩
  · rw [heq', heq, List.append_assoc]
  · intro pdu hpdu
    rcases List.mem_append.mp hpdu with hpdu | hpdu
    · obtain ⟨hsfn, hsym, hstream⟩ := hnew' pdu hpdu
      rw [show mac₁.ulDciSfnsf = mac.ulDciSfnsf from congrArg Fixed.ulDciSfnsf h.fixed] at hsfn
      rw [show mac₁.ulDci = mac.ulDci from congrArg Fixed.ulDci h.fixed] at hsym
      exact ⟨hsfn, hsym, hstream⟩
    · exact hnew pdu hpdu

theorem kept_sendMacPdu (mac : NrUeMac) (size : Nat) :
    mac.Kept (mac.sendMacPdu mac.ulDciSfnsf mac.ulDci.symStart 0 size) := by
  refine ⟨rfl, [⟨mac.ulDciSfnsf, mac.ulDci.symStart, 0, size⟩], rfl, ?_⟩
  intro pdu hpdu
  rw [List.mem_singleton] at hpdu
  rw [hpdu]
  exact ⟨rfl, rfl, rfl⟩

/-! ## Reports -/

theorem machine_reported (mac : NrUeMac) : mac.reported.machine = mac.machine.reported := by
  unfold reported Machine.reported
  cases hcg : mac.cgScheduling
  · cases hsr : mac.srState <;> simp [machine, hcg, hsr]
  · cases hsr : mac.srStateConfiguredGrant <;> simp [machine, hcg, hsr]

theorem kept_reported (mac : NrUeMac) : mac.Kept mac.reported := by
  unfold reported
  split
  · split <;> exact Kept.of_eq rfl rfl
  · split <;> exact Kept.of_eq rfl rfl

/-! ## Transmission -/

theorem doTransmitPdu_same {size : Nat} (h : mac.doTransmitPdu size = some mac') :
    mac'.machine = mac.machine ∧ mac'.ulBsrReceived = mac.ulBsrReceived ∧ mac.Kept mac' := by
  obtain ⟨process, -, h⟩ := Option.bind_eq_some_iff.mp h
  obtain ⟨pktBurst, -, h⟩ := Option.bind_eq_some_iff.mp h
  cases h
  have hkept := kept_sendMacPdu mac size
  exact ⟨rfl, rfl, hkept.fixed, hkept.pdus⟩

theorem foldlM_doTransmitPdu_same {sizes : List Nat}
    (h : sizes.foldlM doTransmitPdu mac = some mac') :
    mac'.machine = mac.machine ∧ mac.Kept mac' := by
  induction sizes generalizing mac with
  | nil =>
    cases h
    exact ⟨rfl, Kept.refl _⟩
  | cons size sizes ih =>
    rw [List.foldlM_cons] at h
    obtain ⟨mac₁, h₁, h⟩ := Option.bind_eq_some_iff.mp h
    obtain ⟨hm, -, hkept⟩ := doTransmitPdu_same h₁
    obtain ⟨hm', hkept'⟩ := ih h
    exact ⟨hm'.trans hm, hkept.trans hkept'⟩

theorem notifyTxOpportunity_cases {phase : TxPhase} {bsr bsr' : Bsr} {bytes : Nat}
    (h : mac.notifyTxOpportunity rlc phase bsr bytes = some (bsr', mac')) :
    ((mac'.machine = mac.machine ∧ bsr' = bsr) ∨ mac'.machine = mac.machine.reported) ∧
      mac.Kept mac' := by
  obtain ⟨mac₁, h₁, h⟩ := Option.bind_eq_some_iff.mp h
  obtain ⟨hm, hkept⟩ := foldlM_doTransmitPdu_same h₁
  cases hreport : (rlc phase bsr.lcid bytes).report with
  | none =>
    rw [hreport] at h
    cases h
    exact ⟨Or.inl ⟨hm, rfl⟩, hkept⟩
  | some params =>
    rw [hreport] at h
    cases h
    exact ⟨Or.inr ((machine_reported mac₁).trans (congrArg Machine.reported hm)),
      hkept.trans (kept_reported mac₁)⟩

theorem bufSize_cons (bsr : Bsr) (bsrs : List Bsr) : bufSize (bsr :: bsrs) =
    bsr.txQueueSize + bsr.retxQueueSize + bsr.statusPduSize + bufSize bsrs := rfl

/-- One entry that shrinks, or a report, and then the rest of the entries. -/
theorem sent_cons {bsr bsr' served : Bsr} {bsrs bsrs' : List Bsr} {m m₁ m₂ : Machine}
    (h₁ : (m₁ = m ∧ bsr' = bsr) ∨ m₁ = m.reported)
    (hserved : served.txQueueSize + served.retxQueueSize + served.statusPduSize ≤
      bsr'.txQueueSize + bsr'.retxQueueSize + bsr'.statusPduSize)
    (h₂ : Sent (bufSize bsrs) (bufSize bsrs') m₁ m₂) :
    Sent (bufSize (bsr :: bsrs)) (bufSize (served :: bsrs')) m m₂ := by
  rw [bufSize_cons, bufSize_cons]
  rcases h₁ with ⟨rfl, rfl⟩ | rfl
  · rcases h₂ with ⟨rfl, hle⟩ | rfl
    · exact Or.inl ⟨rfl, Nat.add_le_add hserved hle⟩
    · exact Or.inr rfl
  · rcases h₂ with ⟨rfl, -⟩ | rfl
    · exact Or.inr rfl
    · exact Or.inr m.reported_reported

theorem sendStatus_sent {tbSize : Nat} {bsrs bsrs' : List Bsr} {has sent has' sent' : Bool}
    (h : sendStatus rlc tbSize bsrs has sent mac = some (bsrs', has', sent', mac')) :
    Sent (bufSize bsrs) (bufSize bsrs') mac.machine mac'.machine ∧ mac.Kept mac' := by
  induction bsrs generalizing bsrs' has sent mac with
  | nil =>
    cases h
    exact ⟨Sent.refl _ _, Kept.refl _⟩
  | cons bsr bsrs ih =>
    unfold sendStatus at h
    split at h
    · split at h
      · obtain ⟨⟨bsr₁, mac₁⟩, h₁, h⟩ := Option.bind_eq_some_iff.mp h
        obtain ⟨⟨bsrs₂, has₂, sent₂, mac₂⟩, h₂, h⟩ := Option.bind_eq_some_iff.mp h
        cases h
        obtain ⟨hone, hkept⟩ := notifyTxOpportunity_cases h₁
        obtain ⟨hrest, hkept'⟩ := ih h₂
        exact ⟨sent_cons hone (Nat.le_add_right _ _) hrest, hkept.trans hkept'⟩
      · obtain ⟨⟨bsrs₂, has₂, sent₂, mac₂⟩, h₂, h⟩ := Option.bind_eq_some_iff.mp h
        cases h
        obtain ⟨hrest, hkept⟩ := ih h₂
        exact ⟨sent_cons (Or.inl ⟨rfl, rfl⟩) le_rfl hrest, hkept⟩
    · obtain ⟨⟨bsrs₂, has₂, sent₂, mac₂⟩, h₂, h⟩ := Option.bind_eq_some_iff.mp h
      cases h
      obtain ⟨hrest, hkept⟩ := ih h₂
      exact ⟨sent_cons (Or.inl ⟨rfl, rfl⟩) le_rfl hrest, hkept⟩

theorem sendData_sent {phase : TxPhase} {subtract : Bsr → Bsr} {useful bytes : Nat}
    {bsrs bsrs' : List Bsr}
    (hsub : ∀ bsr, (subtract bsr).txQueueSize + (subtract bsr).retxQueueSize +
      (subtract bsr).statusPduSize ≤ bsr.txQueueSize + bsr.retxQueueSize + bsr.statusPduSize)
    (h : sendData rlc phase subtract useful bytes bsrs mac = some (bsrs', mac')) :
    Sent (bufSize bsrs) (bufSize bsrs') mac.machine mac'.machine ∧ mac.Kept mac' := by
  induction bsrs generalizing bsrs' mac with
  | nil =>
    cases h
    exact ⟨Sent.refl _ _, Kept.refl _⟩
  | cons bsr bsrs ih =>
    unfold sendData at h
    split at h
    · obtain ⟨⟨bsr₁, mac₁⟩, h₁, h⟩ := Option.bind_eq_some_iff.mp h
      obtain ⟨⟨bsrs₂, mac₂⟩, h₂, h⟩ := Option.bind_eq_some_iff.mp h
      cases h
      obtain ⟨hone, hkept⟩ := notifyTxOpportunity_cases h₁
      obtain ⟨hrest, hkept'⟩ := ih h₂
      exact ⟨sent_cons hone (hsub bsr₁) hrest, hkept.trans hkept'⟩
    · obtain ⟨⟨bsrs₂, mac₂⟩, h₂, h⟩ := Option.bind_eq_some_iff.mp h
      cases h
      obtain ⟨hrest, hkept⟩ := ih h₂
      exact ⟨sent_cons (Or.inl ⟨rfl, rfl⟩) le_rfl hrest, hkept⟩

structure SentTo (mac mac' : NrUeMac) : Prop where
  sent : Sent (bufSize mac.ulBsrReceived) (bufSize mac'.ulBsrReceived) mac.machine mac'.machine
  kept : mac.Kept mac'

theorem SentTo.refl (mac : NrUeMac) : mac.SentTo mac := ⟨Sent.refl _ _, Kept.refl _⟩

theorem SentTo.trans (h : mac.SentTo mac₁) (h' : mac₁.SentTo mac₂) : mac.SentTo mac₂ :=
  ⟨h.sent.trans h'.sent, h.kept.trans h'.kept⟩

theorem sendNewStatusData_sent (h : mac.sendNewStatusData rlc = some mac') : mac.SentTo mac' := by
  obtain ⟨tbSize, -, h⟩ := Option.bind_eq_some_iff.mp h
  obtain ⟨⟨bsrs, has, sent, mac₁⟩, h₁, h⟩ := Option.bind_eq_some_iff.mp h
  dsimp only at h
  split at h
  · cases h
  · cases h
    obtain ⟨hsent, hkept⟩ := sendStatus_sent h₁
    exact ⟨hsent, hkept.fixed, hkept.pdus⟩

theorem subtractRetx_le (bytes : Nat) (bsr : Bsr) : (subtractRetx bytes bsr).txQueueSize +
    (subtractRetx bytes bsr).retxQueueSize + (subtractRetx bytes bsr).statusPduSize ≤
      bsr.txQueueSize + bsr.retxQueueSize + bsr.statusPduSize :=
  Nat.add_le_add_right (Nat.add_le_add_left (Nat.sub_le _ _) _) _

theorem subtractTx_le (bytes : Nat) (bsr : Bsr) : (subtractTx bytes bsr).txQueueSize +
    (subtractTx bytes bsr).retxQueueSize + (subtractTx bytes bsr).statusPduSize ≤
      bsr.txQueueSize + bsr.retxQueueSize + bsr.statusPduSize := by
  unfold subtractTx
  generalize (bytes + 2 ^ 32 - 2) % 2 ^ 32 = sent
  exact Nat.add_le_add_right (Nat.add_le_add_right (Nat.sub_le _ _) _) _

theorem sendRetxData_sent {useful active : Nat}
    (h : mac.sendRetxData rlc useful active = some mac') :
    mac.SentTo mac' := by
  unfold sendRetxData at h
  split at h
  · cases h
    exact SentTo.refl _
  · obtain ⟨⟨bsrs, mac₁⟩, h₁, h⟩ := Option.bind_eq_some_iff.mp h
    cases h
    obtain ⟨hsent, hkept⟩ := sendData_sent (subtractRetx_le _) h₁
    exact ⟨hsent, hkept.fixed, hkept.pdus⟩

theorem sendTxData_sent {useful active : Nat} (h : mac.sendTxData rlc useful active = some mac') :
    mac.SentTo mac' := by
  unfold sendTxData at h
  split at h
  · cases h
    exact SentTo.refl _
  · obtain ⟨⟨bsrs, mac₁⟩, h₁, h⟩ := Option.bind_eq_some_iff.mp h
    cases h
    obtain ⟨hsent, hkept⟩ := sendData_sent (subtractTx_le _) h₁
    exact ⟨hsent, hkept.fixed, hkept.pdus⟩

theorem setPktBurst_sent {pktBurst : Option (List Nat)} (h : mac.setPktBurst pktBurst = some mac') :
    mac.SentTo mac' := by
  obtain ⟨process, -, h⟩ := Option.bind_eq_some_iff.mp h
  cases h
  exact ⟨Sent.refl _ _, Kept.of_eq rfl rfl⟩

theorem sendNewData_sent (h : mac.sendNewData rlc = some mac') : mac.SentTo mac' := by
  obtain ⟨tbSize, -, h⟩ := Option.bind_eq_some_iff.mp h
  obtain ⟨mac₁, h₁, h⟩ := Option.bind_eq_some_iff.mp h
  obtain ⟨mac₂, h₂, h⟩ := Option.bind_eq_some_iff.mp h
  obtain ⟨mac₃, h₃, h⟩ := Option.bind_eq_some_iff.mp h
  obtain ⟨mac₄, h₄, h⟩ := Option.bind_eq_some_iff.mp h
  have hretx : mac₂.SentTo mac₃ := by
    split at h₃
    · cases h₃
      exact SentTo.refl _
    · exact sendRetxData_sent h₃
  have htx : mac₃.SentTo mac₄ := by
    split at h₄
    · cases h₄
      exact SentTo.refl _
    · exact sendTxData_sent h₄
  have hend : mac₄.SentTo mac' := by
    split at h
    · exact setPktBurst_sent h
    · cases h
      exact SentTo.refl _
  exact (((setPktBurst_sent h₁).trans (sendNewStatusData_sent h₂)).trans hretx).trans
    (htx.trans hend)

theorem foldl_sendMacPdu_sent (sizes : List Nat) (mac : NrUeMac) :
    mac.SentTo (sizes.foldl
      (fun mac size => mac.sendMacPdu mac.ulDciSfnsf mac.ulDci.symStart 0 size) mac) := by
  induction sizes generalizing mac with
  | nil => exact SentTo.refl _
  | cons size sizes ih =>
    have hone : mac.SentTo (mac.sendMacPdu mac.ulDciSfnsf mac.ulDci.symStart 0 size) :=
      ⟨Sent.refl _ _, kept_sendMacPdu mac size⟩
    exact hone.trans (ih _)

theorem transmitRetx_sent (h : mac.transmitRetx = some mac') : mac.SentTo mac' := by
  obtain ⟨process, -, h⟩ := Option.bind_eq_some_iff.mp h
  cases hburst : process.pktBurst with
  | none =>
    rw [hburst] at h
    cases h
    exact SentTo.refl _
  | some sizes =>
    rw [hburst] at h
    cases h
    have hsent := foldl_sendMacPdu_sent sizes mac
    exact ⟨hsent.sent, hsent.kept.fixed, hsent.kept.pdus⟩

theorem sendReportBufferStatus_sent (mac : NrUeMac) :
    mac.SentTo (mac.sendReportBufferStatus mac.ulDciSfnsf mac.ulDci.symStart) := by
  unfold sendReportBufferStatus
  split
  · exact SentTo.refl _
  · split
    · exact SentTo.refl _
    · have hkept := kept_sendMacPdu mac 5
      exact ⟨Sent.refl _ _, hkept.fixed, hkept.pdus⟩

/-- A transmission sends, and what comes after it depends on the buffer that new data leave. -/
theorem transmit_cases {atEmpty : NrUeMac → NrUeMac} {f : Machine → Machine}
    (hbsr : ∀ m, (atEmpty m).ulBsrReceived = m.ulBsrReceived)
    (hf : ∀ m, (atEmpty m).machine = f m.machine) (hkept : ∀ m : NrUeMac, m.Kept (atEmpty m))
    (h : mac.transmit rlc atEmpty = some mac') : mac.Kept mac' ∧
      ∃ m, Sent (bufSize mac.ulBsrReceived) (bufSize mac'.ulBsrReceived) mac.machine m ∧
        (mac'.machine = m ∧ (mac.ulDci.ndi[0]? = some 1 → mac'.totalBufSize ≠ 0) ∨
          mac'.totalBufSize = 0 ∧ mac'.machine = f m) := by
  obtain ⟨ndi, hndi, h⟩ := Option.bind_eq_some_iff.mp h
  rw [hndi]
  split at h
  · obtain ⟨mac₁, h₁, h⟩ := Option.bind_eq_some_iff.mp h
    cases h
    have hsent := (transmitRetx_sent h₁).trans (sendReportBufferStatus_sent mac₁)
    refine ⟨hsent.kept, _, hsent.sent, Or.inl ⟨rfl, fun hone => ?_⟩⟩
    have := Option.some.inj hone
    omega
  · split at h
    · obtain ⟨mac₁, h₁, h⟩ := Option.bind_eq_some_iff.mp h
      have hsent := (sendNewData_sent h₁).trans (sendReportBufferStatus_sent mac₁)
      generalize mac₁.sendReportBufferStatus _ _ = mac₂ at h hsent
      dsimp only at h
      split at h
      · rename_i hempty
        have hsame : mac'.machine = (atEmpty mac₂).machine ∧
            mac'.ulBsrReceived = (atEmpty mac₂).ulBsrReceived ∧ (atEmpty mac₂).Kept mac' := by
          split at h
          · exact doTransmitPdu_same h
          · cases h
            exact ⟨rfl, rfl, Kept.refl _⟩
        obtain ⟨hm, hb, hend⟩ := hsame
        rw [totalBufSize, hb, hbsr]
        exact ⟨(hsent.kept.trans (hkept mac₂)).trans hend, mac₂.machine, hsent.sent,
          Or.inr ⟨hempty, hm.trans (hf mac₂)⟩⟩
      · rename_i hleft
        cases h
        exact ⟨hsent.kept, _, hsent.sent, Or.inl ⟨rfl, fun _ => hleft⟩⟩
    · rename_i hne
      cases h
      exact ⟨Kept.refl _, _, Sent.refl _ _,
        Or.inl ⟨rfl, fun hone => absurd (Option.some.inj hone) hne⟩⟩

theorem machine_emptied (mac : NrUeMac) : mac.emptied.machine = mac.machine.emptied := by
  unfold emptied Machine.emptied
  cases hcg : mac.cgScheduling <;> simp [machine, hcg]

theorem ulBsrReceived_emptied (mac : NrUeMac) : mac.emptied.ulBsrReceived = mac.ulBsrReceived := by
  unfold emptied
  split <;> rfl

theorem kept_emptied (mac : NrUeMac) : mac.Kept mac.emptied := by
  unfold emptied
  split <;> exact Kept.of_eq rfl rfl

/-- A transmission of a configured grant leaves the machine to the reports. -/
theorem transmit_id_sent (h : mac.transmit rlc id = some mac') : mac.SentTo mac' := by
  obtain ⟨hkept, m, hsent, hm⟩ := transmit_cases (f := id) (fun _ => rfl) (fun _ => rfl)
    Kept.refl h
  rcases hm with ⟨hm, -⟩ | ⟨-, hm⟩
  · exact ⟨hm ▸ hsent, hkept⟩
  · exact ⟨hm ▸ hsent, hkept⟩

end NrUeMac

end Ns3.Nr.UeMac
