import Mathlib.Data.List.Induction
import Ns3.Nr.UeMac.Transmit

/-!
# The byte budget of an UL transport block

`SendNewData` fills a transport block in three passes, and leaves five bytes for the SHORT_BSR.
The RLC entities do not count the MAC sub-header of a PDU, which `DoTransmitPdu` adds: the passes
for the queues make room for it beforehand, the status pass does not.

What the status pass may use is therefore the sum of the status PDUs with their sub-headers, and
the budget holds for all RLC entities if and only if this sum leaves five bytes. The 32-bit
guards add their own bound on the size of the transport block, if there are two channels.
-/

namespace Ns3.Nr.UeMac

open Lib

/-- The serialized size of `NrMacHeaderVs`, whose size field has 16 bits. -/
def subHeader (size : Nat) : Nat := if 127 < size % 2 ^ 16 then 3 else 2

theorem two_le_subHeader (size : Nat) : 2 ≤ subHeader size := by
  unfold subHeader
  split <;> omega

theorem subHeader_le (size : Nat) : subHeader size ≤ 3 := by
  unfold subHeader
  split <;> omega

/-- For sizes of 16 bits, the size with the sub-header grows with the size. -/
theorem add_subHeader_mono {a b : Nat} (h : a ≤ b) (hb : b < 2 ^ 16) :
    a + subHeader a ≤ b + subHeader b := by
  unfold subHeader
  rw [Nat.mod_eq_of_lt hb, Nat.mod_eq_of_lt (h.trans_lt hb)]
  split <;> split <;> omega

/-- An opportunity is answered with at most one PDU, which fits without its sub-header. -/
def Rlc.OnePdu (rlc : Rlc) : Prop :=
  ∀ phase lcid bytes, (rlc phase lcid bytes).pdus = [] ∨
    ∃ size ≤ bytes, (rlc phase lcid bytes).pdus = [size + subHeader size]

/-- The bytes that an answer takes from the transport block. -/
def Rlc.taken (rlc : Rlc) (phase : TxPhase) (lcid bytes : Nat) : Nat :=
  (rlc phase lcid bytes).pdus.sum

theorem Rlc.OnePdu.taken_le {rlc : Rlc} (h : rlc.OnePdu) (phase : TxPhase) (lcid bytes : Nat) :
    rlc.taken phase lcid bytes ≤ bytes + 3 := by
  unfold Rlc.taken
  rcases h phase lcid bytes with hnone | ⟨size, hsize, hone⟩
  · rw [hnone]
    exact Nat.zero_le _
  · rw [hone, List.sum_singleton]
    exact Nat.add_le_add hsize (subHeader_le size)

theorem Rlc.OnePdu.taken_le_subHeader {rlc : Rlc} (h : rlc.OnePdu) (phase : TxPhase) (lcid : Nat)
    {bytes : Nat} (hbytes : bytes < 2 ^ 16) :
    rlc.taken phase lcid bytes ≤ bytes + subHeader bytes := by
  unfold Rlc.taken
  rcases h phase lcid bytes with hnone | ⟨size, hsize, hone⟩
  · rw [hnone]
    exact Nat.zero_le _
  · rw [hone, List.sum_singleton]
    exact add_subHeader_mono hsize hbytes

namespace NrUeMac

/-- What the calls of `SendMacPdu` have handed to the PHY. -/
def sentBytes (mac : NrUeMac) : Nat := (mac.macPdus.map MacPdu.size).sum

/-- The HARQ process of the DCI has a burst. -/
def Ready (mac : NrUeMac) : Prop :=
  ∃ process sizes, mac.harqProcesses[mac.ulDci.harqProcess]? = some process ∧
    process.pktBurst = some sizes

/-- Since `mac₀`, some bytes have been sent for the same DCI, and counted. -/
structure Metered (mac₀ : NrUeMac) (bytes : Nat) (mac : NrUeMac) : Prop where
  used : mac.ulDciTotalUsed = bytes % 2 ^ 32
  sent : mac.sentBytes = mac₀.sentBytes + bytes
  ulDci : mac.ulDci = mac₀.ulDci
  ready : mac.Ready

variable {mac₀ mac : NrUeMac} {bytes tb : Nat} {rlc : Rlc}

/-- The meter does not look at the queues. -/
theorem Metered.setQueues (h : Metered mac₀ bytes mac) (bsrs : List Bsr) :
    Metered mac₀ bytes { mac with ulBsrReceived := bsrs } :=
  ⟨h.used, h.sent, h.ulDci, h.ready⟩

theorem Metered.reported (h : Metered mac₀ bytes mac) : Metered mac₀ bytes mac.reported := by
  unfold NrUeMac.reported
  split
  · split <;> exact ⟨h.used, h.sent, h.ulDci, h.ready⟩
  · split <;> exact ⟨h.used, h.sent, h.ulDci, h.ready⟩

/-! ## One opportunity -/

theorem Metered.doTransmitPdu (h : Metered mac₀ bytes mac) (size : Nat) :
    ∃ mac', mac.doTransmitPdu size = some mac' ∧ Metered mac₀ (bytes + size) mac' := by
  obtain ⟨process, sizes, hprocess, hburst⟩ := h.ready
  unfold NrUeMac.doTransmitPdu
  rw [hprocess, Option.bind_eq_bind, Option.bind_some, hburst, Option.bind_eq_bind,
    Option.bind_some]
  refine ⟨_, rfl, ?_, ?_, h.ulDci, ⟨some (sizes ++ [size]), mac.numHarqProcess⟩, sizes ++ [size],
    ?_, rfl⟩
  · change (mac.ulDciTotalUsed + size) % 2 ^ 32 = _
    rw [h.used, Nat.mod_add_mod]
  · change size + mac.sentBytes = _
    rw [h.sent, Nat.add_comm, Nat.add_assoc]
  · obtain ⟨hlt, -⟩ := List.getElem?_eq_some_iff.mp hprocess
    exact List.getElem?_set_self hlt

theorem Metered.foldlM_doTransmitPdu (h : Metered mac₀ bytes mac) (sizes : List Nat) :
    ∃ mac', sizes.foldlM NrUeMac.doTransmitPdu mac = some mac' ∧
      Metered mac₀ (bytes + sizes.sum) mac' := by
  induction sizes generalizing mac bytes with
  | nil => exact ⟨mac, rfl, h⟩
  | cons size sizes ih =>
    obtain ⟨mac₁, h₁, hm₁⟩ := h.doTransmitPdu size
    obtain ⟨mac₂, h₂, hm₂⟩ := ih hm₁
    refine ⟨mac₂, ?_, ?_⟩
    · rw [List.foldlM_cons, h₁]
      exact h₂
    · rw [List.sum_cons, ← Nat.add_assoc]
      exact hm₂

theorem Metered.notifyTxOpportunity (h : Metered mac₀ bytes mac) (rlc : Rlc) (phase : TxPhase)
    (bsr : Bsr) (granted : Nat) :
    ∃ bsr' mac', mac.notifyTxOpportunity rlc phase bsr granted = some (bsr', mac') ∧
      Metered mac₀ (bytes + rlc.taken phase bsr.lcid granted) mac' := by
  obtain ⟨mac₁, h₁, hm⟩ := h.foldlM_doTransmitPdu (rlc phase bsr.lcid granted).pdus
  unfold NrUeMac.notifyTxOpportunity
  dsimp only
  rw [h₁, Option.bind_eq_bind, Option.bind_some]
  cases (rlc phase bsr.lcid granted).report with
  | none => exact ⟨bsr, mac₁, rfl, hm⟩
  | some params => exact ⟨_, mac₁.reported, rfl, hm.reported⟩

/-! ## One channel -/

section Loops

variable {mac₁ mac₂ : NrUeMac} {bsr bsr' : Bsr} {bsrs bsrs' : List Bsr} {has sent has' sent' : Bool}

theorem sendStatus_served (hpos : 0 < bsr.statusPduSize)
    (hfits : (mac.ulDciTotalUsed + bsr.statusPduSize) % 2 ^ 32 ≤ tb)
    (hone : mac.notifyTxOpportunity rlc .status bsr bsr.statusPduSize = some (bsr', mac₁))
    (hrest : sendStatus rlc tb bsrs true true mac₁ = some (bsrs', has', sent', mac₂)) :
    sendStatus rlc tb (bsr :: bsrs) has sent mac =
      some ({ bsr' with statusPduSize := 0 } :: bsrs', has', sent', mac₂) := by
  rw [sendStatus, if_pos hpos, if_pos hfits, hone, Option.bind_eq_bind, Option.bind_some]
  dsimp only
  rw [hrest]
  rfl

theorem sendStatus_refused (hpos : 0 < bsr.statusPduSize)
    (hfits : ¬ (mac.ulDciTotalUsed + bsr.statusPduSize) % 2 ^ 32 ≤ tb)
    (hrest : sendStatus rlc tb bsrs true sent mac = some (bsrs', has', sent', mac₂)) :
    sendStatus rlc tb (bsr :: bsrs) has sent mac = some (bsr :: bsrs', has', sent', mac₂) := by
  rw [sendStatus, if_pos hpos, if_neg hfits, hrest]
  rfl

theorem sendStatus_idle (hpos : ¬ 0 < bsr.statusPduSize)
    (hrest : sendStatus rlc tb bsrs has sent mac = some (bsrs', has', sent', mac₂)) :
    sendStatus rlc tb (bsr :: bsrs) has sent mac = some (bsr :: bsrs', has', sent', mac₂) := by
  rw [sendStatus, if_neg hpos, hrest]
  rfl

variable {phase : TxPhase} {subtract : Bsr → Bsr} {useful granted : Nat}

theorem sendData_served (hfits : (mac.ulDciTotalUsed + granted) % 2 ^ 32 ≤ useful)
    (hone : mac.notifyTxOpportunity rlc phase bsr granted = some (bsr', mac₁))
    (hrest : sendData rlc phase subtract useful granted bsrs mac₁ = some (bsrs', mac₂)) :
    sendData rlc phase subtract useful granted (bsr :: bsrs) mac =
      some (subtract bsr' :: bsrs', mac₂) := by
  rw [sendData, if_pos hfits, hone, Option.bind_eq_bind, Option.bind_some]
  dsimp only
  rw [hrest]
  rfl

theorem sendData_skipped (hfits : ¬ (mac.ulDciTotalUsed + granted) % 2 ^ 32 ≤ useful)
    (hrest : sendData rlc phase subtract useful granted bsrs mac = some (bsrs', mac₂)) :
    sendData rlc phase subtract useful granted (bsr :: bsrs) mac = some (bsr :: bsrs', mac₂) := by
  rw [sendData, if_neg hfits, hrest]
  rfl

end Loops

/-! ## The status pass -/

/-- The bytes after the status pass, if there are some before it. -/
def statusBytes (rlc : Rlc) (tb : Nat) : List Bsr → Nat → Nat
  | [], bytes => bytes
  | bsr :: bsrs, bytes =>
    if 0 < bsr.statusPduSize ∧ (bytes % 2 ^ 32 + bsr.statusPduSize) % 2 ^ 32 ≤ tb then
      statusBytes rlc tb bsrs (bytes + rlc.taken .status bsr.lcid bsr.statusPduSize)
    else statusBytes rlc tb bsrs bytes

theorem statusBytes_cons (rlc : Rlc) (bsr : Bsr) (bsrs : List Bsr) (bytes : Nat) :
    statusBytes rlc tb (bsr :: bsrs) bytes =
      if 0 < bsr.statusPduSize ∧ (bytes % 2 ^ 32 + bsr.statusPduSize) % 2 ^ 32 ≤ tb then
        statusBytes rlc tb bsrs (bytes + rlc.taken .status bsr.lcid bsr.statusPduSize)
      else statusBytes rlc tb bsrs bytes := rfl

/-- Some RLC entity has had a status PDU to send if bytes have been taken. -/
theorem Metered.sendStatus (h : Metered mac₀ bytes mac) (rlc : Rlc) (tb : Nat) (bsrs : List Bsr)
    (has sent : Bool) :
    ∃ bsrs' has' sent' mac', NrUeMac.sendStatus rlc tb bsrs has sent mac =
        some (bsrs', has', sent', mac') ∧
      Metered mac₀ (statusBytes rlc tb bsrs bytes) mac' ∧ bsrs'.length = bsrs.length ∧
      (sent = true → sent' = true) ∧ (statusBytes rlc tb bsrs bytes ≠ bytes → sent' = true) := by
  induction bsrs generalizing mac bytes has sent with
  | nil => exact ⟨[], has, sent, mac, rfl, h, rfl, id, fun hne => absurd rfl hne⟩
  | cons bsr bsrs ih =>
    rw [statusBytes_cons, ← h.used]
    by_cases hpos : 0 < bsr.statusPduSize
    · by_cases hfits : (mac.ulDciTotalUsed + bsr.statusPduSize) % 2 ^ 32 ≤ tb
      · rw [if_pos ⟨hpos, hfits⟩]
        obtain ⟨bsr', mac₁, h₁, hm₁⟩ := h.notifyTxOpportunity rlc .status bsr bsr.statusPduSize
        obtain ⟨bsrs₂, has₂, sent₂, mac₂, h₂, hm₂, hlen, hsent, -⟩ := ih hm₁ true true
        exact ⟨_, has₂, sent₂, mac₂, sendStatus_served hpos hfits h₁ h₂, hm₂,
          congrArg (· + 1) hlen, fun _ => hsent rfl, fun _ => hsent rfl⟩
      · rw [if_neg fun hand => hfits hand.2]
        obtain ⟨bsrs₂, has₂, sent₂, mac₂, h₂, hm₂, hlen, hsent, htaken⟩ := ih h true sent
        exact ⟨_, has₂, sent₂, mac₂, sendStatus_refused hpos hfits h₂, hm₂,
          congrArg (· + 1) hlen, hsent, htaken⟩
    · rw [if_neg fun hand => hpos hand.1]
      obtain ⟨bsrs₂, has₂, sent₂, mac₂, h₂, hm₂, hlen, hsent, htaken⟩ := ih h has sent
      exact ⟨_, has₂, sent₂, mac₂, sendStatus_idle hpos h₂, hm₂, congrArg (· + 1) hlen, hsent,
        htaken⟩

/-! ## The passes for the queues -/

/-- A queue pass takes at most three bytes more than it may use. The guard is not to wrap: there is
room for one more opportunity after each, or there is only one. -/
theorem Metered.sendData (phase : TxPhase) (subtract : Bsr → Bsr) (useful granted limit : Nat)
    (bsrs : List Bsr) (hone : rlc.OnePdu) (h : Metered mac₀ bytes mac) (hbytes : bytes ≤ limit)
    (huseful : useful + 3 ≤ limit) (hfirst : bytes + granted < 2 ^ 32)
    (hwrap : bsrs.length ≤ 1 ∨ limit + granted < 2 ^ 32) :
    ∃ bsrs' mac' bytes', NrUeMac.sendData rlc phase subtract useful granted bsrs mac =
        some (bsrs', mac') ∧
      Metered mac₀ bytes' mac' ∧ bytes' ≤ limit ∧ bsrs'.length = bsrs.length := by
  induction bsrs generalizing mac bytes with
  | nil => exact ⟨[], mac, bytes, rfl, h, hbytes, rfl⟩
  | cons bsr bsrs ih =>
    have hlt : bytes < 2 ^ 32 := (Nat.le_add_right _ _).trans_lt hfirst
    have hrest : bsrs = [] ∨ limit + granted < 2 ^ 32 :=
      hwrap.imp_left fun hlen =>
        List.length_eq_zero_iff.mp (Nat.le_zero.mp (Nat.le_of_succ_le_succ hlen))
    have hguard : (mac.ulDciTotalUsed + granted) % 2 ^ 32 = bytes + granted := by
      rw [h.used, Nat.mod_eq_of_lt hlt, Nat.mod_eq_of_lt hfirst]
    by_cases hfits : bytes + granted ≤ useful
    · obtain ⟨bsr', mac₁, h₁, hm₁⟩ := h.notifyTxOpportunity rlc phase bsr granted
      have htaken := hone.taken_le phase bsr.lcid granted
      generalize rlc.taken phase bsr.lcid granted = taken at hm₁ htaken
      have hbytes₁ : bytes + taken ≤ limit := by omega
      have htail : ∃ bsrs' mac' bytes',
          NrUeMac.sendData rlc phase subtract useful granted bsrs mac₁ = some (bsrs', mac') ∧
          Metered mac₀ bytes' mac' ∧ bytes' ≤ limit ∧ bsrs'.length = bsrs.length := by
        rcases hrest with rfl | hrest
        · exact ⟨[], mac₁, bytes + taken, rfl, hm₁, hbytes₁, rfl⟩
        · exact ih hm₁ hbytes₁ ((Nat.add_le_add_right hbytes₁ _).trans_lt hrest) (Or.inr hrest)
      obtain ⟨bsrs₂, mac₂, bytes₂, h₂, hm₂, hbytes₂, hlen⟩ := htail
      exact ⟨_, mac₂, bytes₂, sendData_served (hguard.trans_le hfits) h₁ h₂, hm₂, hbytes₂,
        congrArg (· + 1) hlen⟩
    · obtain ⟨bsrs₂, mac₂, bytes₂, h₂, hm₂, hbytes₂, hlen⟩ := ih h hbytes hfirst
        (hrest.imp_left fun hnil => by rw [hnil]; exact Nat.zero_le _)
      exact ⟨_, mac₂, bytes₂, sendData_skipped (hguard ▸ hfits) h₂, hm₂, hbytes₂,
        congrArg (· + 1) hlen⟩

/-- `SendNewData` up to its first assertion. -/
def statusPass (rlc : Rlc) (mac : NrUeMac) : Option NrUeMac :=
  (mac.setPktBurst (some [])).bind (sendNewStatusData rlc)

def activeLcsRetx (mac : NrUeMac) : Nat :=
  (mac.ulBsrReceived.countP fun bsr => 0 < bsr.retxQueueSize) % 2 ^ 16

def activeLcsTx (mac : NrUeMac) : Nat :=
  (mac.ulBsrReceived.countP fun bsr => 0 < bsr.txQueueSize) % 2 ^ 16

/-- From the first assertion to the second. -/
def retxPass (rlc : Rlc) (tbSize active : Nat) (mac : NrUeMac) : Option NrUeMac :=
  if mac.usefulTbs tbSize < active * 3 then some mac
  else mac.sendRetxData rlc (mac.usefulTbs tbSize - active * 3) active

def txPass (rlc : Rlc) (tbSize active : Nat) (mac : NrUeMac) : Option NrUeMac :=
  if mac.usefulTbs tbSize < active * 3 then some mac
  else mac.sendTxData rlc (mac.usefulTbs tbSize - active * 3) active

theorem sendNewData_eq {tbSize : Nat} (htb : mac.ulDci.tbSize[0]? = some tbSize) :
    mac.sendNewData rlc = (mac.statusPass rlc).bind fun status =>
      (status.retxPass rlc tbSize status.activeLcsRetx).bind fun retx =>
        (retx.txPass rlc tbSize status.activeLcsTx).bind fun mac' =>
          if mac'.ulDciTotalUsed = 0 then mac'.setPktBurst none else some mac' := by
  unfold sendNewData statusPass
  rw [htb, Option.bind_assoc]
  rfl

theorem Metered.usefulTbs (h : Metered mac₀ bytes mac) (hbytes : bytes + 5 ≤ tb)
    (htb : tb < 2 ^ 32) : mac.usefulTbs tb = tb - bytes - 5 := by
  unfold NrUeMac.usefulTbs
  rw [h.used, Nat.mod_eq_of_lt (by omega : bytes < 2 ^ 32)]
  omega

/-- A queue pass leaves the bytes of the SHORT_BSR. -/
theorem Metered.sendQueues {phase : TxPhase} {subtract : Bsr → Bsr} {active : Nat}
    (hone : rlc.OnePdu) (h : Metered mac₀ bytes mac) (hbytes : bytes + 5 ≤ tb) (htb : tb < 2 ^ 32)
    (hwrap : mac.ulBsrReceived.length ≤ 1 ∨ tb < 2 ^ 31 + 7)
    (hroom : ¬ mac.usefulTbs tb < active * 3) (hactive : active ≠ 0) :
    ∃ bsrs' mac' bytes', NrUeMac.sendData rlc phase subtract (mac.usefulTbs tb - active * 3)
        ((mac.usefulTbs tb - active * 3) / active) mac.ulBsrReceived mac = some (bsrs', mac') ∧
      Metered mac₀ bytes' mac' ∧ bytes' + 5 ≤ tb ∧ bsrs'.length = mac.ulBsrReceived.length := by
  rw [h.usefulTbs hbytes htb] at hroom ⊢
  have hshare : (tb - bytes - 5 - active * 3) / active ≤ tb - bytes - 5 - active * 3 :=
    Nat.div_le_self _ _
  generalize (tb - bytes - 5 - active * 3) / active = granted at hshare
  obtain ⟨bsrs', mac', bytes', heq, hm, hle, hlen⟩ :=
    h.sendData phase subtract (tb - bytes - 5 - active * 3) granted (tb - 5) mac.ulBsrReceived hone
      (by omega) (by omega) (by omega) (hwrap.imp_right fun hlt => by omega)
  exact ⟨bsrs', mac', bytes', heq, hm, by omega, hlen⟩

theorem Metered.retxPass (hone : rlc.OnePdu) (h : Metered mac₀ bytes mac) (hbytes : bytes + 5 ≤ tb)
    (htb : tb < 2 ^ 32) (hwrap : mac.ulBsrReceived.length ≤ 1 ∨ tb < 2 ^ 31 + 7) (active : Nat) :
    ∃ mac' bytes', mac.retxPass rlc tb active = some mac' ∧ Metered mac₀ bytes' mac' ∧
      bytes' + 5 ≤ tb ∧ mac'.ulBsrReceived.length = mac.ulBsrReceived.length := by
  unfold NrUeMac.retxPass
  by_cases hroom : mac.usefulTbs tb < active * 3
  · exact ⟨mac, bytes, if_pos hroom, h, hbytes, rfl⟩
  · rw [if_neg hroom]
    unfold NrUeMac.sendRetxData
    by_cases hactive : active = 0
    · exact ⟨mac, bytes, if_pos hactive, h, hbytes, rfl⟩
    · obtain ⟨bsrs', mac', bytes', heq, hm, hle, hlen⟩ :=
        h.sendQueues hone hbytes htb hwrap hroom hactive
      rw [if_neg hactive]
      dsimp only
      rw [heq]
      exact ⟨_, bytes', rfl, hm.setQueues bsrs', hle, hlen⟩

theorem Metered.txPass (hone : rlc.OnePdu) (h : Metered mac₀ bytes mac) (hbytes : bytes + 5 ≤ tb)
    (htb : tb < 2 ^ 32) (hwrap : mac.ulBsrReceived.length ≤ 1 ∨ tb < 2 ^ 31 + 7) (active : Nat) :
    ∃ mac' bytes', mac.txPass rlc tb active = some mac' ∧ Metered mac₀ bytes' mac' ∧
      bytes' + 5 ≤ tb := by
  unfold NrUeMac.txPass
  by_cases hroom : mac.usefulTbs tb < active * 3
  · exact ⟨mac, bytes, if_pos hroom, h, hbytes⟩
  · rw [if_neg hroom]
    unfold NrUeMac.sendTxData
    by_cases hactive : active = 0
    · exact ⟨mac, bytes, if_pos hactive, h, hbytes⟩
    · obtain ⟨bsrs', mac', bytes', heq, hm, hle, -⟩ :=
        h.sendQueues hone hbytes htb hwrap hroom hactive
      rw [if_neg hactive]
      dsimp only
      rw [heq]
      exact ⟨_, bytes', rfl, hm.setQueues bsrs', hle⟩

/-! ## The budget -/

/-- The assertions about the SHORT_BSR, and what is sent with it in the end. The bytes sent only
grow, and `m_ulDciTotalUsed` counts them in 32 bits: it never exceeds the transport block. -/
structure WithinBudget (rlc : Rlc) (tb : Nat) (mac : NrUeMac) : Prop where
  status : ∀ mac' ∈ mac.statusPass rlc, mac'.ulDciTotalUsed + 5 ≤ tb
  retx : ∀ status ∈ mac.statusPass rlc, ∀ mac' ∈ status.retxPass rlc tb status.activeLcsRetx,
    mac'.ulDciTotalUsed + 5 ≤ tb
  total : ∀ mac' ∈ mac.sendNewData rlc, ∀ dataSfn symStart,
    (mac'.sendReportBufferStatus dataSfn symStart).sentBytes ≤ mac.sentBytes + tb

theorem sentBytes_sendReportBufferStatus (mac : NrUeMac) (dataSfn : SfnSf) (symStart : Nat) :
    (mac.sendReportBufferStatus dataSfn symStart).sentBytes ≤ mac.sentBytes + 5 := by
  unfold sendReportBufferStatus
  split
  · exact Nat.le_add_right _ _
  · split
    · exact Nat.le_add_right _ _
    · exact (Nat.add_comm 5 mac.sentBytes).le

theorem le_sentBytes_sendReportBufferStatus (mac : NrUeMac) (dataSfn : SfnSf) (symStart : Nat) :
    mac.sentBytes ≤ (mac.sendReportBufferStatus dataSfn symStart).sentBytes := by
  unfold sendReportBufferStatus
  split
  · exact le_rfl
  · split
    · exact le_rfl
    · exact Nat.le_add_left _ 5

/-- The burst of the process is emptied before the passes. -/
theorem setPktBurst_metered (hprocess : mac.ulDci.harqProcess < mac.harqProcesses.length)
    (hused : mac.ulDciTotalUsed = 0) :
    ∃ mac', mac.setPktBurst (some []) = some mac' ∧ Metered mac 0 mac' ∧
      mac'.ulBsrReceived = mac.ulBsrReceived := by
  unfold setPktBurst
  rw [List.getElem?_eq_getElem hprocess]
  refine ⟨_, rfl, ⟨hused, rfl, rfl, ?_⟩, rfl⟩
  exact ⟨_, [], List.getElem?_set_self hprocess, rfl⟩

/-- The status pass has sent what `statusBytes` says, unless it aborts; with bytes sent it does
not. -/
theorem statusPass_metered (rlc : Rlc) (mac : NrUeMac)
    (hprocess : mac.ulDci.harqProcess < mac.harqProcesses.length)
    (hused : mac.ulDciTotalUsed = 0) (htb : mac.ulDci.tbSize[0]? = some tb) :
    (∀ mac' ∈ mac.statusPass rlc,
      Metered mac (statusBytes rlc tb mac.ulBsrReceived 0) mac' ∧
        mac'.ulBsrReceived.length = mac.ulBsrReceived.length) ∧
      (statusBytes rlc tb mac.ulBsrReceived 0 ≠ 0 → ∃ mac', mac.statusPass rlc = some mac') := by
  obtain ⟨mac₁, h₁, hm₁, hbsrs⟩ := setPktBurst_metered hprocess hused
  obtain ⟨bsrs', has', sent', mac₂, h₂, hm₂, hlen, -, htaken⟩ :=
    hm₁.sendStatus rlc tb mac.ulBsrReceived false false
  have hpass : mac.statusPass rlc =
      if has' && !sent' then none else some { mac₂ with ulBsrReceived := bsrs' } := by
    unfold statusPass sendNewStatusData
    rw [h₁, Option.bind_some, hm₁.ulDci, htb, Option.bind_eq_bind, Option.bind_some, hbsrs, h₂]
    rfl
  rw [hpass]
  constructor
  · intro mac' hmac'
    split at hmac'
    · cases hmac'
    · cases hmac'
      exact ⟨hm₂.setQueues bsrs', hlen⟩
  · intro hne
    rw [htaken hne]
    exact ⟨_, by rw [Bool.not_true, Bool.and_false]; rfl⟩

/-- If the status pass leaves room, so do the others. -/
theorem withinBudget_of_statusBytes (mac : NrUeMac) (hone : rlc.OnePdu)
    (hprocess : mac.ulDci.harqProcess < mac.harqProcesses.length)
    (hused : mac.ulDciTotalUsed = 0) (htb : mac.ulDci.tbSize[0]? = some tb) (hlt : tb < 2 ^ 32)
    (hwrap : mac.ulBsrReceived.length ≤ 1 ∨ tb < 2 ^ 31 + 7)
    (hstatus : statusBytes rlc tb mac.ulBsrReceived 0 + 5 ≤ tb) : mac.WithinBudget rlc tb := by
  obtain ⟨hpass, -⟩ := statusPass_metered rlc mac hprocess hused htb
  refine ⟨?_, ?_, ?_⟩
  · intro status hs
    obtain ⟨hm, -⟩ := hpass status hs
    rw [hm.used]
    exact (Nat.add_le_add_right (Nat.mod_le _ _) 5).trans hstatus
  · intro status hs retx hr
    obtain ⟨hm, hlen⟩ := hpass status hs
    obtain ⟨mac', bytes', heq, hm', hle, -⟩ :=
      hm.retxPass hone hstatus hlt (hlen ▸ hwrap) status.activeLcsRetx
    rw [heq] at hr
    cases hr
    rw [hm'.used]
    exact (Nat.add_le_add_right (Nat.mod_le _ _) 5).trans hle
  · intro mac' hmac' dataSfn symStart
    rw [sendNewData_eq htb] at hmac'
    obtain ⟨status, hs, hmac'⟩ := Option.bind_eq_some_iff.mp hmac'
    obtain ⟨retx, hr, hmac'⟩ := Option.bind_eq_some_iff.mp hmac'
    obtain ⟨tx, ht, hmac'⟩ := Option.bind_eq_some_iff.mp hmac'
    obtain ⟨hm, hlen⟩ := hpass status hs
    obtain ⟨retx', bytes₁, heq₁, hm₁, hle₁, hlen₁⟩ :=
      hm.retxPass hone hstatus hlt (hlen ▸ hwrap) status.activeLcsRetx
    rw [heq₁] at hr
    cases hr
    obtain ⟨tx', bytes₂, heq₂, hm₂, hle₂⟩ :=
      hm₁.txPass hone hle₁ hlt (hlen₁ ▸ hlen ▸ hwrap) status.activeLcsTx
    rw [heq₂] at ht
    cases ht
    have hsame : mac'.sentBytes = tx.sentBytes := by
      split at hmac'
      · obtain ⟨process, -, hset⟩ := Option.bind_eq_some_iff.mp hmac'
        cases hset
        rfl
      · cases hmac'
        rfl
    calc (mac'.sendReportBufferStatus dataSfn symStart).sentBytes
        ≤ mac'.sentBytes + 5 := sentBytes_sendReportBufferStatus mac' dataSfn symStart
      _ = mac.sentBytes + (bytes₂ + 5) := by rw [hsame, hm₂.sent, Nat.add_assoc]
      _ ≤ mac.sentBytes + tb := Nat.add_le_add_left hle₂ _

/-! ## The status PDUs -/

/-- The status PDUs that are not too large for the transport block, with their sub-headers. -/
def statusCost (tb : Nat) (bsrs : List Bsr) : Nat :=
  ((bsrs.filter fun bsr => 0 < bsr.statusPduSize ∧ bsr.statusPduSize ≤ tb).map fun bsr =>
    bsr.statusPduSize + subHeader bsr.statusPduSize).sum

theorem statusCost_cons_pos {bsr : Bsr} (bsrs : List Bsr) (hpos : 0 < bsr.statusPduSize)
    (hle : bsr.statusPduSize ≤ tb) : statusCost tb (bsr :: bsrs) =
      bsr.statusPduSize + subHeader bsr.statusPduSize + statusCost tb bsrs := by
  unfold statusCost
  rw [List.filter_cons_of_pos (by simp [hpos, hle]), List.map_cons, List.sum_cons]

theorem statusCost_cons_neg {bsr : Bsr} (bsrs : List Bsr)
    (hskip : ¬ (0 < bsr.statusPduSize ∧ bsr.statusPduSize ≤ tb)) :
    statusCost tb (bsr :: bsrs) = statusCost tb bsrs := by
  unfold statusCost
  rw [List.filter_cons_of_neg (by simpa using hskip)]

theorem statusCost_append (bsrs bsrs' : List Bsr) :
    statusCost tb (bsrs ++ bsrs') = statusCost tb bsrs + statusCost tb bsrs' := by
  unfold statusCost
  rw [List.filter_append, List.map_append, List.sum_append]

theorem statusCost_le_length (tb : Nat) {bsrs : List Bsr}
    (hstatus : ∀ bsr ∈ bsrs, bsr.statusPduSize < 2 ^ 16) :
    statusCost tb bsrs ≤ bsrs.length * (2 ^ 16 + 2) := by
  induction bsrs with
  | nil => exact Nat.zero_le _
  | cons bsr bsrs ih =>
    have hbsr := hstatus bsr List.mem_cons_self
    have htail := ih fun bsr' hmem => hstatus bsr' (List.mem_cons_of_mem bsr hmem)
    rw [List.length_cons]
    by_cases hcost : 0 < bsr.statusPduSize ∧ bsr.statusPduSize ≤ tb
    · have hsub := subHeader_le bsr.statusPduSize
      rw [statusCost_cons_pos bsrs hcost.1 hcost.2]
      omega
    · rw [statusCost_cons_neg bsrs hcost]
      exact htail.trans (Nat.mul_le_mul_right _ (Nat.le_succ _))

/-- Without a wrap the guard of the status pass compares the sum with the transport block. -/
theorem status_guard {status : Nat} (hbytes : bytes ≤ tb) (htb : tb < 2 ^ 32)
    (hstatus : status < 2 ^ 16) (hsum : status ≤ tb → bytes + status < 2 ^ 32) :
    (bytes % 2 ^ 32 + status) % 2 ^ 32 ≤ tb ↔ bytes + status ≤ tb := by
  rw [Nat.mod_eq_of_lt (hbytes.trans_lt htb)]
  have hlt : bytes + status < 2 ^ 32 := by
    by_cases hle : status ≤ tb
    · exact hsum hle
    · omega
  rw [Nat.mod_eq_of_lt hlt]

/-- Each answer takes at most what its status PDU costs. -/
theorem statusBytes_le (hone : rlc.OnePdu) {bsrs : List Bsr} (htb : tb < 2 ^ 32)
    (hstatus : ∀ bsr ∈ bsrs, bsr.statusPduSize < 2 ^ 16)
    (hfits : bytes + statusCost tb bsrs ≤ tb) :
    statusBytes rlc tb bsrs bytes ≤ bytes + statusCost tb bsrs := by
  induction bsrs generalizing bytes with
  | nil => exact le_rfl
  | cons bsr bsrs ih =>
    have hbsr := hstatus bsr List.mem_cons_self
    have htail := fun bsr' hmem => hstatus bsr' (List.mem_cons_of_mem bsr hmem)
    unfold statusBytes
    by_cases hcost : 0 < bsr.statusPduSize ∧ bsr.statusPduSize ≤ tb
    · rw [statusCost_cons_pos bsrs hcost.1 hcost.2] at hfits ⊢
      have htaken := hone.taken_le_subHeader .status bsr.lcid hbsr
      have hguard : (bytes % 2 ^ 32 + bsr.statusPduSize) % 2 ^ 32 ≤ tb :=
        (status_guard (by omega) htb hbsr fun _ => by omega).mpr (by omega)
      rw [if_pos ⟨hcost.1, hguard⟩]
      exact (ih htail (by omega)).trans (by omega)
    · rw [statusCost_cons_neg bsrs hcost] at hfits ⊢
      have hskip : ¬ (0 < bsr.statusPduSize ∧
          (bytes % 2 ^ 32 + bsr.statusPduSize) % 2 ^ 32 ≤ tb) := by
        rintro ⟨hpos, hguard⟩
        have hle := (status_guard (by omega) htb hbsr fun hle => absurd ⟨hpos, hle⟩ hcost).mp hguard
        exact hcost ⟨hpos, (Nat.le_add_left _ _).trans hle⟩
      rw [if_neg hskip]
      exact ih htail hfits

/-! ## RLC entities that spend the budget -/

/-- RLC entities that answer only the opportunities of the status pass, each with a PDU of a chosen
size if it fits. -/
def answering (size : Nat → Option Nat) : Rlc := fun phase lcid bytes =>
  match phase, size lcid with
  | .status, some size => if size ≤ bytes then { pdus := [size + subHeader size] } else {}
  | _, _ => {}

theorem answering_onePdu (size : Nat → Option Nat) : (answering size).OnePdu := by
  intro phase lcid bytes
  unfold answering
  split
  · rename_i pdu _
    split
    · rename_i hle
      exact Or.inr ⟨pdu, hle, rfl⟩
    · exact Or.inl rfl
  · exact Or.inl rfl

theorem taken_answering_some {size : Nat → Option Nat} {lcid pdu granted : Nat}
    (h : size lcid = some pdu) (hle : pdu ≤ granted) :
    (answering size).taken .status lcid granted = pdu + subHeader pdu := by
  unfold Rlc.taken answering
  rw [h]
  dsimp only
  rw [if_pos hle, List.sum_singleton]

theorem taken_answering_none {size : Nat → Option Nat} {lcid : Nat} (granted : Nat)
    (h : size lcid = none) : (answering size).taken .status lcid granted = 0 := by
  unfold Rlc.taken answering
  rw [h]
  rfl

/-- Only the answers of the channels in the list count. -/
theorem statusBytes_congr {size size' : Nat → Option Nat} {bsrs : List Bsr}
    (h : ∀ bsr ∈ bsrs, size bsr.lcid = size' bsr.lcid) (bytes : Nat) :
    statusBytes (answering size) tb bsrs bytes = statusBytes (answering size') tb bsrs bytes := by
  induction bsrs generalizing bytes with
  | nil => rfl
  | cons bsr bsrs ih =>
    have htail := ih fun bsr' hmem => h bsr' (List.mem_cons_of_mem bsr hmem)
    have htaken : (answering size).taken .status bsr.lcid bsr.statusPduSize =
        (answering size').taken .status bsr.lcid bsr.statusPduSize := by
      unfold Rlc.taken answering
      rw [h bsr List.mem_cons_self]
    unfold statusBytes
    rw [htaken, htail, htail]

theorem statusBytes_silent {size : Nat → Option Nat} {bsrs : List Bsr}
    (h : ∀ bsr ∈ bsrs, size bsr.lcid = none) (bytes : Nat) :
    statusBytes (answering size) tb bsrs bytes = bytes := by
  induction bsrs with
  | nil => rfl
  | cons bsr bsrs ih =>
    unfold statusBytes
    rw [taken_answering_none _ (h bsr List.mem_cons_self), Nat.add_zero, ite_self]
    exact ih fun bsr' hmem => h bsr' (List.mem_cons_of_mem bsr hmem)

theorem statusBytes_append (rlc : Rlc) (bsrs bsrs' : List Bsr) (bytes : Nat) :
    statusBytes rlc tb (bsrs ++ bsrs') bytes =
      statusBytes rlc tb bsrs' (statusBytes rlc tb bsrs bytes) := by
  induction bsrs generalizing bytes with
  | nil => rfl
  | cons bsr bsrs ih =>
    rw [List.cons_append, statusBytes_cons, statusBytes_cons, ih, ih]
    split <;> rfl

/-- A PDU and its sub-header can take any number of bytes up to one: there is none of one byte,
and none of 130 bytes because the sub-header grows in between. -/
theorem exists_pdu {gap status : Nat} (hgap : gap < status + subHeader status)
    (hstatus : status < 2 ^ 16) : gap ≤ 1 ∨
      ∃ pdu ≤ status, pdu + subHeader pdu ≤ gap ∧ gap ≤ pdu + subHeader pdu + 1 := by
  have hsub := subHeader_le status
  have hsmall : ∀ pdu, pdu ≤ 127 → subHeader pdu = 2 := fun pdu hle => if_neg (by omega)
  have hlarge : ∀ pdu, 127 < pdu → pdu < 2 ^ 16 → subHeader pdu = 3 := fun pdu hlt hle =>
    if_pos (by omega)
  by_cases hone : gap ≤ 1
  · exact Or.inl hone
  · right
    by_cases hgap' : gap ≤ 129
    · have hless := hsmall (gap - 2) (by omega)
      exact ⟨gap - 2, by omega, by rw [hless]; omega, by rw [hless]; omega⟩
    · by_cases hbetween : gap = 130
      · refine ⟨127, ?_, ?_, ?_⟩
        · by_contra hlt
          have := hsmall status (by omega)
          omega
        · rw [hsmall _ le_rfl, hbetween]
          omega
        · rw [hsmall _ le_rfl, hbetween]
      · exact ⟨gap - 3, by omega, by rw [hlarge _ (by omega) (by omega)]; omega,
          by rw [hlarge _ (by omega) (by omega)]; omega⟩

/-- The status pass can be made to use any number of bytes up to the cost of the status PDUs, but
for one byte, and exactly their cost. -/
theorem exists_statusBytes (bytes target : Nat) {bsrs : List Bsr} (htb : tb < 2 ^ 32)
    (hnodup : (bsrs.map Bsr.lcid).Nodup) (hstatus : ∀ bsr ∈ bsrs, bsr.statusPduSize < 2 ^ 16)
    (hfits : bytes + statusCost tb bsrs ≤ tb) (hfrom : bytes ≤ target)
    (hto : target ≤ bytes + statusCost tb bsrs) :
    ∃ size, statusBytes (answering size) tb bsrs bytes ≤ target ∧
      target ≤ statusBytes (answering size) tb bsrs bytes + 1 ∧
      (target = bytes + statusCost tb bsrs →
        statusBytes (answering size) tb bsrs bytes = target) := by
  induction bsrs generalizing bytes with
  | nil => exact ⟨fun _ => none, hfrom, hto.trans (Nat.le_add_right _ 1), fun h => h.symm⟩
  | cons bsr bsrs ih =>
    rw [List.map_cons, List.nodup_cons] at hnodup
    have hbsr := hstatus bsr List.mem_cons_self
    have htail := fun bsr' hmem => hstatus bsr' (List.mem_cons_of_mem bsr hmem)
    have hne : ∀ bsr' ∈ bsrs, bsr'.lcid ≠ bsr.lcid := fun bsr' hmem heq =>
      hnodup.1 (heq ▸ List.mem_map_of_mem hmem)
    by_cases hcost : 0 < bsr.statusPduSize ∧ bsr.statusPduSize ≤ tb
    · rw [statusCost_cons_pos bsrs hcost.1 hcost.2] at hfits hto ⊢
      have hguard : (bytes % 2 ^ 32 + bsr.statusPduSize) % 2 ^ 32 ≤ tb :=
        (status_guard (by omega) htb hbsr fun _ => by omega).mpr (by omega)
      by_cases hfull : bytes + (bsr.statusPduSize + subHeader bsr.statusPduSize) ≤ target
      · -- the head answers with the whole status PDU
        obtain ⟨size, hle, hge, heq⟩ := ih _ hnodup.2 htail (by omega) hfull (by omega)
        refine ⟨Function.update size bsr.lcid (some bsr.statusPduSize), ?_⟩
        rw [statusBytes_cons, if_pos ⟨hcost.1, hguard⟩,
          taken_answering_some (Function.update_self ..) le_rfl,
          statusBytes_congr fun bsr' hmem => Function.update_of_ne (hne bsr' hmem) _ size]
        exact ⟨hle, hge, fun h => heq (by omega)⟩
      · -- the head fills what is left to the target, and the others are silent
        rcases exists_pdu (show target - bytes < bsr.statusPduSize + subHeader bsr.statusPduSize by
          omega) hbsr with hone | ⟨pdu, hpdu, hle, hge⟩
        · refine ⟨fun _ => none, ?_⟩
          rw [statusBytes_silent fun _ _ => rfl]
          exact ⟨hfrom, by omega, fun h => by omega⟩
        · refine ⟨Function.update (fun _ => none) bsr.lcid (some pdu), ?_⟩
          rw [statusBytes_cons, if_pos ⟨hcost.1, hguard⟩,
            taken_answering_some (Function.update_self ..) hpdu,
            statusBytes_silent fun bsr' hmem => Function.update_of_ne (hne bsr' hmem) _ _]
          exact ⟨by omega, by omega, fun h => by omega⟩
    · rw [statusCost_cons_neg bsrs hcost] at hfits hto ⊢
      have hskip : ¬ (0 < bsr.statusPduSize ∧
          (bytes % 2 ^ 32 + bsr.statusPduSize) % 2 ^ 32 ≤ tb) := by
        rintro ⟨hpos, hguard⟩
        have hle := (status_guard (by omega) htb hbsr fun hle => absurd ⟨hpos, hle⟩ hcost).mp hguard
        exact hcost ⟨hpos, (Nat.le_add_left _ _).trans hle⟩
      obtain ⟨size, h⟩ := ih _ hnodup.2 htail hfits hfrom hto
      refine ⟨size, ?_⟩
      rw [statusBytes_cons, if_neg hskip]
      exact h

/-- Where a sum of status PDUs first exceeds a bound. -/
theorem exists_first_over {bound : Nat} {bsrs : List Bsr} (h : bound < statusCost tb bsrs) :
    ∃ front bsr back, bsrs = front ++ bsr :: back ∧ statusCost tb front ≤ bound ∧
      0 < bsr.statusPduSize ∧ bsr.statusPduSize ≤ tb ∧
      bound < statusCost tb front + (bsr.statusPduSize + subHeader bsr.statusPduSize) := by
  induction bsrs using List.reverseRecOn with
  | nil => exact absurd h (Nat.not_lt_zero bound)
  | append_singleton bsrs bsr ih =>
    by_cases hover : bound < statusCost tb bsrs
    · obtain ⟨front, bsr', back, rfl, hrest⟩ := ih hover
      exact ⟨front, bsr', back ++ [bsr], by rw [List.append_assoc, List.cons_append], hrest⟩
    · by_cases hcost : 0 < bsr.statusPduSize ∧ bsr.statusPduSize ≤ tb
      · rw [statusCost_append, statusCost_cons_pos [] hcost.1 hcost.2] at h
        exact ⟨bsrs, bsr, [], rfl, not_lt.mp hover, hcost.1, hcost.2, h⟩
      · rw [statusCost_append, statusCost_cons_neg [] hcost] at h
        exact absurd h hover

/-- Status PDUs that cost more than the budget can be answered beyond it. -/
theorem exists_statusBytes_over {bsrs : List Bsr} (htb : tb < 2 ^ 32)
    (hnodup : (bsrs.map Bsr.lcid).Nodup) (hstatus : ∀ bsr ∈ bsrs, bsr.statusPduSize < 2 ^ 16)
    (hover : tb < statusCost tb bsrs + 5) :
    ∃ size, tb < statusBytes (answering size) tb bsrs 0 + 5 ∧
      statusBytes (answering size) tb bsrs 0 ≤ tb + 3 := by
  by_cases hsmall : tb < 5
  · refine ⟨fun _ => none, Nat.lt_add_left _ hsmall, ?_⟩
    rw [statusBytes_silent fun _ _ => rfl]
    exact Nat.zero_le _
  · obtain ⟨front, bsr, back, rfl, hfront, hpos, hle, hfirst⟩ :=
      exists_first_over (show tb - 5 < statusCost tb bsrs by omega)
    have hbsr := hstatus bsr (by simp)
    have hsub := two_le_subHeader bsr.statusPduSize
    have hsub' := subHeader_le bsr.statusPduSize
    rw [List.map_append, List.map_cons, List.nodup_append] at hnodup
    obtain ⟨hfrontNodup, hbackNodup, hdisjoint⟩ := hnodup
    rw [List.nodup_cons] at hbackNodup
    have hneFront : ∀ bsr' ∈ front, bsr'.lcid ≠ bsr.lcid := fun bsr' hmem =>
      hdisjoint _ (List.mem_map_of_mem hmem) _ List.mem_cons_self
    -- as much as leaves room for the status PDU, but not for its sub-header
    obtain ⟨size, hto, hfrom, hexact⟩ := exists_statusBytes 0
      (min (statusCost tb front) (tb - bsr.statusPduSize)) htb hfrontNodup
      (fun bsr' hmem => hstatus bsr' (List.mem_append_left _ hmem)) (by omega) (Nat.zero_le _)
      (by omega)
    have hanswers : ∃ size' : Nat → Option Nat, (∀ bsr' ∈ front, size' bsr'.lcid = size bsr'.lcid) ∧
        size' bsr.lcid = some bsr.statusPduSize ∧ ∀ bsr' ∈ back, size' bsr'.lcid = none := by
      refine ⟨fun lcid => if lcid ∈ back.map Bsr.lcid then none
        else Function.update size bsr.lcid (some bsr.statusPduSize) lcid, ?_, ?_, ?_⟩
      · intro bsr' hmem
        dsimp only
        rw [if_neg, Function.update_of_ne (hneFront bsr' hmem)]
        exact fun hback =>
          hdisjoint _ (List.mem_map_of_mem hmem) _ (List.mem_cons_of_mem _ hback) rfl
      · dsimp only
        rw [if_neg hbackNodup.1, Function.update_self]
      · intro bsr' hmem
        exact if_pos (List.mem_map_of_mem hmem)
    obtain ⟨size', hsame, hself, hsilent⟩ := hanswers
    refine ⟨size', ?_⟩
    rw [statusBytes_append, statusBytes_congr hsame, statusBytes_cons, if_pos,
      taken_answering_some hself le_rfl, statusBytes_silent hsilent]
    · constructor <;> omega
    · exact ⟨hpos, (status_guard (by omega) htb hbsr fun _ => by omega).mpr (by omega)⟩

/-! ## Wrapped guards -/

/-- RLC entities that fill the opportunities for new data only. -/
def fillTx : Rlc := fun phase _ bytes =>
  match phase with
  | .tx => { pdus := [bytes + subHeader bytes] }
  | _ => {}

theorem fillTx_onePdu : fillTx.OnePdu := by
  intro phase lcid granted
  cases phase with
  | status => exact Or.inl rfl
  | retx => exact Or.inl rfl
  | tx => exact Or.inr ⟨granted, le_rfl, rfl⟩

theorem taken_fillTx (lcid granted : Nat) :
    fillTx.taken .tx lcid granted = granted + subHeader granted :=
  List.sum_singleton

theorem sendStatus_fillTx {bsrs : List Bsr} (hused : mac.ulDciTotalUsed = 0) (htb : 2 ^ 16 ≤ tb)
    (hstatus : ∀ bsr ∈ bsrs, bsr.statusPduSize < 2 ^ 16) (b : Bool) :
    ∃ b', sendStatus fillTx tb bsrs b b mac =
      some (bsrs.map fun bsr => { bsr with statusPduSize := 0 }, b', b', mac) := by
  induction bsrs generalizing b with
  | nil => exact ⟨b, rfl⟩
  | cons bsr bsrs ih =>
    have hbsr := hstatus bsr List.mem_cons_self
    have htail := ih fun bsr' hmem => hstatus bsr' (List.mem_cons_of_mem bsr hmem)
    by_cases hpos : 0 < bsr.statusPduSize
    · have hguard : (mac.ulDciTotalUsed + bsr.statusPduSize) % 2 ^ 32 ≤ tb := by
        rw [hused, Nat.zero_add]
        exact (Nat.mod_le _ _).trans (hbsr.le.trans htb)
      obtain ⟨b', heq⟩ := htail true
      exact ⟨b', sendStatus_served hpos hguard rfl heq⟩
    · obtain ⟨b', heq⟩ := htail b
      refine ⟨b', ?_⟩
      rw [sendStatus_idle hpos heq, List.map_cons, ← Nat.eq_zero_of_not_pos hpos]

/-- A queue pass sends no less than before. -/
theorem Metered.sendData_mono (rlc : Rlc) (phase : TxPhase) (subtract : Bsr → Bsr)
    (useful granted : Nat) (bsrs : List Bsr) (h : Metered mac₀ bytes mac) :
    ∃ bsrs' mac' bytes', NrUeMac.sendData rlc phase subtract useful granted bsrs mac =
        some (bsrs', mac') ∧ Metered mac₀ bytes' mac' ∧ bytes ≤ bytes' := by
  induction bsrs generalizing mac bytes with
  | nil => exact ⟨[], mac, bytes, rfl, h, le_rfl⟩
  | cons bsr bsrs ih =>
    by_cases hfits : (mac.ulDciTotalUsed + granted) % 2 ^ 32 ≤ useful
    · obtain ⟨bsr', mac₁, h₁, hm₁⟩ := h.notifyTxOpportunity rlc phase bsr granted
      obtain ⟨bsrs₂, mac₂, bytes₂, h₂, hm₂, hle⟩ := ih hm₁
      exact ⟨_, mac₂, bytes₂, sendData_served hfits h₁ h₂, hm₂, (Nat.le_add_right _ _).trans hle⟩
    · obtain ⟨bsrs₂, mac₂, bytes₂, h₂, hm₂, hle⟩ := ih h
      exact ⟨_, mac₂, bytes₂, sendData_skipped hfits h₂, hm₂, hle⟩

/-- With two channels and a share of half the 32-bit range, the guard wraps for the second. -/
theorem Metered.sendData_wraps (subtract : Bsr → Bsr) {share : Nat} (x y : Bsr) (bsrs : List Bsr)
    (h : Metered mac₀ 0 mac) (hhalf : 2 ^ 31 - 1 ≤ share) (hlt : share + 3 < 2 ^ 32) :
    ∃ bsrs' mac' bytes', NrUeMac.sendData fillTx .tx subtract share share (x :: y :: bsrs) mac =
        some (bsrs', mac') ∧ Metered mac₀ bytes' mac' ∧ 2 * (share + 2) ≤ bytes' := by
  have hsub := two_le_subHeader share
  have hsub' := subHeader_le share
  -- the smallest such share has a sub-header of three bytes
  have hover : 2 ^ 32 ≤ share + subHeader share + share := by
    by_cases heq : share = 2 ^ 31 - 1
    · subst heq
      decide
    · omega
  obtain ⟨x', mac₁, h₁, hm₁⟩ := h.notifyTxOpportunity fillTx .tx x share
  rw [taken_fillTx, Nat.zero_add] at hm₁
  obtain ⟨y', mac₂, h₂, hm₂⟩ := hm₁.notifyTxOpportunity fillTx .tx y share
  rw [taken_fillTx] at hm₂
  obtain ⟨bsrs₃, mac₃, bytes₃, h₃, hm₃, hle⟩ := hm₂.sendData_mono fillTx .tx subtract share
    share bsrs
  have hfirst : (mac.ulDciTotalUsed + share) % 2 ^ 32 ≤ share := by
    rw [h.used, Nat.zero_mod, Nat.zero_add]
    exact Nat.mod_le _ _
  have hsecond : (mac₁.ulDciTotalUsed + share) % 2 ^ 32 ≤ share := by
    rw [hm₁.used, Nat.mod_add_mod]
    omega
  exact ⟨_, mac₃, bytes₃, sendData_served hfirst h₁ (sendData_served hsecond h₂ h₃), hm₃, by omega⟩

/-- The same channels and status PDUs, with other queues. -/
def withQueues (retx tx : Nat → Nat) (mac : NrUeMac) : NrUeMac :=
  { mac with ulBsrReceived := mac.ulBsrReceived.map fun bsr =>
      { bsr with retxQueueSize := retx bsr.lcid, txQueueSize := tx bsr.lcid } }

/-- Only the first channel has new data. -/
theorem countP_first {bsrs : List Bsr} {x : Bsr} (hnodup : ((x :: bsrs).map Bsr.lcid).Nodup) :
    ((x :: bsrs).map fun bsr => if bsr.lcid = x.lcid then 1 else 0).countP (fun n : Nat => 0 < n) =
      1 := by
  rw [List.map_cons, List.nodup_cons] at hnodup
  have hnone : (bsrs.map fun bsr => if bsr.lcid = x.lcid then 1 else 0).countP
      (fun n : Nat => 0 < n) = 0 := by
    rw [List.countP_eq_zero]
    intro n hn
    obtain ⟨bsr, hmem, rfl⟩ := List.mem_map.mp hn
    have hne : bsr.lcid ≠ x.lcid := fun heq => hnodup.1 (heq ▸ List.mem_map_of_mem hmem)
    rw [if_neg hne]
    simp
  rw [List.map_cons, List.countP_cons, hnone, if_pos rfl]
  rfl

/-- Without status PDUs from the RLC entities the status pass only forgets them. -/
theorem statusPass_fillTx (mac : NrUeMac)
    (hprocess : mac.ulDci.harqProcess < mac.harqProcesses.length)
    (hused : mac.ulDciTotalUsed = 0) (htb : mac.ulDci.tbSize[0]? = some tb) (hlarge : 2 ^ 16 ≤ tb)
    (hstatus : ∀ bsr ∈ mac.ulBsrReceived, bsr.statusPduSize < 2 ^ 16) :
    ∃ status, mac.statusPass fillTx = some status ∧ Metered mac 0 status ∧
      status.ulBsrReceived = mac.ulBsrReceived.map fun bsr => { bsr with statusPduSize := 0 } := by
  obtain ⟨mac₁, h₁, hm₁, hbsrs⟩ := setPktBurst_metered hprocess hused
  obtain ⟨b, h₂⟩ := sendStatus_fillTx hm₁.used hlarge hstatus false
  have htb₁ : mac₁.ulDci.tbSize[0]? = some tb := by rw [hm₁.ulDci, htb]
  refine ⟨_, ?_, hm₁.setQueues _, rfl⟩
  unfold statusPass sendNewStatusData
  rw [h₁, Option.bind_some, htb₁, Option.bind_eq_bind, Option.bind_some, hbsrs, h₂]
  cases b <;> rfl

/-- If only the first channel has new data, it gets the whole transport block, and the others the
same again. -/
theorem sendNewData_fillTx {status : NrUeMac} {x y : Bsr} {bsrs : List Bsr} (hlt : tb < 2 ^ 32)
    (hpass : mac.statusPass fillTx = some status) (htb : mac.ulDci.tbSize[0]? = some tb)
    (hlarge : 2 ^ 31 + 7 ≤ tb) (hm : Metered mac 0 status)
    (hbsrs : status.ulBsrReceived = x :: y :: bsrs) (hretx : status.activeLcsRetx = 0)
    (htx : status.activeLcsTx = 1) :
    ∃ mac', mac.sendNewData fillTx = some mac' ∧ mac.sentBytes + tb < mac'.sentBytes := by
  have huseful : status.usefulTbs tb = tb - 5 := hm.usefulTbs (by omega) hlt
  have hretxPass : status.retxPass fillTx tb 0 = some status := if_neg (Nat.not_lt_zero _)
  obtain ⟨bsrs₂, mac₂, bytes₂, heq, hm₂, hle⟩ := hm.sendData_wraps (subtractTx (tb - 8)) x y
    bsrs (by omega : 2 ^ 31 - 1 ≤ tb - 8) (by omega)
  have htxPass : status.txPass fillTx tb 1 = some { mac₂ with ulBsrReceived := bsrs₂ } := by
    have hshare : tb - 5 - 1 * 3 = tb - 8 := by omega
    unfold txPass sendTxData
    rw [huseful, if_neg (by omega : ¬ tb - 5 < 1 * 3), if_neg one_ne_zero, hshare, Nat.div_one,
      hbsrs]
    dsimp only
    rw [heq]
    rfl
  have htotal : mac.sentBytes + tb < mac₂.sentBytes := by
    rw [hm₂.sent]
    omega
  rw [sendNewData_eq htb, hpass, Option.bind_some, hretx, hretxPass, Option.bind_some, htx, htxPass,
    Option.bind_some]
  split
  · obtain ⟨process, sizes, hready, -⟩ := hm₂.ready
    unfold setPktBurst
    rw [hready]
    exact ⟨_, rfl, htotal⟩
  · exact ⟨_, rfl, htotal⟩

/-- If the guard wraps, the transport block can be exceeded without status PDUs and
retransmissions. -/
theorem not_withinBudget_of_wrap (hprocess : mac.ulDci.harqProcess < mac.harqProcesses.length)
    (hused : mac.ulDciTotalUsed = 0) (htb : mac.ulDci.tbSize[0]? = some tb) (hlt : tb < 2 ^ 32)
    (hnodup : (mac.ulBsrReceived.map Bsr.lcid).Nodup)
    (hstatus : ∀ bsr ∈ mac.ulBsrReceived, bsr.statusPduSize < 2 ^ 16)
    {x y : Bsr} {bsrs : List Bsr} (hbsrs : mac.ulBsrReceived = x :: y :: bsrs)
    (hlarge : 2 ^ 31 + 7 ≤ tb) :
    ¬ (mac.withQueues (fun _ => 0) fun lcid => if lcid = x.lcid then 1 else 0).WithinBudget
      fillTx tb := by
  intro hbudget
  set queued := mac.withQueues (fun _ => 0) fun lcid => if lcid = x.lcid then 1 else 0 with hqueued
  have hstatus' : ∀ bsr ∈ queued.ulBsrReceived, bsr.statusPduSize < 2 ^ 16 := by
    intro bsr hmem
    obtain ⟨bsr', hmem', rfl⟩ := List.mem_map.mp hmem
    exact hstatus bsr' hmem'
  obtain ⟨status, hpass, hm, hqueues⟩ := statusPass_fillTx queued hprocess hused htb
    (by omega) hstatus'
  have hretx : status.activeLcsRetx = 0 := by
    unfold activeLcsRetx
    rw [hqueues, List.countP_eq_zero.mpr]
    · rfl
    · intro bsr hmem
      obtain ⟨bsr', hmem', rfl⟩ := List.mem_map.mp hmem
      obtain ⟨bsr'', -, rfl⟩ := List.mem_map.mp hmem'
      simp
  have htx : status.activeLcsTx = 1 := by
    have hcount := countP_first (hbsrs ▸ hnodup)
    rw [List.countP_map] at hcount
    unfold activeLcsTx
    rw [hqueues, List.countP_map, hqueued]
    unfold withQueues
    rw [List.countP_map, hbsrs]
    exact congrArg (· % 2 ^ 16) hcount
  obtain ⟨x', y', rest, hlist⟩ : ∃ x' y' rest, status.ulBsrReceived = x' :: y' :: rest := by
    rw [hqueues, hqueued]
    unfold withQueues
    rw [hbsrs]
    exact ⟨_, _, _, rfl⟩
  obtain ⟨mac', heq, hover⟩ :=
    sendNewData_fillTx hlt hpass htb hlarge hm hlist hretx htx
  have htotal := hbudget.total mac' heq mac'.currentSlot 0
  exact absurd (hover.trans_le (le_sentBytes_sendReportBufferStatus mac' mac'.currentSlot 0))
    (not_lt.mpr htotal)

/-! ## When the budget holds -/

theorem statusBytes_withQueues (rlc : Rlc) (retx tx : Nat → Nat) (mac : NrUeMac) (bytes : Nat) :
    statusBytes rlc tb (mac.withQueues retx tx).ulBsrReceived bytes =
      statusBytes rlc tb mac.ulBsrReceived bytes := by
  unfold withQueues
  generalize mac.ulBsrReceived = bsrs
  induction bsrs generalizing bytes with
  | nil => rfl
  | cons bsr bsrs ih =>
    rw [List.map_cons, statusBytes_cons, statusBytes_cons, ih, ih]

/-- The budget holds for all queues and RLC entities if and only if the status PDUs with their
sub-headers leave the bytes of the SHORT_BSR and the guards cannot wrap. -/
theorem withinBudget_iff (hprocess : mac.ulDci.harqProcess < mac.harqProcesses.length)
    (hused : mac.ulDciTotalUsed = 0) (htb : mac.ulDci.tbSize[0]? = some tb) (hmin : 12 ≤ tb)
    (hlt : tb < 2 ^ 32) (hnodup : (mac.ulBsrReceived.map Bsr.lcid).Nodup)
    (hstatus : ∀ bsr ∈ mac.ulBsrReceived, bsr.statusPduSize < 2 ^ 16) :
    (∀ retx tx : Nat → Nat, ∀ rlc : Rlc, rlc.OnePdu →
      (mac.withQueues retx tx).WithinBudget rlc tb) ↔
        statusCost tb mac.ulBsrReceived + 5 ≤ tb ∧
          (mac.ulBsrReceived.length ≤ 1 ∨ tb < 2 ^ 31 + 7) := by
  constructor
  · intro h
    have hwrap : mac.ulBsrReceived.length ≤ 1 ∨ tb < 2 ^ 31 + 7 := by
      match hlist : mac.ulBsrReceived with
      | [] => exact Or.inl (Nat.zero_le 1)
      | [x] => exact Or.inl le_rfl
      | x :: y :: bsrs =>
        refine Or.inr (not_le.mp fun hlarge => ?_)
        exact not_withinBudget_of_wrap hprocess hused htb hlt hnodup hstatus hlist hlarge
          (h _ _ fillTx fillTx_onePdu)
    refine ⟨?_, hwrap⟩
    by_contra hover
    have hsmall : tb < 2 ^ 31 + 7 := by
      rcases hwrap with hlen | hsmall
      · have hcost := statusCost_le_length tb hstatus
        omega
      · exact hsmall
    obtain ⟨size, hsize, hle⟩ := exists_statusBytes_over hlt hnodup hstatus (not_le.mp hover)
    have hsame : statusBytes (answering size) tb
        (mac.withQueues (fun _ => 0) fun _ => 0).ulBsrReceived 0 =
          statusBytes (answering size) tb mac.ulBsrReceived 0 := statusBytes_withQueues ..
    obtain ⟨hpass, hsome⟩ := statusPass_metered (answering size)
      (mac.withQueues (fun _ => 0) fun _ => 0) hprocess hused htb
    obtain ⟨status, heq⟩ := hsome (by rw [hsame]; omega)
    have hassert := (h _ _ _ (answering_onePdu size)).status status heq
    obtain ⟨hm, -⟩ := hpass status heq
    rw [hm.used, hsame, Nat.mod_eq_of_lt (by omega)] at hassert
    omega
  · rintro ⟨hcost, hwrap⟩ retx tx rlc hone
    have hbytes := statusBytes_le hone hlt hstatus
      (show 0 + statusCost tb mac.ulBsrReceived ≤ tb by omega)
    rw [← statusBytes_withQueues rlc retx tx, Nat.zero_add] at hbytes
    exact withinBudget_of_statusBytes (mac.withQueues retx tx) hone hprocess hused htb hlt
      (by unfold withQueues; rwa [List.length_map])
      ((Nat.add_le_add_right hbytes 5).trans hcost)

/-- A transport block of twelve bytes, and a channel that only waits with a status PDU. -/
def twelveBytes (statusPduSize : Nat) : NrUeMac where
  cgScheduling := false
  numHarqProcess := 1
  currentSlot := ⟨0, 0, 0, 0⟩
  ulDci := { tbSize := [12] }
  ulBsrReceived := [{ lcid := 4, statusPduSize := statusPduSize }]

/-- A status PDU of five bytes with its sub-header is as much as fits. -/
theorem twelveBytes_withinBudget :
    ((twelveBytes 5).withQueues (fun _ => 0) fun _ => 0).WithinBudget
      (answering fun _ => some 5) 12 :=
  (@withinBudget_iff (twelveBytes 5) 12 Nat.one_pos rfl rfl le_rfl (by decide)
    (by decide) (by decide)).mpr ⟨by decide, Or.inl le_rfl⟩ _ _ _ (answering_onePdu _)

/-- A status PDU of twelve bytes passes the guard, and takes fourteen with its sub-header. -/
theorem twelveBytes_exceeded :
    ¬ ∀ (mac : NrUeMac) (rlc : Rlc) (tb : Nat), mac.ulDci.harqProcess < mac.harqProcesses.length →
      mac.ulDciTotalUsed = 0 → mac.ulDci.tbSize[0]? = some tb → 12 ≤ tb → tb < 2 ^ 32 →
        (mac.ulBsrReceived.map Bsr.lcid).Nodup →
          (∀ bsr ∈ mac.ulBsrReceived, bsr.statusPduSize < 2 ^ 16) → rlc.OnePdu →
            mac.WithinBudget rlc tb := by
  intro h
  have hbudget := h (twelveBytes 12) (answering fun _ => some 12) 12 Nat.one_pos rfl rfl le_rfl
    (by decide) (by decide) (by decide) (answering_onePdu _)
  obtain ⟨hpass, hsome⟩ := @statusPass_metered 12 (answering fun _ => some 12) (twelveBytes 12)
    Nat.one_pos rfl rfl
  obtain ⟨status, heq⟩ := hsome (by decide)
  obtain ⟨hm, -⟩ := hpass status heq
  have hassert := hbudget.status status heq
  rw [hm.used] at hassert
  exact absurd hassert (by decide)

end NrUeMac

end Ns3.Nr.UeMac
