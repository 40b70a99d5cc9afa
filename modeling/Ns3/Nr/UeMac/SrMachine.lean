import Ns3.Nr.UeMac.Transmit

/-!
# Requests of the UE MAC

An idle UE has nothing to send, and a UE that waits for a grant has asked for it. Both fail in
corners of the state machines: `SendSR` and `SendTrafficInfo` send nothing without an RNTI but
the machine goes on, and a UE that has used all its configured grants is idle whatever is left
in the buffer. `NrUeMac.Served` excludes these steps, and `requests_not_stranded` is the result
for every run.
-/

namespace Ns3.Nr.UeMac

namespace NrUeMac

/-- What the requests promise: an idle machine has an empty buffer, and a waiting one has sent its
request. -/
structure Settled (mac : NrUeMac) : Prop where
  idle : mac.machine.idle = true → mac.totalBufSize = 0
  asked : mac.machine.Asked

/-- All grants have been used in this period. -/
def exhausted (mac : NrUeMac) : Bool :=
  mac.cgScheduling && mac.srStateConfiguredGrant = .SCH_CG_DATA &&
    (mac.dciGrantedStored mac.cgSlotCounterDci2).isNone

/-- A request is due only when there is an RNTI, and the grants are used up only when the buffer is
empty. When a DCI comes to an idle UE, the size of the buffer fits in 32 bits. -/
def Served (mac : NrUeMac) : Event → Prop
  | .slotIndication _ _ =>
    (mac.machine.toSend = true → mac.rnti ≠ 0) ∧ (mac.exhausted = true → mac.totalBufSize = 0)
  | .ulDci _ _ _ => mac.machine.idle = true → bufSize mac.ulBsrReceived < 2 ^ 32
  | _ => True

variable {mac mac' : NrUeMac} {rlc : Rlc}

/-! ## Steps -/

theorem storeGrant_same (h : mac.storeGrant = some mac') :
    mac'.machine = mac.machine ∧ mac'.ulBsrReceived = mac.ulBsrReceived := by
  unfold storeGrant at h
  split at h
  · dsimp only at h
    split at h
    · cases h
      exact ⟨rfl, rfl⟩
    · cases h
      exact ⟨rfl, rfl⟩
  · cases h

theorem Settled.processUlDci (h : mac.Settled) {dci : DciInfoElementTdma} {kDelay : Nat}
    (hserved : mac.machine.idle = true → bufSize mac.ulBsrReceived < 2 ^ 32)
    (hmac' : mac.processUlDci rlc dci kDelay = some mac') : mac'.Settled := by
  obtain ⟨mac₁, h₁, hmac'⟩ := Option.bind_eq_some_iff.mp hmac'
  have hsame : mac₁.machine = mac.machine ∧ mac₁.ulBsrReceived = mac.ulBsrReceived := by
    split at h₁
    · have hstore := storeGrant_same h₁
      exact hstore
    · cases h₁
      exact ⟨rfl, rfl⟩
  obtain ⟨-, m, hsent, hm⟩ :=
    transmit_cases ulBsrReceived_emptied machine_emptied kept_emptied hmac'
  rcases hm with ⟨rfl, -⟩ | ⟨hempty, hm⟩
  · rw [hsame.1, hsame.2] at hsent
    constructor
    · intro hidle
      obtain ⟨hidle, hle⟩ := hsent.le_of_idle hidle
      have hzero : bufSize mac.ulBsrReceived = 0 :=
        (Nat.mod_eq_of_lt (hserved hidle)).symm.trans (h.idle hidle)
      rw [hzero, Nat.le_zero] at hle
      unfold totalBufSize
      rw [hle, Nat.zero_mod]
    · exact hsent.asked h.asked
  · constructor
    · exact fun _ => hempty
    · intro hwaiting
      rw [hm, m.waiting_emptied] at hwaiting
      cases hwaiting

theorem machine_doReportBufferStatus (order : BsrOrder) (params : Bsr) (mac : NrUeMac) :
    (mac.doReportBufferStatus order params).machine = mac.machine.reported :=
  machine_reported { mac with ulBsrReceived := updateBsr order params mac.ulBsrReceived }

theorem Settled.doReportBufferStatus (h : mac.Settled) (order : BsrOrder) (params : Bsr) :
    (mac.doReportBufferStatus order params).Settled := by
  constructor
  · intro hidle
    rw [machine_doReportBufferStatus, Machine.idle_reported] at hidle
    cases hidle
  · rw [machine_doReportBufferStatus]
    exact h.asked.reported

/-- A settled state and one with the same machine and buffer. -/
theorem Settled.of_same (h : mac.Settled) (hm : mac'.machine = mac.machine)
    (hb : mac'.ulBsrReceived = mac.ulBsrReceived) : mac'.Settled := by
  constructor
  · intro hidle
    unfold totalBufSize
    rw [hb]
    exact h.idle (hm ▸ hidle)
  · rw [hm]
    exact h.asked

/-- The request goes out when there is an RNTI. -/
theorem requestSent_sendRequest (h : mac.rnti ≠ 0) : mac.sendRequest.requestSent = true := by
  unfold sendRequest
  rw [if_neg h]

theorem cgScheduling_sendRequest (mac : NrUeMac) :
    mac.sendRequest.cgScheduling = mac.cgScheduling := by
  unfold sendRequest
  split <;> rfl

theorem Settled.doSlotIndication (h : mac.Settled) (hcg : mac.cgScheduling = false) {sfn : SfnSf}
    (hrnti : mac.machine.toSend = true → mac.rnti ≠ 0) : (mac.doSlotIndication sfn).Settled := by
  unfold NrUeMac.doSlotIndication
  dsimp only
  split
  · rename_i hstate
    have hne : (mac.startSlot sfn).rnti ≠ 0 := by
      apply hrnti
      rw [toSend_dynamic hcg]
      exact decide_eq_true hstate
    have hcg' : ((mac.startSlot sfn).sendRequest.setSrState .ACTIVE).cgScheduling = false :=
      (cgScheduling_sendRequest _).trans hcg
    constructor
    · intro hidle
      rw [idle_dynamic hcg'] at hidle
      cases hidle
    · exact fun _ => requestSent_sendRequest hne
  · exact h.of_same rfl rfl

theorem useGrant_sent {key : Nat} {grant dci : DciInfoElementTdma}
    (h : mac.useGrant rlc key grant dci = some mac') :
    Sent (bufSize mac.ulBsrReceived) (bufSize mac'.ulBsrReceived) mac.machine mac'.machine := by
  obtain ⟨mac₁, h₁, h⟩ := Option.map_eq_some_iff.mp h
  cases h
  have hsent := (transmit_id_sent h₁).sent
  unfold renewGrant
  split
  · exact hsent
  · exact hsent

theorem Settled.doSlotIndicationConfiguredGrant (h : mac.Settled) (hcg : mac.cgScheduling = true)
    {sfn : SfnSf} (hrnti : mac.machine.toSend = true → mac.rnti ≠ 0)
    (hempty : mac.exhausted = true → mac.totalBufSize = 0) {sch : Bool}
    (hmac' : mac.doSlotIndicationConfiguredGrant rlc sfn = some (sch, mac')) : mac'.Settled := by
  unfold NrUeMac.doSlotIndicationConfiguredGrant at hmac'
  dsimp only at hmac'
  split at hmac'
  · rename_i hstate
    cases hmac'
    have hne : (mac.startSlot sfn).rnti ≠ 0 := by
      apply hrnti
      rw [toSend_configuredGrant hcg]
      exact decide_eq_true hstate
    have hcg' : ((mac.startSlot sfn).sendRequest.setSrStateConfiguredGrant
        .TO_RECEIVE_CG).cgScheduling = true :=
      (cgScheduling_sendRequest _).trans hcg
    constructor
    · intro hidle
      rw [idle_configuredGrant hcg'] at hidle
      cases hidle
    · exact fun _ => requestSent_sendRequest hne
  · rename_i hstate
    split at hmac'
    · split at hmac'
      · rename_i hnone
        cases hmac'
        constructor
        · intro _
          apply hempty
          have hstored : mac.dciGrantedStored mac.cgSlotCounterDci2 = none := hnone
          unfold exhausted
          rw [hcg, hstored, decide_eq_true (show mac.srStateConfiguredGrant = _ from hstate)]
          rfl
        · intro hwaiting
          have hcg' : (mac.startSlot sfn).endPeriod.cgScheduling = true := hcg
          rw [waiting_configuredGrant hcg'] at hwaiting
          cases hwaiting
      · split at hmac'
        · cases hmac'
          exact h.of_same rfl rfl
        · obtain ⟨mac₁, h₁, hmac'⟩ := Option.map_eq_some_iff.mp hmac'
          cases hmac'
          have hsent := useGrant_sent h₁
          constructor
          · intro hidle
            have hbefore := (hsent.le_of_idle hidle).1
            have hcg' : (mac.startSlot sfn).cgScheduling = true := hcg
            rw [idle_configuredGrant hcg', hstate] at hbefore
            cases hbefore
          · exact hsent.asked h.asked
    · cases hmac'
  · cases hmac'
    exact h.of_same rfl rfl

theorem Settled.step (h : mac.Settled) {e : Event} (hserved : mac.Served e)
    (hmac' : mac.step e = some mac') : mac'.Settled := by
  cases e with
  | reportBufferStatus order params =>
    cases hmac'
    exact h.doReportBufferStatus order params
  | slotIndication rlc sfn =>
    simp only [NrUeMac.step] at hmac'
    split at hmac'
    · rename_i hcg
      obtain ⟨⟨sch, mac₁⟩, h₁, rfl⟩ := Option.map_eq_some_iff.mp hmac'
      exact h.doSlotIndicationConfiguredGrant hcg hserved.1 hserved.2 h₁
    · rename_i hcg
      cases hmac'
      exact h.doSlotIndication (eq_false_of_ne_true hcg) hserved.1
  | recvRaResponse rnti =>
    cases hmac'
    exact h.of_same rfl rfl
  | ulDci rlc dci kDelay => exact h.processUlDci hserved hmac'

theorem Settled.run (h : mac.Settled) {es : List Event} (hserved : mac.Along Served es)
    (hmac' : mac.run es = some mac') : mac'.Settled := by
  induction es generalizing mac with
  | nil =>
    cases hmac'
    exact h
  | cons e es ih =>
    rw [NrUeMac.run, List.foldlM_cons] at hmac'
    obtain ⟨mac₁, h₁, hmac'⟩ := Option.bind_eq_some_iff.mp hmac'
    exact ih (h.step hserved.1 h₁) (hserved.2 mac₁ h₁) hmac'

end NrUeMac

/-! ## Result -/

theorem start_settled (cgScheduling : Bool) (configurationTime cgPeriod numHarqProcess : Nat)
    (slot : SfnSf) :
    (start cgScheduling configurationTime cgPeriod numHarqProcess slot).Settled := by
  constructor
  · exact fun _ => rfl
  · intro hwaiting
    cases cgScheduling <;> cases hwaiting

theorem requests_not_stranded (cgScheduling : Bool)
    (configurationTime cgPeriod numHarqProcess : Nat) (slot : SfnSf) {es : List Event}
    (hserved : (start cgScheduling configurationTime cgPeriod numHarqProcess slot).Along
      NrUeMac.Served es) {mac : NrUeMac}
    (hrun : (start cgScheduling configurationTime cgPeriod numHarqProcess slot).run es = some mac) :
    mac.Settled :=
  (start_settled _ _ _ _ _).run hserved hrun

instance (mac : NrUeMac) : ∀ e, Decidable (mac.Served e)
  | .reportBufferStatus _ _ => isTrue trivial
  | .slotIndication _ _ => inferInstanceAs (Decidable
      ((mac.machine.toSend = true → mac.rnti ≠ 0) ∧ (mac.exhausted = true → mac.totalBufSize = 0)))
  | .recvRaResponse _ => isTrue trivial
  | .ulDci _ _ _ => inferInstanceAs (Decidable
      (mac.machine.idle = true → NrUeMac.bufSize mac.ulBsrReceived < 2 ^ 32))

instance decidableAlong (p : NrUeMac → Event → Prop) [∀ mac e, Decidable (p mac e)] :
    ∀ mac es, Decidable (NrUeMac.Along p mac es)
  | _, [] => isTrue trivial
  | mac, e :: es =>
    have := fun mac' => decidableAlong p mac' es
    inferInstanceAs (Decidable (p mac e ∧ ∀ mac' ∈ mac.step e, NrUeMac.Along p mac' es))

/-- A packet of a hundred bytes, its request, and the grant for it. -/
theorem requests_not_stranded_packet :
    ∃ mac, (start false 10 10 20 ⟨0, 0, 0, 0⟩).run
      [.recvRaResponse 1, .reportBufferStatus bsrFirst ⟨3, 100, 0, 0⟩,
        .slotIndication greedy ⟨0, 1, 0, 0⟩, .ulDci greedy { ndi := [1], tbSize := [200] } 2] =
        some mac ∧ mac.srState = .INACTIVE ∧ mac.Settled := by
  obtain ⟨mac, hmac⟩ : ∃ mac, (start false 10 10 20 ⟨0, 0, 0, 0⟩).run
      [.recvRaResponse 1, .reportBufferStatus bsrFirst ⟨3, 100, 0, 0⟩,
        .slotIndication greedy ⟨0, 1, 0, 0⟩, .ulDci greedy { ndi := [1], tbSize := [200] } 2] =
        some mac := ⟨_, rfl⟩
  refine ⟨mac, hmac, ?_, requests_not_stranded _ _ _ _ _ (by decide) hmac⟩
  cases hmac
  rfl

/-- Without an RNTI the UE waits for a grant it has not asked for. With a configured grant of 200
bytes, 1000 bytes leave it idle with a buffer that is not empty. -/
theorem requests_stranded :
    (∃ mac, (start false 10 10 20 ⟨0, 0, 0, 0⟩).run
      [.reportBufferStatus bsrFirst ⟨3, 100, 0, 0⟩, .slotIndication greedy ⟨0, 1, 0, 0⟩] =
        some mac ∧ mac.machine.waiting = true ∧ mac.requestSent = false) ∧
    ∃ mac, (start true 8 10 20 ⟨0, 0, 0, 0⟩).run
      [.recvRaResponse 1, .reportBufferStatus bsrFirst ⟨3, 100, 0, 0⟩,
        .slotIndication greedy ⟨0, 1, 0, 0⟩, .ulDci greedy { ndi := [1], tbSize := [200] } 2,
        .reportBufferStatus bsrFirst ⟨3, 1000, 0, 0⟩, .slotIndication greedy ⟨0, 2, 0, 0⟩,
        .slotIndication greedy ⟨0, 3, 0, 0⟩, .slotIndication greedy ⟨0, 4, 0, 0⟩,
        .slotIndication greedy ⟨0, 5, 0, 0⟩] =
        some mac ∧ mac.machine.idle = true ∧ 0 < mac.totalBufSize := by
  constructor
  · exact ⟨_, rfl, by decide, by decide⟩
  · exact ⟨_, rfl, by decide, by decide⟩

end Ns3.Nr.UeMac
