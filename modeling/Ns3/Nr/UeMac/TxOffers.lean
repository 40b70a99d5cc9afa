import Ns3.Nr.UeMac.ByteBudget

/-!
# Which channels get a share of a transport block

`SendTxData` divides what is left of a transport block by the number of channels with new data, and
offers this share to every channel, whether it has data or not. Its guard counts the sub-headers of
the PDUs before, so that a channel is passed over when the channels before it have taken too much;
from then on the guard fails for all. What it writes off is the share less two bytes, in 32 bits.

`sendTxTraced` is the loop with the offers it makes, channel by channel.
-/

namespace Ns3.Nr.UeMac

/-- An opportunity, with the queue that is recorded for the channel when the RLC entity has
answered, and the queue that is recorded in the end. -/
structure Offer where
  bytes : Nat
  recorded : Nat
  left : Nat
deriving DecidableEq, Repr

/-- The queue that is recorded when the RLC entity has answered: what it reports, if it does. -/
def Rlc.recordedTx (rlc : Rlc) (bytes : Nat) (bsr : Bsr) : Nat :=
  match (rlc .tx bsr.lcid bytes).report with
  | none => bsr.txQueueSize
  | some params => params.txQueueSize

namespace NrUeMac

/-- The loop of `SendTxData` with its offers. -/
def sendTraced (rlc : Rlc) (usefulTbs bytesPerLcId : Nat) :
    List Bsr → NrUeMac → Option (List (Bsr × Option Offer) × NrUeMac)
  | [], mac => some ([], mac)
  | bsr :: bsrs, mac =>
    if (mac.ulDciTotalUsed + bytesPerLcId) % 2 ^ 32 ≤ usefulTbs then do
      let (bsr, mac) ← mac.notifyTxOpportunity rlc .tx bsr bytesPerLcId
      let left := subtractTx bytesPerLcId bsr
      let (rest, mac) ← sendTraced rlc usefulTbs bytesPerLcId bsrs mac
      return ((left, some ⟨bytesPerLcId, bsr.txQueueSize, left.txQueueSize⟩) :: rest, mac)
    else do
      let (rest, mac) ← sendTraced rlc usefulTbs bytesPerLcId bsrs mac
      return ((bsr, none) :: rest, mac)

/-- `SendTxData` with its offers. -/
def sendTxTraced (rlc : Rlc) (usefulTbs activeTx : Nat) (mac : NrUeMac) :
    Option (List (Bsr × Option Offer) × NrUeMac) :=
  if activeTx = 0 then some (mac.ulBsrReceived.map fun bsr => (bsr, none), mac)
  else do
    let (entries, mac) ← sendTraced rlc usefulTbs (usefulTbs / activeTx) mac.ulBsrReceived mac
    return (entries, { mac with ulBsrReceived := entries.map Prod.fst })

variable {mac₀ mac : NrUeMac} {rlc : Rlc} {bytes useful share : Nat}

/-! ## The offers are those of the code -/

theorem sendTraced_fst (bsrs : List Bsr) (mac : NrUeMac) :
    (sendTraced rlc useful share bsrs mac).map (fun out => (out.1.map Prod.fst, out.2)) =
      sendData rlc .tx (subtractTx share) useful share bsrs mac := by
  induction bsrs generalizing mac with
  | nil => rfl
  | cons bsr bsrs ih =>
    unfold sendTraced sendData
    split
    · cases mac.notifyTxOpportunity rlc .tx bsr share with
      | none => rfl
      | some answer =>
        obtain ⟨bsr', mac'⟩ := answer
        simp only [Option.bind_eq_bind, Option.bind_some, ← ih mac']
        cases sendTraced rlc useful share bsrs mac' <;> rfl
    · rw [← ih mac]
      cases sendTraced rlc useful share bsrs mac <;> rfl

/-- Without the offers the traced function is `SendTxData`. -/
theorem sendTxTraced_snd (rlc : Rlc) (useful activeTx : Nat) (mac : NrUeMac) :
    (mac.sendTxTraced rlc useful activeTx).map Prod.snd = mac.sendTxData rlc useful activeTx := by
  unfold sendTxTraced sendTxData
  split
  · rfl
  · dsimp only
    rw [← sendTraced_fst]
    cases sendTraced rlc useful (useful / activeTx) mac.ulBsrReceived mac <;> rfl

/-! ## Which offers are made -/

/-- The answers of the channels before leave room for a share, at this channel and at all before
it. -/
def FitsFrom (rlc : Rlc) (useful share bytes : Nat) (bsrs : List Bsr) (i : Nat) : Prop :=
  ∀ j ≤ i, (bytes + ((bsrs.take j).map fun bsr => rlc.taken .tx bsr.lcid share).sum + share) %
    2 ^ 32 ≤ useful

instance (bsrs : List Bsr) (i : Nat) : Decidable (FitsFrom rlc useful share bytes bsrs i) :=
  inferInstanceAs (Decidable (∀ j ≤ i, _))

theorem FitsFrom.zero {bsrs : List Bsr} {i : Nat} (h : FitsFrom rlc useful share bytes bsrs i) :
    (bytes + share) % 2 ^ 32 ≤ useful := h 0 (Nat.zero_le i)

theorem fitsFrom_zero (bsrs : List Bsr) :
    FitsFrom rlc useful share bytes bsrs 0 ↔ (bytes + share) % 2 ^ 32 ≤ useful := by
  constructor
  · exact FitsFrom.zero
  · intro h j hj
    rw [Nat.le_zero.mp hj]
    exact h

theorem fitsFrom_succ (bsr : Bsr) (bsrs : List Bsr) (i : Nat) :
    FitsFrom rlc useful share bytes (bsr :: bsrs) (i + 1) ↔
      (bytes + share) % 2 ^ 32 ≤ useful ∧
        FitsFrom rlc useful share (bytes + rlc.taken .tx bsr.lcid share) bsrs i := by
  have hsum : ∀ j, bytes + (((bsr :: bsrs).take (j + 1)).map fun bsr =>
      rlc.taken .tx bsr.lcid share).sum = bytes + rlc.taken .tx bsr.lcid share +
        ((bsrs.take j).map fun bsr => rlc.taken .tx bsr.lcid share).sum := fun j => by
    rw [List.take_succ_cons, List.map_cons, List.sum_cons, Nat.add_assoc]
  constructor
  · intro h
    refine ⟨h.zero, fun j hj => ?_⟩
    rw [← hsum]
    exact h (j + 1) (Nat.succ_le_succ hj)
  · rintro ⟨hzero, hsucc⟩ j hj
    cases j with
    | zero => exact hzero
    | succ j =>
      rw [hsum]
      exact hsucc j (Nat.le_of_succ_le_succ hj)

/-- What the loop does for one channel. -/
def offerOf (rlc : Rlc) (share : Nat) (bsr : Bsr) : Offer :=
  ⟨share, rlc.recordedTx share bsr,
    rlc.recordedTx share bsr - (share + 2 ^ 32 - 2) % 2 ^ 32⟩

/-- The recorded queue is the one of the entry. -/
theorem recordedTx_of_notifyTxOpportunity {bsr bsr' : Bsr} {mac' : NrUeMac}
    (h : mac.notifyTxOpportunity rlc .tx bsr share = some (bsr', mac')) :
    bsr'.txQueueSize = rlc.recordedTx share bsr := by
  obtain ⟨mac₁, -, h⟩ := Option.bind_eq_some_iff.mp h
  unfold Rlc.recordedTx
  cases hreport : (rlc .tx bsr.lcid share).report with
  | none =>
    rw [hreport] at h
    cases h
    rfl
  | some params =>
    rw [hreport] at h
    cases h
    rfl

/-- A channel gets an offer if and only if there is room at it and at all channels before. -/
theorem Metered.sendTraced (h : Metered mac₀ bytes mac) (rlc : Rlc) (useful share : Nat)
    (bsrs : List Bsr) :
    ∃ entries mac', NrUeMac.sendTraced rlc useful share bsrs mac = some (entries, mac') ∧
      ∀ i bsr, bsrs[i]? = some bsr → ∃ entry, entries[i]? = some entry ∧
        entry.2 = if FitsFrom rlc useful share bytes bsrs i then some (offerOf rlc share bsr)
          else none := by
  induction bsrs generalizing mac bytes with
  | nil => exact ⟨[], mac, rfl, fun i bsr hi => by cases hi⟩
  | cons bsr bsrs ih =>
    have hguard : (mac.ulDciTotalUsed + share) % 2 ^ 32 = (bytes + share) % 2 ^ 32 := by
      rw [h.used, Nat.mod_add_mod]
    unfold NrUeMac.sendTraced
    rw [hguard]
    by_cases hfits : (bytes + share) % 2 ^ 32 ≤ useful
    · obtain ⟨bsr', mac₁, h₁, hm₁⟩ := h.notifyTxOpportunity rlc .tx bsr share
      obtain ⟨entries, mac₂, h₂, hentries⟩ := ih hm₁
      rw [if_pos hfits, h₁, Option.bind_eq_bind, Option.bind_some]
      dsimp only
      rw [h₂]
      refine ⟨_, mac₂, rfl, fun i bsr₀ hi => ?_⟩
      cases i with
      | zero =>
        cases hi
        refine ⟨_, rfl, ?_⟩
        rw [if_pos ((fitsFrom_zero _).mpr hfits), offerOf, ← recordedTx_of_notifyTxOpportunity h₁]
        rfl
      | succ i =>
        obtain ⟨entry, hentry, heq⟩ := hentries i bsr₀ hi
        refine ⟨entry, hentry, heq.trans ?_⟩
        exact if_congr ((fitsFrom_succ bsr bsrs i).trans (and_iff_right hfits)).symm rfl rfl
    · -- nothing is taken any more, so that the guard fails for all that follow
      obtain ⟨entries, mac₂, h₂, hentries⟩ := ih h
      rw [if_neg hfits, h₂]
      refine ⟨_, mac₂, rfl, fun i bsr₀ hi => ?_⟩
      cases i with
      | zero => exact ⟨_, rfl, (if_neg fun hzero => hfits hzero.zero).symm⟩
      | succ i =>
        obtain ⟨entry, hentry, heq⟩ := hentries i bsr₀ hi
        refine ⟨entry, hentry, heq.trans ?_⟩
        rw [if_neg fun hrest => hfits hrest.zero, if_neg fun hsucc => hfits hsucc.zero]

/-! ## Fair shares -/

/-- What `SendTxData` is to do: every channel with new data is offered its share, and no more is
written off than was offered. -/
structure ServesActive (rlc : Rlc) (usefulTbs activeTx : Nat) (mac : NrUeMac) : Prop where
  served : ∀ (i : Nat) (bsr : Bsr), mac.ulBsrReceived[i]? = some bsr → 0 < bsr.txQueueSize →
    ∃ entries mac', mac.sendTxTraced rlc usefulTbs activeTx = some (entries, mac') ∧
      ∃ (entry : Bsr × Option Offer) (offer : Offer), entries[i]? = some entry ∧
        entry.2 = some offer ∧ offer.bytes = usefulTbs / activeTx
  writtenOff : ∀ entries mac', mac.sendTxTraced rlc usefulTbs activeTx = some (entries, mac') →
    ∀ (i : Nat) (entry : Bsr × Option Offer) (offer : Offer), entries[i]? = some entry →
      entry.2 = some offer → offer.recorded - offer.left ≤ offer.bytes

/-- With less than two bytes the subtraction wraps, and all of the queue is written off. -/
theorem offerOf_writtenOff (rlc : Rlc) (share : Nat) (bsr : Bsr) :
    (offerOf rlc share bsr).recorded - (offerOf rlc share bsr).left ≤ share ↔
      2 ≤ share ∨ rlc.recordedTx share bsr ≤ share := by
  unfold offerOf
  generalize rlc.recordedTx share bsr = queue
  dsimp only
  by_cases htwo : 2 ≤ share
  · have hless : (share + 2 ^ 32 - 2) % 2 ^ 32 ≤ share := by
      rw [show share + 2 ^ 32 - 2 = share - 2 + 2 ^ 32 by omega, Nat.add_mod_right]
      exact (Nat.mod_le _ _).trans (Nat.sub_le _ _)
    constructor
    · exact fun _ => Or.inl htwo
    · omega
  · rw [Nat.mod_eq_of_lt (by omega)]
    omega

/-- The traced loop has one entry for each channel. -/
theorem length_sendTraced {bsrs : List Bsr} {entries : List (Bsr × Option Offer)} {mac' : NrUeMac}
    (h : sendTraced rlc useful share bsrs mac = some (entries, mac')) :
    entries.length = bsrs.length := by
  induction bsrs generalizing mac entries with
  | nil =>
    cases h
    rfl
  | cons bsr bsrs ih =>
    unfold sendTraced at h
    split at h
    · obtain ⟨⟨bsr₁, mac₁⟩, -, h⟩ := Option.bind_eq_some_iff.mp h
      obtain ⟨⟨rest, mac₂⟩, hrest, h⟩ := Option.bind_eq_some_iff.mp h
      cases h
      exact congrArg (· + 1) (ih hrest)
    · obtain ⟨⟨rest, mac₂⟩, hrest, h⟩ := Option.bind_eq_some_iff.mp h
      cases h
      exact congrArg (· + 1) (ih hrest)

/-- Every active channel is served, and no more is written off than granted, if and only if the
answers of the channels before each active one leave room for its share, and the share has two
bytes or covers the queues. -/
theorem servesActive_iff {activeTx : Nat} (hready : mac.Ready) (hused : mac.ulDciTotalUsed = 0)
    (hactive : (mac.ulBsrReceived.countP fun bsr => 0 < bsr.txQueueSize) = activeTx) :
    mac.ServesActive rlc useful activeTx ↔ activeTx = 0 ∨
      ((∀ i bsr, mac.ulBsrReceived[i]? = some bsr → 0 < bsr.txQueueSize →
        FitsFrom rlc useful (useful / activeTx) 0 mac.ulBsrReceived i) ∧
      ∀ i bsr, mac.ulBsrReceived[i]? = some bsr →
        FitsFrom rlc useful (useful / activeTx) 0 mac.ulBsrReceived i →
          2 ≤ useful / activeTx ∨ rlc.recordedTx (useful / activeTx) bsr ≤ useful / activeTx) := by
  by_cases hzero : activeTx = 0
  · -- nothing is done, and there is no active channel
    rw [hzero, List.countP_eq_zero] at hactive
    refine iff_of_true ⟨?_, ?_⟩ (Or.inl hzero)
    · intro i bsr hi hpos
      exact absurd (decide_eq_true hpos) (hactive bsr (List.mem_of_getElem? hi))
    · intro entries mac' h i entry offer hentry hoffer
      unfold sendTxTraced at h
      rw [if_pos hzero] at h
      cases h
      obtain ⟨bsr, -, rfl⟩ := List.mem_map.mp (List.mem_of_getElem? hentry)
      cases hoffer
  · have hm : Metered mac 0 mac := ⟨hused, rfl, rfl, hready⟩
    obtain ⟨entries, mac', htraced, hentries⟩ :=
      hm.sendTraced rlc useful (useful / activeTx) mac.ulBsrReceived
    have hlen := length_sendTraced htraced
    have hout : mac.sendTxTraced rlc useful activeTx =
        some (entries, { mac' with ulBsrReceived := entries.map Prod.fst }) := by
      unfold sendTxTraced
      rw [if_neg hzero, htraced]
      rfl
    rw [or_iff_right hzero]
    constructor
    · intro hserves
      constructor
      · intro i bsr hi hpos
        obtain ⟨entries', mac'', heq, entry, offer, hentry, hoffer, -⟩ :=
          hserves.served i bsr hi hpos
        rw [hout] at heq
        cases heq
        obtain ⟨entry', hentry', heq⟩ := hentries i bsr hi
        rw [hentry'] at hentry
        cases hentry
        by_contra hfits
        rw [if_neg hfits, hoffer] at heq
        cases heq
      · intro i bsr hi hfits
        obtain ⟨entry, hentry, heq⟩ := hentries i bsr hi
        rw [if_pos hfits] at heq
        exact (offerOf_writtenOff rlc _ bsr).mp (hserves.writtenOff _ _ hout i entry _ hentry heq)
    · rintro ⟨hfits, hless⟩
      constructor
      · intro i bsr hi hpos
        obtain ⟨entry, hentry, heq⟩ := hentries i bsr hi
        rw [if_pos (hfits i bsr hi hpos)] at heq
        exact ⟨entries, _, hout, entry, _, hentry, heq, rfl⟩
      · intro entries' mac'' heq i entry offer hentry hoffer
        rw [hout] at heq
        cases heq
        obtain ⟨hlt, -⟩ := List.getElem?_eq_some_iff.mp hentry
        rw [hlen] at hlt
        have hi := List.getElem?_eq_getElem hlt
        obtain ⟨entry', hentry', heq⟩ := hentries i _ hi
        rw [hentry'] at hentry
        cases hentry
        rw [hoffer] at heq
        by_cases hroom : FitsFrom rlc useful (useful / activeTx) 0 mac.ulBsrReceived i
        · rw [if_pos hroom] at heq
          cases heq
          exact (offerOf_writtenOff rlc _ _).mpr (hless i _ hi hroom)
        · rw [if_neg hroom] at heq
          cases heq

/-- Two channels with new data. -/
def twoChannels : NrUeMac where
  cgScheduling := false
  numHarqProcess := 1
  currentSlot := ⟨0, 0, 0, 0⟩
  ulBsrReceived := [{ lcid := 4, txQueueSize := 100 }, { lcid := 5, txQueueSize := 100 }]

/-- RLC entities that leave the bytes of the sub-header free get their shares. -/
theorem twoChannels_served : twoChannels.ServesActive (fun _ _ bytes => { pdus := [bytes] }) 20 2 :=
  (@servesActive_iff twoChannels _ 20 2 ⟨{}, [], rfl, rfl⟩ rfl (by decide)).mpr
    (Or.inr ⟨fun i _ hi _ =>
      match i, (List.getElem?_eq_some_iff.mp hi).1 with
      | 0, _ => by decide
      | 1, _ => by decide, fun _ _ _ _ => Or.inl (by decide)⟩)

/-- If the first channel fills its ten bytes, the second one is passed over. -/
theorem twoChannels_starved : ¬ ∀ (mac : NrUeMac) (rlc : Rlc) (useful activeTx : Nat), rlc.OnePdu →
    mac.Ready → mac.ulDciTotalUsed = 0 →
      (mac.ulBsrReceived.countP fun bsr => 0 < bsr.txQueueSize) = activeTx →
        mac.ServesActive rlc useful activeTx := by
  intro h
  have hserves := h twoChannels fillTx 20 2 fillTx_onePdu ⟨{}, [], rfl, rfl⟩ rfl (by decide)
  obtain ⟨entries, mac', heq, entry, offer, hentry, hoffer, -⟩ :=
    hserves.served 1 { lcid := 5, txQueueSize := 100 } rfl (by decide)
  cases heq
  cases hentry
  cases hoffer

end NrUeMac

end Ns3.Nr.UeMac
