import Ns3.Nr.UeMac.GrantTable

/-!
# Packets for the configured grants

A grant is moved on when its occasion finds the MAC in `SCH_CG_DATA`. A DCI that leaves the
buffer empty brings the MAC to `ACTIVE_CG`, the slot after the last occasion brings it there
again, and a packet brings it from there to `SCH_CG_DATA` (`Advanced`), where it stays until the
occasions of the period have passed. So the grants never expire if a packet comes in time for
each period (`NrUeMac.Fed`): `grants_never_expire`.
-/

namespace Ns3.Nr.UeMac

open Lib SfnSf

namespace NrUeMac

variable {c : CgConf} {g : Grants} {t m k j : Nat} {mac mac' : NrUeMac} {rlc : Rlc}

/-! ## Packets -/

/-- An RLC entity reports a packet. -/
def Arrives (es : List Event) : Prop := ∃ order params, .reportBufferStatus order params ∈ es

/-- The MAC after the DCI of a grant in its slot, in which the events `after` come later. -/
def AfterDci (c : CgConf) (g : Grants) (rlc : Nat → Rlc) (input : Nat → List Event) (mac : NrUeMac)
    (i : Nat) (after : List Event) (mac' : NrUeMac) : Prop :=
  ∃ before rlc' kDelay mac₁,
    input (g.received i) = before ++ .ulDci rlc' (g.dci i) kDelay :: after ∧
    mac.runSlots c.mu rlc input (g.received i) = some mac₁ ∧
    mac₁.run (.slotIndication (rlc (g.received i)) (slotAt c.mu (g.received i)) ::
      (before ++ [.ulDci rlc' (g.dci i) kDelay])) = some mac'

/-- The DCI of a grant, for new data, leaves the buffer empty, and the later ones do not. -/
structure Empties (c : CgConf) (g : Grants) (rlc : Nat → Rlc) (input : Nat → List Event)
    (mac : NrUeMac) (i : Nat) (after : List Event) : Prop where
  lt : i < g.n
  newData : (g.dci i).ndi[0]? = some 1
  empty : ∃ mac', mac.AfterDci c g rlc input i after mac' ∧ mac'.totalBufSize = 0
  later : ∀ i' < g.n, i < i' → ∀ after' mac', mac.AfterDci c g rlc input i' after' mac' →
    mac'.totalBufSize ≠ 0

/-- A packet comes between the last DCI that leaves the buffer empty and the first occasion, and
in each later period up to `last` between the last occasion of the period before and the first
occasion. -/
structure Fed (c : CgConf) (g : Grants) (rlc : Nat → Rlc) (input : Nat → List Event)
    (mac : NrUeMac) (last : Nat) : Prop where
  first : c.occasion g 0 ≤ last → ∃ i after, mac.Empties c g rlc input i after ∧
    (Arrives after ∨ ∃ x, g.received i < x ∧ x < c.occasion g 0 ∧ Arrives (input x))
  later : ∀ k, c.occasion g 0 + (k + 1) * c.period ≤ last →
    ∃ x, c.occasion g (g.n - 1) + k * c.period < x ∧ x < c.occasion g 0 + (k + 1) * c.period ∧
      Arrives (input x)

/-- The state after events of a MAC that has left the states of the configuration: a packet
brings it to `SCH_CG_DATA`, where it stays. -/
structure Advanced (mac mac' : NrUeMac) (arrives : Prop) : Prop where
  configured : mac'.Configured
  sch : mac.srStateConfiguredGrant = .SCH_CG_DATA ∨ arrives →
    mac'.srStateConfiguredGrant = .SCH_CG_DATA

theorem Advanced.of_same (hconf : mac.Configured)
    (hsame : mac'.srStateConfiguredGrant = mac.srStateConfiguredGrant) :
    Advanced mac mac' False := by
  constructor
  · unfold Configured
    rw [hsame]
    exact hconf
  · rintro (hsch | hfalse)
    · exact hsame.trans hsch
    · exact hfalse.elim

theorem Advanced.trans {mac₁ : NrUeMac} {p p' : Prop} (h : Advanced mac mac₁ p)
    (h' : Advanced mac₁ mac' p') : Advanced mac mac' (p ∨ p') := by
  refine ⟨h'.configured, ?_⟩
  rintro (hsch | hp | hp)
  · exact h'.sch (Or.inl (h.sch (Or.inl hsch)))
  · exact h'.sch (Or.inl (h.sch (Or.inr hp)))
  · exact h'.sch (Or.inr hp)

theorem Advanced.mono {p p' : Prop} (h : Advanced mac mac' p) (himp : p' → p) :
    Advanced mac mac' p' :=
  ⟨h.configured, fun hor => h.sch (hor.imp_right himp)⟩

/-- After a report a MAC that has left the states of the configuration is in `SCH_CG_DATA`. -/
theorem sch_of_reported (hcg : mac.cgScheduling = true) (hconf : mac.Configured)
    (hm : mac'.machine = mac.machine.reported) : mac'.srStateConfiguredGrant = .SCH_CG_DATA := by
  have hstate : mac'.srStateConfiguredGrant = mac.machine.reported.srStateConfiguredGrant :=
    congrArg Machine.srStateConfiguredGrant hm
  rw [hstate]
  unfold Machine.reported machine
  rcases hconf with hstate | hstate
  · simp [hcg, hstate]
  · simp [hcg, hstate]

theorem cgScheduling_doReportBufferStatus (mac : NrUeMac) (order : BsrOrder) (params : Bsr) :
    (mac.doReportBufferStatus order params).cgScheduling = mac.cgScheduling :=
  congrArg Fixed.cgScheduling
    (kept_reported { mac with ulBsrReceived := updateBsr order params mac.ulBsrReceived }).fixed

theorem Advanced.run_none (hcg : mac.cgScheduling = true) (hconf : mac.Configured)
    {es : List Event} (hslot : ∀ e ∈ es, e.isSlot = false) (hdcis : dcis es = [])
    (hmac' : mac.run es = some mac') : Advanced mac mac' (Arrives es) := by
  induction es generalizing mac with
  | nil =>
    cases hmac'
    refine (Advanced.of_same hconf rfl).mono ?_
    rintro ⟨order, params, hmem⟩
    cases hmem
  | cons e es ih =>
    rw [NrUeMac.run, List.foldlM_cons] at hmac'
    obtain ⟨mac₁, h₁, h₂⟩ := Option.bind_eq_some_iff.mp hmac'
    have hrest := fun e he => hslot e (List.mem_cons_of_mem _ he)
    cases e with
    | reportBufferStatus order params =>
      cases h₁
      have hsch := @sch_of_reported mac _ hcg hconf
        (machine_reported { mac with ulBsrReceived := updateBsr order params mac.ulBsrReceived })
      have hone : Advanced mac (mac.doReportBufferStatus order params) True :=
        ⟨Or.inr hsch, fun _ => hsch⟩
      have htail := ih ((cgScheduling_doReportBufferStatus mac order params).trans hcg)
        (Or.inr hsch) hrest hdcis h₂
      exact (hone.trans htail).mono fun _ => Or.inl trivial
    | slotIndication rlc sfn => cases hslot _ List.mem_cons_self
    | recvRaResponse rnti =>
      cases h₁
      have hone : Advanced mac (mac.recvRaResponse rnti) False := Advanced.of_same hconf rfl
      have htail := ih (show (mac.recvRaResponse rnti).cgScheduling = true from hcg) hconf hrest
        hdcis h₂
      refine (hone.trans htail).mono ?_
      rintro ⟨order, params, hmem⟩
      rcases List.mem_cons.mp hmem with heq | hmem
      · cases heq
      · exact Or.inr ⟨order, params, hmem⟩
    | ulDci rlc dci kDelay => cases hdcis

theorem storeGrant_machine (h : mac.storeGrant = some mac') :
    mac'.machine = mac.machine ∧ mac'.ulDci = mac.ulDci := by
  unfold NrUeMac.storeGrant at h
  split at h
  · dsimp only at h
    split at h
    · cases h
      exact ⟨rfl, rfl⟩
    · cases h
      exact ⟨rfl, rfl⟩
  · cases h

/-- A DCI that leaves the buffer empty brings the MAC to `ACTIVE_CG`, and one that does not
changes the state only by reports. -/
theorem processUlDci_cases (hcg : mac.cgScheduling = true) {dci : DciInfoElementTdma} {kDelay : Nat}
    (hmac' : mac.processUlDci rlc dci kDelay = some mac') :
    mac'.cgScheduling = true ∧
      (dci.ndi[0]? = some 1 → mac'.totalBufSize = 0 → mac'.srStateConfiguredGrant = .ACTIVE_CG) ∧
      (mac'.totalBufSize ≠ 0 → mac.Configured → Advanced mac mac' False) := by
  obtain ⟨mac₁, h₁, hmac'⟩ := Option.bind_eq_some_iff.mp hmac'
  have hcg' : (mac.setUlDci (mac.currentSlot.add kDelay) dci).cgScheduling = true := hcg
  rw [if_pos hcg'] at h₁
  obtain ⟨hm₁, hdci⟩ := storeGrant_machine h₁
  have hcg₁ : mac₁.cgScheduling = true := (congrArg Machine.cgScheduling hm₁).trans hcg
  have hstate₁ : mac₁.srStateConfiguredGrant = mac.srStateConfiguredGrant :=
    congrArg Machine.srStateConfiguredGrant hm₁
  obtain ⟨hkept, m, hsent, hm⟩ :=
    transmit_cases ulBsrReceived_emptied machine_emptied kept_emptied hmac'
  have hmcg : m.cgScheduling = true := by
    rcases hsent with ⟨rfl, -⟩ | rfl
    · exact hcg₁
    · have hrep := congrArg Machine.cgScheduling (machine_reported mac₁)
      exact hrep.symm.trans
        ((congrArg Fixed.cgScheduling (kept_reported mac₁).fixed).trans hcg₁)
  refine ⟨(congrArg Fixed.cgScheduling hkept.fixed).trans hcg₁, ?_, ?_⟩
  · intro hndi hempty
    rcases hm with ⟨-, hleft⟩ | ⟨-, hm⟩
    · rw [hdci] at hleft
      exact absurd hempty (hleft hndi)
    · have hstate := congrArg Machine.srStateConfiguredGrant hm
      unfold Machine.emptied at hstate
      rw [if_pos hmcg] at hstate
      exact hstate
  · intro hleft hconf
    rcases hm with ⟨hm, -⟩ | ⟨hempty, -⟩
    · have hconf₁ : mac₁.Configured := by
        unfold Configured
        rw [hstate₁]
        exact hconf
      rcases hsent with ⟨hsame, -⟩ | hrep
      · refine Advanced.of_same hconf ?_
        exact (congrArg Machine.srStateConfiguredGrant (hm.trans hsame)).trans hstate₁
      · have hsch := sch_of_reported hcg₁ hconf₁ (hm.trans hrep)
        exact ⟨Or.inr hsch, fun _ => hsch⟩
    · exact absurd hempty hleft

/-- A list of events with one DCI. -/
theorem exists_of_dcis {es : List Event} {dci : DciInfoElementTdma} (h : dcis es = [dci]) :
    ∃ before rlc kDelay after, es = before ++ .ulDci rlc dci kDelay :: after ∧ dcis before = [] ∧
      dcis after = [] := by
  induction es with
  | nil => cases h
  | cons e es ih =>
    cases e with
    | ulDci rlc dci' kDelay =>
      obtain ⟨rfl, hrest⟩ := List.cons_eq_cons.mp h
      exact ⟨[], rlc, kDelay, es, rfl, rfl, hrest⟩
    | reportBufferStatus order params =>
      obtain ⟨before, rlc, kDelay, after, rfl, hbefore, hafter⟩ := ih h
      exact ⟨_ :: before, rlc, kDelay, after, rfl, hbefore, hafter⟩
    | slotIndication rlc' sfn =>
      obtain ⟨before, rlc, kDelay, after, rfl, hbefore, hafter⟩ := ih h
      exact ⟨_ :: before, rlc, kDelay, after, rfl, hbefore, hafter⟩
    | recvRaResponse rnti =>
      obtain ⟨before, rlc, kDelay, after, rfl, hbefore, hafter⟩ := ih h
      exact ⟨_ :: before, rlc, kDelay, after, rfl, hbefore, hafter⟩

theorem dcis_append (es fs : List Event) : dcis (es ++ fs) = dcis es ++ dcis fs := by
  induction es with
  | nil => rfl
  | cons e es ih =>
    cases e with
    | ulDci rlc dci kDelay => exact congrArg (dci :: ·) ih
    | reportBufferStatus order params => exact ih
    | slotIndication rlc sfn => exact ih
    | recvRaResponse rnti => exact ih

section Fed

variable {rlc : Nat → Rlc} {input : Nat → List Event} {mac₁ mac₂ : NrUeMac}

theorem run_append {es fs : List Event} (h : mac.run (es ++ fs) = some mac') :
    ∃ mac₁, mac.run es = some mac₁ ∧ mac₁.run fs = some mac' := by
  rw [NrUeMac.run, List.foldlM_append] at h
  exact Option.bind_eq_some_iff.mp h

theorem run_cons {e : Event} {es : List Event} (h : mac.run (e :: es) = some mac') :
    ∃ mac₁, mac.step e = some mac₁ ∧ mac₁.run es = some mac' := by
  rw [NrUeMac.run, List.foldlM_cons] at h
  exact Option.bind_eq_some_iff.mp h

theorem run_eq_cons {e : Event} {es : List Event} (h : mac.step e = some mac₁)
    (h' : mac₁.run es = some mac') : mac.run (e :: es) = some mac' := by
  rw [NrUeMac.run, List.foldlM_cons]
  exact Option.bind_eq_some_iff.mpr ⟨mac₁, h, h'⟩

theorem run_eq_append {es fs : List Event} (h : mac.run es = some mac₁)
    (h' : mac₁.run fs = some mac') : mac.run (es ++ fs) = some mac' := by
  rw [NrUeMac.run, List.foldlM_append]
  exact Option.bind_eq_some_iff.mpr ⟨mac₁, h, h'⟩

theorem step_ulDci {rlc' : Rlc} {dci : DciInfoElementTdma} {kDelay : Nat}
    (h : mac.run [.ulDci rlc' dci kDelay] = some mac') :
    mac.processUlDci rlc' dci kDelay = some mac' := by
  obtain ⟨mac₁, h₁, h₂⟩ := run_cons h
  cases h₂
  exact h₁

theorem cgScheduling_run_none (hcg : mac.cgScheduling = true) {es : List Event}
    (hslot : ∀ e ∈ es, e.isSlot = false) (hdcis : dcis es = []) (hmac' : mac.run es = some mac') :
    mac'.cgScheduling = true := by
  induction es generalizing mac with
  | nil =>
    cases hmac'
    exact hcg
  | cons e es ih =>
    obtain ⟨mac₁, h₁, h₂⟩ := run_cons hmac'
    have hrest := fun e he => hslot e (List.mem_cons_of_mem _ he)
    cases e with
    | reportBufferStatus order params =>
      cases h₁
      exact ih ((cgScheduling_doReportBufferStatus mac order params).trans hcg) hrest hdcis h₂
    | slotIndication rlc sfn => cases hslot _ List.mem_cons_self
    | recvRaResponse rnti =>
      cases h₁
      exact ih (show (mac.recvRaResponse rnti).cgScheduling = true from hcg) hrest hdcis h₂
    | ulDci rlc dci kDelay => cases hdcis

/-- The events of a slot in which no DCI leaves the buffer empty. -/
theorem Advanced.slot (hcg : mac₂.cgScheduling = true) (hconf : mac₂.Configured)
    (hslot : ∀ e ∈ input t, e.isSlot = false)
    (hdcis : dcis (input t) = [] ∨ ∃ i, g.received i = t ∧ dcis (input t) = [g.dci i] ∧
      ∀ after mac', mac.AfterDci c g rlc input i after mac' → mac'.totalBufSize ≠ 0)
    (h₁ : mac.runSlots c.mu rlc input t = some mac₁)
    (h₂ : mac₁.step (.slotIndication (rlc t) (slotAt c.mu t)) = some mac₂)
    (hmac' : mac₂.run (input t) = some mac') : Advanced mac₂ mac' (Arrives (input t)) := by
  rcases hdcis with hnone | ⟨i, rfl, hone, hleft⟩
  · exact Advanced.run_none hcg hconf hslot hnone hmac'
  · obtain ⟨before, rlc', kDelay, after, heq, hbefore, hafter⟩ := exists_of_dcis hone
    rw [heq] at hslot hmac'
    have hslot₁ : ∀ e ∈ before, e.isSlot = false := fun e he => hslot e (List.mem_append_left _ he)
    have hslot₂ : ∀ e ∈ after, e.isSlot = false :=
      fun e he => hslot e (List.mem_append_right _ (List.mem_cons_of_mem _ he))
    obtain ⟨mac₃, h₃, hrest⟩ := run_append hmac'
    obtain ⟨mac₄, h₄, h₅⟩ := run_cons hrest
    have hcg₃ := cgScheduling_run_none hcg hslot₁ hbefore h₃
    have hadv₃ := Advanced.run_none hcg hconf hslot₁ hbefore h₃
    obtain ⟨hcg₄, -, hbytes⟩ := processUlDci_cases hcg₃ h₄
    have hsingle : mac₃.run [.ulDci rlc' (g.dci i) kDelay] = some mac₄ := run_eq_cons h₄ rfl
    have hne : mac₄.totalBufSize ≠ 0 :=
      hleft after mac₄ ⟨before, rlc', kDelay, mac₁, heq, h₁,
        run_eq_cons h₂ (run_eq_append h₃ hsingle)⟩
    have hadv₄ := hbytes hne hadv₃.configured
    have hadv₅ := Advanced.run_none hcg₄ hadv₄.configured hslot₂ hafter h₅
    refine ((hadv₃.trans hadv₄).trans hadv₅).mono ?_
    rintro ⟨order, params, hmem⟩
    rw [heq] at hmem
    rcases List.mem_append.mp hmem with hmem | hmem
    · exact Or.inl (Or.inl ⟨order, params, hmem⟩)
    · rcases List.mem_cons.mp hmem with hdci | hmem
      · cases hdci
      · exact Or.inr ⟨order, params, hmem⟩

/-- The events of the slot with the DCI that leaves the buffer empty. -/
theorem Empties.slot {i : Nat} {after : List Event} (h : mac.Empties c g rlc input i after)
    (hinput : Input g input) (hcg : mac₂.cgScheduling = true) (hreceived : g.received i = t)
    (h₁ : mac.runSlots c.mu rlc input t = some mac₁)
    (h₂ : mac₁.step (.slotIndication (rlc t) (slotAt c.mu t)) = some mac₂)
    (hmac' : mac₂.run (input t) = some mac') :
    mac'.Configured ∧ (Arrives after → mac'.srStateConfiguredGrant = .SCH_CG_DATA) := by
  subst hreceived
  obtain ⟨mac₄, ⟨before, rlc', kDelay, mac₁', heq, h₁', hrun⟩, hempty⟩ := h.empty
  obtain rfl := Option.some.inj (h₁.symm.trans h₁')
  obtain ⟨mac₂', h₂', hrun⟩ := run_cons hrun
  obtain rfl := Option.some.inj (h₂.symm.trans h₂')
  obtain ⟨mac₃, h₃, h₄⟩ := run_append hrun
  have hdcis := hinput.received i h.lt
  have hslot := hinput.isSlot (g.received i)
  rw [heq] at hdcis hslot hmac'
  rw [dcis_append, dcis] at hdcis
  have hlen := congrArg List.length hdcis
  rw [List.length_append, List.length_cons, List.length_singleton] at hlen
  have hbefore : dcis before = [] := List.eq_nil_of_length_eq_zero (by omega)
  have hafter : dcis after = [] := List.eq_nil_of_length_eq_zero (by omega)
  have hslot₁ : ∀ e ∈ before, e.isSlot = false := fun e he => hslot e (List.mem_append_left _ he)
  have hslot₂ : ∀ e ∈ after, e.isSlot = false :=
    fun e he => hslot e (List.mem_append_right _ (List.mem_cons_of_mem _ he))
  obtain ⟨hcg₄, hactive, -⟩ :=
    processUlDci_cases (cgScheduling_run_none hcg hslot₁ hbefore h₃) (step_ulDci h₄)
  have hstate := hactive h.newData hempty
  obtain ⟨mac₃', h₃', hrest⟩ := run_append hmac'
  obtain rfl := Option.some.inj (h₃.symm.trans h₃')
  obtain ⟨mac₄', h₄', h₅⟩ := run_cons hrest
  obtain rfl := Option.some.inj ((step_ulDci h₄).symm.trans h₄')
  have hadv := Advanced.run_none hcg₄ (Or.inl hstate) hslot₂ hafter h₅
  exact ⟨hadv.configured, fun harr => hadv.sch (Or.inr harr)⟩

/-- What the packets so far mean for a MAC that waits for the first occasion of a period. -/
structure Phase (c : CgConf) (g : Grants) (rlc : Nat → Rlc) (input : Nat → List Event)
    (mac₀ : NrUeMac) (t k j : Nat) (mac : NrUeMac) : Prop where
  first : k = 0 → j = 0 → ∀ i after, mac₀.Empties c g rlc input i after → g.received i < t →
    mac.Configured ∧
      (Arrives after ∨ (∃ x, g.received i < x ∧ x < t ∧ Arrives (input x)) →
        mac.srStateConfiguredGrant = .SCH_CG_DATA)
  later : ∀ k', k = k' + 1 → j = 0 → mac.Configured ∧
    ((∃ x, c.occasion g (g.n - 1) + k' * c.period < x ∧ x < t ∧ Arrives (input x)) →
      mac.srStateConfiguredGrant = .SCH_CG_DATA)

/-- A slot in which the machine moves on. -/
theorem Phase.advance (hconf : mac₁.Configured)
    (hsame : mac₂.srStateConfiguredGrant = mac₁.srStateConfiguredGrant)
    (hadv : mac₂.Configured → Advanced mac₂ mac' (Arrives (input t))) {p : Prop} {lo : Nat}
    (hsch : p ∨ (∃ x, lo < x ∧ x < t ∧ Arrives (input x)) →
      mac₁.srStateConfiguredGrant = .SCH_CG_DATA) :
    mac'.Configured ∧ (p ∨ (∃ x, lo < x ∧ x < t + 1 ∧ Arrives (input x)) →
      mac'.srStateConfiguredGrant = .SCH_CG_DATA) := by
  have hconf₂ : mac₂.Configured := by
    unfold Configured
    rw [hsame]
    exact hconf
  obtain ⟨hconf', hsch'⟩ := hadv hconf₂
  refine ⟨hconf', ?_⟩
  rintro (hp | ⟨x, hlo, hlt, harr⟩)
  · exact hsch' (Or.inl (hsame.trans (hsch (Or.inl hp))))
  · rcases Nat.lt_succ_iff_lt_or_eq.mp hlt with hlt | rfl
    · exact hsch' (Or.inl (hsame.trans (hsch (Or.inr ⟨x, hlo, hlt, harr⟩))))
    · exact hsch' (Or.inr harr)

theorem Phase.step {mac₀ : NrUeMac} {k' j' : Nat} (h : Phase c g rlc input mac₀ t k j mac₁)
    (hgrants : HasGrants c g t m k j mac₁) (hset : Setting c g) (hinput : Input g input)
    (hlater : ∀ i, m ≤ i → i < g.n → t ≤ g.received i)
    (hind : Indicated c g (rlc t) t m k j mac₁ k' j' mac₂) (hcg : mac₂.cgScheduling = true)
    (h₁ : mac₀.runSlots c.mu rlc input t = some mac₁)
    (h₂ : mac₁.step (.slotIndication (rlc t) (slotAt c.mu t)) = some mac₂)
    (hmac' : mac₂.run (input t) = some mac') : Phase c g rlc input mac₀ (t + 1) k' j' mac' := by
  have hpos := hset.rota.pos
  -- when all grants have been stored there are no more DCIs
  have hstored : m = g.n → mac₂.Configured → Advanced mac₂ mac' (Arrives (input t)) := by
    intro hm hconf
    refine Advanced.slot (g := g) hcg hconf (hinput.isSlot t) (Or.inl (hinput.others t ?_)) h₁ h₂
      hmac'
    intro i hi heq
    have := hgrants.received i (by omega)
    omega
  cases hind with
  | use =>
    exact ⟨fun _ hj => absurd hj (Nat.succ_ne_zero j), fun _ _ hj => absurd hj (Nat.succ_ne_zero j)⟩
  | back hm hj hpdus hactive =>
    refine ⟨fun hk => absurd hk (Nat.succ_ne_zero k), ?_⟩
    intro k'' hk _
    obtain rfl := Nat.succ.inj hk
    have ht := hgrants.turn.back hj
    obtain ⟨hconf, hsch⟩ := hstored hm (Or.inl hactive)
    refine ⟨hconf, ?_⟩
    rintro ⟨x, hlo, hlt, harr⟩
    obtain rfl : x = t := by omega
    exact hsch (Or.inr harr)
  | wait hj hne hpdus hsame =>
    constructor
    · intro hk hj0 i after hempties hreceived
      rcases Nat.lt_succ_iff_lt_or_eq.mp hreceived with hlt | heq
      · have him : i < m := by
          by_contra hge
          have := hlater i (by omega) hempties.lt
          omega
        obtain ⟨hconf, hsch⟩ := h.first hk hj0 i after hempties hlt
        refine Phase.advance hconf (hsame (by omega) hconf) ?_ hsch
        intro hconf₂
        refine Advanced.slot (g := g) hcg hconf₂ (hinput.isSlot t) ?_ h₁ h₂ hmac'
        by_cases hnow : ∃ i' < g.n, g.received i' = t
        · obtain ⟨i', hi', heq⟩ := hnow
          refine Or.inr ⟨i', heq, heq ▸ hinput.received i' hi', hempties.later i' hi' ?_⟩
          by_contra hge
          have := hgrants.received i' (by omega)
          omega
        · refine Or.inl (hinput.others t ?_)
          intro i' hi' heq
          exact hnow ⟨i', hi', heq⟩
      · obtain ⟨hconf, hsch⟩ := hempties.slot hinput hcg heq h₁ h₂ hmac'
        refine ⟨hconf, ?_⟩
        rintro (harr | ⟨x, hlo, hlt, -⟩)
        · exact hsch harr
        · omega
    · intro k'' hk hj0
      have hm : m = g.n := by
        by_contra hne'
        have := hgrants.early (by have := hgrants.le; omega)
        omega
      obtain ⟨hconf, hsch⟩ := h.later k'' hk hj0
      have hadv := Phase.advance (p := False) hconf (hsame (by omega) hconf)
        (hstored hm) fun hor => hsch (hor.resolve_left id)
      exact ⟨hadv.1, fun hex => hadv.2 (Or.inr hex)⟩

end Fed

/-- The grants after the first `t` slots; those that are still to come are received later. -/
theorem HasGrants.runSlots {rlc : Nat → Rlc} {input : Nat → List Event}
    (h : HasGrants c g 0 0 0 0 mac) (hset : Setting c g) (hinput : Input g input) {last : Nat}
    (hfed : mac.Fed c g rlc input last) (ht : t ≤ last + 1)
    (hmac' : mac.runSlots c.mu rlc input t = some mac') :
    ∃ m k j, HasGrants c g t m k j mac' ∧ Phase c g rlc input mac t k j mac' ∧
      ∀ i, m ≤ i → i < g.n → t ≤ g.received i := by
  induction t generalizing mac' with
  | zero =>
    cases hmac'
    refine ⟨0, 0, 0, h, ⟨fun _ _ i after _ hlt => absurd hlt (Nat.not_lt_zero _), ?_⟩,
      fun i _ _ => Nat.zero_le _⟩
    intro k' hk
    cases hk
  | succ t ih =>
    obtain ⟨mac₁, h₁, hmac'⟩ := Option.bind_eq_some_iff.mp hmac'
    obtain ⟨m, k, j, hgrants, hphase, hlater⟩ := ih (by omega) h₁
    rw [NrUeMac.run, List.foldlM_cons] at hmac'
    obtain ⟨mac₂, hstep, hmac'⟩ := Option.bind_eq_some_iff.mp hmac'
    have h₂ := hstep
    simp only [NrUeMac.step] at h₂
    rw [if_pos hgrants.cgScheduling] at h₂
    obtain ⟨⟨sch, mac₃⟩, h₃, rfl⟩ := Option.map_eq_some_iff.mp h₂
    have hreceived_lt : ∀ i i', i < i' → i' < g.n → g.received i < g.received i' := by
      intro i i' hii' hi'
      have := hset.rota.lt i i' hii' hi'
      unfold CgConf.occasion at this
      omega
    have hearly : m < g.n → t < c.occasion g 0 := fun hm =>
      (hlater m le_rfl hm).trans_lt (hset.received m hm)
    -- the packets of the period bring the MAC to `SCH_CG_DATA` in time
    have hpacket : m = g.n → j = 0 → c.next g k 0 0 = t →
        mac₁.srStateConfiguredGrant = .SCH_CG_DATA := by
      intro _ hj hnext
      rw [CgConf.next, deadline_of_le le_rfl] at hnext
      cases k with
      | zero =>
        rw [Nat.zero_mul, Nat.add_zero] at hnext
        obtain ⟨i, after, hempties, harr⟩ := hfed.first (by omega)
        rw [hnext] at harr
        have hreceived := hset.received i hempties.lt
        exact (hphase.first rfl hj i after hempties (by omega)).2 harr
      | succ k =>
        have hx := hfed.later k (by omega)
        rw [hnext] at hx
        exact (hphase.later k rfl hj).2 hx
    obtain ⟨⟨k', j', hnext, hind⟩, hcurrent, -⟩ := hgrants.slotIndication hset hearly hpacket h₃
    have hphase' := hphase.step hgrants hset hinput hlater hind hnext.cgScheduling h₁ hstep hmac'
    by_cases hnow : m < g.n ∧ g.received m = t
    · obtain ⟨hm, hreceived⟩ := hnow
      have hdcis : dcis (input t) = [g.dci m] := hreceived ▸ hinput.received m hm
      refine ⟨m + 1, k', j', hnext.run_one hset hcurrent hm hreceived (hinput.isSlot t) hdcis hmac',
        hphase', ?_⟩
      intro i hi hin
      have := hreceived_lt m i hi hin
      omega
    · have hdcis : dcis (input t) = [] := by
        apply hinput.others
        intro i hi heq
        rcases Nat.lt_trichotomy i m with hlt | heq' | hgt
        · have := hgrants.received i hlt
          omega
        · exact hnow ⟨heq' ▸ hi, heq' ▸ heq⟩
        · have := hreceived_lt m i hgt hi
          have := hlater m le_rfl (hgt.trans hi)
          omega
      refine ⟨m, k', j', hnext.run_none (hinput.isSlot t) hdcis hmac', hphase', ?_⟩
      intro i hi hin
      have hle := hlater i hi hin
      rcases Nat.eq_or_lt_of_le hle with heq | hlt
      · rcases Nat.eq_or_lt_of_le hi with him | him
        · exact absurd ⟨him ▸ hin, him ▸ heq.symm⟩ hnow
        · have := hreceived_lt m i him hin
          have := hlater m le_rfl (him.trans hin)
          omega
      · exact hlt

/-- Each grant has one entry, for its next occasion from `t` on, and there are no other entries. -/
def GrantsNext (c : CgConf) (g : Grants) (t : Nat) (mac : NrUeMac) : Prop :=
  ∃ next : Nat → Nat, (∀ i < g.n, IsNext (c.occasion g i) c.period t (next i)) ∧
    mac.dciCgMap.Holds g.n (fun i => c.key g (next i) i) g.dci ∧
    ∀ i < g.n, ∀ i' < g.n, c.key g (next i) i = c.key g (next i') i' → i = i'

theorem HasGrants.grantsNext (h : HasGrants c g t g.n k j mac) (hset : Setting c g) :
    mac.GrantsNext c g t :=
  ⟨c.next g k j, fun _ hi => h.turn.isNext hset.rota hi, h.table,
    fun _ hi _ hi' heq => h.nextKey_inj hset hi hi' heq⟩

end NrUeMac

/-! ## Result -/

theorem grants_never_expire {c : CgConf} {g : Grants} (hset : Setting c g) (numHarqProcess : Nat)
    (slot : SfnSf) {rlc : Nat → Rlc} {input : Nat → List Event} (hinput : Input g input) {t : Nat}
    (ht : c.occasion g (g.n - 1) ≤ t)
    (hfed : (start true c.configurationTime c.cgPeriod numHarqProcess slot).Fed c g rlc input t)
    {mac : NrUeMac}
    (hrun : (start true c.configurationTime c.cgPeriod numHarqProcess slot).runSlots c.mu rlc input
      (t + 1) = some mac) : mac.GrantsNext c g (t + 1) := by
  obtain ⟨m, k, j, h, -, hlater⟩ := (NrUeMac.HasGrants.start hset numHarqProcess slot).runSlots hset
    hinput hfed le_rfl hrun
  have hm : m = g.n := by
    rcases Nat.eq_or_lt_of_le h.le with hm | hm
    · exact hm
    · have hle := hlater m le_rfl hm
      have hlt := hset.received m hm
      have := (hset.rota.spread (show g.n - 1 < g.n by omega)).1
      omega
  rw [hm] at h
  exact h.grantsNext hset

/-! ## Examples of runs -/

/-- Numerology 0, the first occasion three slots after the DCI, and a period of ten slots. -/
def oneGrantConf : CgConf := ⟨0, 8, 10⟩

/-- A grant of 200 bytes, received in slot 1. -/
def oneGrant : Grants := ⟨1, fun _ => 1, fun _ => { ndi := [1], tbSize := [200] }⟩

/-- A packet before the DCI. -/
def oneGrantInput : Nat → List Event
  | 0 => [.recvRaResponse 1, .reportBufferStatus bsrFirst ⟨3, 100, 0, 0⟩]
  | 1 => [.ulDci greedy (oneGrant.dci 0) 2]
  | _ => []

/-- A second grant of 200 bytes, received in slot 2. -/
def twoGrants : Grants := ⟨2, fun i => i + 1, fun _ => { ndi := [1], tbSize := [200] }⟩

theorem twoGrants_setting : Setting oneGrantConf twoGrants := by
  constructor
  · decide
  · decide
  · decide
  · constructor
    · decide
    · intro i j hij hj
      change i + 1 + 3 < j + 1 + 3
      omega
    · decide
  · decide

/-- A packet in slot 0 and the DCIs; packets in the slots 3 and 8. -/
def twoGrantsInput : Nat → List Event
  | 0 => [.recvRaResponse 1, .reportBufferStatus bsrFirst ⟨3, 100, 0, 0⟩]
  | 1 => [.ulDci greedy (twoGrants.dci 0) 2]
  | 2 => [.ulDci greedy (twoGrants.dci 1) 2]
  | 3 => [.reportBufferStatus bsrFirst ⟨3, 100, 0, 0⟩]
  | 8 => [.reportBufferStatus bsrFirst ⟨3, 100, 0, 0⟩]
  | _ => []

theorem twoGrantsInput_input : Input twoGrants twoGrantsInput := by
  constructor
  · intro t e he
    unfold twoGrantsInput at he
    split at he
    · simp only [List.mem_cons, List.not_mem_nil, or_false] at he
      rcases he with rfl | rfl <;> rfl
    · rw [List.mem_singleton.mp he]
      rfl
    · rw [List.mem_singleton.mp he]
      rfl
    · rw [List.mem_singleton.mp he]
      rfl
    · rw [List.mem_singleton.mp he]
      rfl
    · cases he
  · intro i hi
    have hlt : i < 2 := hi
    rcases (show i = 0 ∨ i = 1 by omega) with rfl | rfl
    · rfl
    · rfl
  · intro t ht
    have h1 : 1 ≠ t := ht 0 (by decide)
    have h2 : 2 ≠ t := ht 1 (by decide)
    unfold twoGrantsInput
    split
    · rfl
    · exact absurd rfl h1
    · exact absurd rfl h2
    · rfl
    · rfl
    · rfl

/-- The second DCI leaves the buffer empty, the packet of slot 3 is for the occasions in the slots
4 and 5, and the one of slot 8 for those in the slots 14 and 15. -/
theorem twoGrantsInput_fed :
    (start true 8 10 20 ⟨0, 0, 0, 0⟩).Fed oneGrantConf twoGrants (fun _ => greedy) twoGrantsInput
      15 := by
  constructor
  · intro _
    refine ⟨1, [], ⟨by decide, rfl, ?_, ?_⟩,
      Or.inr ⟨3, by decide, by decide, _, _, List.mem_cons_self⟩⟩
    · exact ⟨_, ⟨[], greedy, 2, _, rfl, rfl, rfl⟩, rfl⟩
    · intro i' hi' hlt
      have hn : i' < 2 := hi'
      omega
  · intro k hk
    have hk0 : k = 0 := by
      have : oneGrantConf.occasion twoGrants 0 + (k + 1) * oneGrantConf.period =
        4 + (k + 1) * 10 := rfl
      omega
    rw [hk0]
    exact ⟨8, by decide, by decide, _, _, List.mem_cons_self⟩

/-- After two periods the grants are in the table for the slots 24 and 25. -/
theorem grants_never_expire_packet :
    ∃ mac, (start true 8 10 20 ⟨0, 0, 0, 0⟩).runSlots 0 (fun _ => greedy) twoGrantsInput 16 =
      some mac ∧ mac.GrantsNext oneGrantConf twoGrants 16 ∧
      mac.dciCgMap.lookup (oneGrantConf.key twoGrants 24 0) = some (twoGrants.dci 0) ∧
      mac.dciCgMap.lookup (oneGrantConf.key twoGrants 25 1) = some (twoGrants.dci 1) := by
  obtain ⟨mac, hmac⟩ : ∃ mac, (start true 8 10 20 ⟨0, 0, 0, 0⟩).runSlots 0 (fun _ => greedy)
      twoGrantsInput 16 = some mac := ⟨_, rfl⟩
  refine ⟨mac, hmac, grants_never_expire twoGrants_setting 20 ⟨0, 0, 0, 0⟩ twoGrantsInput_input
    (by decide) twoGrantsInput_fed hmac, ?_⟩
  cases hmac
  exact ⟨by decide, by decide⟩

/-- Without a packet the occasion in slot 4 passes, and the table still has the grant for it. -/
theorem grant_expired :
    ∃ mac, (start true 8 10 20 ⟨0, 0, 0, 0⟩).runSlots 0 (fun _ => greedy) oneGrantInput 5 =
      some mac ∧ mac.dciCgMap.lookup (oneGrantConf.key oneGrant 4 0) = some (oneGrant.dci 0) ∧
      mac.dciCgMap.lookup (oneGrantConf.key oneGrant 14 0) = none := by
  exact ⟨_, rfl, by decide, by decide⟩

end Ns3.Nr.UeMac
