import Mathlib
import Ns3.Lib.Promises
import Ns3.Mpi.NullMessageEvents

/-!
# The guarantees of the null message algorithm

In every interleaving of the ranks, each rank is behind what the others guarantee to it, and each
message on its way keeps the guarantees that went before it.
-/

namespace Ns3.Mpi

open Ns3.Core

namespace NullMessageSystem

open Lib NullMessageSimulatorImpl

variable {n m : ℕ} {net : NullMessageNetwork n m} {s s' : NullMessageSystem n m} {i j : Fin n}
  {r : NullMessageSimulatorImpl n m} {phase : NullPhase n} {msg : NullMessage}

/-- A packet is received at or after the guarantee. -/
def Keeps (guarantee : ℕ) (msg : NullMessage) : Prop := msg.rxTime = 0 ∨ guarantee ≤ msg.rxTime

theorem Keeps.anti {a b : ℕ} (hab : a ≤ b) (h : Keeps b msg) : Keeps a msg := h.imp_right hab.trans

/-- The guarantee that the rank `i` gave last to `j`. -/
def promised (s : NullMessageSystem n m) (i j : Fin n) : ℕ :=
  lastPromise NullMessage.guaranteeUpdate ((s.impl j).m_guaranteeTime i) (s.channel i j)

structure Inv (net : NullMessageNetwork n m) (s : NullMessageSystem n m) : Prop where
  rank : ∀ i, NullMessageSimulatorImpl.RankInv net i (s.impl i) (s.phase i) (s.promised i)
  ascends : ∀ i j, Ascends NullMessage.guaranteeUpdate Keeps ((s.impl j).m_guaranteeTime i)
    (s.channel i j)
  inTime : ∀ i j, ∀ msg ∈ s.channel i j, msg.rxTime ≤ maximumSimulationTime
  bundle : ∀ i j, s.channel i j ≠ [] → net.Bundle i j
  toCome : ∀ i bundles, s.phase i = .initializing bundles → ∀ j ∈ bundles, net.Bundle i j

theorem inv_start (net : NullMessageNetwork n m) : Inv net (start n m) where
  rank i := by
    have hnone : ∀ ev, ev ∉ ((start n m).impl i).events := fun _ hev => by cases hev
    constructor
    case base =>
      refine ⟨le_rfl, fun ev hev => absurd hev (hnone ev), fun _ _ => le_rfl, Nat.zero_le _,
        fun ev hev => absurd hev (hnone ev), fun ev hev => absurd hev (hnone ev), ?_⟩
      intro j obj hobj
      cases hobj
    case place =>
      refine ⟨fun _ => ⟨rfl, rfl, fun _ => rfl⟩, fun _ j hj _ => ⟨j, hj, rfl⟩, fun hw => ?_⟩
      cases hw
    case peer => exact fun j _ => PeerInv.of_early (Nat.zero_le _) fun hinit => hinit.elim
  ascends _ _ := trivial
  inTime _ _ _ hmsg := by cases hmsg
  bundle _ _ h := absurd rfl h
  toCome _ _ h := by cases h

/-! ## Frames -/

@[simp] theorem set_impl : (s.set i r phase).impl = Function.update s.impl i r := rfl

@[simp] theorem set_phase : (s.set i r phase).phase = Function.update s.phase i phase := rfl

@[simp] theorem set_channel : (s.set i r phase).channel = s.channel := rfl

@[simp] theorem send_impl : (s.send i j msg).impl = s.impl := rfl

@[simp] theorem send_phase : (s.send i j msg).phase = s.phase := rfl

/-- One entry of a table changes. -/
theorem update_update_apply {α : Type*} (f : Fin n → Fin n → α) (i j a b : Fin n) (x : α) :
    Function.update f i (Function.update (f i) j x) a b = if a = i ∧ b = j then x else f a b := by
  by_cases ha : a = i
  · subst ha
    rw [Function.update_self]
    by_cases hb : b = j
    · subst hb
      rw [Function.update_self, if_pos ⟨rfl, rfl⟩]
    · rw [Function.update_of_ne hb, if_neg fun hab => hb hab.2]
  · rw [Function.update_of_ne ha, if_neg fun hab => ha hab.1]

theorem send_channel (a b : Fin n) : (s.send i j msg).channel a b =
    if a = i ∧ b = j then s.channel i j ++ [msg] else s.channel a b :=
  update_update_apply s.channel i j a b _

/-- The other ranks have what they had from this one. -/
theorem set_guarantee (hg : r.m_guaranteeTime = (s.impl i).m_guaranteeTime) (b : Fin n) :
    ((s.set i r phase).impl b).m_guaranteeTime = (s.impl b).m_guaranteeTime := by
  rw [set_impl]
  by_cases hb : b = i
  · subst hb
    rw [Function.update_self, hg]
  · rw [Function.update_of_ne hb]

theorem set_promised (hg : r.m_guaranteeTime = (s.impl i).m_guaranteeTime) (a b : Fin n) :
    (s.set i r phase).promised a b = s.promised a b := by
  unfold promised
  rw [set_guarantee hg, set_channel]

/-! ## Steps -/

/-- One rank changes, and what it promised. -/
theorem Inv.rank_update {p : Fin n → ℕ} (h : Inv net s)
    (hr : NullMessageSimulatorImpl.RankInv net i r phase p) (a : Fin n) :
    NullMessageSimulatorImpl.RankInv net a (Function.update s.impl i r a)
      (Function.update s.phase i phase a) (if a = i then p else s.promised a) := by
  by_cases ha : a = i
  · subst ha
    rw [Function.update_self, Function.update_self, if_pos rfl]
    exact hr
  · rw [Function.update_of_ne ha, Function.update_of_ne ha, if_neg ha]
    exact h.rank a

theorem Inv.toCome_update (h : Inv net s)
    (hcome : ∀ bundles, phase = .initializing bundles → ∀ j ∈ bundles, net.Bundle i j) (a : Fin n) :
    ∀ bundles, Function.update s.phase i phase a = .initializing bundles →
      ∀ j ∈ bundles, net.Bundle a j := by
  by_cases ha : a = i
  · subst ha
    rw [Function.update_self]
    exact hcome
  · rw [Function.update_of_ne ha]
    exact h.toCome a

/-- In the loop of `Run` all bundles have their null message event. -/
theorem toCome_of_not_early (h : phase.early = false) :
    ∀ bundles, phase = .initializing bundles → ∀ j ∈ bundles, net.Bundle i j := by
  rintro bundles rfl
  cases h

/-- A rank goes on, without a message. -/
theorem Inv.set (h : Inv net s) (hr : NullMessageSimulatorImpl.RankInv net i r phase (s.promised i))
    (hg : r.m_guaranteeTime = (s.impl i).m_guaranteeTime)
    (hcome : ∀ bundles, phase = .initializing bundles → ∀ j ∈ bundles, net.Bundle i j) :
    Inv net (s.set i r phase) where
  rank a := by
    have hp : (s.set i r phase).promised a = if a = i then s.promised i else s.promised a := by
      ext b
      rw [set_promised hg]
      split
      · next ha => rw [ha]
      · rfl
    rw [hp]
    exact h.rank_update hr a
  ascends a b := by
    rw [set_guarantee hg]
    exact h.ascends a b
  inTime := h.inTime
  bundle := h.bundle
  toCome := h.toCome_update hcome

/-- A rank goes on, and sends a message with a guarantee. -/
theorem Inv.gave (h : Inv net s) (hgave : Gave net i j (s.impl i) r phase (s.promised i) msg)
    (hj : net.Bundle i j) (hmax : msg.rxTime ≤ maximumSimulationTime)
    (hcome : ∀ bundles, phase = .initializing bundles → ∀ j ∈ bundles, net.Bundle i j) :
    Inv net ((s.set i r phase).send i j msg) where
  rank a := by
    have hp : ((s.set i r phase).send i j msg).promised a = if a = i then
        Function.update (s.promised i) j msg.guaranteeUpdate else s.promised a := by
      funext b
      unfold promised
      rw [send_channel, send_impl, set_guarantee hgave.guarantee, set_channel]
      by_cases ha : a = i
      · subst ha
        rw [if_pos rfl]
        by_cases hb : b = j
        · subst hb
          rw [if_pos ⟨rfl, rfl⟩, lastPromise_concat, Function.update_self]
        · rw [if_neg (fun hab => hb hab.2), Function.update_of_ne hb]
      · rw [if_neg (fun hab => ha hab.1), if_neg ha]
    rw [hp]
    exact h.rank_update hgave.inv a
  ascends a b := by
    rw [send_channel, send_impl, set_guarantee hgave.guarantee, set_channel]
    split
    · next hab =>
      obtain ⟨rfl, rfl⟩ := hab
      exact (h.ascends a b).concat hgave.ascends hgave.kept
    · exact h.ascends a b
  inTime a b msg' := by
    rw [send_channel, set_channel]
    split
    · intro hmsg
      rcases List.mem_append.mp hmsg with hmsg | hmsg
      · exact h.inTime i j msg' hmsg
      · rw [List.mem_singleton.mp hmsg]
        exact hmax
    · exact h.inTime a b msg'
  bundle a b := by
    rw [send_channel, set_channel]
    split
    · next hab =>
      obtain ⟨rfl, rfl⟩ := hab
      exact fun _ => hj
    · exact h.bundle a b
  toCome := h.toCome_update hcome

/-! ## Reception -/

/-- The first message from `j` is taken. -/
def take (s : NullMessageSystem n m) (i j : Fin n) (rest : List NullMessage) :
    NullMessageSystem n m :=
  { s with channel := Function.update s.channel j (Function.update (s.channel j) i rest) }

section Take

variable {rest : List NullMessage} (hc : s.channel j i = msg :: rest)
  (hg : r.m_guaranteeTime = Function.update (s.impl i).m_guaranteeTime j msg.guaranteeUpdate)
include hc hg

omit hc in
theorem take_guarantee (a b : Fin n) :
    (((s.take i j rest).set i r phase).impl b).m_guaranteeTime a =
    if a = j ∧ b = i then msg.guaranteeUpdate else (s.impl b).m_guaranteeTime a := by
  rw [set_impl]
  by_cases hb : b = i
  · subst hb
    rw [Function.update_self, hg]
    by_cases ha : a = j
    · subst ha
      rw [Function.update_self, if_pos ⟨rfl, rfl⟩]
    · rw [Function.update_of_ne ha, if_neg fun hab => ha hab.1]
  · rw [Function.update_of_ne hb, if_neg fun hab => hb hab.2]
    rfl

omit hc hg in
theorem take_channel (a b : Fin n) : ((s.take i j rest).set i r phase).channel a b =
    if a = j ∧ b = i then rest else s.channel a b :=
  update_update_apply s.channel j i a b rest

/-- The guarantee that was given last stays what it is. -/
theorem take_promised (a b : Fin n) :
    ((s.take i j rest).set i r phase).promised a b = s.promised a b := by
  unfold promised
  rw [take_guarantee hg, take_channel]
  split
  · next hab =>
    obtain ⟨rfl, rfl⟩ := hab
    rw [hc]
    rfl
  · rfl

theorem Inv.take (h : Inv net s)
    (hr : NullMessageSimulatorImpl.RankInv net i r phase (s.promised i))
    (hearly : phase.early = false) :
    Inv net ((s.take i j rest).set i r phase) where
  rank a := by
    have hp : ((s.take i j rest).set i r phase).promised a =
        if a = i then s.promised i else s.promised a := by
      ext b
      rw [take_promised hc hg]
      split
      · next ha => rw [ha]
      · rfl
    rw [hp]
    exact h.rank_update hr a
  ascends a b := by
    rw [take_guarantee hg, take_channel]
    split
    · next hab =>
      obtain ⟨rfl, rfl⟩ := hab
      have hascends := h.ascends a b
      rw [hc] at hascends
      exact hascends.2.2
    · exact h.ascends a b
  inTime a b msg' := by
    rw [take_channel]
    split
    · intro hmsg
      refine h.inTime j i msg' ?_
      rw [hc]
      exact List.mem_cons_of_mem _ hmsg
    · exact h.inTime a b msg'
  bundle a b := by
    rw [take_channel]
    split
    · next hab =>
      obtain ⟨rfl, rfl⟩ := hab
      intro _
      refine h.bundle a b ?_
      rw [hc]
      exact List.cons_ne_nil _ _
    · exact h.bundle a b
  toCome := h.toCome_update (toCome_of_not_early hearly)

end Take

theorem receiveMessage_guarantee : (r.receiveMessage j msg).m_guaranteeTime =
    Function.update r.m_guaranteeTime j msg.guaranteeUpdate := by
  unfold NullMessageSimulatorImpl.receiveMessage
  split <;> rfl

/-- A message is received in time. -/
theorem Inv.receive {rest : List NullMessage} (h : Inv net s) (hc : s.channel j i = msg :: rest)
    (hp : s.phase i = .polling ∨ s.phase i = .waiting)
    (hown : (s.impl i).callback msg.event = none) :
    Inv net (s.receive net i j msg rest) := by
  have hascends := h.ascends j i
  rw [hc] at hascends
  obtain ⟨hupdate, hkept, -⟩ := hascends
  have hmax : msg.rxTime ≤ maximumSimulationTime := by
    refine h.inTime j i msg ?_
    rw [hc]
    exact List.mem_cons_self
  have hj : net.Bundle i j := by
    refine (h.bundle j i ?_).symm
    rw [hc]
    exact List.cons_ne_nil _ _
  have hpoll : NullMessageSimulatorImpl.RankInv net i (s.impl i) .polling (s.promised i) := by
    refine (h.rank i).move (fun hcalls => ?_) (fun k => ?_) rfl .polling
    · cases hcalls
    · rcases hp with hp | hp
      · rw [hp]
        trivial
      · rw [hp]
        trivial
  have hr := hpoll.receiveMessage hj hupdate hkept hmax hown
  unfold NullMessageSystem.receive
  dsimp only
  split
  · exact Inv.take hc receiveMessage_guarantee h hr.calculateSafeTime rfl
  · exact Inv.take hc receiveMessage_guarantee h hr rfl

/-! ## The head of the loop -/

theorem nullMessageEventHandler_rxTime {r' : NullMessageSimulatorImpl n m} {obj : ℕ}
    (h : r.nullMessageEventHandler net i j obj = some (r', msg)) : msg.rxTime = 0 := by
  obtain ⟨time, -, heq⟩ := Option.bind_eq_some_iff.mp h
  cases heq
  rfl

/-- `ProcessOneEvent`, when the next event is not after the safe time. -/
theorem Inv.processOneEvent {obj next : ℕ} (h : Inv net s) (hp : s.phase i = .head)
    (hfresh : (s.impl i).Fresh obj) (hrange : (s.impl i).InRange net i)
    (hnext : (s.impl i).simulator.peekTs = some next) (hle : next ≤ (s.impl i).m_safeTime)
    (hs : s.processOneEvent net i obj = some s') : Inv net s' := by
  have hrank := h.rank i
  rw [hp] at hrank
  obtain ⟨⟨ev, simulator⟩, ht, hs⟩ := Option.bind_eq_some_iff.mp hs
  have hsafe : ev.key.m_ts ≤ (s.impl i).m_safeTime := by
    rw [peekTs_of_takeEvent ht, Option.some.injEq] at hnext
    exact hnext ▸ hle
  have hcancel := (LocalSimulator.takeEvent_eq ht).2.2
  dsimp only at hs
  split at hs
  · next hcancelled =>
    cases hs
    rw [hcancel] at hcancelled
    exact h.set (hrank.taken_cancelled ht hsafe hcancelled) rfl (toCome_of_not_early rfl)
  · split at hs
    · next k hcallback =>
      obtain ⟨⟨r, msg⟩, hh, heq⟩ := Option.bind_eq_some_iff.mp hs
      cases heq
      obtain ⟨hgave, hk⟩ := hrank.taken_null ht hsafe hcallback hfresh hrange hh
      refine h.gave hgave hk ?_ (toCome_of_not_early rfl)
      rw [nullMessageEventHandler_rxTime hh]
      exact Nat.zero_le _
    · next c hcallback =>
      cases hs
      exact h.set (hrank.taken_transmitComplete ht hsafe hcallback) rfl (toCome_of_not_early rfl)
    · next hcallback =>
      cases hs
      refine h.set (hrank.taken_event ht hsafe fun k hk => ?_) rfl (toCome_of_not_early rfl)
      rw [hcallback] at hk
      cases hk

theorem Inv.headStep {obj : ℕ} (h : Inv net s) (hp : s.phase i = .head)
    (hfresh : (s.impl i).Fresh obj) (hrange : (s.impl i).InRange net i)
    (hs : s.headStep net i obj = some s') : Inv net s' := by
  have hrank := h.rank i
  rw [hp] at hrank
  unfold NullMessageSystem.headStep at hs
  split at hs
  · cases hs
    refine h.set (hrank.move id (fun _ => trivial) rfl ?_) rfl (toCome_of_not_early rfl)
    exact hrank.place.move (by simp) rfl (by simp)
  · obtain ⟨next, hnext, hs⟩ := Option.bind_eq_some_iff.mp hs
    split at hs
    · next hle => exact h.processOneEvent hp hfresh hrange hnext hle hs
    · next hlt =>
      split at hs
      · cases hs
        have hpoll : NullMessageSimulatorImpl.RankInv net i (s.impl i) .polling (s.promised i) :=
          hrank.move id (fun _ => trivial) rfl .polling
        exact h.set hpoll.calculateSafeTime rfl (toCome_of_not_early rfl)
      · next hne =>
        cases hs
        refine h.set (hrank.move id (fun _ => trivial) rfl ⟨fun he => ?_, ?_, fun _ => ?_⟩) rfl
          (toCome_of_not_early rfl)
        · cases he
        · exact fun _ => hrank.place.tight (by simp)
        · obtain ⟨k, hk⟩ := List.exists_mem_of_ne_nil _ hne
          exact ⟨⟨next, hnext, lt_of_not_ge hlt⟩, k, NullMessageNetwork.mem_bundles.mp hk⟩

theorem Inv.step (h : Inv net s) (hsingle : net.Single) {q : NullStep n m} (hf : s.Fits net q)
    (hs : s.step net q = some s') : Inv net s' := by
  cases q with
  | call i a =>
    dsimp only [NullMessageSystem.step] at hs
    split at hs
    · next hcalls =>
      cases hs
      have hbase := (h.rank i).base
      have hcalled := call_called hf.1 hf.2 (hbase.clock_le.trans hbase.safe_max)
      exact h.set ((h.rank i).called hcalled hcalls) rfl (h.toCome i)
    · cases hs
  | transmitStart i c txTime gap node event complete obj =>
    dsimp only [NullMessageSystem.step] at hs
    split at hs
    · next hc =>
      obtain ⟨hp, hleaves, hidle⟩ := hc
      obtain ⟨⟨r, msg⟩, ht, heq⟩ := Option.bind_eq_some_iff.mp hs
      cases heq
      obtain ⟨hcomplete, hobj, hne, hend, hmax, hrange⟩ := hf
      have hjoins : net.Joins c i ((net.channels c).remote i) := ⟨hleaves, rfl⟩
      have hrank := h.rank i
      rw [hp] at hrank
      refine h.gave (hrank.transmitStart hsingle hjoins hidle hcomplete hobj hne hend hrange ht)
        ⟨c, hjoins⟩ ?_ (toCome_of_not_early rfl)
      obtain ⟨_, -, -, rfl⟩ := transmitStart_eq ht hjoins
      exact hmax
    · cases hs
  | run i =>
    dsimp only [NullMessageSystem.step] at hs
    split at hs
    · next hp =>
      cases hs
      have hrank := h.rank i
      rw [hp] at hrank
      refine h.set hrank.run rfl ?_
      intro bundles hb j hj
      cases hb
      exact NullMessageNetwork.mem_bundles.mp hj
    · cases hs
  | initBundle i obj =>
    dsimp only [NullMessageSystem.step] at hs
    have hrank := h.rank i
    have hcome := h.toCome i
    split at hs
    · next j bundles hp =>
      cases hs
      rw [hp] at hrank
      have hj := hcome _ hp
      refine h.gave (hrank.initBundle_gave (hj j List.mem_cons_self) hf.1 hf.2)
        (hj j List.mem_cons_self) (Nat.zero_le _) ?_
      intro bundles' hb k hk
      cases hb
      exact hj k (List.mem_cons_of_mem _ hk)
    · next hp =>
      cases hs
      rw [hp] at hrank
      exact h.set hrank.begin rfl (toCome_of_not_early rfl)
    · cases hs
  | head i obj =>
    dsimp only [NullMessageSystem.step] at hs
    split at hs
    · next hp => exact h.headStep hp hf.1 hf.2 hs
    · cases hs
  | finishEvent i =>
    dsimp only [NullMessageSystem.step] at hs
    split at hs
    · next hp =>
      cases hs
      have hrank := h.rank i
      rw [hp] at hrank
      refine h.set (hrank.move (fun hcalls => ?_) (fun _ => trivial) rfl .polling) rfl
        (toCome_of_not_early rfl)
      cases hcalls
    · cases hs
  | receive i j =>
    dsimp only [NullMessageSystem.step] at hs
    split at hs
    · cases hs
    · next msg rest hc =>
      split at hs
      · next hp =>
        cases hs
        refine h.receive hc hp (hf msg ?_)
        rw [hc]
        rfl
      · cases hs
  | endPoll i =>
    dsimp only [NullMessageSystem.step] at hs
    split at hs
    · next hp =>
      cases hs
      have hrank := h.rank i
      rw [hp] at hrank
      exact h.set hrank.calculateSafeTime rfl (toCome_of_not_early rfl)
    · cases hs

theorem Run.inv (hsingle : net.Single) (h : Run net s) : Inv net s := by
  induction h with
  | start => exact inv_start net
  | step _ q hf hs ih => exact ih.step hsingle hf hs

/-- In every interleaving of the ranks, where no two channels join the same ranks, a rank and its
events are where the safe time allows, and a message on its way keeps what its rank was guaranteed:
its event is not before the safe time of that rank, and the guarantee in it does not go back. -/
theorem guarantees_kept (hsingle : net.Single) (h : Run net s) :
    (∀ i, (s.impl i).simulator.m_currentTs ≤ (s.impl i).m_safeTime ∧
      ∀ ts, (s.impl i).simulator.Pending ts → (s.impl i).simulator.m_currentTs ≤ ts) ∧
    ∀ i j, ∀ msg ∈ s.channel i j, (s.impl j).m_safeTime ≤ (s.impl j).m_guaranteeTime i ∧
      (s.impl j).m_guaranteeTime i ≤ msg.guaranteeUpdate ∧
      (0 < msg.rxTime → (s.impl j).m_guaranteeTime i ≤ msg.rxTime) := by
  have hinv := h.inv hsingle
  constructor
  · intro i
    refine ⟨(hinv.rank i).base.clock_le, ?_⟩
    rintro ts ⟨ev, hev, rfl⟩
    exact (hinv.rank i).base.behind ev hev
  · intro i j msg hmsg
    have hbundle := (hinv.bundle i j (List.ne_nil_of_mem hmsg)).symm
    obtain ⟨hupdate, hkept⟩ := (hinv.ascends i j).of_mem (fun hab hk => hk.anti hab) hmsg
    refine ⟨(hinv.rank j).base.safe_le i hbundle, hupdate, fun hrx => ?_⟩
    exact hkept.resolve_left hrx.ne'

/-! ## A run on given steps -/

/-- The steps one after the other, while they meet the condition. -/
def steps (net : NullMessageNetwork n m) (s : NullMessageSystem n m) :
    List (NullStep n m) → Option (NullMessageSystem n m)
  | [] => some s
  | q :: qs =>
    if s.Fits net q then
      match s.step net q with
      | some s' => steps net s' qs
      | none => none
    else none

theorem Run.steps (h : Run net s) {qs : List (NullStep n m)} (hs : s.steps net qs = some s') :
    Run net s' := by
  induction qs generalizing s with
  | nil =>
    cases hs
    exact h
  | cons q qs ih =>
    unfold NullMessageSystem.steps at hs
    split at hs
    · next hf =>
      split at hs
      · next hstep => exact ih (h.step q hf hstep) hs
      · cases hs
    · cases hs

def rank₀ : Fin 2 := ⟨0, Nat.two_pos⟩

def rank₁ : Fin 2 := ⟨1, Nat.one_lt_two⟩

/-- Two ranks, with channels of the delay 5. -/
def joined (m : ℕ) : NullMessageNetwork 2 m where
  channels _ := ⟨rank₀, rank₁, 5⟩
  tuned delay := delay
  tuned_le delay := le_refl delay

/-- Both ranks get to the loop, and the first one to an event of the program at the time 3. -/
def toEvent (m : ℕ) : List (NullStep 2 m) :=
  [.call rank₀ (.schedule 3 1), .call rank₁ (.schedule 6 1), .run rank₀, .initBundle rank₀ 100,
    .initBundle rank₀ 0, .run rank₁, .initBundle rank₁ 100, .initBundle rank₁ 0, .head rank₀ 101,
    .receive rank₀ rank₁, .head rank₀ 101]

/-- The event sends a packet that takes 2. -/
def packet : NullStep 2 1 := .transmitStart rank₀ ⟨0, Nat.one_pos⟩ 2 0 7 9 102 103

theorem guarantees_kept_two : ∃ s, (start 2 1).steps (joined 1) (toEvent 1 ++ [packet]) = some s ∧
    ⟨10, 10, 7, 9⟩ ∈ s.channel rank₀ rank₁ ∧ (s.impl rank₁).m_guaranteeTime rank₀ ≤ 10 := by
  have hrun : ((start 2 1).steps (joined 1) (toEvent 1 ++ [packet])).map
      (fun s => s.channel rank₀ rank₁) = some [⟨0, 5, 0, 0⟩, ⟨10, 10, 7, 9⟩] := by
    decide
  obtain ⟨s, hs, hm⟩ := Option.map_eq_some_iff.mp hrun
  have hmem : ⟨10, 10, 7, 9⟩ ∈ s.channel rank₀ rank₁ := by simp [hm]
  have hsingle : (joined 1).Single := fun c c' _ _ _ _ => Subsingleton.elim c c'
  obtain ⟨-, hkept⟩ := guarantees_kept hsingle (Run.start.steps hs)
  exact ⟨s, hs, hmem, (hkept _ _ _ hmem).2.1⟩

/-- With a second channel between the ranks, the event sends another packet, which takes 1. -/
def twoPackets : List (NullStep 2 2) :=
  [.transmitStart rank₀ ⟨0, Nat.two_pos⟩ 2 0 7 9 102 103,
    .transmitStart rank₀ ⟨1, Nat.one_lt_two⟩ 1 0 7 8 104 105,
    .head rank₁ 101, .receive rank₁ rank₀, .head rank₁ 101, .receive rank₁ rank₀, .endPoll rank₁,
    .head rank₁ 102, .finishEvent rank₁, .endPoll rank₁, .head rank₁ 103]

/-- The second packet would be received at the time 9, when its rank is at 10. -/
theorem two_channels_late :
    ((start 2 2).steps (joined 2) (toEvent 2 ++ twoPackets)).map (fun s =>
      ((s.impl rank₁).simulator.m_currentTs, (s.channel rank₀ rank₁).map NullMessage.rxTime)) =
      some (10, [9]) := by
  decide

end NullMessageSystem

end Ns3.Mpi
