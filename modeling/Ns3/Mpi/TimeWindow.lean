import Mathlib
import Ns3.Mpi.DistributedSimulatorImpl

/-!
# Time windows

Between two successful reductions all ranks work from one base: the smallest next time of the last
one. No rank has an event before the base, no rank gets beyond the base and its look-ahead, and no
packet arrives before that. So no packet arrives in the past of the rank it is for.
-/

namespace Ns3.Mpi

open Ns3.Core

/-! ## The look-ahead -/

namespace Network

variable {n : ℕ} (net : Network n)

theorem foldl_lookAhead_le (i : Fin n) (channels : List (RemoteChannel n)) (b : ℕ) :
    let l := channels.foldl
      (fun m_lookAhead channel =>
        if channel.Leaves i then
          if channel.delay < m_lookAhead then channel.delay else m_lookAhead
        else m_lookAhead) b
    l ≤ b ∧ ∀ channel ∈ channels, channel.Leaves i → l ≤ channel.delay := by
  induction channels generalizing b with
  | nil => exact ⟨le_rfl, fun _ h => absurd h List.not_mem_nil⟩
  | cons c channels ih =>
    rw [List.foldl_cons]
    obtain ⟨hle, hmem⟩ := ih (if c.Leaves i then if c.delay < b then c.delay else b else b)
    refine ⟨hle.trans (by split <;> [split; skip] <;> omega), ?_⟩
    intro channel hc hl
    rcases List.mem_cons.mp hc with rfl | hc
    · refine hle.trans ?_
      rw [if_pos hl]
      split <;> omega
    · exact hmem channel hc hl

theorem localLookAhead_le (i : Fin n) : net.localLookAhead i ≤ maximumSimulationTime := by
  unfold localLookAhead
  split
  · exact Nat.zero_le _
  · exact (foldl_lookAhead_le i net.channels (net.bound i)).1.trans (net.bound_le i)

theorem sendbuf_le (i : Fin n) : net.sendbuf i ≤ maximumSimulationTime := by
  unfold sendbuf
  split
  · exact Nat.zero_le _
  · exact net.localLookAhead_le i

theorem foldl_max_le {l : List ℕ} {a b : ℕ} (ha : a ≤ b) (h : ∀ x ∈ l, x ≤ b) :
    l.foldl max a ≤ b := by
  induction l generalizing a with
  | nil => exact ha
  | cons x l ih =>
    obtain ⟨hx, hl⟩ := List.forall_mem_cons.mp h
    exact ih (max_le ha hx) hl

/-- The delays of the channels to other ranks are not below the look-ahead. -/
theorem lookAhead_le {i : Fin n} {channel : RemoteChannel n} (hc : channel ∈ net.channels)
    (hl : channel.Leaves i) : net.lookAhead i ≤ channel.delay := by
  have hn : ¬ n ≤ 1 := by
    intro hn
    have : Subsingleton (Fin n) := Fin.subsingleton_iff_le_one.mpr hn
    exact hl.1 (Subsingleton.elim _ _)
  have hlocal : net.localLookAhead i ≤ channel.delay := by
    unfold localLookAhead
    rw [if_neg hn]
    exact (foldl_lookAhead_le i net.channels (net.bound i)).2 channel hc hl
  have hmax : (List.ofFn net.sendbuf).foldl max 0 ≤ maximumSimulationTime := by
    refine foldl_max_le (Nat.zero_le _) ?_
    intro x hx
    obtain ⟨j, rfl⟩ := (List.mem_ofFn' _ _).mp hx
    exact net.sendbuf_le j
  unfold lookAhead
  dsimp only
  split
  · next h => exact hmax.trans (h.1 ▸ hlocal)
  · exact hlocal

theorem leaves_remote {channel : RemoteChannel n} {i : Fin n} (hl : channel.Leaves i) :
    channel.Leaves (channel.remote i) := by
  refine ⟨hl.1, ?_⟩
  unfold RemoteChannel.remote
  split
  · exact Or.inr rfl
  · exact Or.inl rfl

end Network

theorem int64_le {x : ℤ} (h : 0 ≤ x) : int64 x ≤ x := by
  unfold int64
  rw [Int.bmod_def]
  split <;> omega

/-! ## One rank -/

/-- The rank is past `MPI_Allreduce`. -/
def RankPhase.started : RankPhase → Bool
  | .outside | .reducing => false
  | _ => true

/-- A rank in the window of the base `base`, when its look-ahead is `l`. -/
structure RankInv (base l : ℕ) (r : DistributedSimulatorImpl) (p : RankPhase) : Prop where
  calls_ge : p.calls = true → base ≤ r.simulator.m_currentTs
  pending_ge : r.simulator.m_stop = false → ∀ ts, r.simulator.Pending ts → base ≤ ts
  pending_le : ∀ ts, r.simulator.Pending ts → ts ≤ maximumSimulationTime
  behind : ∀ ts, r.simulator.Pending ts → r.simulator.m_currentTs ≤ ts
  reach : r.simulator.m_currentTs ≤ base + l
  clock_le : r.simulator.m_currentTs ≤ maximumSimulationTime
  granted : r.m_grantedTime ≤ base + l
  lookAhead : p.started = true → r.m_lookAhead = l
  gathered : ∀ m_pLBTS, p = .gathered m_pLBTS → totRx m_pLBTS = totTx m_pLBTS →
    smallestTime m_pLBTS ≤ base
  fresh : p.started = false → r.simulator.m_currentTs = 0

section Rank

variable {base l : ℕ} {r r' : DistributedSimulatorImpl} {p p' : RankPhase}

/-- The phase of a rank changes, but not to one in which the program runs or the messages are
there. -/
theorem RankInv.setPhase (h : RankInv base l r p) (hs : p'.started = p.started)
    (hc : p'.calls = true → p.calls = true) (hg : ∀ m_pLBTS, p' ≠ .gathered m_pLBTS) :
    RankInv base l r p' where
  calls_ge hp := h.calls_ge (hc hp)
  pending_ge := h.pending_ge
  pending_le := h.pending_le
  behind := h.behind
  reach := h.reach
  clock_le := h.clock_le
  granted := h.granted
  lookAhead hp := h.lookAhead (hs ▸ hp)
  gathered m hp := absurd hp (hg m)
  fresh hp := h.fresh (hs ▸ hp)

/-- Events are added or removed, none before the clock or the base. -/
theorem RankInv.extend (h : RankInv base l r p) (simulator : LocalSimulator) (t : ℕ)
    (he : r.simulator.Extends simulator t) (hclock : r.simulator.m_currentTs ≤ t)
    (hbase : base ≤ t) (rx tx : ℕ) :
    RankInv base l { r with simulator := simulator, g_rxCount := rx, g_txCount := tx } p where
  calls_ge hp := by
    rw [he.currentTs_eq]
    exact h.calls_ge hp
  pending_ge hstop ts hts := by
    have hstop' : r.simulator.m_stop = false := by
      rw [← Bool.not_eq_true]
      intro hs
      rw [he.stop hs] at hstop
      cases hstop
    rcases he.pending ts hts with hts | hts
    · exact h.pending_ge hstop' ts hts
    · omega
  pending_le ts hts := by
    rcases he.pending ts hts with hts | hts
    · exact h.pending_le ts hts
    · exact hts.2
  behind ts hts := by
    rw [he.currentTs_eq]
    rcases he.pending ts hts with hts | hts
    · exact h.behind ts hts
    · omega
  reach := by
    rw [he.currentTs_eq]
    exact h.reach
  clock_le := by
    rw [he.currentTs_eq]
    exact h.clock_le
  granted := h.granted
  lookAhead := h.lookAhead
  gathered := h.gathered
  fresh hp := by
    rw [he.currentTs_eq]
    exact h.fresh hp

theorem peekTs_pending {s : LocalSimulator} {ts : ℕ} (h : s.peekTs = some ts) : s.Pending ts := by
  obtain ⟨ev, hev, rfl⟩ := Option.map_eq_some_iff.mp h
  exact ⟨ev, List.mem_of_mem_head? hev, rfl⟩

/-- The list is in the order of the keys. -/
theorem peekTs_le {s : LocalSimulator} {ts u : ℕ} (h : s.peekTs = some ts) (hu : s.Pending u) :
    ts ≤ u := by
  obtain ⟨ev, hev, rfl⟩ := Option.map_eq_some_iff.mp h
  obtain ⟨x, hx, rfl⟩ := hu
  obtain ⟨events, heq⟩ := List.head?_eq_some_iff.mp hev
  have hsorted := s.m_events.sorted
  rw [heq] at hsorted hx
  rcases List.mem_cons.mp hx with rfl | hx
  · exact le_rfl
  · rcases EventKey.order_le_iff.mp ((List.pairwise_cons.mp hsorted).1 x hx) with hlt | ⟨heq, -⟩
    · exact hlt.le
    · exact heq.le

theorem peekTs_isSome {s : LocalSimulator} (h : s.isFinished = false) :
    ∃ ts, s.peekTs = some ts := by
  unfold LocalSimulator.isFinished ListScheduler.isEmpty at h
  rw [Bool.or_eq_false_iff] at h
  cases hl : s.m_events.m_events with
  | nil =>
    rw [hl] at h
    cases h.1
  | cons ev events => exact ⟨ev.key.m_ts, by simp [LocalSimulator.peekTs, hl]⟩

theorem nextTs_of_not_finished (h : r.simulator.isFinished = false) :
    r.simulator.peekTs = some r.nextTs := by
  obtain ⟨ts, hts⟩ := peekTs_isSome h
  unfold DistributedSimulatorImpl.nextTs
  rw [h, hts]
  rfl

theorem stop_of_not_finished {s : LocalSimulator} (h : s.isFinished = false) :
    s.m_stop = false := by
  unfold LocalSimulator.isFinished at h
  exact (Bool.or_eq_false_iff.mp h).2

/-- The next time is between the base and the maximum time. -/
theorem RankInv.nextTs_bounds (h : RankInv base l r p) (hb : base ≤ maximumSimulationTime) :
    base ≤ r.nextTs ∧ r.nextTs ≤ maximumSimulationTime := by
  cases hf : r.simulator.isFinished with
  | true =>
    unfold DistributedSimulatorImpl.nextTs
    rw [hf]
    exact ⟨hb, le_rfl⟩
  | false =>
    have hp := peekTs_pending (nextTs_of_not_finished hf)
    exact ⟨h.pending_ge (stop_of_not_finished hf) _ hp, h.pending_le _ hp⟩

theorem nextTs_le_of_pending (hstop : r.simulator.m_stop = false) {ts : ℕ}
    (hts : r.simulator.Pending ts) : r.nextTs ≤ ts := by
  have hf : r.simulator.isFinished = false := by
    obtain ⟨ev, hev, -⟩ := hts
    unfold LocalSimulator.isFinished ListScheduler.isEmpty
    rw [hstop, Bool.or_false]
    cases hl : r.simulator.m_events.m_events with
    | nil =>
      rw [hl] at hev
      cases hev
    | cons ev events => rfl
  exact peekTs_le (nextTs_of_not_finished hf) hts

/-- The next event is taken when it is in the window. -/
theorem RankInv.decide (h : RankInv base l r .deciding)
    (hd : DistributedSystem.decideRank r = some (r', p')) :
    RankInv base l r' p' ∧ p'.started = true ∧ r'.g_rxCount = r.g_rxCount ∧
      r'.g_txCount = r.g_txCount := by
  unfold DistributedSystem.decideRank at hd
  split at hd
  · next hc =>
    obtain ⟨hle, hf⟩ := hc
    have hpeek := nextTs_of_not_finished hf
    have hpending := peekTs_pending hpeek
    obtain ⟨⟨next, simulator⟩, ht, heq⟩ := Option.bind_eq_some_iff.mp hd
    cases heq
    unfold DefaultSimulatorImpl.takeEvent at ht
    obtain ⟨⟨next', rest⟩, hr, heq⟩ := Option.bind_eq_some_iff.mp ht
    cases heq
    -- the next event is the first of the list
    cases hl : r.simulator.m_events.m_events with
    | nil =>
      unfold LocalSimulator.peekTs at hpeek
      rw [hl] at hpeek
      cases hpeek
    | cons ev events =>
      obtain ⟨rest', hrest', hrest⟩ := ListScheduler.removeNext_eq hl
      change r.simulator.m_events.removeNext = _ at hr
      rw [hrest'] at hr
      obtain ⟨hev, hrest''⟩ := Prod.mk.inj (Option.some.inj hr)
      subst hev hrest''
      have hnext : r.nextTs = ev.key.m_ts := by
        unfold LocalSimulator.peekTs at hpeek
        rw [hl] at hpeek
        exact (Option.some.inj hpeek).symm
      have hsub : ∀ ts, (∃ x ∈ rest'.m_events, x.key.m_ts = ts) → r.simulator.Pending ts := by
        rintro ts ⟨x, hx, rfl⟩
        exact ⟨x, by rw [hl]; exact List.mem_cons_of_mem _ (hrest ▸ hx), rfl⟩
      have hge := h.pending_ge (stop_of_not_finished hf) _ hpending
      rw [hnext] at hpending hle hge hpeek
      have hreach : ev.key.m_ts ≤ base + l := by
        have := h.granted
        omega
      refine ⟨?_, rfl, rfl, rfl⟩
      constructor
      case calls_ge => exact fun _ => hge
      case pending_ge => exact fun hs ts hts => h.pending_ge hs ts (hsub ts hts)
      case pending_le => exact fun ts hts => h.pending_le ts (hsub ts hts)
      case behind => exact fun ts hts => peekTs_le hpeek (hsub ts hts)
      case reach => exact hreach
      case clock_le => exact h.pending_le _ hpending
      case granted => exact h.granted
      case lookAhead => exact fun _ => h.lookAhead rfl
      case gathered =>
        intro m hp
        cases hp
      case fresh =>
        intro hp
        cases hp
  · cases hd
    refine ⟨h.setPhase rfl (fun hp => hp) ?_, rfl, rfl, rfl⟩
    intro m hp
    cases hp

/-- The granted time that follows from the messages. -/
theorem RankInv.update {m_pLBTS : List LbtsMessage} (h : RankInv base l r (.gathered m_pLBTS)) :
    RankInv base l (r.update m_pLBTS) .deciding where
  calls_ge hp := by cases hp
  pending_ge := h.pending_ge
  pending_le := h.pending_le
  behind := h.behind
  reach := h.reach
  clock_le := h.clock_le
  granted := by
    change (if _ then _ else r.m_grantedTime) ≤ _
    split
    · next heq =>
      have hsmall := h.gathered m_pLBTS rfl heq
      rw [h.lookAhead rfl]
      split
      · next hl => omega
      · have := int64_le (x := smallestTime m_pLBTS + l) (by omega)
        omega
    · exact h.granted
  lookAhead _ := h.lookAhead rfl
  gathered _ hp := by cases hp
  fresh hp := by cases hp

end Rank

/-! ## All ranks -/

namespace DistributedSystem

variable {n : ℕ} {net : Network n} {s s' : DistributedSystem n} {base : ℕ}

structure Inv (net : Network n) (s : DistributedSystem n) (base : ℕ) : Prop where
  rank : ∀ i, RankInv base (net.lookAhead i) (s.impl i) (s.phase i)
  base_le : base ≤ maximumSimulationTime
  together : ∀ i j, (s.phase i).started = (s.phase j).started
  fresh : ∀ i, (s.phase i).started = false → base = 0
  flight : ∀ m ∈ s.inFlight, base + net.lookAhead m.dest ≤ m.rxTime ∧
    m.rxTime ≤ maximumSimulationTime
  counts : ∑ i, (s.impl i).g_txCount ≡ ∑ i, (s.impl i).g_rxCount + s.inFlight.length [MOD 2 ^ 32]

theorem inv_start (net : Network n) : Inv net (start n) 0 where
  rank i := by
    have hnone : ∀ ts, ¬ LocalSimulator.start.Pending ts := by
      rintro ts ⟨ev, hev, -⟩
      cases hev
    constructor
    case pending_ge => exact fun _ _ _ => Nat.zero_le _
    case pending_le => exact fun ts hts => absurd hts (hnone ts)
    case behind => exact fun ts hts => absurd hts (hnone ts)
    case calls_ge => exact fun _ => Nat.zero_le _
    case reach => exact Nat.zero_le _
    case clock_le => exact Nat.zero_le _
    case granted =>
      change (0 : ℤ) ≤ _
      omega
    case lookAhead =>
      intro h
      cases h
    case gathered =>
      intro m h
      cases h
    case fresh => exact fun _ => rfl
  base_le := Nat.zero_le _
  together _ _ := rfl
  fresh _ _ := rfl
  flight m hm := absurd hm List.not_mem_nil
  counts := by simp [start, Nat.ModEq]

/-- A rank changes, but not what it counts and not where it is with respect to the start. -/
theorem Inv.set (h : Inv net s base) {i : Fin n} {impl : DistributedSimulatorImpl}
    {phase : RankPhase} (hr : RankInv base (net.lookAhead i) impl phase)
    (hs : phase.started = (s.phase i).started) (hrx : impl.g_rxCount = (s.impl i).g_rxCount)
    (htx : impl.g_txCount = (s.impl i).g_txCount) : Inv net (s.set i impl phase) base := by
  have hstarted : ∀ j, ((s.set i impl phase).phase j).started = (s.phase j).started := by
    intro j
    by_cases hj : j = i
    · rw [hj, ← hs]
      simp [DistributedSystem.set]
    · simp [DistributedSystem.set, hj]
  constructor
  case rank =>
    intro j
    by_cases hj : j = i
    · rw [hj]
      simpa [DistributedSystem.set] using hr
    · simpa [DistributedSystem.set, hj] using h.rank j
  case base_le => exact h.base_le
  case together => exact fun j k => by rw [hstarted, hstarted, h.together j k]
  case fresh => exact fun j hj => h.fresh j (hstarted j ▸ hj)
  case flight => exact h.flight
  case counts =>
    have hrx' : ∀ j, ((s.set i impl phase).impl j).g_rxCount = (s.impl j).g_rxCount := by
      intro j
      by_cases hj : j = i
      · simp [DistributedSystem.set, hj, hrx]
      · simp [DistributedSystem.set, hj]
    have htx' : ∀ j, ((s.set i impl phase).impl j).g_txCount = (s.impl j).g_txCount := by
      intro j
      by_cases hj : j = i
      · simp [DistributedSystem.set, hj, htx]
      · simp [DistributedSystem.set, hj]
    simp only [hrx', htx']
    exact h.counts

/-- One counter of 32 bits goes up. -/
theorem sum_count_succ {f g : Fin n → ℕ} {i : Fin n} (hi : g i = (f i + 1) % 2 ^ 32)
    (hne : ∀ j, j ≠ i → g j = f j) : ∑ j, g j ≡ ∑ j, f j + 1 [MOD 2 ^ 32] := by
  rw [← Finset.add_sum_erase _ g (Finset.mem_univ i),
    ← Finset.add_sum_erase _ f (Finset.mem_univ i), hi, Finset.sum_congr rfl fun j hj =>
    hne j (Finset.ne_of_mem_erase hj)]
  have : (f i + 1) % 2 ^ 32 ≡ f i + 1 [MOD 2 ^ 32] := Nat.mod_modEq _ _
  refine (this.add_right _).trans ?_
  rw [Nat.add_right_comm]

theorem Inv.sendPacket (h : Inv net s base) {i : Fin n} {channel : RemoteChannel n}
    (hp : (s.phase i).calls = true) (hc : channel ∈ net.channels) (hl : channel.Leaves i)
    {txTime node event : ℕ}
    (hf : s.Fits (.sendPacket i channel txTime node event)) :
    Inv net (s.sendPacket i channel txTime node event) base := by
  have hrank := h.rank i
  have hi : ∀ j, ((s.sendPacket i channel txTime node event).phase j) = s.phase j := by
    intro j
    by_cases hj : j = i
    · simp [DistributedSystem.sendPacket, DistributedSystem.set, hj]
    · simp [DistributedSystem.sendPacket, DistributedSystem.set]
  constructor
  case rank =>
    intro j
    rw [hi]
    by_cases hj : j = i
    · rw [hj]
      have := hrank.extend (s.impl i).simulator (s.impl i).simulator.m_currentTs
        ⟨rfl, fun h => h, fun _ => Or.inl⟩ le_rfl (hrank.calls_ge hp)
        (s.impl i).g_rxCount (((s.impl i).g_txCount + 1) % 2 ^ 32)
      simpa [DistributedSystem.sendPacket, DistributedSystem.set] using this
    · simpa [DistributedSystem.sendPacket, DistributedSystem.set, hj] using h.rank j
  case base_le => exact h.base_le
  case together => exact fun j k => by rw [hi, hi, h.together j k]
  case fresh => exact fun j hj => h.fresh j (hi j ▸ hj)
  case flight =>
    intro m hm
    rcases List.mem_cons.mp hm with rfl | hm
    · have hdelay := net.lookAhead_le hc (Network.leaves_remote hl)
      have hge := hrank.calls_ge hp
      refine ⟨?_, hf⟩
      dsimp only
      omega
    · exact h.flight m hm
  case counts =>
    have htx := sum_count_succ (i := i) (f := fun j => (s.impl j).g_txCount)
      (g := fun j => ((s.sendPacket i channel txTime node event).impl j).g_txCount)
      (by simp [DistributedSystem.sendPacket, DistributedSystem.set])
      (fun j hj => by simp [DistributedSystem.sendPacket, DistributedSystem.set, hj])
    have hrx : ∀ j, ((s.sendPacket i channel txTime node event).impl j).g_rxCount =
        (s.impl j).g_rxCount := by
      intro j
      by_cases hj : j = i
      · simp [DistributedSystem.sendPacket, DistributedSystem.set, hj]
      · simp [DistributedSystem.sendPacket, DistributedSystem.set, hj]
    simp only [hrx]
    exact htx.trans (h.counts.add_right 1)

/-- A packet is received at its time. -/
theorem Inv.receive (h : Inv net s base) {i : Fin n} {m : Message n}
    (hm : m ∈ s.inFlight) (hd : m.dest = i) : Inv net (s.receive i m) base := by
  have hrank := h.rank i
  obtain ⟨hge, hle⟩ := h.flight m hm
  rw [hd] at hge
  have hreach := hrank.reach
  have htime : (s.impl i).simulator.InTime (m.rxTime - (s.impl i).simulator.m_currentTs) := by
    unfold LocalSimulator.InTime
    omega
  have habs := LocalSimulator.tAbsolute_eq htime
  have hts : (s.impl i).simulator.tAbsolute (m.rxTime - (s.impl i).simulator.m_currentTs) =
      m.rxTime := by
    omega
  have hi : ∀ j, ((s.receive i m).phase j) = s.phase j := by
    intro j
    by_cases hj : j = i
    · simp [DistributedSystem.receive, DistributedSystem.set, hj]
    · simp [DistributedSystem.receive, DistributedSystem.set]
  constructor
  case rank =>
    intro j
    rw [hi]
    by_cases hj : j = i
    · rw [hj]
      have := hrank.extend ((s.impl i).simulator.scheduleWithContext m.node
          (m.rxTime - (s.impl i).simulator.m_currentTs) m.event).1 m.rxTime
        (LocalSimulator.extends_insertEvent hts.ge (hts.le.trans hle)) (by omega) (by omega)
        (((s.impl i).g_rxCount + 1) % 2 ^ 32) (s.impl i).g_txCount
      simpa [DistributedSystem.receive, DistributedSystem.set] using this
    · simpa [DistributedSystem.receive, DistributedSystem.set, hj] using h.rank j
  case base_le => exact h.base_le
  case together => exact fun j k => by rw [hi, hi, h.together j k]
  case fresh => exact fun j hj => h.fresh j (hi j ▸ hj)
  case flight => exact fun m' hm' => h.flight m' (List.mem_of_mem_erase hm')
  case counts =>
    have hrx := sum_count_succ (i := i) (f := fun j => (s.impl j).g_rxCount)
      (g := fun j => ((s.receive i m).impl j).g_rxCount)
      (by simp [DistributedSystem.receive, DistributedSystem.set])
      (fun j hj => by simp [DistributedSystem.receive, DistributedSystem.set, hj])
    have htx : ∀ j, ((s.receive i m).impl j).g_txCount = (s.impl j).g_txCount := by
      intro j
      by_cases hj : j = i
      · simp [DistributedSystem.receive, DistributedSystem.set, hj]
      · simp [DistributedSystem.receive, DistributedSystem.set, hj]
    have hlen : (s.receive i m).inFlight.length + 1 = s.inFlight.length := by
      have := List.length_erase_of_mem hm
      have hpos := List.length_pos_of_mem hm
      change (s.inFlight.erase m).length + 1 = _
      omega
    simp only [htx]
    refine h.counts.trans ?_
    rw [← hlen]
    have := (hrx.add_right (s.receive i m).inFlight.length).symm
    refine Nat.ModEq.trans ?_ this
    rw [Nat.add_right_comm, Nat.add_assoc]

/-! ## The reduction -/

theorem foldl_smallest_le {ms : List LbtsMessage} {t : ℕ} :
    let u := ms.foldl (fun t m => if m.m_smallestTime < t then m.m_smallestTime else t) t
    u ≤ t ∧ (∀ m ∈ ms, u ≤ m.m_smallestTime) ∧
      ∀ b, b ≤ t → (∀ m ∈ ms, b ≤ m.m_smallestTime) → b ≤ u := by
  induction ms generalizing t with
  | nil => exact ⟨le_rfl, fun _ h => absurd h List.not_mem_nil, fun _ h _ => h⟩
  | cons m ms ih =>
    rw [List.foldl_cons]
    obtain ⟨hle, hmem, hge⟩ := ih (t := if m.m_smallestTime < t then m.m_smallestTime else t)
    refine ⟨hle.trans (by split <;> omega), ?_, ?_⟩
    · intro x hx
      rcases List.mem_cons.mp hx with rfl | hx
      · exact hle.trans (by split <;> omega)
      · exact hmem x hx
    · intro b hb h
      obtain ⟨hm, hms⟩ := List.forall_mem_cons.mp h
      exact hge b (by split <;> omega) hms

theorem smallestTime_le {ms : List LbtsMessage} {m : LbtsMessage} (h : m ∈ ms) :
    smallestTime ms ≤ m.m_smallestTime := by
  cases ms with
  | nil => cases h
  | cons x ms =>
    rcases List.mem_cons.mp h with rfl | h
    · exact foldl_smallest_le.1
    · exact foldl_smallest_le.2.1 m h

theorem le_smallestTime {ms : List LbtsMessage} {b : ℕ} (hb : b ≤ maximumSimulationTime)
    (h : ∀ m ∈ ms, b ≤ m.m_smallestTime) : b ≤ smallestTime ms := by
  cases ms with
  | nil => exact hb
  | cons x ms =>
    obtain ⟨hx, hms⟩ := List.forall_mem_cons.mp h
    exact foldl_smallest_le.2.2 b hx hms

/-- What all ranks get from `MPI_Allgather`. -/
def messages (s : DistributedSystem n) : List LbtsMessage := List.ofFn fun i => (s.impl i).lMsg i

theorem mem_messages {m : LbtsMessage} : m ∈ s.messages ↔ ∃ i, (s.impl i).lMsg i = m :=
  List.mem_ofFn' _ _

/-- The counts tell that nothing is in flight. -/
theorem Inv.inFlight_eq_nil (h : Inv net s base) (hf : s.inFlight.length < 2 ^ 32)
    (heq : totRx s.messages = totTx s.messages) : s.inFlight = [] := by
  have hrx : totRx s.messages = (∑ i, (s.impl i).g_rxCount) % 2 ^ 32 := by
    rw [totRx, messages, List.map_ofFn, List.sum_ofFn]
    rfl
  have htx : totTx s.messages = (∑ i, (s.impl i).g_txCount) % 2 ^ 32 := by
    rw [totTx, messages, List.map_ofFn, List.sum_ofFn]
    rfl
  rw [hrx, htx] at heq
  have hcounts : (∑ i, (s.impl i).g_rxCount) + 0 ≡
      (∑ i, (s.impl i).g_rxCount) + s.inFlight.length [MOD 2 ^ 32] :=
    Nat.ModEq.trans heq h.counts
  have hzero := Nat.ModEq.add_left_cancel' _ hcounts
  rw [Nat.ModEq, Nat.zero_mod, Nat.mod_eq_of_lt hf] at hzero
  exact List.length_eq_zero_iff.mp hzero.symm

/-- The base after a reduction. -/
def newBase (s : DistributedSystem n) (base : ℕ) : ℕ :=
  if totRx s.messages = totTx s.messages then smallestTime s.messages else base

theorem Inv.newBase_bounds (h : Inv net s base) :
    base ≤ s.newBase base ∧ s.newBase base ≤ maximumSimulationTime := by
  unfold newBase
  split
  · constructor
    · refine le_smallestTime h.base_le ?_
      intro m hm
      obtain ⟨i, rfl⟩ := mem_messages.mp hm
      exact ((h.rank i).nextTs_bounds h.base_le).1
    · cases hms : s.messages with
      | nil => exact le_rfl
      | cons m ms =>
        obtain ⟨i, hi⟩ := mem_messages.mp (hms ▸ List.mem_cons_self : m ∈ s.messages)
        refine (smallestTime_le List.mem_cons_self).trans ?_
        rw [← hi]
        exact ((h.rank i).nextTs_bounds h.base_le).2
  · exact ⟨le_rfl, h.base_le⟩

/-- The base moves when all messages have arrived, and no rank has an event before the new one. -/
theorem Inv.gather (h : Inv net s base) (hp : ∀ i, s.phase i = .gathering)
    (hf : s.inFlight.length < 2 ^ 32) :
    Inv net { s with phase := fun _ => .gathered s.messages } (s.newBase base) := by
  obtain ⟨hge, hle⟩ := h.newBase_bounds
  constructor
  case rank =>
    intro i
    have hi := h.rank i
    constructor
    case calls_ge =>
      intro hc
      cases hc
    case pending_ge =>
      intro hstop ts hts
      unfold newBase
      split
      · refine le_trans ?_ (nextTs_le_of_pending hstop hts)
        exact smallestTime_le (mem_messages.mpr ⟨i, rfl⟩)
      · exact hi.pending_ge hstop ts hts
    case pending_le => exact hi.pending_le
    case behind => exact hi.behind
    case reach => exact hi.reach.trans (Nat.add_le_add_right hge _)
    case clock_le => exact hi.clock_le
    case granted =>
      have := hi.granted
      dsimp only
      omega
    case lookAhead => exact fun _ => hi.lookAhead (by rw [hp i]; rfl)
    case gathered =>
      rintro _ ⟨⟩ heq
      unfold newBase
      rw [if_pos heq]
    case fresh =>
      intro hc
      cases hc
  case base_le => exact hle
  case together => exact fun _ _ => rfl
  case fresh =>
    intro i hi
    cases hi
  case flight =>
    intro m hm
    by_cases heq : totRx s.messages = totTx s.messages
    · change m ∈ s.inFlight at hm
      rw [h.inFlight_eq_nil hf heq] at hm
      cases hm
    · unfold newBase
      rw [if_neg heq]
      exact h.flight m hm
  case counts => exact h.counts

theorem Inv.reduce (h : Inv net s base) (hp : ∀ i, s.phase i = .reducing) :
    Inv net { s with impl := fun i => (s.impl i).enter (net.lookAhead i), phase := fun _ => .head }
      base := by
  constructor
  case rank =>
    intro i
    have hi := h.rank i
    have hnot : (s.phase i).started = false := by
      rw [hp i]
      rfl
    have hzero := hi.fresh hnot
    have hbase := h.fresh i hnot
    constructor
    case calls_ge =>
      intro hc
      cases hc
    case pending_ge =>
      intro _ ts _
      rw [hbase]
      exact Nat.zero_le ts
    case pending_le => exact hi.pending_le
    case behind => exact hi.behind
    case reach => exact hi.reach
    case clock_le => exact hi.clock_le
    case granted =>
      change (net.lookAhead i : ℤ) ≤ _
      omega
    case lookAhead => exact fun _ => rfl
    case gathered =>
      intro m hm
      cases hm
    case fresh =>
      intro hc
      cases hc
  case base_le => exact h.base_le
  case together => exact fun _ _ => rfl
  case fresh =>
    intro i hi
    cases hi
  case flight => exact h.flight
  case counts => exact h.counts

/-! ## Runs -/

theorem headPhase_frame (r : DistributedSimulatorImpl) : (headPhase r).started = true ∧
    (headPhase r).calls = false ∧ ∀ m_pLBTS, headPhase r ≠ .gathered m_pLBTS := by
  unfold headPhase
  split
  · exact ⟨rfl, rfl, fun m hm => by cases hm⟩
  · split
    · exact ⟨rfl, rfl, fun m hm => by cases hm⟩
    · exact ⟨rfl, rfl, fun m hm => by cases hm⟩

/-- A rank changes its phase only. -/
theorem Inv.setPhase (h : Inv net s base) {i : Fin n} {phase : RankPhase}
    (hs : phase.started = (s.phase i).started)
    (hc : phase.calls = true → (s.phase i).calls = true)
    (hg : ∀ m_pLBTS, phase ≠ .gathered m_pLBTS) : Inv net (s.set i (s.impl i) phase) base :=
  h.set ((h.rank i).setPhase hs hc hg) hs rfl rfl

theorem Inv.step (h : Inv net s base) {r : DistributedStep n} (hf : s.Fits r)
    (hs : s.step net r = some s') : ∃ base', Inv net s' base' := by
  cases r with
  | call i a =>
    dsimp only [DistributedSystem.step] at hs
    split at hs
    · next hc =>
      cases hs
      have hi := h.rank i
      have he := LocalSimulator.extends_call hf hi.clock_le
      have hi' := hi.extend _ _ he le_rfl (hi.calls_ge hc) (s.impl i).g_rxCount (s.impl i).g_txCount
      exact ⟨base, h.set hi' rfl rfl rfl⟩
    · cases hs
  | sendPacket i channel txTime node event =>
    dsimp only [DistributedSystem.step] at hs
    split at hs
    · next hc =>
      cases hs
      exact ⟨base, h.sendPacket hc.1 hc.2.1 hc.2.2 hf⟩
    · cases hs
  | run i =>
    dsimp only [DistributedSystem.step] at hs
    split at hs
    · next hc =>
      cases hs
      refine ⟨base, h.setPhase (by rw [hc]; rfl) (fun hx => by cases hx) (fun m hm => by cases hm)⟩
    · cases hs
  | reduce =>
    dsimp only [DistributedSystem.step] at hs
    split at hs
    · next hc =>
      cases hs
      exact ⟨base, h.reduce hc⟩
    · cases hs
  | head i =>
    dsimp only [DistributedSystem.step] at hs
    split at hs
    · next hc =>
      cases hs
      obtain ⟨hstarted, hcalls, hg⟩ := headPhase_frame (s.impl i)
      refine ⟨base, h.setPhase (by rw [hc, hstarted]; rfl) (fun hx => ?_) hg⟩
      rw [hcalls] at hx
      cases hx
    · cases hs
  | receive i m =>
    dsimp only [DistributedSystem.step] at hs
    split at hs
    · next hc =>
      cases hs
      exact ⟨base, h.receive hc.2.1 hc.2.2⟩
    · cases hs
  | endPoll i =>
    dsimp only [DistributedSystem.step] at hs
    split at hs
    · next hc =>
      cases hs
      exact ⟨base, h.setPhase (by rw [hc]; rfl) (fun hx => by cases hx) (fun m hm => by cases hm)⟩
    · cases hs
  | gather =>
    dsimp only [DistributedSystem.step] at hs
    split at hs
    · next hc =>
      cases hs
      exact ⟨_, h.gather hc hf⟩
    · cases hs
  | update i =>
    dsimp only [DistributedSystem.step] at hs
    split at hs
    · next m_pLBTS hc =>
      cases hs
      have hi := h.rank i
      rw [hc] at hi
      exact ⟨base, h.set hi.update (by rw [hc]; rfl) rfl rfl⟩
    · cases hs
  | decide i =>
    dsimp only [DistributedSystem.step] at hs
    split at hs
    · next hc =>
      obtain ⟨⟨impl, phase⟩, hd, heq⟩ := Option.bind_eq_some_iff.mp hs
      cases heq
      have hi := h.rank i
      rw [hc] at hi
      obtain ⟨hi', hstarted, hrx, htx⟩ := hi.decide hd
      exact ⟨base, h.set hi' (by rw [hc, hstarted]; rfl) hrx htx⟩
    · cases hs
  | finishEvent i =>
    dsimp only [DistributedSystem.step] at hs
    split at hs
    · next hc =>
      cases hs
      exact ⟨base, h.setPhase (by rw [hc]; rfl) (fun hx => by cases hx) (fun m hm => by cases hm)⟩
    · cases hs

theorem Run.inv (h : Run net s) : ∃ base, Inv net s base := by
  induction h with
  | start => exact ⟨0, inv_start net⟩
  | step _ r hf hs ih =>
    obtain ⟨base, hinv⟩ := ih
    exact hinv.step hf hs

/-- In every interleaving of the ranks, a packet in flight arrives at or after the time of the rank
it is for, and every stored event is at or after the time of its rank. -/
theorem never_in_the_past (h : Run net s) :
    (∀ m ∈ s.inFlight, (s.impl m.dest).simulator.m_currentTs ≤ m.rxTime) ∧
      ∀ i ts, (s.impl i).simulator.Pending ts → (s.impl i).simulator.m_currentTs ≤ ts := by
  obtain ⟨base, hinv⟩ := h.inv
  constructor
  · intro m hm
    exact (hinv.rank m.dest).reach.trans (hinv.flight m hm).1
  · exact fun i => (hinv.rank i).behind

/-! ## A run on given steps -/

/-- The steps one after the other, while they meet the condition. -/
def steps (net : Network n) (s : DistributedSystem n) :
    List (DistributedStep n) → Option (DistributedSystem n)
  | [] => some s
  | r :: rs =>
    if s.Fits r then
      match s.step net r with
      | some s' => steps net s' rs
      | none => none
    else none

theorem Run.steps (h : Run net s) {rs : List (DistributedStep n)}
    (hs : s.steps net rs = some s') : Run net s' := by
  induction rs generalizing s with
  | nil =>
    cases hs
    exact h
  | cons r rs ih =>
    unfold DistributedSystem.steps at hs
    split at hs
    · next hf =>
      split at hs
      · next hstep => exact ih (h.step r hf hstep) hs
      · cases hs
    · cases hs

/-- Two ranks with a channel of the delay 5. -/
def twoRanks : Network 2 := ⟨[⟨0, 1, 5⟩], fun _ => maximumSimulationTime, fun _ => le_rfl⟩

/-- At the time 3 the first rank sends a packet that takes 2. -/
def sending : List (DistributedStep 2) :=
  [.call 0 (.schedule 3 1), .run 0, .run 1, .reduce, .head 0, .decide 0,
    .sendPacket 0 ⟨0, 1, 5⟩ 2 7 9, .finishEvent 0, .head 1]

/-- The packet of `sending` is received, and both ranks come to the end. -/
def ending : List (DistributedStep 2) :=
  sending ++ [.head 0, .endPoll 0, .receive 1 ⟨1, 10, 7, 9⟩, .endPoll 1, .gather, .update 0,
    .update 1, .decide 0, .decide 1, .finishEvent 1, .head 0, .endPoll 0, .head 1, .endPoll 1,
    .gather, .update 0]

theorem never_in_the_past_two : ∃ s, (start 2).steps twoRanks sending = some s ∧
    ⟨1, 10, 7, 9⟩ ∈ s.inFlight ∧ (s.impl 1).simulator.m_currentTs ≤ 10 := by
  have hrun : ((start 2).steps twoRanks sending).map (fun s => s.inFlight) =
      some [⟨1, 10, 7, 9⟩] := by
    decide
  obtain ⟨s, hs, hm⟩ := Option.map_eq_some_iff.mp hrun
  have hmem : ⟨1, 10, 7, 9⟩ ∈ s.inFlight := by simp [hm]
  exact ⟨s, hs, hmem, (never_in_the_past (Run.start.steps hs)).1 _ hmem⟩

end DistributedSystem

end Ns3.Mpi
