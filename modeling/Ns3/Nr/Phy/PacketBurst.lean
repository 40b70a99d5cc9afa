import Ns3.Lib.Rekey
import Ns3.Nr.Alloc
import Mathlib.Data.Finset.Card
import Mathlib.Data.Nat.ModEq

/-!
# Packet bursts of pending slots

`NrPhy` keeps the allocations of the slots to come in `m_slotAllocInfo` and the bursts
the MAC prepared for them in `m_packetBurstMap`, keyed by slot, symbol and stream. When
the channel is not granted, `PushFrontSlotAllocInfo` renumbers every pending slot and
moves the bursts along.

The move stores a burst under a key without a stream (`SfnSf.encodingWithSymStart`)
while `SetMacPdu` and `GetPacketBurst` use the key with one, so a burst is lost as soon
as it is moved: `pushFront_keeps_bursts_iff` says exactly which states survive a
postponement. The loops of the function are `Lib.rekey` over the list `burstMoves` of
what is moved where (`tables_moveSlots`).
-/

namespace Ns3.Nr.Phy

open Lib

/-- `PacketBurst`: a reference-counted object. `object` is its identity. -/
structure PacketBurst (α : Type) where
  object : Nat
  packets : List α
deriving DecidableEq, Repr

/-- The part of `NrPhy` that holds pending slots and their bursts. `nextObject` is the
identity the next `CreateObject` returns. -/
structure NrPhy (α : Type) where
  slotAllocInfo : List SlotAllocInfo := []
  packetBurstMap : Table Nat (PacketBurst α) := ∅
  nextObject : Nat := 0

variable {α : Type}

namespace NrPhy

def setMacPdu (phy : NrPhy α) (p : α) (sfn : SfnSf) (symStart streamId : Nat) : NrPhy α :=
  let key := sfn.encForStreamWithSymStart streamId symStart
  match phy.packetBurstMap.lookup key with
  | some burst =>
    { phy with
      packetBurstMap := phy.packetBurstMap.insert key
        { burst with packets := burst.packets ++ [p] } }
  | none =>
    { phy with
      packetBurstMap := phy.packetBurstMap.insert key ⟨phy.nextObject, [p]⟩
      nextObject := phy.nextObject + 1 }

/-- `GetPacketBurst`: the burst is taken out of the map. -/
def getPacketBurst (phy : NrPhy α) (sfn : SfnSf) (sym streamId : Nat) :
    Option (PacketBurst α) × NrPhy α :=
  let key := sfn.encForStreamWithSymStart streamId sym
  match phy.packetBurstMap.lookup key with
  | none => (none, phy)
  | some burst => (some burst, { phy with packetBurstMap := phy.packetBurstMap.erase key })

end NrPhy

/-- The state of the loops of `PushFrontSlotAllocInfo`: the PHY and `newBursts`. -/
structure Moving (α : Type) where
  phy : NrPhy α
  newBursts : Table Nat (PacketBurst α) := ∅

namespace Moving

def moveStream (currentSfn slotSfn : SfnSf) (symStart : Nat) (st : Moving α) (stream : Nat) :
    Moving α :=
  match st.phy.getPacketBurst slotSfn symStart stream with
  | (some pburst, phy) =>
    if 0 < pburst.packets.length then
      ⟨phy, st.newBursts.insertIfAbsent (currentSfn.encodingWithSymStart symStart) pburst⟩
    else ⟨phy, st.newBursts⟩
  | (none, phy) => ⟨phy, st.newBursts⟩

def moveAlloc (currentSfn slotSfn : SfnSf) (st : Moving α) (alloc : VarTtiAllocInfo) : Moving α :=
  if alloc.dci.type = .DATA then
    (List.range alloc.dci.tbSize.length).foldl (moveStream currentSfn slotSfn alloc.dci.symStart) st
  else st

/-- The outer loop: every pending slot takes the next number and its bursts are moved. -/
def moveSlots : SfnSf → List SlotAllocInfo → Moving α → List SlotAllocInfo × Moving α
  | _, [], st => ([], st)
  | currentSfn, info :: rest, st =>
    let st := info.varTtiAllocInfo.foldl (moveAlloc currentSfn info.sfnSf) st
    let (rest, st) := moveSlots (currentSfn.add 1) rest st
    ({ info with sfnSf := currentSfn } :: rest, st)

end Moving

def NrPhy.pushFrontSlotAllocInfo (phy : NrPhy α) (newSfnSf : SfnSf)
    (slotAllocInfo : SlotAllocInfo) :
    NrPhy α :=
  let (infos, st) := Moving.moveSlots newSfnSf (slotAllocInfo :: phy.slotAllocInfo) ⟨phy, ∅⟩
  { st.phy with
    slotAllocInfo := infos
    packetBurstMap := st.phy.packetBurstMap.insertAll st.newBursts.entries }

/-! ## What is moved where -/

/-- A stream of a DATA allocation whose slot gets a new number. -/
structure BurstMove where
  newSfn : SfnSf
  oldSfn : SfnSf
  symStart : Nat
  stream : Nat

namespace BurstMove

/-- The key `SetMacPdu` used for the burst. -/
def source (m : BurstMove) : Nat := m.oldSfn.encForStreamWithSymStart m.stream m.symStart

/-- The key the burst is moved to. -/
def target (m : BurstMove) : Nat := m.newSfn.encodingWithSymStart m.symStart

/-- The key `GetPacketBurst` uses in the new slot. -/
def fetch (m : BurstMove) : Nat := m.newSfn.encForStreamWithSymStart m.stream m.symStart

end BurstMove

def allocMoves (newSfn oldSfn : SfnSf) (alloc : VarTtiAllocInfo) : List BurstMove :=
  if alloc.dci.type = .DATA then
    (List.range alloc.dci.tbSize.length).map fun k => ⟨newSfn, oldSfn, alloc.dci.symStart, k⟩
  else []

/-- The pending slots with the numbers they get. -/
def renumber : SfnSf → List SlotAllocInfo → List (SfnSf × SlotAllocInfo)
  | _, [] => []
  | currentSfn, info :: rest => (currentSfn, info) :: renumber (currentSfn.add 1) rest

/-- Every stream of every DATA allocation of the pending slots, in the order of the
loops. -/
def burstMoves (newSfn : SfnSf) (infos : List SlotAllocInfo) : List BurstMove :=
  (renumber newSfn infos).flatMap fun p =>
    p.2.varTtiAllocInfo.flatMap (allocMoves p.1 p.2.sfnSf)

theorem burstMoves_cons (newSfn : SfnSf) (info : SlotAllocInfo) (rest : List SlotAllocInfo) :
    burstMoves newSfn (info :: rest) =
      info.varTtiAllocInfo.flatMap (allocMoves newSfn info.sfnSf) ++
      burstMoves (newSfn.add 1) rest := by
  rw [burstMoves, renumber, List.flatMap_cons]
  rfl

theorem mem_burstMoves {newSfn : SfnSf} {infos : List SlotAllocInfo} {m : BurstMove} :
    m ∈ burstMoves newSfn infos ↔ ∃ p ∈ renumber newSfn infos, ∃ a ∈ p.2.varTtiAllocInfo,
      a.dci.type = .DATA ∧ m.stream < a.dci.tbSize.length ∧ m.newSfn = p.1 ∧
        m.oldSfn = p.2.sfnSf ∧ m.symStart = a.dci.symStart := by
  simp only [burstMoves, List.mem_flatMap]
  constructor
  · rintro ⟨p, hp, a, ha, hm⟩
    unfold allocMoves at hm
    split at hm
    · rename_i hd
      obtain ⟨k, hk, rfl⟩ := List.mem_map.mp hm
      exact ⟨p, hp, a, ha, hd, List.mem_range.mp hk, rfl, rfl, rfl⟩
    · cases hm
  · rintro ⟨p, hp, a, ha, hd, hk, h1, h2, h3⟩
    refine ⟨p, hp, a, ha, ?_⟩
    rw [allocMoves, if_pos hd]
    refine List.mem_map.mpr ⟨m.stream, List.mem_range.mpr hk, ?_⟩
    rw [← h1, ← h2, ← h3]

/-! ## The loops are a rekeying -/

def hasPackets (burst : PacketBurst α) : Bool := decide (0 < burst.packets.length)

def Moving.tables (st : Moving α) : Table Nat (PacketBurst α) × Table Nat (PacketBurst α) :=
  (st.phy.packetBurstMap, st.newBursts)

@[simp] theorem getPacketBurst_fst (phy : NrPhy α) (sfn : SfnSf) (sym streamId : Nat) :
    (phy.getPacketBurst sfn sym streamId).1 =
      phy.packetBurstMap.lookup (sfn.encForStreamWithSymStart streamId sym) := by
  unfold NrPhy.getPacketBurst
  dsimp only
  split
  · rename_i h
    exact h.symm
  · rename_i burst h
    exact h.symm

theorem tables_moveStream (newSfn oldSfn : SfnSf) (sym : Nat) (st : Moving α) (k : Nat) :
    (Moving.moveStream newSfn oldSfn sym st k).tables =
      rekey hasPackets st.tables
        ((⟨newSfn, oldSfn, sym, k⟩ : BurstMove).source,
        (⟨newSfn, oldSfn, sym, k⟩ : BurstMove).target) := by
  unfold Moving.moveStream NrPhy.getPacketBurst rekey Moving.tables BurstMove.source
    BurstMove.target
  dsimp only
  cases h : st.phy.packetBurstMap.lookup (oldSfn.encForStreamWithSymStart k sym) with
  | none => rfl
  | some burst =>
    dsimp only
    by_cases hp : 0 < burst.packets.length
    · simp [hasPackets, hp]
    · simp [hasPackets, hp]

theorem tables_moveAlloc (newSfn oldSfn : SfnSf) (st : Moving α) (alloc : VarTtiAllocInfo) :
    (Moving.moveAlloc newSfn oldSfn st alloc).tables =
      ((allocMoves newSfn oldSfn alloc).map fun m => (m.source, m.target)).foldl
        (rekey hasPackets) st.tables := by
  unfold Moving.moveAlloc allocMoves
  split
  · rw [List.map_map]
    generalize List.range alloc.dci.tbSize.length = ks
    induction ks generalizing st with
    | nil => rfl
    | cons k ks ih =>
      rw [List.foldl_cons, ih, tables_moveStream]
      rfl
  · rfl

theorem tables_moveSlots (newSfn : SfnSf) (infos : List SlotAllocInfo) (st : Moving α) :
    (Moving.moveSlots newSfn infos st).2.tables =
      ((burstMoves newSfn infos).map fun m => (m.source, m.target)).foldl (rekey hasPackets)
        st.tables := by
  induction infos generalizing newSfn st with
  | nil => rfl
  | cons info rest ih =>
    have hallocs : (info.varTtiAllocInfo.foldl (Moving.moveAlloc newSfn info.sfnSf) st).tables =
        ((info.varTtiAllocInfo.flatMap (allocMoves newSfn info.sfnSf)).map
          fun m => (m.source, m.target)).foldl (rekey hasPackets) st.tables := by
      generalize info.varTtiAllocInfo = allocs
      induction allocs generalizing st with
      | nil => rfl
      | cons a allocs iha =>
        rw [List.foldl_cons, iha, tables_moveAlloc, List.flatMap_cons, List.map_append,
          List.foldl_append]
    change (Moving.moveSlots (newSfn.add 1) rest _).2.tables = _
    rw [ih, hallocs, burstMoves_cons, List.map_append, List.foldl_append]

/-- The burst map after a postponement: what was not moved, then what was. -/
theorem lookup_pushFront (phy : NrPhy α) (newSfn : SfnSf) (info : SlotAllocInfo) (x : Nat) :
    (phy.pushFrontSlotAllocInfo newSfn info).packetBurstMap.lookup x =
      let moves := (burstMoves newSfn (info :: phy.slotAllocInfo)).map fun m => (m.source, m.target)
      ((moves.foldl (rekey hasPackets) (phy.packetBurstMap, ∅)).1.lookup x).or
        ((moves.foldl (rekey hasPackets) (phy.packetBurstMap, ∅)).2.lookup x) := by
  have h := tables_moveSlots newSfn (info :: phy.slotAllocInfo) (⟨phy, ∅⟩ : Moving α)
  dsimp only
  rw [show ((phy.packetBurstMap, ∅) : Table Nat (PacketBurst α) × Table Nat (PacketBurst α)) =
    (⟨phy, ∅⟩ : Moving α).tables from rfl, ← h]
  exact Table.lookup_insertAll _ _ _

/-! ## Numbering of the pending slots -/

/-- The pending slots as the PHY keeps them: one entry for each slot (`PushBackSlotAllocInfo`
merges, and a slot is taken off the list before it is put back), all counted in the
numerology of the PHY, with symbols and streams that fit in a byte. -/
structure Pending (mu : Nat) (newSfn : SfnSf) (infos : List SlotAllocInfo) : Prop where
  newValid : newSfn.Valid
  newNumerology : newSfn.numerology = mu
  valid : ∀ info ∈ infos, info.sfnSf.Valid
  numerology : ∀ info ∈ infos, info.sfnSf.numerology = mu
  nodup : (infos.map SlotAllocInfo.sfnSf).Nodup
  symStart : ∀ info ∈ infos, ∀ a ∈ info.varTtiAllocInfo, a.dci.symStart < 256
  streams : ∀ info ∈ infos, ∀ a ∈ info.varTtiAllocInfo, a.dci.tbSize.length < 256

theorem renumber_map_snd (newSfn : SfnSf) (infos : List SlotAllocInfo) :
    (renumber newSfn infos).map Prod.snd = infos := by
  induction infos generalizing newSfn with
  | nil => rfl
  | cons info rest ih => rw [renumber, List.map_cons, ih]

theorem renumber_valid {newSfn : SfnSf} (h : newSfn.Valid) (infos : List SlotAllocInfo) :
    ∀ p ∈ renumber newSfn infos, p.1.Valid := by
  induction infos generalizing newSfn with
  | nil => simp [renumber]
  | cons info rest ih =>
    intro p hp
    rcases List.mem_cons.mp hp with rfl | hp
    · exact h
    · exact ih (h.add 1) p hp

theorem renumber_normalize {newSfn : SfnSf} (h : newSfn.Valid) (infos : List SlotAllocInfo) :
    (renumber newSfn infos).map (fun p => p.1.normalize) =
      (List.range infos.length).map
        fun j => (newSfn.normalize + j) % SfnSf.totalSlots newSfn.numerology := by
  induction infos generalizing newSfn with
  | nil => rfl
  | cons info rest ih =>
    rw [renumber, List.map_cons, ih (h.add 1), List.length_cons, List.range_succ_eq_map,
      List.map_cons, List.map_map, Nat.add_zero, Nat.mod_eq_of_lt h.normalize_lt]
    congr 1
    apply List.map_congr_left
    intro j _
    rw [SfnSf.numerology_add, h.normalize_add_mod (by norm_num), Nat.mod_add_mod]
    simp only [Function.comp_apply]
    congr 1
    omega

theorem Pending.length_le {mu : Nat} {newSfn : SfnSf} {infos : List SlotAllocInfo}
    (h : Pending mu newSfn infos) : infos.length ≤ SfnSf.totalSlots mu := by
  have hnd : (infos.map fun info => info.sfnSf.normalize).Nodup := by
    refine List.Nodup.map_on ?_ (List.Nodup.of_map _ h.nodup)
    intro a ha b hb hab
    have hsfn := (h.valid a ha).eq_of_normalize (h.valid b hb)
      ((h.numerology a ha).trans (h.numerology b hb).symm) hab
    exact List.inj_on_of_nodup_map h.nodup ha hb hsfn
  have hsub : (infos.map fun info => info.sfnSf.normalize).toFinset ⊆
      Finset.range (SfnSf.totalSlots mu) := by
    intro x hx
    obtain ⟨info, hinfo, rfl⟩ := List.mem_map.mp (List.mem_toFinset.mp hx)
    rw [Finset.mem_range, ← h.numerology info hinfo]
    exact (h.valid info hinfo).normalize_lt
  have hcard := Finset.card_le_card hsub
  rwa [List.toFinset_card_of_nodup hnd, List.length_map, Finset.card_range] at hcard

theorem Pending.renumber_nodup {mu : Nat} {newSfn : SfnSf} {infos : List SlotAllocInfo}
    (h : Pending mu newSfn infos) : ((renumber newSfn infos).map Prod.fst).Nodup := by
  have hnorm : ((renumber newSfn infos).map fun p => p.1.normalize).Nodup := by
    rw [renumber_normalize h.newValid, h.newNumerology]
    have hlen := h.length_le
    refine List.Nodup.map_on ?_ List.nodup_range
    intro i hi j hj hij
    rw [List.mem_range] at hi hj
    have hmod : i ≡ j [MOD SfnSf.totalSlots mu] := Nat.ModEq.add_left_cancel' _ hij
    exact Nat.ModEq.eq_of_lt_of_lt hmod (by omega) (by omega)
  have hcomp : (renumber newSfn infos).map (fun p => p.1.normalize) =
      ((renumber newSfn infos).map Prod.fst).map SfnSf.normalize := by
    rw [List.map_map]
    rfl
  rw [hcomp] at hnorm
  exact List.Nodup.of_map _ hnorm

/-- What the numbering gives for one moved stream. -/
theorem Pending.move {mu : Nat} {newSfn : SfnSf} {infos : List SlotAllocInfo}
    (h : Pending mu newSfn infos) {m : BurstMove} (hm : m ∈ burstMoves newSfn infos) :
    m.newSfn.Valid ∧ m.oldSfn.Valid ∧ m.symStart < 256 ∧ m.stream < 256 := by
  obtain ⟨p, hp, a, ha, -, hk, h1, h2, h3⟩ := mem_burstMoves.mp hm
  have hinfo : p.2 ∈ infos := by
    rw [← renumber_map_snd newSfn infos]
    exact List.mem_map_of_mem hp
  rw [h1, h2, h3]
  exact ⟨renumber_valid h.newValid infos p hp, h.valid _ hinfo, h.symStart _ hinfo a ha,
    hk.trans (h.streams _ hinfo a ha)⟩

/-- The renumbering of slots is one to one. -/
theorem Pending.newSfn_eq_iff {mu : Nat} {newSfn : SfnSf} {infos : List SlotAllocInfo}
    (h : Pending mu newSfn infos) {m m' : BurstMove} (hm : m ∈ burstMoves newSfn infos)
    (hm' : m' ∈ burstMoves newSfn infos) : m.newSfn = m'.newSfn ↔ m.oldSfn = m'.oldSfn := by
  obtain ⟨p, hp, -, -, -, -, h1, h2, -⟩ := mem_burstMoves.mp hm
  obtain ⟨q, hq, -, -, -, -, h1', h2', -⟩ := mem_burstMoves.mp hm'
  rw [h1, h1', h2, h2']
  constructor
  · intro he
    rw [List.inj_on_of_nodup_map h.renumber_nodup hp hq he]
  · intro he
    have hnd : ((renumber newSfn infos).map fun p => p.2.sfnSf).Nodup := by
      have := h.nodup
      rw [← renumber_map_snd newSfn infos, List.map_map] at this
      exact this
    rw [List.inj_on_of_nodup_map hnd hp hq he]

/-! ## Bursts stored by the MAC -/

/-- The PHY after any sequence of `SetMacPdu` calls for streams of DATA allocations of
`infos`, starting from an empty burst map. -/
inductive Loaded (infos : List SlotAllocInfo) : NrPhy α → Prop
  | empty (phy : NrPhy α) (h : phy.packetBurstMap = ∅) : Loaded infos phy
  | store {phy : NrPhy α} {info : SlotAllocInfo} {a : VarTtiAllocInfo} {k : Nat} (p : α)
      (h : Loaded infos phy) (hinfo : info ∈ infos) (ha : a ∈ info.varTtiAllocInfo)
      (hd : a.dci.type = .DATA) (hk : k < a.dci.tbSize.length) :
      Loaded infos (phy.setMacPdu p info.sfnSf a.dci.symStart k)

/-- What holds of the burst map while the MAC fills it. -/
structure BurstsOf (infos : List SlotAllocInfo) (phy : NrPhy α) : Prop where
  key : ∀ {x b}, phy.packetBurstMap.lookup x = some b → ∃ info ∈ infos,
    ∃ a ∈ info.varTtiAllocInfo, ∃ k, a.dci.type = .DATA ∧ k < a.dci.tbSize.length ∧
      x = info.sfnSf.encForStreamWithSymStart k a.dci.symStart
  packets : ∀ {x b}, phy.packetBurstMap.lookup x = some b → hasPackets b = true
  object : ∀ {x b}, phy.packetBurstMap.lookup x = some b → b.object < phy.nextObject
  unique : ∀ {x y b c}, phy.packetBurstMap.lookup x = some b →
    phy.packetBurstMap.lookup y = some c → b.object = c.object → x = y

theorem BurstsOf.of_empty (infos : List SlotAllocInfo) {phy : NrPhy α}
    (h : phy.packetBurstMap = ∅) : BurstsOf infos phy where
  key hb := by simp [h] at hb
  packets hb := by simp [h] at hb
  object hb := by simp [h] at hb
  unique hb := by simp [h] at hb

/-- An entry of the map after an insertion is the inserted one or an old one. -/
theorem lookup_insert_cases {m : Table Nat (PacketBurst α)} {key x : Nat} {v b : PacketBurst α}
    (h : (m.insert key v).lookup x = some b) :
    (x = key ∧ b = v) ∨ (x ≠ key ∧ m.lookup x = some b) := by
  by_cases hx : x = key
  · subst hx
    rw [AList.lookup_insert] at h
    exact Or.inl ⟨rfl, (Option.some.inj h).symm⟩
  · rw [AList.lookup_insert_ne hx] at h
    exact Or.inr ⟨hx, h⟩

/-- Storing a burst under the key of a DATA stream, with an object no other key has. -/
theorem BurstsOf.insert {infos : List SlotAllocInfo} {phy : NrPhy α} (h : BurstsOf infos phy)
    {info : SlotAllocInfo} (hinfo : info ∈ infos) {a : VarTtiAllocInfo}
    (ha : a ∈ info.varTtiAllocInfo) (hd : a.dci.type = .DATA) {k : Nat}
    (hk : k < a.dci.tbSize.length) {v : PacketBurst α} {next : Nat} (hv : hasPackets v = true)
    (hobj : v.object < next) (hnext : phy.nextObject ≤ next)
    (hfresh : ∀ {x b}, phy.packetBurstMap.lookup x = some b → b.object = v.object →
      x = info.sfnSf.encForStreamWithSymStart k a.dci.symStart) :
    BurstsOf infos
      { phy with
          packetBurstMap :=
            phy.packetBurstMap.insert (info.sfnSf.encForStreamWithSymStart k a.dci.symStart) v
          nextObject := next } := by
  refine ⟨?_, ?_, ?_, ?_⟩
  · intro x b hb
    rcases lookup_insert_cases hb with ⟨rfl, -⟩ | ⟨-, hb⟩
    · exact ⟨info, hinfo, a, ha, k, hd, hk, rfl⟩
    · exact h.key hb
  · intro x b hb
    rcases lookup_insert_cases hb with ⟨-, rfl⟩ | ⟨-, hb⟩
    · exact hv
    · exact h.packets hb
  · intro x b hb
    rcases lookup_insert_cases hb with ⟨-, rfl⟩ | ⟨-, hb⟩
    · exact hobj
    · exact (h.object hb).trans_le hnext
  · intro x y b c hb hc heq
    rcases lookup_insert_cases hb with ⟨rfl, rfl⟩ | ⟨-, hb'⟩
    · rcases lookup_insert_cases hc with ⟨rfl, -⟩ | ⟨-, hc'⟩
      · rfl
      · exact (hfresh hc' heq.symm).symm
    · rcases lookup_insert_cases hc with ⟨rfl, rfl⟩ | ⟨-, hc'⟩
      · exact hfresh hb' heq
      · exact h.unique hb' hc' heq

theorem BurstsOf.setMacPdu {infos : List SlotAllocInfo} {phy : NrPhy α} (h : BurstsOf infos phy)
    {info : SlotAllocInfo} (hinfo : info ∈ infos) {a : VarTtiAllocInfo}
    (ha : a ∈ info.varTtiAllocInfo) (hd : a.dci.type = .DATA) {k : Nat}
    (hk : k < a.dci.tbSize.length) (p : α) :
    BurstsOf infos (phy.setMacPdu p info.sfnSf a.dci.symStart k) := by
  unfold NrPhy.setMacPdu
  dsimp only
  split
  · rename_i old hold
    -- the object that was there gets one more packet
    have hobj : old.object < phy.nextObject := h.object hold
    refine h.insert hinfo ha hd hk (by simp [hasPackets]) hobj le_rfl ?_
    intro x b hb heq
    exact h.unique hb hold heq
  · refine h.insert hinfo ha hd hk (by simp [hasPackets]) (Nat.lt_succ_self _)
      (Nat.le_succ _) ?_
    intro x b hb heq
    exact absurd heq (h.object hb).ne

theorem Loaded.burstsOf {infos : List SlotAllocInfo} {phy : NrPhy α} (h : Loaded infos phy) :
    BurstsOf infos phy := by
  induction h with
  | empty phy h => exact BurstsOf.of_empty infos h
  | store p _ hinfo ha hd hk ih => exact ih.setMacPdu hinfo ha hd hk p

/-- Every stored burst is on the list of moves. -/
theorem BurstsOf.mem_source {infos : List SlotAllocInfo} {phy : NrPhy α} (h : BurstsOf infos phy)
    (newSfn : SfnSf) {x : Nat} {b : PacketBurst α} (hb : phy.packetBurstMap.lookup x = some b) :
    ∃ m ∈ burstMoves newSfn infos, m.source = x := by
  obtain ⟨info, hinfo, a, ha, k, hd, hk, rfl⟩ := h.key hb
  rw [← renumber_map_snd newSfn infos] at hinfo
  obtain ⟨q, hq, rfl⟩ := List.mem_map.mp hinfo
  refine ⟨⟨q.1, q.2.sfnSf, a.dci.symStart, k⟩, ?_, rfl⟩
  exact mem_burstMoves.mpr ⟨q, hq, a, ha, hd, hk, rfl, rfl, rfl⟩

/-! ## When a postponement keeps the bursts -/

/-- The burst map after the call holds nothing but what was moved. -/
theorem lookup_pushFront_of_burstsOf {phy : NrPhy α} {newSfn : SfnSf} {info : SlotAllocInfo}
    (h : BurstsOf (info :: phy.slotAllocInfo) phy) (x : Nat) :
    (phy.pushFrontSlotAllocInfo newSfn info).packetBurstMap.lookup x =
      (((burstMoves newSfn (info :: phy.slotAllocInfo)).map fun m => (m.source, m.target)).foldl
        (rekey hasPackets) (phy.packetBurstMap, ∅)).2.lookup x := by
  rw [lookup_pushFront]
  dsimp only
  rw [lookup_rekey_fst]
  split
  · rfl
  · rename_i hx
    cases hb : phy.packetBurstMap.lookup x with
    | none => simp
    | some b =>
      obtain ⟨m, hm, rfl⟩ := h.mem_source newSfn hb
      refine absurd ?_ hx
      rw [List.map_map]
      exact List.mem_map.mpr ⟨m, hm, rfl⟩

/-- The one slot, symbol and stream whose keys with and without a stream are the same. -/
def BurstMove.IsZero (m : BurstMove) : Prop :=
  m.newSfn = ⟨0, 0, 0, 0⟩ ∧ m.symStart = 0 ∧ m.stream = 0

theorem Pending.target_eq_fetch_iff {mu : Nat} {newSfn : SfnSf} {infos : List SlotAllocInfo}
    (h : Pending mu newSfn infos) {m : BurstMove} (hm : m ∈ burstMoves newSfn infos) :
    m.target = m.fetch ↔ m.IsZero := by
  obtain ⟨hv, -, hy, hk⟩ := h.move hm
  exact SfnSf.encodingWithSymStart_eq_encForStream_iff hv hk hy

theorem Pending.eq_of_source_eq {mu : Nat} {newSfn : SfnSf} {infos : List SlotAllocInfo}
    (h : Pending mu newSfn infos) {m m' : BurstMove} (hm : m ∈ burstMoves newSfn infos)
    (hm' : m' ∈ burstMoves newSfn infos) (he : m.source = m'.source) : m = m' := by
  obtain ⟨-, ho, hy, hk⟩ := h.move hm
  obtain ⟨-, ho', hy', hk'⟩ := h.move hm'
  obtain ⟨h1, h2, h3⟩ := SfnSf.encForStreamWithSymStart_inj ho ho' hk hk' hy hy' he
  have h4 := (h.newSfn_eq_iff hm hm').mpr h1
  cases m
  cases m'
  simp only [BurstMove.mk.injEq]
  exact ⟨h4, h1, h2, h3⟩

theorem Pending.eq_of_fetch_eq {mu : Nat} {newSfn : SfnSf} {infos : List SlotAllocInfo}
    (h : Pending mu newSfn infos) {m m' : BurstMove} (hm : m ∈ burstMoves newSfn infos)
    (hm' : m' ∈ burstMoves newSfn infos) (he : m.fetch = m'.fetch) : m = m' := by
  obtain ⟨hn, -, hy, hk⟩ := h.move hm
  obtain ⟨hn', -, hy', hk'⟩ := h.move hm'
  obtain ⟨h1, h2, h3⟩ := SfnSf.encForStreamWithSymStart_inj hn hn' hk hk' hy hy' he
  have h4 := (h.newSfn_eq_iff hm hm').mp h1
  cases m
  cases m'
  simp only [BurstMove.mk.injEq]
  exact ⟨h1, h4, h2, h3⟩

section Postponed

variable {mu : Nat} {phy : NrPhy α} {newSfn : SfnSf} {info : SlotAllocInfo}

/-- A burst found in the new slot has been moved there from a source of its own. -/
theorem source_of_lookup_pushFront (hb : BurstsOf (info :: phy.slotAllocInfo) phy) {x : Nat}
    {b : PacketBurst α}
    (h : (phy.pushFrontSlotAllocInfo newSfn info).packetBurstMap.lookup x = some b) :
    ∃ m ∈ burstMoves newSfn (info :: phy.slotAllocInfo),
      m.target = x ∧ phy.packetBurstMap.lookup m.source = some b := by
  rw [lookup_pushFront_of_burstsOf hb] at h
  rcases rekey_snd_sound hasPackets h with habs | ⟨y, hy, hby⟩
  · simp at habs
  · obtain ⟨m, hm, he⟩ := List.mem_map.mp hy
    obtain ⟨rfl, rfl⟩ := Prod.mk.inj he
    exact ⟨m, hm, rfl, hby⟩

theorem isSome_lookup_target (hp : Pending mu newSfn (info :: phy.slotAllocInfo))
    (hb : BurstsOf (info :: phy.slotAllocInfo) phy) {m : BurstMove}
    (hm : m ∈ burstMoves newSfn (info :: phy.slotAllocInfo)) {b : PacketBurst α}
    (h : phy.packetBurstMap.lookup m.source = some b) :
    ((phy.pushFrontSlotAllocInfo newSfn info).packetBurstMap.lookup m.target).isSome := by
  have hmem : m.source ∈ ((burstMoves newSfn (info :: phy.slotAllocInfo)).map
      fun m => (m.source, m.target)).map Prod.fst := by
    rw [List.map_map]
    exact List.mem_map.mpr ⟨m, hm, rfl⟩
  have h' :
      ((phy.packetBurstMap, ∅) : Table Nat (PacketBurst α) × Table Nat (PacketBurst α)).1.lookup
      m.source = some b := h
  obtain ⟨y, hy, hsome⟩ := rekey_snd_complete hasPackets hmem h' (hb.packets h)
  obtain ⟨m', hm', he⟩ := List.mem_map.mp hy
  obtain ⟨hs, rfl⟩ := Prod.mk.inj he
  rw [lookup_pushFront_of_burstsOf hb, ← hp.eq_of_source_eq hm' hm hs]
  exact hsome

/-- A stream keeps its burst, or the absence of one, only when what is moved is found
under the key with a stream. -/
theorem BurstsOf.keeps_iff (hp : Pending mu newSfn (info :: phy.slotAllocInfo))
    (hb : BurstsOf (info :: phy.slotAllocInfo) phy) :
    (∀ m ∈ burstMoves newSfn (info :: phy.slotAllocInfo),
      (phy.pushFrontSlotAllocInfo newSfn info).packetBurstMap.lookup m.fetch =
        phy.packetBurstMap.lookup m.source) ↔
    ∀ m ∈ burstMoves newSfn (info :: phy.slotAllocInfo),
      (phy.packetBurstMap.lookup m.source).isSome → m.IsZero := by
  constructor
  · intro hkeep m hm hsome
    obtain ⟨b, hold⟩ := Option.isSome_iff_exists.mp hsome
    obtain ⟨m', hm', ht, hold'⟩ := source_of_lookup_pushFront hb ((hkeep m hm).trans hold)
    -- the same object is under both sources, so it is one move
    obtain rfl := hp.eq_of_source_eq hm' hm (hb.unique hold' hold rfl)
    exact (hp.target_eq_fetch_iff hm).mp ht
  · intro hzero m hm
    -- whatever is found under the key comes from this stream
    have hfound : ∀ {b}, (phy.pushFrontSlotAllocInfo newSfn info).packetBurstMap.lookup m.fetch =
        some b → phy.packetBurstMap.lookup m.source = some b := by
      intro b hnew
      obtain ⟨m', hm', ht, hold⟩ := source_of_lookup_pushFront hb hnew
      have hz := hzero m' hm' (by rw [hold]; rfl)
      have hf := ((hp.target_eq_fetch_iff hm').mpr hz).symm.trans ht
      rwa [hp.eq_of_fetch_eq hm' hm hf] at hold
    cases hold : phy.packetBurstMap.lookup m.source with
    | none =>
      cases hnew : (phy.pushFrontSlotAllocInfo newSfn info).packetBurstMap.lookup m.fetch with
      | none => rfl
      | some b =>
        rw [hfound hnew] at hold
        cases hold
    | some b =>
      have hz := hzero m hm (by rw [hold]; rfl)
      have hsome := isSome_lookup_target hp hb hm hold
      rw [(hp.target_eq_fetch_iff hm).mpr hz] at hsome
      obtain ⟨c, hc⟩ := Option.isSome_iff_exists.mp hsome
      rw [hc, ← hfound hc, hold]

/-- A postponement keeps every burst exactly when the only stored burst, if any, is the
one of stream 0 at symbol 0 that moves to slot 0 of frame 0 in numerology 0. -/
theorem pushFront_keeps_bursts_iff (hp : Pending mu newSfn (info :: phy.slotAllocInfo))
    (hl : Loaded (info :: phy.slotAllocInfo) phy) :
    (∀ m ∈ burstMoves newSfn (info :: phy.slotAllocInfo),
      ((phy.pushFrontSlotAllocInfo newSfn info).getPacketBurst m.newSfn m.symStart m.stream).1 =
        (phy.getPacketBurst m.oldSfn m.symStart m.stream).1) ↔
    ∀ m ∈ burstMoves newSfn (info :: phy.slotAllocInfo),
      (phy.packetBurstMap.lookup (m.oldSfn.encForStreamWithSymStart m.stream m.symStart)).isSome →
        m.newSfn = ⟨0, 0, 0, 0⟩ ∧ m.symStart = 0 ∧ m.stream = 0 := by
  simp only [getPacketBurst_fst]
  exact hl.burstsOf.keeps_iff hp

end Postponed

/-- One slot with one DATA allocation of one stream at symbol 1. -/
def oneAlloc : SlotAllocInfo :=
  { sfnSf := ⟨0, 1, 0, 0⟩
    varTtiAllocInfo := [{ dci := { symStart := 1, numSym := 1, tbSize := [10], type := .DATA } }] }

/-- The PHY after the MAC stored one packet for `oneAlloc`. -/
def oneBurst : NrPhy Nat := ({} : NrPhy Nat).setMacPdu 7 ⟨0, 1, 0, 0⟩ 1 0

theorem pending_oneAlloc : Pending 0 ⟨0, 2, 0, 0⟩ [oneAlloc] where
  newValid := ⟨by decide, by decide, by decide, by decide⟩
  newNumerology := rfl
  valid := by
    simp only [List.mem_singleton, forall_eq]
    exact ⟨by decide, by decide, by decide, by decide⟩
  numerology := by simp [oneAlloc]
  nodup := by simp
  symStart := by simp [oneAlloc]
  streams := by simp [oneAlloc]

theorem loaded_oneBurst : Loaded [oneAlloc] oneBurst :=
  Loaded.store 7 (Loaded.empty _ rfl) (List.mem_singleton_self oneAlloc)
    (List.mem_singleton_self _) rfl (by decide)

theorem pushFront_keeps_bursts_iff_oneBurst :
    (∀ m ∈ burstMoves ⟨0, 2, 0, 0⟩ (oneAlloc :: oneBurst.slotAllocInfo),
      ((oneBurst.pushFrontSlotAllocInfo ⟨0, 2, 0, 0⟩ oneAlloc).getPacketBurst m.newSfn m.symStart
        m.stream).1 = (oneBurst.getPacketBurst m.oldSfn m.symStart m.stream).1) ↔
    ∀ m ∈ burstMoves ⟨0, 2, 0, 0⟩ (oneAlloc :: oneBurst.slotAllocInfo),
      (oneBurst.packetBurstMap.lookup
        (m.oldSfn.encForStreamWithSymStart m.stream m.symStart)).isSome →
        m.newSfn = ⟨0, 0, 0, 0⟩ ∧ m.symStart = 0 ∧ m.stream = 0 :=
  pushFront_keeps_bursts_iff pending_oneAlloc loaded_oneBurst

/-- The stored packet is gone after the postponement. -/
theorem pushFront_loses_oneBurst :
    Pending 0 ⟨0, 2, 0, 0⟩ (oneAlloc :: oneBurst.slotAllocInfo) ∧
    Loaded (oneAlloc :: oneBurst.slotAllocInfo) oneBurst ∧
    (⟨⟨0, 2, 0, 0⟩, ⟨0, 1, 0, 0⟩, 1, 0⟩ : BurstMove) ∈
      burstMoves ⟨0, 2, 0, 0⟩ (oneAlloc :: oneBurst.slotAllocInfo) ∧
    (oneBurst.getPacketBurst ⟨0, 1, 0, 0⟩ 1 0).1 = some ⟨0, [7]⟩ ∧
    ((oneBurst.pushFrontSlotAllocInfo ⟨0, 2, 0, 0⟩ oneAlloc).getPacketBurst ⟨0, 2, 0, 0⟩ 1 0).1 =
      none := by
  refine ⟨pending_oneAlloc, loaded_oneBurst, ?_, by decide, by decide⟩
  simp [burstMoves, renumber, allocMoves, oneAlloc, oneBurst, NrPhy.setMacPdu]

end Ns3.Nr.Phy
