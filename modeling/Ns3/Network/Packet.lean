import Mathlib.Data.List.Basic

/-!
# Packets and the parameters of the configured grant

A packet carries the periodicity and the deadline that its application set. The fields follow the
packet object, not its bytes: `CreateFragment` builds a new object without them, and `operator =`
and `AddAtEnd` leave those of their target. `Faithful` compares the fields with where the bytes come
from.
-/

namespace Ns3.Network

/-- What an application sets on a packet. -/
structure GrantParameters where
  periodicity : UInt8
  deadline : UInt32
deriving DecidableEq, Repr

/-- A byte of a buffer. `origin` holds the parameters of the application packet it was created in;
no function reads it. -/
structure Byte where
  value : UInt8
  origin : Option GrantParameters := none
deriving DecidableEq, Repr

/-- `Packet`: the buffer and the two fields. -/
structure Packet where
  m_buffer : List Byte
  m_periodicity : UInt8 := 0
  m_deadline : UInt32 := 0
deriving DecidableEq, Repr

namespace Packet

/-! ## Constructors -/

def ofSize (size : ℕ) : Packet := ⟨List.replicate size { value := 0 }, 0, 0⟩

def ofData (buffer : List UInt8) : Packet := ⟨buffer.map fun v => { value := v }, 0, 0⟩

/-- `Packet (size, periodicity, deadline)`. -/
def ofApplication (size : ℕ) (periodicity : UInt8) (deadline : UInt32) : Packet :=
  ⟨List.replicate size ⟨0, some ⟨periodicity, deadline⟩⟩, periodicity, deadline⟩

/-- The constructor from the parts of a packet, which does not take the two fields. -/
def ofParts (buffer : List Byte) : Packet := ⟨buffer, 0, 0⟩

/-- The copy constructor. -/
def copy (p : Packet) : Packet := ⟨p.m_buffer, p.m_periodicity, p.m_deadline⟩

/-- `operator =`. -/
def assign (p o : Packet) : Packet := { p with m_buffer := o.m_buffer }

/-! ## Operations -/

def getSize (p : Packet) : ℕ := p.m_buffer.length

def getPeriodicity (p : Packet) : UInt8 := p.m_periodicity

def getDeadline (p : Packet) : UInt32 := p.m_deadline

def removeAtStart (p : Packet) (size : ℕ) : Packet := { p with m_buffer := p.m_buffer.drop size }

def removeAtEnd (p : Packet) (size : ℕ) : Packet :=
  { p with m_buffer := p.m_buffer.take (p.m_buffer.length - size) }

/-- `Buffer::CreateFragment`, for a range inside the buffer. -/
def fragmentBuffer (b : List Byte) (start length : ℕ) : List Byte :=
  (b.drop start).take ((b.drop start).length - (b.length - (start + length)))

/-- `none` when the assertion on the range fails. -/
def createFragment (p : Packet) (start length : ℕ) : Option Packet :=
  if p.getSize ≥ start + length then some (ofParts (fragmentBuffer p.m_buffer start length))
  else none

/-- The header is given by the bytes it serializes to. -/
def addHeader (p : Packet) (header : List UInt8) : Packet :=
  { p with m_buffer := header.map (fun v => { value := v }) ++ p.m_buffer }

/-- The header is given by the number of bytes it deserializes. -/
def removeHeader (p : Packet) (deserialized : ℕ) : Packet := p.removeAtStart deserialized

def addTrailer (p : Packet) (trailer : List UInt8) : Packet :=
  { p with m_buffer := p.m_buffer ++ trailer.map (fun v => { value := v }) }

def removeTrailer (p : Packet) (deserialized : ℕ) : Packet := p.removeAtEnd deserialized

def addAtEnd (p packet : Packet) : Packet := { p with m_buffer := p.m_buffer ++ packet.m_buffer }

def addPaddingAtEnd (p : Packet) (size : ℕ) : Packet :=
  { p with m_buffer := p.m_buffer ++ List.replicate size { value := 0 } }

/-! ## Faithful packets -/

/-- What the packet reports. -/
def parameters (p : Packet) : GrantParameters := ⟨p.getPeriodicity, p.getDeadline⟩

/-- The bytes of `b` are all of the application packets with the parameters `g`, or of none. -/
def CarriesOnly (b : List Byte) (g : GrantParameters) : Prop :=
  ∀ x ∈ b, ∀ o, x.origin = some o → o = g

/-- No byte of `b` is of an application packet. -/
def Plain (b : List Byte) : Prop := ∀ x ∈ b, x.origin = none

/-- A packet that carries bytes of an application packet reports its parameters. -/
def Faithful (p : Packet) : Prop := CarriesOnly p.m_buffer p.parameters

instance (b : List Byte) : Decidable (Plain b) :=
  inferInstanceAs (Decidable (∀ x ∈ b, x.origin = none))

theorem Plain.carriesOnly {b : List Byte} (h : Plain b) (g : GrantParameters) :
    CarriesOnly b g := by
  intro x hx o ho
  rw [h x hx] at ho
  cases ho

theorem CarriesOnly.subset {b c : List Byte} {g : GrantParameters} (h : CarriesOnly c g)
    (hb : b ⊆ c) : CarriesOnly b g :=
  fun x hx o ho => h x (hb hx) o ho

theorem carriesOnly_append {b c : List Byte} {g : GrantParameters} :
    CarriesOnly (b ++ c) g ↔ CarriesOnly b g ∧ CarriesOnly c g :=
  List.forall_mem_append

/-- Bytes that report `g` can be reported under `g'` only when the two agree, or there are none. -/
theorem CarriesOnly.iff {b : List Byte} {g g' : GrantParameters} (h : CarriesOnly b g) :
    CarriesOnly b g' ↔ g' = g ∨ Plain b := by
  constructor
  · intro h'
    by_cases hp : Plain b
    · exact Or.inr hp
    · left
      unfold Plain at hp
      push Not at hp
      obtain ⟨x, hx, hne⟩ := hp
      obtain ⟨o, ho⟩ := Option.ne_none_iff_exists'.mp hne
      rw [← h x hx o ho, ← h' x hx o ho]
  · rintro (rfl | hp)
    · exact h
    · exact hp.carriesOnly g'

theorem plain_map (l : List UInt8) : Plain (l.map fun v => { value := v }) := by
  intro x hx
  obtain ⟨v, -, rfl⟩ := List.mem_map.mp hx
  rfl

theorem plain_replicate (n : ℕ) : Plain (List.replicate n { value := 0 }) := by
  intro x hx
  rw [List.eq_of_mem_replicate hx]

theorem faithful_ofSize (size : ℕ) : (ofSize size).Faithful :=
  (plain_replicate size).carriesOnly _

theorem faithful_ofData (buffer : List UInt8) : (ofData buffer).Faithful :=
  (plain_map buffer).carriesOnly _

theorem faithful_ofApplication (size : ℕ) (periodicity : UInt8) (deadline : UInt32) :
    (ofApplication size periodicity deadline).Faithful := by
  intro x hx o ho
  rw [List.eq_of_mem_replicate hx] at ho
  cases ho
  rfl

theorem Faithful.removeAtStart {p : Packet} (h : p.Faithful) (size : ℕ) :
    (p.removeAtStart size).Faithful :=
  CarriesOnly.subset h (List.drop_subset _ _)

theorem Faithful.removeAtEnd {p : Packet} (h : p.Faithful) (size : ℕ) :
    (p.removeAtEnd size).Faithful :=
  CarriesOnly.subset h (List.take_subset _ _)

theorem Faithful.addHeader {p : Packet} (h : p.Faithful) (header : List UInt8) :
    (p.addHeader header).Faithful :=
  carriesOnly_append.mpr ⟨(plain_map header).carriesOnly _, h⟩

theorem Faithful.addTrailer {p : Packet} (h : p.Faithful) (trailer : List UInt8) :
    (p.addTrailer trailer).Faithful :=
  carriesOnly_append.mpr ⟨h, (plain_map trailer).carriesOnly _⟩

theorem Faithful.addPaddingAtEnd {p : Packet} (h : p.Faithful) (size : ℕ) :
    (p.addPaddingAtEnd size).Faithful :=
  carriesOnly_append.mpr ⟨h, (plain_replicate size).carriesOnly _⟩

theorem faithful_assign_iff {p o : Packet} (h : o.Faithful) :
    (p.assign o).Faithful ↔ p.parameters = o.parameters ∨ Plain o.m_buffer :=
  CarriesOnly.iff h

theorem faithful_addAtEnd_iff {p q : Packet} (hp : p.Faithful) (hq : q.Faithful) :
    (p.addAtEnd q).Faithful ↔ p.parameters = q.parameters ∨ Plain q.m_buffer := by
  rw [← CarriesOnly.iff hq]
  exact ⟨fun h => (carriesOnly_append.mp h).2, fun h => carriesOnly_append.mpr ⟨hp, h⟩⟩

theorem fragmentBuffer_eq {b : List Byte} {start length : ℕ} (h : b.length ≥ start + length) :
    fragmentBuffer b start length = (b.drop start).take length := by
  unfold fragmentBuffer
  rw [List.length_drop, show b.length - start - (b.length - (start + length)) = length by omega]

theorem faithful_ofParts_iff {p : Packet} (h : p.Faithful) {start length : ℕ}
    (hl : p.getSize ≥ start + length) :
    (ofParts (fragmentBuffer p.m_buffer start length)).Faithful ↔
      (⟨0, 0⟩ : GrantParameters) = p.parameters ∨ Plain ((p.m_buffer.drop start).take length) := by
  rw [fragmentBuffer_eq hl]
  exact CarriesOnly.iff
    (CarriesOnly.subset h (List.Subset.trans (List.take_subset _ _) (List.drop_subset _ _)))

end Packet

/-! ## Families of packets -/

/-- The operations of a program on its packets, which are named by their index. -/
inductive PacketOp
  | create (size : ℕ)
  | createData (buffer : List UInt8)
  | createApplication (size : ℕ) (periodicity : UInt8) (deadline : UInt32)
  | copy (i : ℕ)
  | assign (i j : ℕ)
  | createFragment (i start length : ℕ)
  | addHeader (i : ℕ) (header : List UInt8)
  | removeHeader (i deserialized : ℕ)
  | addTrailer (i : ℕ) (trailer : List UInt8)
  | removeTrailer (i deserialized : ℕ)
  | addAtEnd (i j : ℕ)
  | addPaddingAtEnd (i size : ℕ)
  | removeAtStart (i size : ℕ)
  | removeAtEnd (i size : ℕ)
deriving DecidableEq, Repr

/-- An operation that changes the packet `i`. -/
def change (ps : List Packet) (i : ℕ) (f : Packet → Packet) : Option (List Packet) := do
  let p ← ps[i]?
  return ps.set i (f p)

/-- The packets after an operation; a new packet comes last. -/
def PacketOp.apply (ps : List Packet) : PacketOp → Option (List Packet)
  | .create size => some (ps ++ [.ofSize size])
  | .createData buffer => some (ps ++ [.ofData buffer])
  | .createApplication size periodicity deadline =>
    some (ps ++ [.ofApplication size periodicity deadline])
  | .copy i => do
    let p ← ps[i]?
    return ps ++ [p.copy]
  | .assign i j => do
    let o ← ps[j]?
    change ps i (·.assign o)
  | .createFragment i start length => do
    let p ← ps[i]?
    let f ← p.createFragment start length
    return ps ++ [f]
  | .addHeader i header => change ps i (·.addHeader header)
  | .removeHeader i deserialized => change ps i (·.removeHeader deserialized)
  | .addTrailer i trailer => change ps i (·.addTrailer trailer)
  | .removeTrailer i deserialized => change ps i (·.removeTrailer deserialized)
  | .addAtEnd i j => do
    let q ← ps[j]?
    change ps i (·.addAtEnd q)
  | .addPaddingAtEnd i size => change ps i (·.addPaddingAtEnd size)
  | .removeAtStart i size => change ps i (·.removeAtStart size)
  | .removeAtEnd i size => change ps i (·.removeAtEnd size)

/-- The condition on an operation that keeps the parameters with the bytes: bytes of an application
packet go to a packet object that reports the same parameters already. -/
def PacketOp.Keeps (ps : List Packet) : PacketOp → Prop
  | .assign i j | .addAtEnd i j =>
    ∀ p ∈ ps[i]?, ∀ q ∈ ps[j]?, p.parameters = q.parameters ∨ Packet.Plain q.m_buffer
  | .createFragment i start length =>
    ∀ p ∈ ps[i]?, (⟨0, 0⟩ : GrantParameters) = p.parameters ∨
      Packet.Plain ((p.m_buffer.drop start).take length)
  | _ => True

/-- Every packet is faithful. -/
def Faithful (ps : List Packet) : Prop := ∀ p ∈ ps, p.Faithful

theorem faithful_append_iff {ps : List Packet} (h : Faithful ps) (p : Packet) :
    Faithful (ps ++ [p]) ↔ p.Faithful := by
  unfold Faithful
  rw [List.forall_mem_append, List.forall_mem_singleton]
  exact ⟨fun hp => hp.2, fun hp => ⟨h, hp⟩⟩

theorem faithful_change_iff {ps ps' : List Packet} {i : ℕ} {f : Packet → Packet}
    (h : Faithful ps) (hs : change ps i f = some ps') :
    Faithful ps' ↔ ∀ p ∈ ps[i]?, (f p).Faithful := by
  unfold change at hs
  obtain ⟨p, hp, heq⟩ := Option.bind_eq_some_iff.mp hs
  cases heq
  obtain ⟨hi, -⟩ := List.getElem?_eq_some_iff.mp hp
  constructor
  · intro hf q hq
    rw [hp] at hq
    cases hq
    exact hf _ (List.mem_set hi _)
  · intro hf x hx
    rcases List.mem_or_eq_of_mem_set hx with hx | rfl
    · exact h x hx
    · exact hf p hp

/-- One operation keeps all packets faithful exactly when it meets the condition. -/
theorem PacketOp.faithful_iff {ps ps' : List Packet} {op : PacketOp} (h : Faithful ps)
    (hs : op.apply ps = some ps') : Faithful ps' ↔ op.Keeps ps := by
  have hget : ∀ i, ∀ p ∈ ps[i]?, Packet.Faithful p := fun i p hp => h p (List.mem_of_getElem? hp)
  -- operations that keep a faithful packet faithful
  have hkeep : ∀ {i : ℕ} {f : Packet → Packet}, change ps i f = some ps' →
      (∀ p : Packet, p.Faithful → (f p).Faithful) → (Faithful ps' ↔ True) := by
    intro i f hc hf
    rw [faithful_change_iff h hc, iff_true]
    exact fun p hp => hf p (hget i p hp)
  cases op with
  | create size =>
    cases hs
    rw [faithful_append_iff h]
    exact iff_true_intro (Packet.faithful_ofSize size)
  | createData buffer =>
    cases hs
    rw [faithful_append_iff h]
    exact iff_true_intro (Packet.faithful_ofData buffer)
  | createApplication size periodicity deadline =>
    cases hs
    rw [faithful_append_iff h]
    exact iff_true_intro (Packet.faithful_ofApplication size periodicity deadline)
  | copy i =>
    obtain ⟨p, hp, heq⟩ := Option.bind_eq_some_iff.mp hs
    cases heq
    rw [faithful_append_iff h]
    exact iff_true_intro (hget i p hp)
  | assign i j =>
    obtain ⟨o, ho, hc⟩ := Option.bind_eq_some_iff.mp hs
    rw [faithful_change_iff h hc]
    constructor
    · intro hf p hp q hq
      rw [ho] at hq
      cases hq
      exact (Packet.faithful_assign_iff (hget j o ho)).mp (hf p hp)
    · intro hf p hp
      exact (Packet.faithful_assign_iff (hget j o ho)).mpr (hf p hp o ho)
  | createFragment i start length =>
    obtain ⟨p, hp, hb⟩ := Option.bind_eq_some_iff.mp hs
    obtain ⟨f, hf, heq⟩ := Option.bind_eq_some_iff.mp hb
    cases heq
    unfold Packet.createFragment at hf
    split at hf
    · next hl =>
      cases hf
      rw [faithful_append_iff h, Packet.faithful_ofParts_iff (hget i p hp) hl]
      constructor
      · intro hk q hq
        rw [hp] at hq
        cases hq
        exact hk
      · exact fun hk => hk p hp
    · cases hf
  | addHeader i header => exact hkeep hs fun p hp => hp.addHeader header
  | removeHeader i deserialized => exact hkeep hs fun p hp => hp.removeAtStart deserialized
  | addTrailer i trailer => exact hkeep hs fun p hp => hp.addTrailer trailer
  | removeTrailer i deserialized => exact hkeep hs fun p hp => hp.removeAtEnd deserialized
  | addAtEnd i j =>
    obtain ⟨q, hq, hc⟩ := Option.bind_eq_some_iff.mp hs
    rw [faithful_change_iff h hc]
    constructor
    · intro hf p hp o ho
      rw [hq] at ho
      cases ho
      exact (Packet.faithful_addAtEnd_iff (hget i p hp) (hget j q hq)).mp (hf p hp)
    · intro hf p hp
      exact (Packet.faithful_addAtEnd_iff (hget i p hp) (hget j q hq)).mpr (hf p hp q hq)
  | addPaddingAtEnd i size => exact hkeep hs fun p hp => hp.addPaddingAtEnd size
  | removeAtStart i size => exact hkeep hs fun p hp => hp.removeAtStart size
  | removeAtEnd i size => exact hkeep hs fun p hp => hp.removeAtEnd size

end Ns3.Network
