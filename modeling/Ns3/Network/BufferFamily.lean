import Ns3.Network.BufferOps
import Mathlib.Data.List.Perm.Basic

/-!
# Families of buffers

A program holds a family of buffers and works on them one after the other. Its abstract state is
the list of their bytes: `BufferOp.spec` says what each operation means there.

`holds_bytes` follows every run, from any memory, in which no buffer is appended to itself and
`Appendable` holds where one buffer is appended to another. `bytes_lost` is a run without the
latter.
-/

namespace Ns3.Network

open Lib Buffer

/-- The buffers that are alive, in the order of their construction. -/
structure Buffers where
  heap : Heap
  bufs : List Buffer

/-- `AddAtStart` and `AddAtEnd` come with the bytes that are written to the new cells. -/
inductive BufferOp
  | construct (zeroSize : Nat)
  | copy (o : Nat)
  | assign (i o : Nat)
  | destroy (i : Nat)
  | addAtStart (i : Nat) (bs : List UInt8)
  | addAtEnd (i : Nat) (bs : List UInt8)
  | append (i o : Nat)
  | removeAtStart (i n : Nat)
  | removeAtEnd (i n : Nat)
  | createFragment (i start length : Nat)
  | peekData (i : Nat)
deriving DecidableEq, Repr

namespace Buffers

/-- No buffer is alive and nothing is allocated. -/
def start (memory : Nat → BufferData) : Buffers where
  heap := { data := memory }
  bufs := []

def get (s : Buffers) (i : Nat) : Except BufferFault Buffer :=
  match s.bufs[i]? with
  | some b => .ok b
  | none => .error .noSuchBuffer

def put (s : Buffers) (i : Nat) (r : Heap × Buffer) : Buffers where
  heap := r.1
  bufs := s.bufs.set i r.2

def push (s : Buffers) (r : Heap × Buffer) : Buffers where
  heap := r.1
  bufs := s.bufs ++ [r.2]

def step (s : Buffers) : BufferOp → Except BufferFault Buffers
  | .construct zeroSize => return s.push (initializeZero s.heap zeroSize)
  | .copy o => do
    let o ← s.get o
    return s.push (Buffer.copy s.heap o)
  | .assign i o => do
    let b ← s.get i
    let o ← s.get o
    return s.put i (Buffer.assign s.heap b o)
  | .destroy i => do
    let b ← s.get i
    return { heap := b.destroy s.heap, bufs := s.bufs.eraseIdx i }
  | .addAtStart i bs => do
    let b ← s.get i
    let (h, b) := b.addAtStart s.heap bs.length
    let (h, _) ← b.begin.write h bs
    return s.put i (h, b)
  | .addAtEnd i bs => do
    let b ← s.get i
    let (h, b) := b.addAtEnd s.heap bs.length
    let (h, _) ← (b.finish.prev bs.length).write h bs
    return s.put i (h, b)
  | .append i o => do
    let b ← s.get i
    let other ← s.get o
    let r ← b.append s.heap (if i = o then id else fun _ => other)
    return s.put i r
  | .removeAtStart i n => do
    let b ← s.get i
    return s.put i (s.heap, b.removeAtStart n)
  | .removeAtEnd i n => do
    let b ← s.get i
    return s.put i (s.heap, b.removeAtEnd n)
  | .createFragment i start length => do
    let b ← s.get i
    return s.push (b.createFragment s.heap start length)
  | .peekData i => do
    let b ← s.get i
    let (h, b, _) ← b.peekData s.heap
    return s.put i (h, b)

def run (s : Buffers) : List BufferOp → Except BufferFault Buffers
  | [] => return s
  | op :: ops => do
    let s ← s.step op
    s.run ops

end Buffers

/-- The operation on lists of bytes. -/
def BufferOp.spec (m : List (List UInt8)) : BufferOp → List (List UInt8)
  | .construct zeroSize => m ++ [List.replicate zeroSize 0]
  | .copy o => m ++ [m.getD o []]
  | .assign i o => m.set i (m.getD o [])
  | .destroy i => m.eraseIdx i
  | .addAtStart i bs => m.set i (bs ++ m.getD i [])
  | .addAtEnd i bs => m.set i (m.getD i [] ++ bs)
  | .append i o => m.set i (m.getD i [] ++ m.getD o [])
  | .removeAtStart i n => m.set i ((m.getD i []).drop n)
  | .removeAtEnd i n => m.set i ((m.getD i []).take ((m.getD i []).length - n))
  | .createFragment i start length => m ++ [((m.getD i []).drop start).take length]
  | .peekData _ => m

/-- The buffers of an operation exist, and a fragment is a part of its buffer, which has a size
below `2 ^ 32`. -/
def BufferOp.Valid (s : Buffers) : BufferOp → Prop
  | .construct _ => True
  | .copy i | .destroy i | .addAtStart i _ | .addAtEnd i _ | .removeAtStart i _
  | .removeAtEnd i _ | .peekData i => i < s.bufs.length
  | .assign i o | .append i o => i < s.bufs.length ∧ o < s.bufs.length
  | .createFragment i start length =>
    ∃ b ∈ s.bufs[i]?, start + length ≤ b.getSize ∧ b.getSize < 2 ^ 32

/-- The condition on `AddAtEnd (Buffer const &)`. -/
def BufferOp.Safe (s : Buffers) : BufferOp → Prop
  | .append i o => i ≠ o ∧ ∀ b ∈ s.bufs[i]?, ∀ c ∈ s.bufs[o]?, Appendable s.heap b c
  | _ => True

instance (s : Buffers) (op : BufferOp) : Decidable (op.Valid s) := by
  cases op <;> unfold BufferOp.Valid <;> infer_instance

instance (s : Buffers) (op : BufferOp) : Decidable (op.Safe s) := by
  cases op <;> unfold BufferOp.Safe <;> infer_instance

/-- Each operation of a run meets the condition `P` in the state it is applied to. -/
def Buffers.Along (P : Buffers → BufferOp → Prop) : Buffers → List BufferOp → Prop
  | _, [] => True
  | s, op :: ops => P s op ∧
    match s.step op with
    | .ok s' => Buffers.Along P s' ops
    | .error _ => True

instance Buffers.decidableAlong (P : Buffers → BufferOp → Prop) [∀ s op, Decidable (P s op)] :
    ∀ s ops, Decidable (Buffers.Along P s ops)
  | _, [] => .isTrue trivial
  | s, op :: ops =>
    have : Decidable (match s.step op with
        | .ok s' => Buffers.Along P s' ops
        | .error _ => True) :=
      match s.step op with
      | .ok s' => Buffers.decidableAlong P s' ops
      | .error _ => .isTrue trivial
    inferInstanceAs (Decidable (_ ∧ _))

/-- What `CopyData` reads from the buffers. -/
def Buffers.read (s : Buffers) : List (List UInt8) :=
  s.bufs.map fun b => b.copyData s.heap b.getSize

/-- What the buffers hold. -/
def Buffers.bytes (s : Buffers) : List (List UInt8) :=
  s.bufs.map (Buffer.bytes s.heap)

variable {h h' : Heap} {b b' : Buffer} {L : List Buffer} {bs : List UInt8} {s s' : Buffers}
  {i : Nat}

theorem map_set_congr {α β : Type} {l : List α} {f g : α → β} {x : β}
    (hfg : ∀ c ∈ l.eraseIdx i, f c = g c) : (l.map f).set i x = (l.map g).set i x := by
  apply List.ext_getElem
  · simp
  · intro j hj hj'
    rw [List.getElem_set, List.getElem_set]
    split
    · rfl
    · rename_i hij
      have hlt : j < l.length := by simpa using hj
      have hmem : l[j] ∈ l.eraseIdx i :=
        List.mem_eraseIdx_iff_getElem.mpr ⟨j, hlt, Ne.symm hij, rfl⟩
      simpa using hfg _ hmem

theorem Inv.take_out (hi : Inv h L) (hb : L[i]? = some b) : Inv h (b :: L.eraseIdx i) := by
  obtain ⟨hlt, rfl⟩ := List.getElem?_eq_some_iff.mp hb
  exact hi.perm (List.getElem_cons_eraseIdx_perm hlt).symm

theorem Updated.put (hup : Updated s.heap (s.bufs.eraseIdx i) h' b' bs) (hlt : i < s.bufs.length) :
    Inv (s.put i (h', b')).heap (s.put i (h', b')).bufs ∧
      (s.put i (h', b')).bytes = s.bytes.set i bs := by
  constructor
  · exact hup.inv.perm (List.set_perm_cons_eraseIdx hlt b').symm
  · show (s.bufs.set i b').map (Buffer.bytes h') = (s.bufs.map (Buffer.bytes s.heap)).set i bs
    rw [List.map_set, hup.bytes]
    exact map_set_congr hup.frame

theorem Updated.push (hup : Updated s.heap s.bufs h' b' bs) :
    Inv (s.push (h', b')).heap (s.push (h', b')).bufs ∧
    (s.push (h', b')).bytes = s.bytes ++ [bs] := by
  constructor
  · exact hup.inv.perm (List.perm_append_singleton b' s.bufs).symm
  · show (s.bufs ++ [b']).map (Buffer.bytes h') = s.bufs.map (Buffer.bytes s.heap) ++ [bs]
    rw [List.map_append, List.map_singleton, hup.bytes]
    congr 1
    exact List.map_congr_left hup.frame

theorem Buffers.bytes_getD (hb : s.bufs[i]? = some b) :
    s.bytes.getD i [] = b.bytes s.heap := by
  simp [Buffers.bytes, List.getD, hb]

/-- What a step is expected to do. -/
def Buffers.Refines (s : Buffers) (op : BufferOp) : Prop :=
  ∃ s', s.step op = .ok s' ∧ Inv s'.heap s'.bufs ∧ s'.bytes = op.spec s.bytes

theorem Buffers.get_eq (hlt : i < s.bufs.length) :
    ∃ b, s.bufs[i]? = some b ∧ s.get i = .ok b := by
  have hb := List.getElem?_eq_getElem hlt
  refine ⟨_, hb, ?_⟩
  simp only [Buffers.get, hb]

theorem Buffers.refines_of_put (op : BufferOp) (hlt : i < s.bufs.length)
    (hup : Updated s.heap (s.bufs.eraseIdx i) h' b' bs) (hstep : s.step op = .ok (s.put i (h', b')))
    (hspec : op.spec s.bytes = s.bytes.set i bs) : s.Refines op := by
  obtain ⟨hinv, hbytes⟩ := hup.put hlt
  exact ⟨_, hstep, hinv, hbytes.trans hspec.symm⟩

theorem Buffers.refines_of_push (op : BufferOp) (hup : Updated s.heap s.bufs h' b' bs)
    (hstep : s.step op = .ok (s.push (h', b'))) (hspec : op.spec s.bytes = s.bytes ++ [bs]) :
    s.Refines op := by
  obtain ⟨hinv, hbytes⟩ := hup.push
  exact ⟨_, hstep, hinv, hbytes.trans hspec.symm⟩

theorem Buffers.mem_eraseIdx {o : Nat} {c : Buffer} (hio : i ≠ o) (hc : s.bufs[o]? = some c) :
    c ∈ s.bufs.eraseIdx i :=
  List.mem_eraseIdx_iff_getElem?.mpr ⟨o, hio.symm, hc⟩

theorem Buffers.assign_refines (hi : Inv s.heap s.bufs) {o : Nat} (hlt : i < s.bufs.length)
    (hlo : o < s.bufs.length) : s.Refines (.assign i o) := by
  obtain ⟨b, hb, hget⟩ := Buffers.get_eq hlt
  obtain ⟨c, hc, hgetc⟩ := Buffers.get_eq hlo
  have hstep : s.step (.assign i o) = .ok (s.put i (Buffer.assign s.heap b c)) := by
    simp only [Buffers.step, hget, hgetc, bind, Except.bind, pure, Except.pure]
  have hspec : (BufferOp.assign i o).spec s.bytes = s.bytes.set i (c.bytes s.heap) := by
    rw [BufferOp.spec, Buffers.bytes_getD hc]
  by_cases hio : i = o
  · subst hio
    have hcb : c = b := Option.some.inj (hc.symm.trans hb)
    subst hcb
    exact refines_of_put _ hlt (assign_self_updated (hi.take_out hb)) hstep hspec
  · exact refines_of_put _ hlt (assign_updated (hi.take_out hb) (mem_eraseIdx hio hc)) hstep hspec

theorem Buffers.append_refines (hi : Inv s.heap s.bufs) {o : Nat} (hlt : i < s.bufs.length)
    (hlo : o < s.bufs.length) (hsafe : (BufferOp.append i o).Safe s) : s.Refines (.append i o) := by
  obtain ⟨b, hb, hget⟩ := Buffers.get_eq hlt
  obtain ⟨c, hc, hgetc⟩ := Buffers.get_eq hlo
  obtain ⟨hio, happ⟩ := hsafe
  obtain ⟨h', b', happend, hup⟩ := append_updated (hi.take_out hb) (mem_eraseIdx hio hc)
    (happ b hb c hc)
  apply refines_of_put _ hlt hup
  · simp only [Buffers.step, hget, hgetc, hio, if_false, happend, bind, Except.bind, pure,
      Except.pure]
  · rw [BufferOp.spec, Buffers.bytes_getD hb, Buffers.bytes_getD hc]

theorem Buffers.destroy_refines (hi : Inv s.heap s.bufs) (hlt : i < s.bufs.length) :
    s.Refines (.destroy i) := by
  obtain ⟨b, hb, hget⟩ := Buffers.get_eq hlt
  obtain ⟨hinv, hframe⟩ := destroy_inv (hi.take_out hb)
  refine ⟨{ heap := b.destroy s.heap, bufs := s.bufs.eraseIdx i }, ?_, hinv, ?_⟩
  · simp only [Buffers.step, hget, bind, Except.bind, pure, Except.pure]
  · show (s.bufs.eraseIdx i).map _ = (s.bufs.map _).eraseIdx i
    rw [List.eraseIdx_map]
    exact List.map_congr_left hframe

theorem Buffers.addAtStart_refines (hi : Inv s.heap s.bufs) (hlt : i < s.bufs.length)
    (bs : List UInt8) : s.Refines (.addAtStart i bs) := by
  obtain ⟨b, hb, hget⟩ := Buffers.get_eq hlt
  have hinv := hi.take_out hb
  obtain ⟨h1, b1, hadd, hg⟩ := addAtStart_spec hinv bs.length
  obtain ⟨h2, it, hwrite, hup⟩ := hg.write_updated hinv.head_fits rfl
  apply refines_of_put _ hlt hup
  · simp only [Buffers.step, hget, hadd, hwrite, bind, Except.bind, pure, Except.pure]
  · rw [BufferOp.spec, Buffers.bytes_getD hb]

theorem Buffers.addAtEnd_refines (hi : Inv s.heap s.bufs) (hlt : i < s.bufs.length)
    (bs : List UInt8) : s.Refines (.addAtEnd i bs) := by
  obtain ⟨b, hb, hget⟩ := Buffers.get_eq hlt
  have hinv := hi.take_out hb
  obtain ⟨h1, b1, hadd, hg⟩ := addAtEnd_spec hinv bs.length
  obtain ⟨h2, it, hwrite, hup⟩ := hg.write_updated hinv.head_fits rfl
  apply refines_of_put _ hlt hup
  · simp only [Buffers.step, hget, hadd, hwrite, bind, Except.bind, pure, Except.pure]
  · rw [BufferOp.spec, Buffers.bytes_getD hb]

theorem Buffers.peekData_refines (hi : Inv s.heap s.bufs) (hlt : i < s.bufs.length) :
    s.Refines (.peekData i) := by
  obtain ⟨b, hb, hget⟩ := Buffers.get_eq hlt
  obtain ⟨h1, b1, hpeek, hup⟩ := peekData_updated (hi.take_out hb)
  apply refines_of_put _ hlt hup
  · simp only [Buffers.step, hget, hpeek, bind, Except.bind, pure, Except.pure]
  · rw [BufferOp.spec]
    symm
    apply List.ext_getElem?
    intro j
    by_cases hij : i = j
    · subst hij
      obtain ⟨_, rfl⟩ := List.getElem?_eq_some_iff.mp hb
      simp [Buffers.bytes, hlt]
    · rw [List.getElem?_set_ne hij]

theorem Buffers.step_refines (hi : Inv s.heap s.bufs) (op : BufferOp) (hvalid : op.Valid s)
    (hsafe : op.Safe s) : s.Refines op := by
  cases op with
  | construct zeroSize =>
    obtain ⟨h', b', hinit, hup, -⟩ := initializeZero_spec hi zeroSize
    exact refines_of_push _ hup (by rw [← hinit]; rfl) rfl
  | copy o =>
    obtain ⟨c, hc, hget⟩ := Buffers.get_eq hvalid
    have hup := copy_updated hi (List.mem_of_getElem? hc)
    apply refines_of_push _ hup
    · simp only [Buffers.step, hget, bind, Except.bind, pure, Except.pure]
    · rw [BufferOp.spec, Buffers.bytes_getD hc]
  | assign i o => exact assign_refines hi hvalid.1 hvalid.2
  | destroy i => exact destroy_refines hi hvalid
  | addAtStart i bs => exact addAtStart_refines hi hvalid bs
  | addAtEnd i bs => exact addAtEnd_refines hi hvalid bs
  | append i o => exact append_refines hi hvalid.1 hvalid.2 hsafe
  | removeAtStart i n =>
    obtain ⟨b, hb, hget⟩ := Buffers.get_eq hvalid
    apply refines_of_put _ hvalid (removeAtStart_updated (hi.take_out hb) n)
    · simp only [Buffers.step, hget, bind, Except.bind, pure, Except.pure]
    · rw [BufferOp.spec, Buffers.bytes_getD hb]
  | removeAtEnd i n =>
    obtain ⟨b, hb, hget⟩ := Buffers.get_eq hvalid
    apply refines_of_put _ hvalid (removeAtEnd_updated (hi.take_out hb) n)
    · simp only [Buffers.step, hget, bind, Except.bind, pure, Except.pure]
    · rw [BufferOp.spec, Buffers.bytes_getD hb, length_bytes]
  | createFragment i start length =>
    obtain ⟨b, hb, hslice, hsize⟩ := hvalid
    have hlt := (List.getElem?_eq_some_iff.mp hb).1
    obtain ⟨c, hc, hget⟩ := Buffers.get_eq hlt
    have hcb : c = b := Option.some.inj (hc.symm.trans hb)
    subst hcb
    obtain ⟨h', b', hfrag, hup⟩ := createFragment_updated hi (List.mem_of_getElem? hb) hslice hsize
    apply refines_of_push _ hup
    · simp only [Buffers.step, hget, hfrag, bind, Except.bind, pure, Except.pure]
    · rw [BufferOp.spec, Buffers.bytes_getD hb]
  | peekData i => exact peekData_refines hi hvalid

theorem Buffers.run_refines (hi : Inv s.heap s.bufs) (ops : List BufferOp)
    (hvalid : s.Along (fun s op => op.Valid s) ops) (hsafe : s.Along (fun s op => op.Safe s) ops) :
    ∃ s', s.run ops = .ok s' ∧ Inv s'.heap s'.bufs ∧
    s'.bytes = ops.foldl BufferOp.spec s.bytes := by
  induction ops generalizing s with
  | nil => exact ⟨s, rfl, hi, rfl⟩
  | cons op ops ih =>
    obtain ⟨s1, hstep, hinv, hbytes⟩ := step_refines hi op hvalid.1 hsafe.1
    have hvalid1 := hvalid.2
    have hsafe1 := hsafe.2
    rw [hstep] at hvalid1 hsafe1
    obtain ⟨s2, hrun, hinv2, hbytes2⟩ := ih hinv hvalid1 hsafe1
    refine ⟨s2, ?_, hinv2, ?_⟩
    · simp only [Buffers.run, hstep, bind, Except.bind, hrun]
    · rw [hbytes2, hbytes, List.foldl_cons]

theorem Buffers.start_inv (memory : Nat → BufferData) :
    Inv (Buffers.start memory).heap (Buffers.start memory).bufs where
  counts :=
    { live := fun _ ha => nomatch ha
      count := fun _ ha => nomatch ha
      free := fun _ ha => nomatch ha
      nodup := List.nodup_nil }
  sound :=
    { fits := fun _ hb => nomatch hb
      shared := fun _ hb => nomatch hb }

/-- After any run without an unsafe append there is no fault, `CopyData` and `PeekData` read from
each buffer what it should hold, and the internal state is in order. -/
theorem Buffers.holds_bytes (memory : Nat → BufferData) (ops : List BufferOp)
    (hvalid : (Buffers.start memory).Along (fun s op => op.Valid s) ops)
    (hsafe : (Buffers.start memory).Along (fun s op => op.Safe s) ops) :
    ∃ s, (Buffers.start memory).run ops = .ok s ∧
      s.read = ops.foldl BufferOp.spec [] ∧
      (∀ (i : Nat) (b : Buffer), s.bufs[i]? = some b →
        ∃ h' b', b.peekData s.heap = .ok (h', b', (ops.foldl BufferOp.spec []).getD i [])) ∧
      ∀ b ∈ s.bufs, b.CheckInternalState s.heap := by
  obtain ⟨s, hrun, hinv, hbytes⟩ := run_refines (start_inv memory) ops hvalid hsafe
  have hspec : s.bytes = ops.foldl BufferOp.spec [] := hbytes
  refine ⟨s, hrun, ?_, ?_, fun b hb => hinv.checkInternalState hb⟩
  · rw [← hspec]
    apply List.map_congr_left
    intro b hb
    rw [(hinv.sound.fits b hb).copyData_eq, List.take_of_length_le]
    rw [length_bytes]
  · intro i b hb
    obtain ⟨h', b', hpeek, -⟩ := peekData_updated (hinv.take_out hb)
    refine ⟨h', b', ?_⟩
    rw [hpeek, ← hspec, bytes_getD hb]

/-- Ones in all the memory. -/
def onesMemory : Nat → BufferData := fun _ =>
  { count := 0
    size := 0
    dirtyStart := 0
    dirtyEnd := 0
    bytes := fun _ => 1 }

/-- A buffer of eight bytes is emptied, and a buffer with two zeros and two bytes is appended. -/
def trailingAppend : List BufferOp :=
  [.construct 0, .addAtEnd 0 [1, 1, 1, 1, 1, 1, 1, 1], .removeAtEnd 0 8, .addAtEnd 0 [],
    .construct 2, .addAtEnd 1 [7, 8], .append 0 1]

/-- The appended bytes are written behind the room for them, and the reader finds the old ones. -/
theorem Buffers.bytes_lost :
    (Buffers.start onesMemory).Along (fun s op => op.Valid s) trailingAppend ∧
      ((Buffers.start onesMemory).run trailingAppend).map Buffers.read =
        .ok [[0, 0, 1, 1], [0, 0, 7, 8]] ∧
      trailingAppend.foldl BufferOp.spec [] = [[0, 0, 7, 8], [0, 0, 7, 8]] := by
  decide

/-- A buffer with a zero area is appended to a copy that shares its block. -/
def sharedAppend : List BufferOp :=
  [.construct 2, .addAtStart 0 [5], .copy 0, .addAtEnd 1 [6], .append 0 1, .createFragment 0 1 4]

theorem Buffers.holds_bytes_shared :
    ∃ s, (Buffers.start onesMemory).run sharedAppend = .ok s ∧
      s.read = sharedAppend.foldl BufferOp.spec [] ∧
      (∀ (i : Nat) (b : Buffer), s.bufs[i]? = some b →
        ∃ h' b', b.peekData s.heap =
          .ok (h', b', (sharedAppend.foldl BufferOp.spec []).getD i [])) ∧
      ∀ b ∈ s.bufs, b.CheckInternalState s.heap :=
  Buffers.holds_bytes onesMemory sharedAppend (by decide +kernel) (by decide +kernel)

end Ns3.Network
