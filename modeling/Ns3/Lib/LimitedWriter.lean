import Mathlib.Algebra.Order.Ring.Int
import Mathlib.Data.List.Basic
import Mathlib.Algebra.BigOperators.Group.List.Basic

/-!
# Writers with a limit

A writer puts chunks one behind the other into a memory of limited size. A chunk reserves some cells
and fills the first of them. It is refused when there are not that many, and then the writer stops;
what was written before stays.

`Within` and `Reaches` say how far the writes of a run go.
-/

namespace Ns3.Lib

/-- The cells that are reserved, and what has been written, by position. -/
structure Progress (α : Type) where
  size : Nat := 0
  written : List (Nat × List α) := []

abbrev LimitedWriter (α β : Type) := EStateM Unit (Progress α) β

namespace LimitedWriter

variable {α : Type}

/-- A write that nobody checks. -/
def store (pos : Nat) (cells : List α) : LimitedWriter α Unit :=
  modify fun s => { s with written := s.written ++ [(pos, cells)] }

/-- `cells` go behind what is reserved from `start` on, if `n` more cells are allowed. -/
def put (start limit n : Nat) (cells : List α) : LimitedWriter α Unit := do
  let s ← get
  if s.size + n ≤ limit then
    store (start + s.size) cells
    modify fun s => { s with size := s.size + n }
  else throw ()

/-- Chunks, each with the cells that it reserves. -/
def putAll (start limit : Nat) : List (Nat × List α) → LimitedWriter α Unit
  | [] => pure ()
  | chunk :: rest => do
    put start limit chunk.1 chunk.2
    putAll start limit rest

/-- Another writer, with a count of its own. -/
def call (body : LimitedWriter α Unit) : LimitedWriter α Unit := fun s =>
  match body { size := 0, written := s.written } with
  | .ok _ s' => .ok () { s with written := s'.written }
  | .error _ s' => .error () { s with written := s'.written }

/-- What has been written when the writer is done or has stopped. -/
def result (w : LimitedWriter α Unit) : Bool × List (Nat × List α) :=
  match w {} with
  | .ok _ s => (true, s.written)
  | .error _ s => (false, s.written)

/-! ## How far the writes go -/

def Within (t : List (Nat × List α)) (stop : Nat) : Prop :=
  ∀ w ∈ t, w.2 ≠ [] → w.1 + w.2.length ≤ stop

def Reaches (t : List (Nat × List α)) (stop : Nat) : Prop :=
  ∃ w ∈ t, w.2 ≠ [] ∧ w.1 + w.2.length = stop

variable {t t' : List (Nat × List α)} {stop stop' : Nat} {start limit n pos : Nat} {cells : List α}
  {s : Progress α} {chunks : List (Nat × List α)}

theorem within_nil : Within ([] : List (Nat × List α)) stop := by
  intro w hw
  cases hw

theorem within_append : Within (t ++ t') stop ↔ Within t stop ∧ Within t' stop :=
  List.forall_mem_append

theorem within_singleton (h : pos + cells.length ≤ stop) : Within [(pos, cells)] stop := by
  intro w hw _
  rw [List.mem_singleton.mp hw]
  exact h

theorem Within.mono (h : Within t stop) (hle : stop ≤ stop') : Within t stop' :=
  fun w hw hne => Nat.le_trans (h w hw hne) hle

theorem Reaches.le (h : Reaches t stop) (hw : Within t stop') : stop ≤ stop' := by
  obtain ⟨w, hmem, hne, rfl⟩ := h
  exact hw w hmem hne

theorem Reaches.append_left (h : Reaches t' stop) : Reaches (t ++ t') stop := by
  obtain ⟨w, hmem, hw⟩ := h
  exact ⟨w, List.mem_append_right _ hmem, hw⟩

theorem Reaches.append_right (h : Reaches t stop) : Reaches (t ++ t') stop := by
  obtain ⟨w, hmem, hw⟩ := h
  exact ⟨w, List.mem_append_left _ hmem, hw⟩

theorem reaches_singleton (pos : Nat) (h : cells ≠ []) :
    Reaches [(pos, cells)] (pos + cells.length) :=
  ⟨_, List.mem_singleton.mpr rfl, h, rfl⟩

/-- Writes that go exactly to `stop` fit when `stop` does. -/
theorem within_append_iff (hw : Within t' stop) (hr : Reaches t' stop) (limit : Nat) :
    Within (t ++ t') limit ↔ Within t limit ∧ stop ≤ limit := by
  rw [within_append]
  refine and_congr_right fun _ => ⟨hr.le, hw.mono⟩

/-! ## Chunks -/

/-- The cells that chunks reserve. -/
def reserved (chunks : List (Nat × List α)) : Nat := (chunks.map Prod.fst).sum

/-- The writes of chunks from `pos` on. -/
def placed (pos : Nat) : List (Nat × List α) → List (Nat × List α)
  | [] => []
  | chunk :: rest => (pos, chunk.2) :: placed (pos + chunk.1) rest

theorem reserved_cons (chunk : Nat × List α) :
    reserved (chunk :: chunks) = chunk.1 + reserved chunks := by
  simp [reserved]

theorem put_ok (h : s.size + n ≤ limit) : put start limit n cells s =
    .ok () { size := s.size + n, written := s.written ++ [(start + s.size, cells)] } := by
  show (if s.size + n ≤ limit then _ else _ : LimitedWriter α Unit) s = _
  rw [if_pos h]
  rfl

theorem put_refused (h : ¬s.size + n ≤ limit) : put start limit n cells s = .error () s := by
  show (if s.size + n ≤ limit then _ else _ : LimitedWriter α Unit) s = _
  rw [if_neg h]
  rfl

theorem bind_ok {β γ : Type} {w : LimitedWriter α β} {f : β → LimitedWriter α γ} {b : β}
    {s' : Progress α}
    (h : w s = .ok b s') : (w >>= f) s = f b s' := by
  show EStateM.bind w f s = _
  rw [EStateM.bind, h]

theorem bind_error {β γ : Type} {w : LimitedWriter α β} {f : β → LimitedWriter α γ}
    {s' : Progress α}
    (h : w s = .error () s') : (w >>= f) s = .error () s' := by
  show EStateM.bind w f s = _
  rw [EStateM.bind, h]

/-- Chunks are put as long as the limit allows all of them. -/
theorem putAll_ok (start limit : Nat) (chunks : List (Nat × List α)) (s : Progress α)
    (h : s.size + reserved chunks ≤ limit) : putAll start limit chunks s =
    .ok () { size := s.size + reserved chunks
             written := s.written ++ placed (start + s.size) chunks } := by
  induction chunks generalizing s with
  | nil => simp [putAll, reserved, placed, pure, EStateM.pure]
  | cons chunk rest ih =>
    rw [reserved_cons] at h
    rw [putAll, bind_ok (put_ok (by omega)), ih _ (by show s.size + chunk.1 + _ ≤ _; omega),
      reserved_cons]
    simp [placed, Nat.add_assoc]

theorem placed_append {pos : Nat} (more : List (Nat × List α)) :
    placed pos (chunks ++ more) = placed pos chunks ++ placed (pos + reserved chunks) more := by
  induction chunks generalizing pos with
  | nil => simp [placed, reserved]
  | cons chunk rest ih =>
    rw [List.cons_append, placed, ih, reserved_cons, placed, List.cons_append, Nat.add_assoc]

/-- No chunk has more cells than it reserves. -/
def Tight (chunks : List (Nat × List α)) : Prop := ∀ chunk ∈ chunks, chunk.2.length ≤ chunk.1

theorem Tight.within_placed (h : Tight chunks) (pos : Nat) :
    Within (placed pos chunks) (pos + reserved chunks) := by
  induction chunks generalizing pos with
  | nil => exact within_nil
  | cons chunk rest ih =>
    have hlen := h chunk List.mem_cons_self
    have hrest := ih (fun c hc => h c (List.mem_cons_of_mem _ hc)) (pos + chunk.1)
    rw [reserved_cons, ← Nat.add_assoc]
    intro w hw hne
    rcases List.mem_cons.mp hw with rfl | hw
    · show pos + chunk.2.length ≤ _
      omega
    · exact hrest w hw hne

/-- The last chunk says how far the writes go. -/
theorem Tight.placed_concat (h : Tight chunks) (last : Nat × List α) (hne : last.2 ≠ [])
    (pos : Nat) :
    Within (placed pos (chunks ++ [last])) (pos + reserved chunks + last.2.length) ∧
      Reaches (placed pos (chunks ++ [last])) (pos + reserved chunks + last.2.length) := by
  rw [placed_append, placed, placed]
  constructor
  · apply within_append.mpr
    exact ⟨(h.within_placed pos).mono (Nat.le_add_right _ _), within_singleton (Nat.le_refl _)⟩
  · exact (reaches_singleton _ hne).append_left

/-! ## Writers that go to a known end -/

/-- The writer succeeds or not, as `ok` says, and its writes go exactly to `stop`. -/
def EndsAt (body : LimitedWriter α Unit) (ok : Bool) (stop : Nat) : Prop :=
  ∀ w, ∃ t size, body { size := 0, written := w } =
      (if ok then .ok () { size := size, written := w ++ t }
        else .error () { size := size, written := w ++ t }) ∧
    Within t stop ∧ Reaches t stop

theorem EndsAt.call_ok {body : LimitedWriter α Unit} (h : EndsAt body true stop) (s : Progress α) :
    ∃ t, call body s = .ok () { s with written := s.written ++ t } ∧
      Within t stop ∧ Reaches t stop := by
  obtain ⟨t, size, hbody, ht⟩ := h s.written
  rw [if_pos rfl] at hbody
  refine ⟨t, ?_, ht⟩
  rw [call, hbody]

theorem EndsAt.call_error {body : LimitedWriter α Unit} (h : EndsAt body false stop)
    (s : Progress α) :
    ∃ t, call body s = .error () { s with written := s.written ++ t } ∧
      Within t stop ∧ Reaches t stop := by
  obtain ⟨t, size, hbody, ht⟩ := h s.written
  rw [if_neg Bool.false_ne_true] at hbody
  refine ⟨t, ?_, ht⟩
  rw [call, hbody]

end LimitedWriter

end Ns3.Lib
