/-
# Concurrent read-modify-write without a lock

Several requests share one cell.  Each reads it once, computes from what it read whether there
is something to write, and later writes the whole cell.  Reads and writes of different requests
interleave in any order.

A write is UNDISTURBED when the cell is still what its request read.  A run whose writes are all
undisturbed is serializable (`serializable`): it ends as if the successful requests had run one
after the other.  Without that a write takes back whatever was written since the read.
-/
import DcsDashboard.Lib.Runs
import Mathlib.Logic.Function.Basic
import Mathlib.Data.List.Nodup

namespace DcsDashboard.Lib.ReadModifyWrite

variable {ι σ ε : Type*} [DecidableEq ι]

/-! ## 1. The system -/

/-- Where a request stands. -/
inductive Phase (σ : Type*)
  | idle
  | holding (seen new : σ)
  | finished (ok : Bool)
  deriving DecidableEq

/-- The cell and the requests. -/
structure Shared (ι σ : Type*) where
  cell : σ
  phase : ι → Phase σ

inductive Act (ι : Type*)
  | read (i : ι)
  | write (i : ι)
  deriving DecidableEq

/-- What a request makes of the cell it reads: an error, nothing to write, or a new cell. -/
abbrev Edit (ι σ ε : Type*) := ι → σ → Except ε (Option σ)

variable (edit : Edit ι σ ε)

/-- The phase of a request that has read the cell. -/
def afterRead (i : ι) (cell : σ) : Phase σ :=
  match edit i cell with
  | .error _ => .finished false
  | .ok none => .finished true
  | .ok (some new) => .holding cell new

/-- One step of one request. -/
def step (s : Shared ι σ) : Act ι → Option (Shared ι σ)
  | .read i =>
    match s.phase i with
    | .idle => some { s with phase := Function.update s.phase i (afterRead edit i s.cell) }
    | _ => none
  | .write i =>
    match s.phase i with
    | .holding _ new =>
      some { cell := new, phase := Function.update s.phase i (.finished true) }
    | _ => none

theorem step_read {edit : Edit ι σ ε} {s : Shared ι σ} {i : ι} {new : σ}
    (hidle : s.phase i = .idle) (he : edit i s.cell = .ok (some new)) :
    step edit s (.read i) =
      some { s with phase := Function.update s.phase i (.holding s.cell new) } := by
  simp [step, hidle, afterRead, he]

theorem step_write {edit : Edit ι σ ε} {s : Shared ι σ} {i : ι} {seen new : σ}
    (h : s.phase i = .holding seen new) :
    step edit s (.write i) =
      some { cell := new, phase := Function.update s.phase i (.finished true) } := by
  simp [step, h]

/-- No request has begun. -/
def initial (ι : Type*) (cell : σ) : Shared ι σ := { cell, phase := fun _ => .idle }

/-- The condition under which a run is serializable: a write finds the cell as it was read.  A
read may be asked to meet a condition of its own. -/
def Undisturbed (E : ι → σ → Prop) (s : Shared ι σ) : Act ι → Prop
  | .read i => E i s.cell
  | .write i => ∀ seen new, s.phase i = .holding seen new → s.cell = seen

/-! ## 2. One after the other -/

/-- The requests of a list, one after the other, each reading what the one before left. -/
inductive Serial (E : ι → σ → Prop) (cell : σ) : List ι → σ → Prop
  | nil : Serial E cell [] cell
  | keeps {order : List ι} {c : σ} {i : ι} :
      Serial E cell order c → E i c → edit i c = .ok none → Serial E cell (order ++ [i]) c
  | writes {order : List ι} {c c' : σ} {i : ι} :
      Serial E cell order c → E i c → edit i c = .ok (some c') → Serial E cell (order ++ [i]) c'

variable {edit} {E : ι → σ → Prop}

omit [DecidableEq ι] in
/-- **The invariant rule.**  What every admitted edit preserves holds after all of them. -/
theorem Serial.invariant {P : List ι → σ → Prop} {cell c : σ} {order : List ι}
    (h : Serial edit E cell order c) (h0 : P [] cell)
    (hkeeps : ∀ order c i, P order c → E i c → edit i c = .ok none → P (order ++ [i]) c)
    (hwrites : ∀ order c c' i, P order c → E i c → edit i c = .ok (some c') →
      P (order ++ [i]) c') : P order c := by
  induction h with
  | nil => exact h0
  | keeps _ hE he ih => exact hkeeps _ _ _ ih hE he
  | writes _ hE he ih => exact hwrites _ _ _ _ ih hE he

omit [DecidableEq ι] in
theorem Serial.eq_of_nil {cell c : σ} (h : Serial edit E cell [] c) : c = cell := by
  generalize horder : ([] : List ι) = order at h
  cases h with
  | nil => rfl
  | keeps _ _ _ => simp at horder
  | writes _ _ _ => simp at horder

/-- What holds of a run so far: the successful requests form a serial order, and the requests
that hold a new cell computed it from what they saw. -/
structure SerialSoFar (E : ι → σ → Prop) (edit : Edit ι σ ε) (cell : σ) (s : Shared ι σ)
    (order : List ι) : Prop where
  serial : Serial edit E cell order s.cell
  nodup : order.Nodup
  mem : ∀ i, i ∈ order ↔ s.phase i = .finished true
  holding : ∀ i seen new, s.phase i = .holding seen new →
    E i seen ∧ edit i seen = .ok (some new)

omit [DecidableEq ι] in
theorem SerialSoFar.not_mem {cell : σ} {s : Shared ι σ} {order : List ι}
    (h : SerialSoFar E edit cell s order) {i : ι} (hi : s.phase i ≠ .finished true) :
    i ∉ order := fun hmem => hi ((h.mem i).mp hmem)

/-- A request moves on without having succeeded. -/
theorem SerialSoFar.pending {cell : σ} {s : Shared ι σ} {order : List ι}
    (h : SerialSoFar E edit cell s order) {i : ι} (hi : s.phase i ≠ .finished true)
    {p : Phase σ} (hp : p ≠ .finished true)
    (hholding : ∀ seen new, p = .holding seen new → E i seen ∧ edit i seen = .ok (some new)) :
    SerialSoFar E edit cell { s with phase := Function.update s.phase i p } order where
  serial := h.serial
  nodup := h.nodup
  mem j := by
    by_cases hj : j = i
    · subst hj
      simp [h.not_mem hi, hp]
    · simp [h.mem, hj]
  holding j seen new heq := by
    by_cases hj : j = i
    · subst hj
      exact hholding seen new (by simpa using heq)
    · exact h.holding j seen new (by simpa [hj] using heq)

/-- A request succeeds, and is the last of the serial order. -/
theorem SerialSoFar.succeed {cell c : σ} {s : Shared ι σ} {order : List ι}
    (h : SerialSoFar E edit cell s order) {i : ι} (hi : s.phase i ≠ .finished true)
    (hserial : Serial edit E cell (order ++ [i]) c) :
    SerialSoFar E edit cell { cell := c, phase := Function.update s.phase i (.finished true) }
      (order ++ [i]) where
  serial := hserial
  nodup := by
    refine List.nodup_append.mpr ⟨h.nodup, List.nodup_singleton i, ?_⟩
    intro a ha b hb heq
    rw [List.mem_singleton.mp hb] at heq
    exact h.not_mem hi (heq ▸ ha)
  mem j := by
    by_cases hj : j = i
    · subst hj
      simp
    · simp [h.mem, hj]
  holding j seen new heq := by
    by_cases hj : j = i
    · subst hj
      simp at heq
    · exact h.holding j seen new (by simpa [hj] using heq)

theorem SerialSoFar.step_read {cell : σ} {s : Shared ι σ} {order : List ι}
    (h : SerialSoFar E edit cell s order) {i : ι} (hidle : s.phase i = .idle) (hE : E i s.cell) :
    ∃ order', SerialSoFar E edit cell
      { s with phase := Function.update s.phase i (afterRead edit i s.cell) } order' := by
  have hi : s.phase i ≠ .finished true := by rw [hidle]; simp
  cases he : edit i s.cell with
  | error e =>
    have hphase : afterRead edit i s.cell = .finished false := by simp [afterRead, he]
    rw [hphase]
    exact ⟨order, h.pending hi (by simp) (by simp)⟩
  | ok o =>
    cases o with
    | none =>
      have hphase : afterRead edit i s.cell = .finished true := by simp [afterRead, he]
      rw [hphase]
      exact ⟨order ++ [i], h.succeed hi (h.serial.keeps hE he)⟩
    | some new =>
      have hphase : afterRead edit i s.cell = .holding s.cell new := by simp [afterRead, he]
      rw [hphase]
      refine ⟨order, h.pending hi (by simp) ?_⟩
      intro seen new' heq
      cases heq
      exact ⟨hE, he⟩

theorem SerialSoFar.step_write {cell : σ} {s : Shared ι σ} {order : List ι}
    (h : SerialSoFar E edit cell s order) {i : ι} {seen new : σ}
    (hphase : s.phase i = .holding seen new) (hsame : s.cell = seen) :
    SerialSoFar E edit cell
      { cell := new, phase := Function.update s.phase i (.finished true) } (order ++ [i]) := by
  obtain ⟨hE, he⟩ := h.holding i seen new hphase
  subst hsame
  exact h.succeed (by rw [hphase]; simp) (h.serial.writes hE he)

/-- **Undisturbed runs are serializable.**  They end as if the successful requests had run one
after the other. -/
theorem serializable {cell : σ} {acts : List (Act ι)} {t : Shared ι σ}
    (h : Run (step edit) (Undisturbed E) (initial ι cell) acts t) :
    ∃ order, Serial edit E cell order t.cell ∧ order.Nodup ∧
      ∀ i, i ∈ order ↔ t.phase i = .finished true := by
  have hinv : ∃ order, SerialSoFar E edit cell t order := by
    refine h.invariant (I := fun s => ∃ order, SerialSoFar E edit cell s order)
      ⟨[], .nil, List.nodup_nil, by simp [initial], by simp [initial]⟩ ?_
    rintro s a u ⟨order, hs⟩ hC hstep
    cases a with
    | read i =>
      simp only [step] at hstep
      split at hstep
      · rename_i hidle
        cases hstep
        exact hs.step_read hidle hC
      · cases hstep
    | write i =>
      simp only [step] at hstep
      split at hstep
      · rename_i seen new hphase
        cases hstep
        exact ⟨_, hs.step_write hphase (hC seen new hphase)⟩
      · cases hstep
  obtain ⟨order, hserial⟩ := hinv
  exact ⟨order, hserial.serial, hserial.nodup, hserial.mem⟩

end DcsDashboard.Lib.ReadModifyWrite
