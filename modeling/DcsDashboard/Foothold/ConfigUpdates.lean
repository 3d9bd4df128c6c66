/-
# Updates on rows

An update gives a full name another value, or takes it away.  On rows an edit is what it should
be (`editRow`): the row that assigns the name gets the value or goes quiet, and a name that is
directly inside a table and has no row gets one before the end of the table.

The machine that reads the edited rows follows the one that reads the others (`Follows`,
`run_editRows`), and what they assign is what was assigned, with the updates in place of the names
they are for (`mem_assigned_editRows`).
-/
import DcsDashboard.Foothold.ConfigRows
import Mathlib.Data.List.Nodup

namespace DcsDashboard.Foothold

open Lib Lua

/-! ## 1. The edit -/

/-- Names with their new values, `none` for a name that is taken away. -/
abbrev Pending := List (List Char × Option Value)

theorem localKey_eq_some {tableName name key : List Char} :
    localKey tableName name = some key ↔ name = tableName ++ '.' :: key ∧ '.' ∉ key := by
  unfold localKey
  simp only [List.isPrefixOf_iff_prefix]
  constructor
  · intro h
    split at h
    · next hprefix =>
      obtain ⟨rest, rfl⟩ := hprefix
      simp only [List.drop_left] at h
      split at h
      · cases h
      · next hdot =>
        obtain rfl := Option.some.inj h
        exact ⟨by simp, hdot⟩
    · cases h
  · rintro ⟨rfl, hdot⟩
    have happend : tableName ++ '.' :: key = tableName ++ ['.'] ++ key := by simp
    rw [happend, if_pos (List.prefix_append _ _), List.drop_left, if_neg hdot]

section
variable (C : CharClasses)

/-- The rows for the names directly inside a table. -/
def newRows (tableName : List Char) (pending : Pending) : List Row :=
  pending.filterMap fun (name, w) =>
    w.bind fun v => (localKey tableName name).map fun key => .assign key (!isSafeKey C key) v true

structure RowEdit where
  path : List (List Char)
  pending : Pending

/-- One row. -/
def editRow (st : RowEdit) : Row → RowEdit × List Row
  | .quiet => (st, [.quiet])
  | .opens key bracketed => ({ st with path := st.path ++ [key] }, [.opens key bracketed])
  | .closes comma =>
    ({ st with path := st.path.dropLast },
      (if st.path = [] then [] else newRows C (joinPath st.path) st.pending) ++ [.closes comma])
  | .assign key bracketed v comma =>
    let name := joinPath (st.path ++ [key])
    match st.pending.lookup name with
    | none => (st, [.assign key bracketed v comma])
    | some w =>
      ({ st with pending := st.pending.filter (·.1 ≠ name) },
        [match w with | none => .quiet | some v => .assign key bracketed v comma])

/-- The rows that each row becomes. -/
def editRows : RowEdit → List Row → List (List Row)
  | _, [] => []
  | st, row :: rows => (editRow C st row).2 :: editRows (editRow C st row).1 rows

/-- A field may begin after the edited row. -/
def readyAfter (st : RowEdit) (ready : Bool) : Row → Bool
  | .quiet => ready
  | .opens .. => true
  | .closes comma => comma
  | .assign key _ _ comma =>
    match st.pending.lookup (joinPath (st.path ++ [key])) with
    | some none => ready
    | _ => comma

/-- A key that can be written as `newRow` writes it. -/
def isNewKey (key : List Char) : Bool :=
  !key.isEmpty &&
    if isSafeKey C key then
      key.all isNameChar && !(key.headD ' ').isDigit && decide (String.ofList key ∉ reserved)
    else key.all fun c => c ≠ '"' && !isNewline c && c ≠ '\\'

/-- A row can be inserted where a field may begin: the table is empty, or a comma came last. -/
def canInsert (ready : Bool) : Row → Bool
  | .assign key _ _ _ => ready && isNewKey C key
  | .quiet | .opens .. | .closes _ => true

/-- Wherever rows are inserted, they can be. -/
def insertsWell : RowEdit → Bool → List Row → Bool
  | _, _, [] => true
  | st, ready, row :: rows =>
    (match row with
      | .closes _ => (newRows C (joinPath st.path) st.pending).all (canInsert C ready)
      | _ => true) &&
    insertsWell (editRow C st row).1 (readyAfter st ready row) rows

end

/-! ## 2. The machine on the edited rows -/

/-- The full names of the tables, each where it ends. -/
def tables : List (List Char) → List Row → List (List Char)
  | _, [] => []
  | path, row :: rows =>
    (match row with
      | .closes _ => if path = [] then [] else [joinPath path]
      | _ => []) ++ tables (pathAfter path row) rows

/-- The same tables are open, with no keys but those of the other state, and a field may begin
where it may in the other. -/
structure Follows (σ τ : RowState) : Prop where
  globals : τ.globals.map Prod.fst ⊆ σ.globals.map Prod.fst
  stack : List.Forall₂ (fun a b => a.1 = b.1 ∧ b.2.map Prod.fst ⊆ a.2.map Prod.fst) σ.stack τ.stack
  ready : σ.stack ≠ [] → σ.ready → τ.ready

/-- No key that an open table has is for one of the names. -/
def Unasked (names : List (List Char)) : List (List Char × Entries) → Prop
  | [] => True
  | (p, es) :: rest =>
    (∀ key, fieldKey key ∈ es.map Prod.fst → joinPath (stackPath rest ++ [p] ++ [key]) ∉ names) ∧
      Unasked names rest

theorem Unasked.mono {names names' : List (List Char)} {stack : List (List Char × Entries)}
    (h : Unasked names stack) (hsub : names' ⊆ names) : Unasked names' stack := by
  induction stack with
  | nil => trivial
  | cons e stack ih => exact ⟨fun key hkey hmem => h.1 key hkey (hsub hmem), ih h.2⟩

section
variable {σ σ' τ : RowState} {key : List Char} {v w : Value} {comma : Bool}

/-- A key that gets a value gets another one in the other state. -/
theorem Follows.put (h : Follows σ τ) (hput : σ.put key v comma = some σ')
    (hw : v = .nil → w = .nil) :
    ∃ τ', τ.put key w comma = some τ' ∧ Follows σ' τ' ∧
      (τ'.stack ≠ [] → τ'.ready = comma) := by
  obtain ⟨globals, stack, ready⟩ := τ
  rcases RowState.put_cases hput with
    ⟨hstack, rfl, hfresh, rfl⟩ | ⟨p, es, rest, hstack, hfresh, rfl⟩
  · obtain rfl : stack = [] := by simpa [hstack] using h.stack
    have hfresh' : key ∉ globals.map Prod.fst := fun hmem => hfresh (h.globals hmem)
    refine ⟨⟨(key, w) :: globals, [], ready⟩, by simp [RowState.put, hfresh'], ⟨?_, ?_, ?_⟩, ?_⟩
    · exact List.cons_subset_cons key h.globals
    · simp [hstack]
    · exact fun hne => absurd hstack hne
    · exact fun hne => absurd rfl hne
  · have hforall := h.stack
    rw [hstack] at hforall
    cases hforall with
    | @cons _ entry _ rest' hentry hrest =>
      obtain ⟨p', es'⟩ := entry
      obtain ⟨rfl, hkeys⟩ := hentry
      have hfresh' : fieldKey key ∉ es'.map Prod.fst := fun hmem => hfresh (hkeys hmem)
      refine ⟨⟨globals, (p, es'.set (fieldKey key) w) :: rest', comma⟩,
        by simp [RowState.put, hfresh'], ⟨h.globals, .cons ⟨rfl, ?_⟩ hrest, fun _ => id⟩,
        fun _ => rfl⟩
      rcases Entries.set_fresh hfresh v with ⟨hv, hset⟩ | hset
      · rw [hset, hw hv]
        intro k hk
        exact hkeys (List.map_subset _ (List.filter_subset_self _) hk)
      · rw [hset]
        intro k hk
        rcases Entries.mem_keys_set hk with rfl | hk
        · simp
        · exact List.map_subset _ (List.subset_append_left _ _) (hkeys hk)

/-- A key that gets a value in one state only. -/
theorem Follows.put_left (h : Follows σ τ) (hput : σ.put key v comma = some σ')
    (hready : σ.stack ≠ [] → σ.ready) : Follows σ' τ := by
  rcases RowState.put_cases hput with ⟨hstack, rfl, -, rfl⟩ | ⟨p, es, rest, hstack, hfresh, rfl⟩
  · exact ⟨fun x hx => List.mem_cons_of_mem _ (h.globals hx), h.stack, fun hne => absurd hstack hne⟩
  · have hne : σ.stack ≠ [] := by simp [hstack]
    have hready' := h.ready hne (hready hne)
    obtain ⟨globals, stack, r⟩ := τ
    have hforall := h.stack
    rw [hstack] at hforall
    cases hforall with
    | cons hentry hrest =>
      refine ⟨h.globals, .cons ?_ hrest, fun _ _ => hready'⟩
      refine ⟨hentry.1, ?_⟩
      intro k hk
      rcases Entries.set_fresh hfresh v with ⟨-, hset⟩ | hset
      · rw [hset]
        exact hentry.2 hk
      · rw [hset]
        exact List.map_subset _ (List.subset_append_left _ _) (hentry.2 hk)

theorem Follows.mayBegin (h : Follows σ τ) {bracketed : Bool} (hbegin : σ.mayBegin bracketed) :
    τ.mayBegin bracketed := by
  have hempty : σ.stack = [] ↔ τ.stack = [] := by
    have hlength := h.stack.length_eq
    rw [← List.length_eq_zero_iff, hlength, List.length_eq_zero_iff]
  by_cases hstack : σ.stack = []
  · simpa [RowState.mayBegin, hstack, hempty.mp hstack] using hbegin
  · have hstack' : τ.stack ≠ [] := fun h' => hstack (hempty.mpr h')
    have hready : σ.ready := by simpa [RowState.mayBegin, hstack] using hbegin
    simpa [RowState.mayBegin, hstack'] using h.ready hstack hready

theorem Unasked.put {names : List (List Char)} (h : Unasked names σ.stack)
    (hput : σ.put key v comma = some σ') (hname : joinPath (stackPath σ.stack ++ [key]) ∉ names) :
    Unasked names σ'.stack := by
  rcases RowState.put_cases hput with ⟨-, -, -, rfl⟩ | ⟨p, es, rest, hstack, -, rfl⟩
  · exact h
  · rw [hstack] at h hname
    refine ⟨fun key' hkey' => ?_, h.2⟩
    rcases Entries.mem_keys_set hkey' with heq | hkey'
    · rw [fieldKey_inj.mp heq]
      simpa using hname
    · exact h.1 key' hkey'

end

section
variable (C : CharClasses)

/-- Every new row sets a key. -/
theorem mem_newRows {tableName : List Char} {pending : Pending} {row : Row} :
    row ∈ newRows C tableName pending ↔ ∃ key v, row = .assign key (!isSafeKey C key) v true ∧
      (tableName ++ '.' :: key, some v) ∈ pending ∧ '.' ∉ key := by
  simp only [newRows, List.mem_filterMap, Prod.exists, Option.bind_eq_some_iff,
    Option.map_eq_some_iff, localKey_eq_some]
  constructor
  · rintro ⟨name, w, hmem, v, rfl, key, ⟨rfl, hdot⟩, rfl⟩
    exact ⟨key, v, rfl, hmem, hdot⟩
  · rintro ⟨key, v, rfl, hmem, hdot⟩
    exact ⟨_, _, hmem, v, rfl, key, ⟨rfl, hdot⟩, rfl⟩

theorem newRows_ready {tableName : List Char} {pending : Pending} {ready : Bool}
    (h : (newRows C tableName pending).all (canInsert C ready))
    (hne : newRows C tableName pending ≠ []) : ready = true := by
  obtain ⟨row, hrow⟩ := List.exists_mem_of_ne_nil _ hne
  have hcan := List.all_eq_true.mp h row hrow
  obtain ⟨key, v, rfl, -⟩ := (mem_newRows C).mp hrow
  simp only [canInsert, Bool.and_eq_true] at hcan
  exact hcan.1

/-- New rows are read where a field may begin. -/
theorem run_newRows {tableName p : List Char} {pending : Pending} {es : Entries}
    (hnodup : (pending.map Prod.fst).Nodup)
    (hfresh : ∀ key, fieldKey key ∈ es.map Prod.fst →
      tableName ++ '.' :: key ∉ pending.map Prod.fst)
    (globals : List (List Char × Value)) (rest : List (List Char × Entries)) :
    ∃ es', RowState.run ⟨globals, (p, es) :: rest, true⟩ (newRows C tableName pending) =
      some ⟨globals, (p, es') :: rest, true⟩ := by
  induction pending generalizing es with
  | nil => exact ⟨es, rfl⟩
  | cons e pending ih =>
    obtain ⟨name, w⟩ := e
    obtain ⟨hname, hrest⟩ := List.nodup_cons.mp hnodup
    have hfresh' : ∀ key, fieldKey key ∈ es.map Prod.fst →
        tableName ++ '.' :: key ∉ pending.map Prod.fst :=
      fun key hkey hmem => hfresh key hkey (List.mem_cons_of_mem _ hmem)
    have hskip : ∀ {rows}, newRows C tableName ((name, w) :: pending) = rows →
        rows = newRows C tableName pending → ∃ es', RowState.run ⟨globals, (p, es) :: rest, true⟩
          rows = some ⟨globals, (p, es') :: rest, true⟩ := by
      rintro rows - rfl
      exact ih hrest hfresh'
    cases w with
    | none => exact hskip rfl rfl
    | some v =>
      cases hkey : localKey tableName name with
      | none => exact hskip rfl (by simp [newRows, hkey])
      | some key =>
        obtain ⟨rfl, -⟩ := localKey_eq_some.mp hkey
        have hnew : fieldKey key ∉ es.map Prod.fst := fun hmem => hfresh key hmem (by simp)
        have hrows : newRows C tableName ((tableName ++ '.' :: key, some v) :: pending) =
            .assign key (!isSafeKey C key) v true :: newRows C tableName pending := by
          simp [newRows, hkey]
        have hfresh₁ : ∀ key', fieldKey key' ∈ (es.set (fieldKey key) v).map Prod.fst →
            tableName ++ '.' :: key' ∉ pending.map Prod.fst := by
          intro key' hkey'
          rcases Entries.mem_keys_set hkey' with heq | hkey'
          · rwa [fieldKey_inj.mp heq]
          · exact hfresh' key' hkey'
        obtain ⟨es', hrun⟩ := ih hrest hfresh₁
        refine ⟨es', ?_⟩
        rw [hrows, RowState.run_cons, ← hrun]
        simp [RowState.step, RowState.mayBegin, RowState.put, hnew]

/-- In the middle of an edit: the two states, and what is left to do. -/
structure Editing (st : RowEdit) (ready : Bool) (σ τ : RowState) : Prop where
  path : st.path = stackPath σ.stack
  nodup : (st.pending.map Prod.fst).Nodup
  unasked : Unasked (st.pending.map Prod.fst) σ.stack
  follows : Follows σ τ
  ready : τ.stack ≠ [] → τ.ready = ready

/-- The rest of the rows fits the updates: none is for a table or for a row without a value, and
new rows find a place. -/
structure Fits (st : RowEdit) (ready : Bool) (rows : List Row) : Prop where
  tables : ∀ name ∈ tables st.path rows, name ∉ st.pending.map Prod.fst
  values : ∀ e ∈ assigned st.path rows, e.1 ∈ st.pending.map Prod.fst → e.2 ≠ .nil
  ready : insertsWell C st ready rows

@[simp] theorem editRow_path (st : RowEdit) (row : Row) :
    (editRow C st row).1.path = pathAfter st.path row := by
  cases row with
  | assign key bracketed v comma =>
    simp only [editRow, pathAfter]
    split <;> rfl
  | _ => rfl

theorem editRow_pending (st : RowEdit) (row : Row) :
    (editRow C st row).1.pending.Sublist st.pending := by
  cases row with
  | assign key bracketed v comma =>
    simp only [editRow]
    split
    · exact List.Sublist.refl _
    · exact List.filter_sublist
  | _ => exact List.Sublist.refl _

variable {C} in
theorem Fits.tail {st : RowEdit} {ready : Bool} {row : Row} {rows : List Row}
    (h : Fits C st ready (row :: rows)) :
    Fits C (editRow C st row).1 (readyAfter st ready row) rows := by
  have hsub := ((editRow_pending C st row).map Prod.fst).subset
  refine ⟨?_, ?_, ?_⟩
  · intro name hname hmem
    rw [editRow_path] at hname
    exact h.tables name (List.mem_append_right _ hname) (hsub hmem)
  · intro e he hmem
    rw [editRow_path] at he
    exact h.values e (List.mem_append_right _ he) (hsub hmem)
  · have hready := h.ready
    simp only [insertsWell, Bool.and_eq_true] at hready
    exact hready.2

variable {C} in
theorem Editing.nodup_editRow {st : RowEdit} {ready : Bool} {σ τ : RowState}
    (h : Editing st ready σ τ) (row : Row) : ((editRow C st row).1.pending.map Prod.fst).Nodup :=
  h.nodup.sublist ((editRow_pending C st row).map _)

variable {C} in
theorem Editing.path_editRow {st : RowEdit} {ready : Bool} {σ σ' τ : RowState}
    (h : Editing st ready σ τ) {row : Row} (hstep : σ.step row = some σ') :
    (editRow C st row).1.path = stackPath σ'.stack := by
  rw [editRow_path, h.path, stackPath_step hstep]

/-- The row of a table that begins is kept. -/
theorem Editing.step_opens {st : RowEdit} {ready : Bool} {σ σ' τ : RowState} {key : List Char}
    {bracketed : Bool} (h : Editing st ready σ τ) (hstep : σ.step (.opens key bracketed) = some σ') :
    ∃ τ', τ.run (editRow C st (.opens key bracketed)).2 = some τ' ∧
      Editing (editRow C st (.opens key bracketed)).1 (readyAfter st ready (.opens key bracketed))
        σ' τ' := by
  have hpath := h.path_editRow (C := C) hstep
  have hnodup := h.nodup_editRow (C := C) (.opens key bracketed)
  simp only [RowState.step] at hstep
  split at hstep
  · next hbegin =>
    obtain rfl := Option.some.inj hstep
    refine ⟨⟨τ.globals, (key, []) :: τ.stack, true⟩, ?_, hpath, hnodup, ⟨by simp, h.unasked⟩,
      ⟨h.follows.globals, .cons ⟨rfl, by simp⟩ h.follows.stack, fun _ _ => rfl⟩, fun _ => rfl⟩
    simp [editRow, RowState.step, h.follows.mayBegin hbegin]
  · cases hstep

section Assign

variable {st : RowEdit} {ready : Bool} {σ σ' τ : RowState} {key : List Char} {bracketed : Bool}
  {v : Value} {comma : Bool} (h : Editing st ready σ τ)
  (hstep : σ.step (.assign key bracketed v comma) = some σ')

theorem mayBegin_of_step (hstep : σ.step (.assign key bracketed v comma) = some σ') :
    σ.mayBegin bracketed = true ∧ σ.put key v comma = some σ' := by
  simp only [RowState.step] at hstep
  split at hstep
  · exact ⟨‹_›, hstep⟩
  · cases hstep

include h hstep

/-- A row that is not asked for is kept. -/
theorem Editing.step_unasked (hlookup : st.pending.lookup (joinPath (st.path ++ [key])) = none) :
    ∃ τ', τ.run (editRow C st (.assign key bracketed v comma)).2 = some τ' ∧
      Editing (editRow C st (.assign key bracketed v comma)).1
        (readyAfter st ready (.assign key bracketed v comma)) σ' τ' := by
  have hpath := h.path_editRow (C := C) hstep
  have hnodup := h.nodup_editRow (C := C) (.assign key bracketed v comma)
  obtain ⟨hbegin, hput⟩ := mayBegin_of_step hstep
  have hname : joinPath (stackPath σ.stack ++ [key]) ∉ st.pending.map Prod.fst := by
    rw [← h.path]
    exact lookup_eq_none_iff_notMem.mp hlookup
  obtain ⟨τ', hput', hfollows, hcomma⟩ := h.follows.put hput (w := v) id
  refine ⟨τ', by simp [editRow, hlookup, RowState.step, h.follows.mayBegin hbegin, hput'], hpath,
    hnodup, ?_, hfollows, by simpa [readyAfter, hlookup] using hcomma⟩
  simpa [editRow, hlookup] using h.unasked.put hput hname

/-- The name of a row that is asked for is not asked for again. -/
theorem Editing.unasked_edited {w : Option Value}
    (hlookup : st.pending.lookup (joinPath (st.path ++ [key])) = some w) :
    Unasked ((editRow C st (.assign key bracketed v comma)).1.pending.map Prod.fst) σ'.stack := by
  have hname : joinPath (stackPath σ.stack ++ [key]) ∉
      (editRow C st (.assign key bracketed v comma)).1.pending.map Prod.fst := by
    rw [← h.path]
    simp [editRow, hlookup]
  exact (h.unasked.mono ((editRow_pending C st
    (.assign key bracketed v comma)).map Prod.fst).subset).put (mayBegin_of_step hstep).2 hname

/-- A row is removed. -/
theorem Editing.step_removed
    (hlookup : st.pending.lookup (joinPath (st.path ++ [key])) = some none) :
    ∃ τ', τ.run (editRow C st (.assign key bracketed v comma)).2 = some τ' ∧
      Editing (editRow C st (.assign key bracketed v comma)).1
        (readyAfter st ready (.assign key bracketed v comma)) σ' τ' := by
  obtain ⟨hbegin, hput⟩ := mayBegin_of_step hstep
  have hready : σ.stack ≠ [] → σ.ready := fun hne => by
    simpa [RowState.mayBegin, hne] using hbegin
  exact ⟨τ, by simp [editRow, hlookup, RowState.step], h.path_editRow hstep,
    h.nodup_editRow _, h.unasked_edited C hstep hlookup, h.follows.put_left hput hready,
    by simpa [readyAfter, hlookup] using h.ready⟩

/-- A row gets its value. -/
theorem Editing.step_written {w : Value}
    (hlookup : st.pending.lookup (joinPath (st.path ++ [key])) = some (some w)) (hv : v ≠ .nil) :
    ∃ τ', τ.run (editRow C st (.assign key bracketed v comma)).2 = some τ' ∧
      Editing (editRow C st (.assign key bracketed v comma)).1
        (readyAfter st ready (.assign key bracketed v comma)) σ' τ' := by
  obtain ⟨hbegin, hput⟩ := mayBegin_of_step hstep
  obtain ⟨τ', hput', hfollows, hcomma⟩ :=
    h.follows.put hput (w := w) fun hnil => absurd hnil hv
  exact ⟨τ', by simp [editRow, hlookup, RowState.step, h.follows.mayBegin hbegin, hput'],
    h.path_editRow hstep, h.nodup_editRow _, h.unasked_edited C hstep hlookup, hfollows,
    by simpa [readyAfter, hlookup] using hcomma⟩

end Assign

/-- The rows that are added before a table ends. -/
theorem run_newRows_closing {tableName p : List Char} {pending : Pending} {es : Entries}
    {ready r : Bool} (hnodup : (pending.map Prod.fst).Nodup)
    (hinserts : (newRows C tableName pending).all (canInsert C ready)) (hr : r = ready)
    (hfresh : ∀ key, fieldKey key ∈ es.map Prod.fst → tableName ++ '.' :: key ∉ pending.map Prod.fst)
    (globals : List (List Char × Value)) (rest : List (List Char × Entries)) :
    ∃ es' r', RowState.run ⟨globals, (p, es) :: rest, r⟩ (newRows C tableName pending) =
        some ⟨globals, (p, es') :: rest, r'⟩ ∧ (r = true → r' = true) := by
  cases hrows : newRows C tableName pending with
  | nil => exact ⟨es, r, rfl, id⟩
  | cons row rows =>
    have htrue : ready = true := newRows_ready C hinserts (by simp [hrows])
    obtain ⟨es', hrun⟩ := run_newRows C hnodup hfresh globals rest (p := p)
    exact ⟨es', true, by rw [← hrows, hr, htrue]; exact hrun, fun _ => rfl⟩

/-- A table ends behind its new rows. -/
theorem Editing.step_closes {st : RowEdit} {ready : Bool} {σ σ' τ : RowState} {comma : Bool}
    {rows : List Row} (h : Editing st ready σ τ) (hfits : Fits C st ready (.closes comma :: rows))
    (hstep : σ.step (.closes comma) = some σ') :
    ∃ τ', τ.run (editRow C st (.closes comma)).2 = some τ' ∧
      Editing (editRow C st (.closes comma)).1 (readyAfter st ready (.closes comma)) σ' τ' := by
  have hpath := h.path_editRow (C := C) hstep
  have hnodup := h.nodup_editRow (C := C) (.closes comma)
  obtain ⟨globals, stack, r⟩ := σ
  obtain ⟨globals', stack', r'⟩ := τ
  have hstack := h.follows.stack
  cases hstack with
  | nil => cases hstep
  | @cons entry entry' rest rest' hentry hrest =>
    obtain ⟨p, es⟩ := entry
    obtain ⟨p', es'⟩ := entry'
    obtain ⟨rfl, hkeys⟩ := hentry
    have hpathp : st.path = stackPath rest ++ [p] := by rw [h.path, stackPath_cons]
    have hne : st.path ≠ [] := by simp [hpathp]
    have hclosed : joinPath st.path ∉ st.pending.map Prod.fst :=
      hfits.tables _ (by simp [tables, hne])
    have hinserts := hfits.ready
    simp only [insertsWell, Bool.and_eq_true] at hinserts
    have hfresh : ∀ key, fieldKey key ∈ es'.map Prod.fst →
        joinPath st.path ++ '.' :: key ∉ st.pending.map Prod.fst := by
      intro key hkey
      rw [← joinPath_append hne, hpathp]
      exact h.unasked.1 key (hkeys hkey)
    obtain ⟨es₁, r₁, hnew, hr₁⟩ :=
      run_newRows_closing C h.nodup hinserts.1 (h.ready (by simp)) hfresh globals' rest' (p := p)
    have hfollows : Follows ⟨globals, rest, r⟩ ⟨globals', rest', r₁⟩ :=
      ⟨h.follows.globals, hrest, fun _ hr => hr₁ (h.follows.ready (by simp) hr)⟩
    obtain ⟨τ', hput, hfollows', hcomma⟩ := hfollows.put hstep (w := .table es₁) (by simp)
    refine ⟨τ', ?_, hpath, hnodup, h.unasked.2.put hstep (hpathp ▸ hclosed), hfollows', hcomma⟩
    simp only [editRow, if_neg hne]
    rw [RowState.run_append, hnew]
    simpa [RowState.step] using hput

/-- **One edited row.** -/
theorem Editing.step {st : RowEdit} {ready : Bool} {σ σ' τ : RowState} {row : Row}
    {rows : List Row} (h : Editing st ready σ τ) (hfits : Fits C st ready (row :: rows))
    (hstep : σ.step row = some σ') :
    ∃ τ', τ.run (editRow C st row).2 = some τ' ∧
      Editing (editRow C st row).1 (readyAfter st ready row) σ' τ' := by
  cases row with
  | quiet =>
    obtain rfl := Option.some.inj hstep
    exact ⟨τ, rfl, h⟩
  | opens key bracketed => exact h.step_opens C hstep
  | assign key bracketed v comma =>
    cases hlookup : st.pending.lookup (joinPath (st.path ++ [key])) with
    | none => exact h.step_unasked C hstep hlookup
    | some w =>
      cases w with
      | none => exact h.step_removed C hstep hlookup
      | some w =>
        have hmem : joinPath (st.path ++ [key]) ∈ st.pending.map Prod.fst :=
          List.mem_map.mpr ⟨_, mem_of_lookup hlookup, rfl⟩
        exact h.step_written C hstep hlookup <|
          hfits.values (joinPath (st.path ++ [key]), v) (by simp [assigned, rowAssigned]) hmem
  | closes comma => exact h.step_closes C hfits hstep

/-- **The edited rows are read.** -/
theorem Editing.run {st : RowEdit} {ready : Bool} {σ σ' τ : RowState} {rows : List Row}
    (h : Editing st ready σ τ) (hfits : Fits C st ready rows) (hrun : σ.run rows = some σ') :
    ∃ τ', τ.run (editRows C st rows).flatten = some τ' ∧ Follows σ' τ' := by
  induction rows generalizing st ready σ τ with
  | nil =>
    obtain rfl := Option.some.inj hrun
    exact ⟨τ, rfl, h.follows⟩
  | cons row rows ih =>
    obtain ⟨σ₁, hstep, hrest⟩ := Option.bind_eq_some_iff.mp hrun
    obtain ⟨τ₁, hτ₁, h₁⟩ := h.step C hfits hstep
    obtain ⟨τ', hτ', hfollows⟩ := ih h₁ hfits.tail hrest
    exact ⟨τ', by rw [editRows, List.flatten_cons, RowState.run_append, hτ₁, Option.bind_some, hτ'],
      hfollows⟩

/-! ## 3. What the edited rows assign -/

/-- There is a row for the name, or a table that it is directly inside. -/
def Placed (path : List (List Char)) (rows : List Row) (name : List Char) : Prop :=
  name ∈ (assigned path rows).map Prod.fst ∨
    ∃ tableName ∈ tables path rows, (localKey tableName name).isSome

theorem assigned_newRows {path : List (List Char)} (hne : path ≠ []) (pending : Pending)
    (rows : List Row) {name : List Char} {v : Value} :
    (name, v) ∈ assigned path (newRows C (joinPath path) pending ++ rows) ↔
      ((name, some v) ∈ pending ∧ (localKey (joinPath path) name).isSome) ∨
        (name, v) ∈ assigned path rows := by
  induction pending with
  | nil => simp [newRows]
  | cons e pending ih =>
    obtain ⟨name', w⟩ := e
    have hskip : newRows C (joinPath path) ((name', w) :: pending) =
        newRows C (joinPath path) pending → (w = some v → (localKey (joinPath path) name') = none) →
        ((name, v) ∈ assigned path (newRows C (joinPath path) ((name', w) :: pending) ++ rows) ↔
          ((name, some v) ∈ (name', w) :: pending ∧ (localKey (joinPath path) name).isSome) ∨
            (name, v) ∈ assigned path rows) := by
      intro hrows hnone
      rw [hrows, ih, List.mem_cons]
      constructor
      · exact Or.imp_left fun h => ⟨.inr h.1, h.2⟩
      · refine Or.imp_left fun h => ⟨h.1.resolve_left fun heq => ?_, h.2⟩
        obtain ⟨rfl, rfl⟩ := Prod.mk.inj heq
        simp [hnone rfl] at h
    cases w with
    | none => exact hskip rfl (by simp)
    | some w =>
      cases hkey : localKey (joinPath path) name' with
      | none => exact hskip (by simp [newRows, hkey]) fun _ => hkey
      | some key =>
        obtain ⟨hname, -⟩ := localKey_eq_some.mp hkey
        have hrows : newRows C (joinPath path) ((name', some w) :: pending) =
            .assign key (!isSafeKey C key) w true :: newRows C (joinPath path) pending := by
          simp [newRows, hkey]
        rw [hrows, List.cons_append, assigned, List.mem_append]
        simp only [rowAssigned, joinPath_append hne, ← hname, pathAfter, ih, List.mem_cons,
          List.not_mem_nil, or_false, Prod.mk.injEq, Option.some.injEq]
        constructor
        · rintro (⟨rfl, rfl⟩ | h | h)
          · exact .inl ⟨.inl ⟨rfl, rfl⟩, by simp [hkey]⟩
          · exact .inl ⟨.inr h.1, h.2⟩
          · exact .inr h
        · rintro (⟨⟨rfl, rfl⟩ | h, hlocal⟩ | h)
          · exact .inl ⟨rfl, rfl⟩
          · exact .inr (.inl ⟨h, hlocal⟩)
          · exact .inr (.inr h)

/-- What was assigned, but for the names there is an update for, and the updates that find a
place. -/
def AssignsEdited (st : RowEdit) (rows : List Row) : Prop :=
  ∀ (name : List Char) (v : Value), (name, v) ∈ assigned st.path (editRows C st rows).flatten ↔
    ((name, v) ∈ assigned st.path rows ∧ name ∉ st.pending.map Prod.fst) ∨
      ((name, some v) ∈ st.pending ∧ Placed st.path rows name)

theorem placed_closes {path : List (List Char)} (hne : path ≠ []) (comma : Bool) (rows : List Row)
    (name : List Char) : Placed path (.closes comma :: rows) name ↔
      (localKey (joinPath path) name).isSome ∨ Placed path.dropLast rows name := by
  simp only [Placed, assigned, rowAssigned, tables, pathAfter, if_neg hne, List.nil_append,
    List.singleton_append, List.mem_cons, exists_eq_or_imp]
  exact or_left_comm

theorem placed_assign (path : List (List Char)) (key : List Char) (bracketed : Bool) (w : Value)
    (comma : Bool) (rows : List Row) (name : List Char) :
    Placed path (.assign key bracketed w comma :: rows) name ↔
      name = joinPath (path ++ [key]) ∨ Placed path rows name := by
  simp only [Placed, assigned, rowAssigned, tables, pathAfter, List.nil_append,
    List.singleton_append, List.map_cons, List.mem_cons, or_assoc]

/-- Where a table ends, the updates that are its own are added. -/
theorem AssignsEdited.closes {st : RowEdit} {rows : List Row} (comma : Bool)
    (h : AssignsEdited C ⟨st.path.dropLast, st.pending⟩ rows) :
    AssignsEdited C st (.closes comma :: rows) := by
  intro name v
  rw [editRows, List.flatten_cons]
  have hrest := h name v
  by_cases hne : st.path = []
  · simpa [editRow, hne, assigned, rowAssigned, pathAfter, Placed, tables] using hrest
  · simp only [editRow, if_neg hne, List.append_assoc, List.singleton_append,
      assigned_newRows C hne, placed_closes hne, assigned, rowAssigned, pathAfter,
      List.nil_append, and_or_left]
    rw [hrest]
    exact or_left_comm

section Assign

variable {st : RowEdit} {rows : List Row} {key : List Char} {bracketed : Bool} {w : Value}
  {comma : Bool}

/-- A row that is not asked for assigns what it did. -/
theorem AssignsEdited.unasked (hlookup : st.pending.lookup (joinPath (st.path ++ [key])) = none)
    (h : AssignsEdited C st rows) : AssignsEdited C st (.assign key bracketed w comma :: rows) := by
  intro name v
  have hname : joinPath (st.path ++ [key]) ∉ st.pending.map Prod.fst :=
    lookup_eq_none_iff_notMem.mp hlookup
  simp only [editRows, List.flatten_cons, editRow, hlookup, List.singleton_append, assigned,
    rowAssigned, pathAfter, List.mem_cons, h name v, placed_assign, Prod.mk.injEq]
  constructor
  · rintro (⟨rfl, rfl⟩ | h | h)
    · exact .inl ⟨.inl ⟨rfl, rfl⟩, hname⟩
    · exact .inl ⟨.inr h.1, h.2⟩
    · exact .inr ⟨h.1, .inr h.2⟩
  · rintro (⟨h | h, hnot⟩ | ⟨hmem, rfl | h⟩)
    · exact .inl h
    · exact .inr (.inl ⟨h, hnot⟩)
    · exact absurd (List.mem_map.mpr ⟨_, hmem, rfl⟩) hname
    · exact .inr (.inr ⟨hmem, h⟩)

/-- The row of an update assigns the update's value, or is gone. -/
theorem mem_assigned_asked {u : Option Value} {name : List Char} {v : Value}
    (hlookup : st.pending.lookup (joinPath (st.path ++ [key])) = some u) :
    (name, v) ∈ assigned st.path
        (editRows C st (.assign key bracketed w comma :: rows)).flatten ↔
      (name = joinPath (st.path ++ [key]) ∧ u = some v) ∨ (name, v) ∈ assigned st.path (editRows C
        ⟨st.path, st.pending.filter (·.1 ≠ joinPath (st.path ++ [key]))⟩ rows).flatten := by
  rw [editRows, List.flatten_cons]
  cases u <;> simp [editRow, hlookup, assigned, rowAssigned, pathAfter, eq_comm]

/-- A row that is asked for assigns what the update says, and nothing else has its name. -/
theorem AssignsEdited.asked {u : Option Value} (hpending : (st.pending.map Prod.fst).Nodup)
    (hfresh : joinPath (st.path ++ [key]) ∉ (assigned st.path rows).map Prod.fst)
    (hlookup : st.pending.lookup (joinPath (st.path ++ [key])) = some u)
    (h : AssignsEdited C
      ⟨st.path, st.pending.filter (·.1 ≠ joinPath (st.path ++ [key]))⟩ rows) :
    AssignsEdited C st (.assign key bracketed w comma :: rows) := by
  intro name v
  have hmem₀ : (joinPath (st.path ++ [key]), u) ∈ st.pending := mem_of_lookup hlookup
  rw [mem_assigned_asked C hlookup, h name v, placed_assign, assigned, List.mem_append]
  by_cases hn : name = joinPath (st.path ++ [key])
  · -- the name of the row
    subst hn
    have hmem : joinPath (st.path ++ [key]) ∈ st.pending.map Prod.fst :=
      List.mem_map.mpr ⟨_, hmem₀, rfl⟩
    have hnot : (joinPath (st.path ++ [key]), v) ∉ assigned st.path rows :=
      fun h => hfresh (List.mem_map.mpr ⟨_, h, rfl⟩)
    have hiff : u = some v ↔ (joinPath (st.path ++ [key]), some v) ∈ st.pending := by
      constructor
      · intro h
        exact h ▸ hmem₀
      · intro h
        exact (Prod.mk.inj (List.inj_on_of_nodup_map hpending h hmem₀ rfl)).2.symm
    simp [hmem, hnot, hiff]
  · simp [hn, rowAssigned, pathAfter]

end Assign

/-- **What the edited rows assign**: what was assigned, but for the names there is an update for,
and the updates that find a place. -/
theorem mem_assigned_editRows {st : RowEdit} {rows : List Row}
    (hpending : (st.pending.map Prod.fst).Nodup)
    (hassigned : ((assigned st.path rows).map Prod.fst).Nodup) {name : List Char} {v : Value} :
    (name, v) ∈ assigned st.path (editRows C st rows).flatten ↔
      ((name, v) ∈ assigned st.path rows ∧ name ∉ st.pending.map Prod.fst) ∨
        ((name, some v) ∈ st.pending ∧ Placed st.path rows name) := by
  suffices h : AssignsEdited C st rows from h name v
  induction rows generalizing st with
  | nil =>
    intro name v
    simp [editRows, assigned, Placed, tables]
  | cons row rows ih =>
    rw [assigned, List.map_append] at hassigned
    obtain ⟨-, hrest, hdisjoint⟩ := List.nodup_append.mp hassigned
    cases row with
    | quiet => exact ih hpending hrest
    | opens key bracketed => exact @ih ⟨st.path ++ [key], st.pending⟩ hpending hrest
    | closes comma => exact .closes C comma (ih hpending hrest)
    | assign key bracketed w comma =>
      cases hlookup : st.pending.lookup (joinPath (st.path ++ [key])) with
      | none => exact .unasked C hlookup (ih hpending hrest)
      | some u =>
        refine .asked C hpending ?_ hlookup (ih (hpending.sublist (List.filter_sublist.map _)) hrest)
        exact fun hmem => hdisjoint _ (by simp [rowAssigned]) _ hmem rfl

end

end DcsDashboard.Foothold
