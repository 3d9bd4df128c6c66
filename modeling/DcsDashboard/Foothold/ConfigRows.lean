/-
# The configuration row by row

A file of rows assigns values to full names (`assigned`), and has tables by full names (`tables`).
What `get_foothold_config` reports of it is what each row reports (`configEntries_rows`).

On rows, an edit gives some names another value or takes them away, and puts rows before the ends
of tables (`editRow`).  The machine reads the rows it leaves (`run_editRows`), and they assign
what the others assigned, and the updates in place of the names they are for (`mem_assigned_iff`).
-/
import DcsDashboard.Foothold.ConfigEditing
import DcsDashboard.Foothold.ConfigReading

namespace DcsDashboard.Foothold

open Lib Lua

/-! ## 1. Full names -/

/-- The first key of a full name decides whether it is reported. -/
def isShown (name : List Char) : Bool := name.takeWhile (· ≠ '.') ∉ skippedGlobals

/-- Keys that full names are made of; the first is the name of a global. -/
structure GoodPath (path : List (List Char)) : Prop where
  ne_nil : ∀ p ∈ path, p ≠ []
  head : ∀ p ∈ path.head?, '.' ∉ p

theorem GoodPath.dropLast {path : List (List Char)} {key : List Char}
    (h : GoodPath (path ++ [key])) : GoodPath path where
  ne_nil p hp := h.ne_nil p (by simp [hp])
  head p hp := h.head p (by
    cases path with
    | nil => simp at hp
    | cons x path => exact hp)

/-- A key in a table, or the name of a global. -/
theorem GoodPath.append {path : List (List Char)} (h : GoodPath path) {key : List Char}
    (hkey : key ≠ []) (hdot : path = [] → '.' ∉ key) : GoodPath (path ++ [key]) where
  ne_nil p hp := by
    rcases List.mem_append.mp hp with hp | hp
    · exact h.ne_nil p hp
    · rwa [List.mem_singleton.mp hp]
  head p hp := by
    cases path with
    | nil =>
      obtain rfl : key = p := by simpa using hp
      exact hdot rfl
    | cons x path => exact h.head p hp

theorem joinPath_append {path : List (List Char)} (h : path ≠ []) (key : List Char) :
    joinPath (path ++ [key]) = joinPath path ++ '.' :: key := by
  unfold joinPath
  induction path with
  | nil => exact absurd rfl h
  | cons p path ih =>
    by_cases hpath : path = []
    · simp [hpath]
    · rw [List.cons_append, List.intercalate_cons_of_ne_nil (by simp),
        List.intercalate_cons_of_ne_nil hpath, ih hpath]
      simp

@[simp] theorem joinPath_singleton (key : List Char) : joinPath [key] = key :=
  List.intercalate_singleton

theorem GoodPath.joinPath_ne_nil {path : List (List Char)} (h : GoodPath path) (hne : path ≠ []) :
    joinPath path ≠ [] := by
  obtain ⟨p, path, rfl⟩ := List.exists_cons_of_ne_nil hne
  have hp : p ≠ [] := h.ne_nil p (by simp)
  unfold joinPath
  by_cases hpath : path = []
  · simpa [hpath] using hp
  · rw [List.intercalate_cons_of_ne_nil hpath]
    simp [hp]

/-- The name of a key of a table is the name `flatten_lua_value` gives it. -/
theorem GoodPath.entryName {path : List (List Char)} (h : GoodPath path) (key : List Char) :
    entryName (joinPath path) key = joinPath (path ++ [key]) := by
  by_cases hne : path = []
  · subst hne
    simp [Foothold.entryName, joinPath]
  · rw [Foothold.entryName, if_neg (h.joinPath_ne_nil hne), joinPath_append hne]

theorem takeWhile_joinPath {p : List Char} (hp : '.' ∉ p) (path : List (List Char)) :
    (joinPath (p :: path)).takeWhile (· ≠ '.') = p := by
  have hall : ∀ c ∈ p, decide (c ≠ '.') = true := fun c hc => by
    simpa using fun heq : c = '.' => hp (heq ▸ hc)
  unfold joinPath
  by_cases hpath : path = []
  · rw [hpath, List.intercalate_singleton]
    exact List.takeWhile_eq_self_iff.mpr hall
  · rw [List.intercalate_cons_of_ne_nil hpath, List.append_assoc, List.takeWhile_append_of_pos hall]
    simp

theorem isShown_joinPath {p : List Char} (hp : '.' ∉ p) (path : List (List Char)) :
    isShown (joinPath (p :: path)) = decide (p ∉ skippedGlobals) := by
  rw [isShown, takeWhile_joinPath hp]

/-- What is in a table is reported when the table is. -/
theorem GoodPath.isShown {path : List (List Char)} (h : GoodPath path) (hne : path ≠ [])
    (key : List Char) : isShown (joinPath (path ++ [key])) = isShown (joinPath path) := by
  obtain ⟨p, path, rfl⟩ := List.exists_cons_of_ne_nil hne
  have hp : '.' ∉ p := h.head p (by simp)
  rw [List.cons_append, isShown_joinPath hp, isShown_joinPath hp]

/-! ## 2. What the rows report -/

/-- The keys of a row are such that full names can be made of them. -/
def Keyed : Row → Prop
  | .assign key bracketed _ _ | .opens key bracketed =>
    key ≠ [] ∧ (bracketed = false → '.' ∉ key)
  | .quiet | .closes _ => True

/-- The tables around the next row. -/
def pathAfter (path : List (List Char)) : Row → List (List Char)
  | .opens key _ => path ++ [key]
  | .closes _ => path.dropLast
  | .quiet | .assign .. => path

/-- The full name that a row gives a value. -/
def rowAssigned (path : List (List Char)) : Row → List (List Char × Value)
  | .assign key _ v _ => [(joinPath (path ++ [key]), v)]
  | .quiet | .opens .. | .closes _ => []

/-- The full names that get a value, with it. -/
def assigned : List (List Char) → List Row → List (List Char × Value)
  | _, [] => []
  | path, row :: rows => rowAssigned path row ++ assigned (pathAfter path row) rows

section
variable (F : NumberFormat)

/-- What is reported of a full name and its value. -/
def reports (e : List Char × Value) : List (List Char × Json) :=
  if isShown e.1 then flattenLuaValue F e.1 e.2 else []

/-- The tables around the next row, the outermost first. -/
def stackPath (stack : List (List Char × Entries)) : List (List Char) :=
  (stack.map Prod.fst).reverse

/-- What is reported of tables that have not been closed. -/
def stackEntries : List (List Char × Entries) → List (List Char × Json)
  | [] => []
  | (p, es) :: rest => stackEntries rest ++ reports F (joinPath (stackPath rest ++ [p]), .table es)

/-- What has been read so far reports. -/
def stateEntries (σ : RowState) : List (List Char × Json) :=
  configEntries F σ.globals ++ stackEntries F σ.stack

end

section
variable {F : NumberFormat} {σ τ : RowState}

@[simp] theorem stackPath_cons (e : List Char × Entries) (stack : List (List Char × Entries)) :
    stackPath (e :: stack) = stackPath stack ++ [e.1] := by
  simp [stackPath]

theorem stackPath_put {key : List Char} {v : Value} {comma : Bool}
    (h : σ.put key v comma = some τ) : stackPath τ.stack = stackPath σ.stack := by
  rcases RowState.put_cases h with ⟨-, -, -, rfl⟩ | ⟨p, es, rest, hstack, -, rfl⟩
  · rfl
  · simp [hstack]

theorem stackPath_step {row : Row} (h : σ.step row = some τ) :
    stackPath τ.stack = pathAfter (stackPath σ.stack) row := by
  cases row with
  | quiet =>
    obtain rfl := Option.some.inj h
    rfl
  | assign key bracketed v comma =>
    simp only [RowState.step] at h
    split at h
    · exact stackPath_put h
    · cases h
  | opens key bracketed =>
    simp only [RowState.step] at h
    split at h
    · obtain rfl := Option.some.inj h
      simp [pathAfter]
    · cases h
  | closes comma =>
    obtain ⟨globals, stack, ready⟩ := σ
    cases stack with
    | nil => cases h
    | cons entry rest =>
      have hput := stackPath_put h
      simpa [pathAfter] using hput

/-- What a key adds that gets its value. -/
theorem stateEntries_put {key : List Char} {v : Value} {comma : Bool}
    (h : σ.put key v comma = some τ) (hpath : GoodPath (stackPath σ.stack ++ [key])) :
    stateEntries F τ = stateEntries F σ ++ reports F (joinPath (stackPath σ.stack ++ [key]), v) := by
  have hkey : key ≠ [] := hpath.ne_nil key (by simp)
  rcases RowState.put_cases h with ⟨hstack, -, hfresh, rfl⟩ | ⟨p, es, rest, hstack, hfresh, rfl⟩
  · have hdot : '.' ∉ key := hpath.head key (by simp [hstack, stackPath])
    have hshown : isShown key = decide (key ∉ skippedGlobals) := by
      have hsingle := isShown_joinPath hdot []
      rwa [joinPath_singleton] at hsingle
    simp only [stateEntries, hstack, stackEntries, List.append_nil, configEntries_cons hfresh,
      stackPath, List.map_nil, List.reverse_nil, List.nil_append, joinPath_singleton, reports,
      hshown, decide_eq_true_eq]
    by_cases hskip : key ∈ skippedGlobals <;> simp [hskip]
  · have hgood : GoodPath (stackPath σ.stack) := hpath.dropLast
    rw [hstack, stackPath_cons] at hgood
    have hname := hgood.entryName key
    have hshown := hgood.isShown (by simp) key
    simp only [stateEntries, hstack, stackEntries, stackPath_cons, reports, hshown,
      flattenLuaValue, flattenEntries_set hkey hfresh, hname]
    split <;> simp

/-- What one row adds. -/
theorem stateEntries_step {row : Row} (h : σ.step row = some τ) (hrow : Keyed row)
    (hpath : GoodPath (stackPath σ.stack)) :
    stateEntries F τ = stateEntries F σ ++
        (rowAssigned (stackPath σ.stack) row).flatMap (reports F) ∧
      GoodPath (stackPath τ.stack) := by
  have hbegins : ∀ {key bracketed}, σ.mayBegin bracketed →
      key ≠ [] ∧ (bracketed = false → '.' ∉ key) → GoodPath (stackPath σ.stack ++ [key]) := by
    intro key bracketed hbegin hkey
    refine hpath.append hkey.1 fun hnil => hkey.2 ?_
    have hstack : σ.stack = [] := by simpa [stackPath] using hnil
    simpa [RowState.mayBegin, hstack] using hbegin
  cases row with
  | quiet =>
    obtain rfl := Option.some.inj h
    exact ⟨by simp [rowAssigned], hpath⟩
  | assign key bracketed v comma =>
    simp only [RowState.step] at h
    split at h
    · next hbegin =>
      have hentries := stateEntries_put (F := F) h (hbegins hbegin hrow)
      exact ⟨by simp [hentries, rowAssigned], stackPath_put h ▸ hpath⟩
    · cases h
  | opens key bracketed =>
    simp only [RowState.step] at h
    split at h
    · next hbegin =>
      obtain rfl := Option.some.inj h
      refine ⟨?_, by simpa using hbegins hbegin hrow⟩
      simp [stateEntries, stackEntries, rowAssigned, reports, flattenLuaValue, flattenEntries]
    · cases h
  | closes comma =>
    obtain ⟨globals, stack, ready⟩ := σ
    cases stack with
    | nil => cases h
    | cons entry rest =>
      obtain ⟨p, es⟩ := entry
      rw [stackPath_cons] at hpath
      refine ⟨?_, stackPath_put h ▸ hpath.dropLast⟩
      rw [stateEntries_put (F := F) h hpath]
      simp [stateEntries, stackEntries, rowAssigned]

/-- What a row of rows adds. -/
theorem stateEntries_run {rows : List Row} (h : σ.run rows = some τ) (hrows : ∀ row ∈ rows, Keyed row)
    (hpath : GoodPath (stackPath σ.stack)) :
    stateEntries F τ =
      stateEntries F σ ++ (assigned (stackPath σ.stack) rows).flatMap (reports F) := by
  induction rows generalizing σ with
  | nil =>
    obtain rfl := Option.some.inj h
    simp [assigned]
  | cons row rows ih =>
    obtain ⟨σ₁, hstep, hrun⟩ := Option.bind_eq_some_iff.mp h
    obtain ⟨hentries, hpath₁⟩ := stateEntries_step (F := F) hstep (hrows row (by simp)) hpath
    have hrest := ih hrun (fun r hr => hrows r (by simp [hr])) hpath₁
    rw [hrest, hentries, stackPath_step hstep, assigned, List.flatMap_append, List.append_assoc]

/-- **What is reported is what the rows report.** -/
theorem configEntries_rows {rows : List Row} (h : RowState.start.run rows = some τ)
    (hstack : τ.stack = []) (hrows : ∀ row ∈ rows, Keyed row) :
    configEntries F τ.globals = (assigned [] rows).flatMap (reports F) := by
  have hstart : GoodPath (stackPath RowState.start.stack) := ⟨by simp [stackPath, RowState.start],
    by simp [stackPath, RowState.start]⟩
  have hrun := stateEntries_run (F := F) h hrows hstart
  have hleft : stateEntries F τ = configEntries F τ.globals := by
    simp [stateEntries, hstack, stackEntries]
  have hright : stateEntries F RowState.start = [] := by
    simp [stateEntries, RowState.start, stackEntries, configEntries, globalsTable]
  rw [← hleft, hrun, hright]
  rfl

end

end DcsDashboard.Foothold
