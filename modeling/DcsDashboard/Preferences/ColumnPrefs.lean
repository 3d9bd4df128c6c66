/-
# Column preferences of the LSO tables

`columnPrefs.ts`: which columns a table shows, in which order, and how it is sorted.  As for the
left panel, `resolveColumns` merges what is stored with what the table declares; a state that
hides every column shows them all.
-/
import DcsDashboard.Preferences.NavPrefs

namespace DcsDashboard.Preferences.Columns

open Lib

/-! ## 1. Preferences -/

inductive SortDir
  | asc
  | desc
  deriving DecidableEq

structure SortSpec where
  id : String
  dir : SortDir
  deriving DecidableEq

/-- `ColumnPrefs`, version 1. -/
structure ColumnPrefs where
  order : List String
  hidden : List String
  sort : Option SortSpec
  deriving DecidableEq

/-- `TableSpec`, but for its storage key. -/
structure TableSpec where
  columns : List String
  defaultHidden : List String

/-- `ResolvedColumns`. -/
structure ResolvedColumns where
  visible : List String
  hidden : List String
  deriving DecidableEq

/-- `defaultColumnPrefs`. -/
def defaultColumnPrefs (spec : TableSpec) : ColumnPrefs :=
  { order := spec.columns, hidden := spec.defaultHidden, sort := none }

/-- The stored sort, when it is well formed. -/
def storedSort (rawSort : Option Json) : Option SortSpec :=
  rawSort.bind fun sort =>
    match sort.get "id", sort.get "dir" with
    | some (.str id), some (.str "asc") => some { id, dir := .asc }
    | some (.str id), some (.str "desc") => some { id, dir := .desc }
    | _, _ => none

section

variable (parse : String → Option Json)

/-- `parseColumnPrefs`. -/
def parseColumnPrefs (raw : Option String) : Option ColumnPrefs :=
  (storedRecord parse raw).map fun record =>
    { order := storedIds (record.get "order")
      hidden := storedIds (record.get "hidden")
      sort := storedSort (record.get "sort") }

/-- `loadColumnPrefs`. -/
def loadColumnPrefs (spec : TableSpec) : Storage → ColumnPrefs
  | .unavailable => defaultColumnPrefs spec
  | .item raw => (parseColumnPrefs parse raw).getD (defaultColumnPrefs spec)

end

/-! ## 2. Resolving -/

/-- `fullOrder`. -/
def fullOrder (prefs : ColumnPrefs) (spec : TableSpec) : List String :=
  mergeOrder spec.columns prefs.order

/-- `resolveColumns`. -/
def resolveColumns (prefs : ColumnPrefs) (spec : TableSpec) : ResolvedColumns :=
  let order := fullOrder prefs spec
  let visible := order.filter fun id => id ∉ prefs.hidden
  if visible.length = 0 then { visible := order, hidden := [] }
  else { visible, hidden := order.filter fun id => id ∈ prefs.hidden }

/-! ## 3. Operations -/

/-- `moveVisibleIndex`. -/
def moveVisibleIndex (prefs : ColumnPrefs) (source target : Int) (spec : TableSpec) :
    ColumnPrefs :=
  let visible := (resolveColumns prefs spec).visible
  if source = target ∨ source < 0 ∨ target < 0 ∨ source ≥ visible.length ∨
      target ≥ visible.length then prefs
  else
    match at? visible source, at? visible target with
    | some id, some targetId =>
      let next := (fullOrder prefs spec).filter fun item => item ≠ id
      let targetIndex := indexOf next targetId
      { prefs with
        order := spliceIn next (if source < target then targetIndex + 1 else targetIndex) id }
    | _, _ => prefs

/-- `moveVisible`, `direction` being `-1` or `1`. -/
def moveVisible (prefs : ColumnPrefs) (id : String) (direction : Int) (spec : TableSpec) :
    ColumnPrefs :=
  let source := indexOf (resolveColumns prefs spec).visible id
  if source < 0 then prefs else moveVisibleIndex prefs source (source + direction) spec

/-- `moveInOrder`, `direction` being `-1` or `1`. -/
def moveInOrder (prefs : ColumnPrefs) (id : String) (direction : Int) (spec : TableSpec) :
    ColumnPrefs :=
  let order := fullOrder prefs spec
  let source := indexOf order id
  let target := source + direction
  if source < 0 ∨ target < 0 ∨ target ≥ order.length then prefs
  else
    match at? order source, at? order target with
    | some moved, some other =>
      { prefs with order := (order.set source.toNat other).set target.toNat moved }
    | _, _ => prefs

/-- `hideColumn`. -/
def hideColumn (prefs : ColumnPrefs) (id : String) (spec : TableSpec) : ColumnPrefs :=
  let visible := (resolveColumns prefs spec).visible
  if id ∉ visible ∨ visible.length ≤ 1 then prefs
  else
    { order := fullOrder prefs spec
      hidden := (prefs.hidden.filter fun item => item ≠ id) ++ [id]
      sort := if prefs.sort.map SortSpec.id = some id then none else prefs.sort }

/-- `showColumn`. -/
def showColumn (prefs : ColumnPrefs) (id : String) : ColumnPrefs :=
  if id ∈ prefs.hidden then { prefs with hidden := prefs.hidden.filter fun item => item ≠ id }
  else prefs

/-- `setSort`. -/
def setSort (prefs : ColumnPrefs) (sort : Option SortSpec) : ColumnPrefs :=
  if prefs.sort = sort then prefs else { prefs with sort }

/-- `cycleSort`. -/
def cycleSort (prefs : ColumnPrefs) (id : String) : ColumnPrefs :=
  match prefs.sort with
  | none => setSort prefs (some { id, dir := .asc })
  | some sort =>
    if sort.id ≠ id then setSort prefs (some { id, dir := .asc })
    else if sort.dir = .asc then setSort prefs (some { id, dir := .desc })
    else setSort prefs none

/-- `insertionSlotForX`, of the left and right ends of the headers. -/
def insertionSlotForX (pointerX : ℚ) (rects : List (ℚ × ℚ)) : Nat :=
  insertionSlot pointerX rects 0

/-- `slotToIndex`. -/
def slotToIndex (source slot : Int) : Int := indexOfSlot source slot

/-- `finishDrag` of a header, when the drag is not called off. -/
def finishDrag (prefs : ColumnPrefs) (source slot : Int) (spec : TableSpec) : ColumnPrefs :=
  let target := slotToIndex source slot
  if target ≠ source then moveVisibleIndex prefs source target spec else prefs

/-- What a table does to its preferences. -/
inductive ColumnOp
  | moveVisible (id : String) (right : Bool)
  | moveVisibleIndex (source target : Int)
  | moveInOrder (id : String) (right : Bool)
  | hideColumn (id : String)
  | showColumn (id : String)
  | setSort (sort : Option SortSpec)
  | cycleSort (id : String)

/-- The preferences after an operation. -/
def ColumnOp.apply (spec : TableSpec) (prefs : ColumnPrefs) : ColumnOp → ColumnPrefs
  | .moveVisible id right => Columns.moveVisible prefs id (if right then 1 else -1) spec
  | .moveVisibleIndex source target => Columns.moveVisibleIndex prefs source target spec
  | .moveInOrder id right => Columns.moveInOrder prefs id (if right then 1 else -1) spec
  | .hideColumn id => Columns.hideColumn prefs id spec
  | .showColumn id => Columns.showColumn prefs id
  | .setSort sort => Columns.setSort prefs sort
  | .cycleSort id => Columns.cycleSort prefs id

/-! ## 4. No column is lost -/

/-- **No column is lost.**  Visible and hidden columns together are those of the table. -/
theorem resolveColumns_perm {spec : TableSpec} (hdistinct : spec.columns.Nodup)
    (prefs : ColumnPrefs) :
    ((resolveColumns prefs spec).visible ++ (resolveColumns prefs spec).hidden).Perm
      spec.columns := by
  have horder : (fullOrder prefs spec).Perm spec.columns := mergeOrder_perm hdistinct _
  refine List.Perm.trans ?_ horder
  simp only [resolveColumns]
  split
  · rw [List.append_nil]
  · have h := List.filter_append_perm (fun id => decide (id ∉ prefs.hidden))
      (fullOrder prefs spec)
    simpa using h

/-- **A table is never empty.** -/
theorem visible_ne_nil {spec : TableSpec} (hdistinct : spec.columns.Nodup)
    (hcolumns : spec.columns ≠ []) (prefs : ColumnPrefs) :
    (resolveColumns prefs spec).visible ≠ [] := by
  have horder : (fullOrder prefs spec).Perm spec.columns := mergeOrder_perm hdistinct _
  simp only [resolveColumns]
  split
  · intro hnil
    have hempty : fullOrder prefs spec = [] := hnil
    rw [hempty] at horder
    exact hcolumns horder.symm.eq_nil
  · rename_i hlen
    intro hnil
    exact hlen (List.length_eq_zero_iff.mpr hnil)

/-- **No page and no column is ever lost,** whatever is stored and whatever is done to it. -/
theorem nothing_lost (parse : String → Option Json) :
    (∀ (pages : List Nav.NavPage) (storage : Storage) (ops : List Nav.NavOp),
      (pages.map Nav.NavPage.id).Nodup → (∃ page ∈ pages, page.pinned = true) →
      let prefs := ops.foldl (Nav.NavOp.apply pages) (Nav.loadNavPrefs parse storage)
      let resolved := Nav.resolveNav prefs pages
      (resolved.visible ++ resolved.hidden).Perm pages ∧
        (∀ page ∈ pages, page.pinned = true → page ∈ resolved.visible) ∧
        resolved.visible ≠ []) ∧
    ∀ (spec : TableSpec) (storage : Storage) (ops : List ColumnOp),
      spec.columns.Nodup → spec.columns ≠ [] →
      let prefs := ops.foldl (ColumnOp.apply spec) (loadColumnPrefs parse spec storage)
      let resolved := resolveColumns prefs spec
      (resolved.visible ++ resolved.hidden).Perm spec.columns ∧ resolved.visible ≠ [] := by
  constructor
  · intro pages storage ops hdistinct ⟨page, hpage, hpinned⟩
    refine ⟨Nav.resolveNav_perm hdistinct _, fun p hp => Nav.pinned_visible hdistinct _ hp, ?_⟩
    exact List.ne_nil_of_mem (Nav.pinned_visible hdistinct _ hpage hpinned)
  · intro spec storage ops hdistinct hcolumns
    exact ⟨resolveColumns_perm hdistinct _, visible_ne_nil hdistinct hcolumns _⟩

/-- A stored text of an earlier release: an id that is gone, one twice, and a pinned page
hidden. -/
def staleText : String :=
  "\x7b\"version\":1,\"order\":[\"gone\",\"mission\",\"mission\"],\"hidden\":[\"status\"]\x7d"

/-- What the JSON reader makes of it. -/
def readStale (text : String) : Option Json :=
  if text = staleText then
    some (.obj [("version", .num 1), ("order", .arr [.str "gone", .str "mission", .str "mission"]),
      ("hidden", .arr [.str "status"])])
  else none

/-- Two pages, of which one is pinned, and a table of two columns. -/
theorem nothing_lost_stale :
    (let pages : List Nav.NavPage := [⟨"status", true⟩, ⟨"mission", false⟩]
      let prefs := [Nav.NavOp.moveUp "status", .hidePage "mission"].foldl (Nav.NavOp.apply pages)
        (Nav.loadNavPrefs readStale (.item (some staleText)))
      let resolved := Nav.resolveNav prefs pages
      (resolved.visible ++ resolved.hidden).Perm pages ∧
        (∀ page ∈ pages, page.pinned = true → page ∈ resolved.visible) ∧
        resolved.visible ≠ []) ∧
    (let spec : TableSpec := { columns := ["status", "grade"], defaultHidden := [] }
      let prefs := [ColumnOp.hideColumn "grade"].foldl (ColumnOp.apply spec)
        (loadColumnPrefs readStale spec (.item (some staleText)))
      let resolved := resolveColumns prefs spec
      (resolved.visible ++ resolved.hidden).Perm spec.columns ∧ resolved.visible ≠ []) :=
  ⟨(nothing_lost readStale).1 _ _ _ (by decide) ⟨⟨"status", true⟩, by simp⟩,
    (nothing_lost readStale).2 _ _ _ (by decide) (by simp)⟩

end DcsDashboard.Preferences.Columns
