/-
# Reloading preferences

Every change of the preferences is written to the browser's storage as JSON and read back from it.
The reader is not the inverse of the writer: it drops a repeated id.  But none is ever repeated in
what the operations make of the defaults or of whatever has been read (`Nav.Reachable.distinct`,
`Columns.Reachable.distinct`), so a reload changes nothing (`reload_unchanged`).

`JSON.stringify` and `JSON.parse` are parameters.
-/
import DcsDashboard.Preferences.Reordering

namespace DcsDashboard.Preferences

open Lib

/-! ## 1. Writing and reading -/

/-- The JSON value of a list of ids. -/
def idsJson (ids : List String) : Json := .arr (ids.map .str)

/-- A list of ids without repetitions is read back. -/
theorem storedIds_idsJson {ids : List String} (h : ids.Nodup) :
    storedIds (some (idsJson ids)) = ids := by
  have hread : (ids.map Json.str).filterMap Json.asStr = ids := by
    rw [List.filterMap_map]
    exact List.filterMap_some
  rw [idsJson, storedIds, hread, eraseDups_of_nodup h]

theorem nodup_storedIds (value : Option Json) : (storedIds value).Nodup := by
  unfold storedIds
  split
  · exact nodup_eraseDups _
  · exact List.nodup_nil

/-- `setItem` in a `try`; what the storage keeps of the text is up to it. -/
def Storage.setItem (accepted : Bool) (text : String) : Storage → Storage
  | .unavailable => .unavailable
  | .item raw => .item (if accepted then some text else raw)

section

variable (stringify : Json → String) (parse : String → Option Json)

/-- `JSON.parse` reads what `JSON.stringify` writes of a value, and does not read the empty text. -/
structure ReadsBack (value : Json) : Prop where
  parse_stringify : parse (stringify value) = some value
  parse_empty : parse "" = none

variable {stringify parse}

/-- What is stored is the record itself. -/
theorem ReadsBack.storedRecord {value : Json} (h : ReadsBack stringify parse value)
    (hversion : value.get "version" = some (.num 1)) :
    storedRecord parse (some (stringify value)) = some value := by
  have hne : stringify value ≠ "" := by
    intro hempty
    have hparse := h.parse_stringify
    rw [hempty, h.parse_empty] at hparse
    cases hparse
  unfold Preferences.storedRecord
  split
  · contradiction
  · rename_i heq
    exact absurd (Option.some.inj heq) hne
  · rename_i text _ heq
    obtain rfl := Option.some.inj heq
    simp [h.parse_stringify, hversion]

end

/-! ## 2. Lists without repetitions -/

theorem nodup_spliceIn {α : Type*} {l : List α} {x : α} (hl : l.Nodup) (hx : x ∉ l) (start : Int) :
    (spliceIn l start x).Nodup := by
  rw [spliceIn, List.nodup_middle, List.take_append_drop, List.nodup_cons]
  exact ⟨hx, hl⟩

/-- A move in the full order. -/
theorem nodup_movedOrder {order : List String} (h : order.Nodup) (id targetId : String)
    (source target : Int) : (movedOrder order id targetId source target).Nodup :=
  nodup_spliceIn (h.filter _) (by simp) _

/-- Hiding an id that is not hidden. -/
theorem nodup_concat {ids : List String} {id : String} (h : ids.Nodup) (hid : id ∉ ids) :
    (ids ++ [id]).Nodup := by
  refine List.nodup_append.mpr ⟨h, List.nodup_singleton id, ?_⟩
  intro a ha b hb heq
  rw [List.mem_singleton.mp hb] at heq
  exact hid (heq ▸ ha)

/-! ## 3. The left panel -/

namespace Nav

/-- What `JSON.stringify` is given. -/
def NavPrefs.toJson (prefs : NavPrefs) : Json :=
  .obj [("version", .num 1), ("order", idsJson prefs.order), ("hidden", idsJson prefs.hidden)]

/-- `saveNavPrefs`. -/
def saveNavPrefs (stringify : Json → String) (accepted : Bool) (storage : Storage)
    (prefs : NavPrefs) : Storage :=
  storage.setItem accepted (stringify prefs.toJson)

/-- The preferences that can arise: the defaults, whatever a stored text is read as, and what the
operations make of them, in any release. -/
inductive Reachable (parse : String → Option Json) : NavPrefs → Prop
  | defaults : Reachable parse defaultNavPrefs
  | stored {raw : Option String} {prefs : NavPrefs} : parseNavPrefs parse raw = some prefs →
      Reachable parse prefs
  | step {prefs : NavPrefs} {pages : List NavPage} (op : NavOp) : (pages.map NavPage.id).Nodup →
      Reachable parse prefs → Reachable parse (op.apply pages prefs)

/-- No id occurs twice. -/
structure Distinct (prefs : NavPrefs) : Prop where
  order : prefs.order.Nodup
  hidden : prefs.hidden.Nodup

section

variable {parse : String → Option Json} {prefs : NavPrefs} {pages : List NavPage}

theorem distinct_parse {raw : Option String} (h : parseNavPrefs parse raw = some prefs) :
    Distinct prefs := by
  obtain ⟨record, -, rfl⟩ := Option.map_eq_some_iff.mp h
  exact ⟨nodup_storedIds _, nodup_storedIds _⟩

theorem Distinct.moveVisibleIndex (h : Distinct prefs) (source target : Int) :
    Distinct (moveVisibleIndex prefs source target pages) := by
  simp only [Nav.moveVisibleIndex]
  split
  · exact h
  · split
    · exact ⟨nodup_movedOrder fullOrder_nodup _ _ _ _, h.hidden⟩
    · exact h

theorem Distinct.moveVisible (hdistinct : (pages.map NavPage.id).Nodup) (h : Distinct prefs)
    (id : String) {direction : Int} (hdirection : direction = -1 ∨ direction = 1) :
    Distinct (moveVisible prefs id direction pages) := by
  by_cases hid : id ∈ (resolveNav prefs pages).visible.map NavPage.id
  · obtain ⟨page, hpage, rfl⟩ := List.mem_map.mp hid
    obtain ⟨i, hi⟩ := List.getElem?_of_mem hpage
    rw [moveVisible_eq_moveVisibleIndex hdistinct hi hdirection]
    exact h.moveVisibleIndex _ _
  · have hsame : Nav.moveVisible prefs id direction pages = prefs := by
      simp only [Nav.moveVisible, indexOf, if_neg hid]
      exact if_pos (by decide)
    rwa [hsame]

theorem Distinct.hidePage (h : Distinct prefs) (id : String) :
    Distinct (hidePage prefs id pages) := by
  unfold Nav.hidePage
  split
  · exact h
  · split
    · exact h
    · rename_i hshown
      exact ⟨fullOrder_nodup, nodup_concat h.hidden fun hid => hshown (.inr hid)⟩

theorem Distinct.showPage (h : Distinct prefs) (id : String) : Distinct (showPage prefs id) := by
  unfold Nav.showPage
  split
  · exact ⟨h.order, h.hidden.filter _⟩
  · exact h

/-- **No operation repeats an id.** -/
theorem Distinct.apply (hdistinct : (pages.map NavPage.id).Nodup) (h : Distinct prefs)
    (op : NavOp) : Distinct (op.apply pages prefs) := by
  cases op with
  | moveUp id => exact h.moveVisible hdistinct id (.inl rfl)
  | moveDown id => exact h.moveVisible hdistinct id (.inr rfl)
  | moveVisibleIndex source target => exact h.moveVisibleIndex source target
  | hidePage id => exact h.hidePage id
  | showPage id => exact h.showPage id

theorem Reachable.distinct (h : Reachable parse prefs) : Distinct prefs := by
  induction h with
  | defaults => exact ⟨List.nodup_nil, List.nodup_nil⟩
  | stored hparse => exact distinct_parse hparse
  | step op hdistinct _ ih => exact ih.apply hdistinct op

/-- Preferences without repeated ids are read back. -/
theorem Distinct.parse_toJson {stringify : Json → String} (h : Distinct prefs)
    (hjson : ReadsBack stringify parse prefs.toJson) :
    parseNavPrefs parse (some (stringify prefs.toJson)) = some prefs := by
  have horder : prefs.toJson.get "order" = some (idsJson prefs.order) := rfl
  have hhidden : prefs.toJson.get "hidden" = some (idsJson prefs.hidden) := rfl
  rw [parseNavPrefs, hjson.storedRecord rfl, Option.map_some, horder, hhidden,
    storedIds_idsJson h.order, storedIds_idsJson h.hidden]

end

end Nav

/-! ## 4. The tables -/

namespace Columns

/-- `'asc'` or `'desc'`. -/
def SortDir.text : SortDir → String
  | .asc => "asc"
  | .desc => "desc"

/-- `SortSpec | null`. -/
def sortJson : Option SortSpec → Json
  | none => .null
  | some sort => .obj [("id", .str sort.id), ("dir", .str sort.dir.text)]

/-- What `JSON.stringify` is given. -/
def ColumnPrefs.toJson (prefs : ColumnPrefs) : Json :=
  .obj [("version", .num 1), ("order", idsJson prefs.order), ("hidden", idsJson prefs.hidden),
    ("sort", sortJson prefs.sort)]

/-- `saveColumnPrefs`. -/
def saveColumnPrefs (stringify : Json → String) (accepted : Bool) (storage : Storage)
    (prefs : ColumnPrefs) : Storage :=
  storage.setItem accepted (stringify prefs.toJson)

/-- The preferences that can arise, as for the left panel. -/
inductive Reachable (parse : String → Option Json) : ColumnPrefs → Prop
  | defaults {spec : TableSpec} : spec.columns.Nodup → spec.defaultHidden.Nodup →
      Reachable parse (defaultColumnPrefs spec)
  | stored {raw : Option String} {prefs : ColumnPrefs} : parseColumnPrefs parse raw = some prefs →
      Reachable parse prefs
  | step {prefs : ColumnPrefs} {spec : TableSpec} (op : ColumnOp) : spec.columns.Nodup →
      Reachable parse prefs → Reachable parse (op.apply spec prefs)

/-- No id occurs twice. -/
structure Distinct (prefs : ColumnPrefs) : Prop where
  order : prefs.order.Nodup
  hidden : prefs.hidden.Nodup

section

variable {parse : String → Option Json} {prefs : ColumnPrefs} {spec : TableSpec}

theorem distinct_parse {raw : Option String} (h : parseColumnPrefs parse raw = some prefs) :
    Distinct prefs := by
  obtain ⟨record, -, rfl⟩ := Option.map_eq_some_iff.mp h
  exact ⟨nodup_storedIds _, nodup_storedIds _⟩

theorem Distinct.moveVisibleIndex (h : Distinct prefs) (source target : Int) :
    Distinct (moveVisibleIndex prefs source target spec) := by
  simp only [Columns.moveVisibleIndex]
  split
  · exact h
  · split
    · exact ⟨nodup_movedOrder fullOrder_nodup _ _ _ _, h.hidden⟩
    · exact h

theorem Distinct.moveVisible (h : Distinct prefs) (id : String) (direction : Int) :
    Distinct (moveVisible prefs id direction spec) := by
  simp only [Columns.moveVisible]
  split
  · exact h
  · exact h.moveVisibleIndex _ _

/-- Two items of a list change places. -/
theorem nodup_swap {order : List String} {i j : Nat} {moved other : String} (h : order.Nodup)
    (hi : order[i]? = some moved) (hj : order[j]? = some other) :
    ((order.set i other).set j moved).Nodup := by
  obtain ⟨hi', rfl⟩ := List.getElem?_eq_some_iff.mp hi
  obtain ⟨hj', rfl⟩ := List.getElem?_eq_some_iff.mp hj
  exact (List.set_set_perm hi' hj').nodup_iff.mpr h

theorem getElem?_of_at? {order : List String} {index : Int} {id : String}
    (h : at? order index = some id) : order[index.toNat]? = some id := by
  unfold at? at h
  split at h
  · cases h
  · exact h

theorem Distinct.moveInOrder (h : Distinct prefs) (id : String) (direction : Int) :
    Distinct (moveInOrder prefs id direction spec) := by
  simp only [Columns.moveInOrder]
  split
  · exact h
  · split
    · rename_i hmoved hother
      exact ⟨nodup_swap fullOrder_nodup (getElem?_of_at? hmoved) (getElem?_of_at? hother), h.hidden⟩
    · exact h

theorem Distinct.hideColumn (h : Distinct prefs) (id : String) :
    Distinct (hideColumn prefs id spec) := by
  simp only [Columns.hideColumn]
  split
  · exact h
  · exact ⟨fullOrder_nodup, nodup_concat (h.hidden.filter _) (by simp)⟩

theorem Distinct.showColumn (h : Distinct prefs) (id : String) : Distinct (showColumn prefs id) := by
  unfold Columns.showColumn
  split
  · exact ⟨h.order, h.hidden.filter _⟩
  · exact h

theorem Distinct.setSort (h : Distinct prefs) (sort : Option SortSpec) :
    Distinct (setSort prefs sort) := by
  unfold Columns.setSort
  split
  · exact h
  · exact ⟨h.order, h.hidden⟩

theorem Distinct.cycleSort (h : Distinct prefs) (id : String) : Distinct (cycleSort prefs id) := by
  unfold Columns.cycleSort
  split
  · exact h.setSort _
  · split
    · exact h.setSort _
    · split <;> exact h.setSort _

/-- **No operation repeats an id.** -/
theorem Distinct.apply (h : Distinct prefs) (op : ColumnOp) : Distinct (op.apply spec prefs) := by
  cases op with
  | moveVisible id right => exact h.moveVisible id _
  | moveVisibleIndex source target => exact h.moveVisibleIndex source target
  | moveInOrder id right => exact h.moveInOrder id _
  | hideColumn id => exact h.hideColumn id
  | showColumn id => exact h.showColumn id
  | setSort sort => exact h.setSort sort
  | cycleSort id => exact h.cycleSort id

theorem Reachable.distinct (h : Reachable parse prefs) : Distinct prefs := by
  induction h with
  | defaults hcolumns hhidden => exact ⟨hcolumns, hhidden⟩
  | stored hparse => exact distinct_parse hparse
  | step op _ _ ih => exact ih.apply op

theorem storedSort_sortJson (sort : Option SortSpec) : storedSort (some (sortJson sort)) = sort := by
  rcases sort with _ | ⟨id, _ | _⟩ <;> rfl

/-- Preferences without repeated ids are read back. -/
theorem Distinct.parse_toJson {stringify : Json → String} (h : Distinct prefs)
    (hjson : ReadsBack stringify parse prefs.toJson) :
    parseColumnPrefs parse (some (stringify prefs.toJson)) = some prefs := by
  have horder : prefs.toJson.get "order" = some (idsJson prefs.order) := rfl
  have hhidden : prefs.toJson.get "hidden" = some (idsJson prefs.hidden) := rfl
  have hsort : prefs.toJson.get "sort" = some (sortJson prefs.sort) := rfl
  rw [parseColumnPrefs, hjson.storedRecord rfl, Option.map_some, horder, hhidden, hsort,
    storedIds_idsJson h.order, storedIds_idsJson h.hidden, storedSort_sortJson]

end

end Columns

/-! ## 5. Reloading -/

/-- **A reload changes nothing.**  Whatever preferences have arisen, what is written of them is read
as the same preferences, and so shows the same. -/
theorem reload_unchanged (stringify : Json → String) (parse : String → Option Json) :
    (∀ prefs, Nav.Reachable parse prefs → ReadsBack stringify parse prefs.toJson →
      Nav.parseNavPrefs parse (some (stringify prefs.toJson)) = some prefs ∧
        ∀ raw, Nav.loadNavPrefs parse (Nav.saveNavPrefs stringify true (.item raw) prefs) = prefs) ∧
    ∀ prefs, Columns.Reachable parse prefs → ReadsBack stringify parse prefs.toJson →
      Columns.parseColumnPrefs parse (some (stringify prefs.toJson)) = some prefs ∧
        ∀ raw spec, Columns.loadColumnPrefs parse spec
          (Columns.saveColumnPrefs stringify true (.item raw) prefs) = prefs := by
  constructor
  · intro prefs hreachable hjson
    have hparse := hreachable.distinct.parse_toJson hjson
    refine ⟨hparse, ?_⟩
    intro raw
    simp [Nav.saveNavPrefs, Storage.setItem, Nav.loadNavPrefs, hparse]
  · intro prefs hreachable hjson
    have hparse := hreachable.distinct.parse_toJson hjson
    refine ⟨hparse, ?_⟩
    intro raw spec
    simp [Columns.saveColumnPrefs, Storage.setItem, Columns.loadColumnPrefs, hparse]

/-- The left panel with one page hidden. -/
def hiddenMission : Nav.NavPrefs :=
  (Nav.NavOp.hidePage "mission").apply [⟨"status", true⟩, ⟨"mission", false⟩] Nav.defaultNavPrefs

/-- A table of two columns, sorted by the second. -/
def sortedByGrade : Columns.ColumnPrefs :=
  (Columns.ColumnOp.cycleSort "grade").apply ⟨["time", "grade"], []⟩
    (Columns.defaultColumnPrefs ⟨["time", "grade"], []⟩)

/-- The texts of these preferences. -/
def hiddenMissionText : String :=
  "\x7b\"version\":1,\"order\":[\"status\",\"mission\"],\"hidden\":[\"mission\"]\x7d"

def sortedByGradeText : String :=
  "\x7b\"version\":1,\"order\":[\"time\",\"grade\"],\"hidden\":[]," ++
    "\"sort\":\x7b\"id\":\"grade\",\"dir\":\"asc\"\x7d\x7d"

/-- The JSON writer, where the only number is 1. -/
def writeText (value : Json) : String := String.ofList (value.text fun _ => ['1'])

/-- What the JSON reader makes of them. -/
def readText (text : String) : Option Json :=
  if text = hiddenMissionText then some hiddenMission.toJson
  else if text = sortedByGradeText then some sortedByGrade.toJson
  else none

theorem reload_unchanged_changed :
    Nav.parseNavPrefs readText (some hiddenMissionText) = some hiddenMission ∧
      Columns.parseColumnPrefs readText (some sortedByGradeText) = some sortedByGrade := by
  have hnavText : writeText hiddenMission.toJson = hiddenMissionText := by decide +kernel
  have hcolumnText : writeText sortedByGrade.toJson = sortedByGradeText := by decide +kernel
  have hne : sortedByGradeText ≠ hiddenMissionText := by decide
  have hnav : ReadsBack writeText readText hiddenMission.toJson :=
    ⟨by rw [hnavText]; exact if_pos rfl, by decide⟩
  have hcolumn : ReadsBack writeText readText sortedByGrade.toJson :=
    ⟨by rw [hcolumnText]; exact (if_neg hne).trans (if_pos rfl), by decide⟩
  have h := reload_unchanged writeText readText
  rw [← hnavText, ← hcolumnText]
  exact ⟨(h.1 hiddenMission (.step _ (by decide) .defaults) hnav).1,
    (h.2 sortedByGrade (.step _ (by decide) (.defaults (by decide) (by decide))) hcolumn).1⟩

end DcsDashboard.Preferences
