/-
# Left-panel preferences

`navPrefs.ts`: which pages of the registry are shown, and in which order.  Preferences come from
the browser's storage (`loadNavPrefs`) and go through the operations of the panel (`NavOp`);
`resolveNav` merges them with the registry.  It never loses a page and never hides a pinned one
(`resolveNav_perm`, `pinned_visible`), whatever the preferences are.

The JSON reader of the browser is a parameter.
-/
import DcsDashboard.Preferences.Order

namespace DcsDashboard.Preferences.Nav

open Lib

/-! ## 1. Preferences -/

/-- A page of the registry; where it leads to and how it is drawn is left out. -/
structure NavPage where
  id : String
  pinned : Bool
  deriving DecidableEq

/-- `NavPrefs`, version 1. -/
structure NavPrefs where
  order : List String
  hidden : List String
  deriving DecidableEq

/-- `ResolvedNav`. -/
structure ResolvedNav where
  visible : List NavPage
  hidden : List NavPage

/-- `defaultNavPrefs`. -/
def defaultNavPrefs : NavPrefs := { order := [], hidden := [] }

section

variable (parse : String → Option Json)

/-- `parseNavPrefs`. -/
def parseNavPrefs (raw : Option String) : Option NavPrefs :=
  (storedRecord parse raw).map fun record =>
    { order := storedIds (record.get "order"), hidden := storedIds (record.get "hidden") }

/-- `loadNavPrefs`. -/
def loadNavPrefs : Storage → NavPrefs
  | .unavailable => defaultNavPrefs
  | .item raw => (parseNavPrefs parse raw).getD defaultNavPrefs

end

/-! ## 2. Resolving -/

/-- `new Map(pages.map(page => [page.id, page]))`; of two pages with one id the later one. -/
def byId (pages : List NavPage) (id : String) : Option NavPage :=
  pages.reverse.find? fun page => page.id = id

/-- The loop of `resolveNav` over the registry, for one page. -/
def placePage (placed : List String × List NavPage) (page : NavPage) :
    List String × List NavPage :=
  if page.id ∈ placed.1 then placed else (placed.1 ++ [page.id], placed.2 ++ [page])

/-- The pages in display order, visible and hidden. -/
def ordered (prefs : NavPrefs) (pages : List NavPage) : List NavPage :=
  (pages.foldl placePage (prefs.order.foldl (place (byId pages)) ([], []))).2

/-- `hiddenIds`: pinned pages are not hidden. -/
def hiddenIds (prefs : NavPrefs) (pages : List NavPage) : List String :=
  prefs.hidden.filter fun id => (byId pages id).any fun page => !page.pinned

/-- `resolveNav`. -/
def resolveNav (prefs : NavPrefs) (pages : List NavPage) : ResolvedNav :=
  { visible := (ordered prefs pages).filter fun page => page.id ∉ hiddenIds prefs pages
    hidden := (ordered prefs pages).filter fun page => page.id ∈ hiddenIds prefs pages }

/-- `fullOrder`. -/
def fullOrder (prefs : NavPrefs) (pages : List NavPage) : List String :=
  mergeOrder (pages.map NavPage.id) prefs.order

/-! ## 3. Operations -/

/-- `moveVisible`, `direction` being `-1` or `1`. -/
def moveVisible (prefs : NavPrefs) (id : String) (direction : Int) (pages : List NavPage) :
    NavPrefs :=
  let order := fullOrder prefs pages
  let visible := (resolveNav prefs pages).visible.map NavPage.id
  let visibleIndex := indexOf visible id
  if visibleIndex < 0 then prefs
  else
    let targetVisible := visibleIndex + direction
    if targetVisible < 0 ∨ targetVisible ≥ visible.length then prefs
    else
      match at? visible targetVisible with
      | none => prefs
      | some targetId =>
        let next := spliceOut order (indexOf order id)
        { prefs with order := spliceIn next (indexOf order targetId) id }

/-- `moveUp`. -/
def moveUp (prefs : NavPrefs) (id : String) (pages : List NavPage) : NavPrefs :=
  moveVisible prefs id (-1) pages

/-- `moveDown`. -/
def moveDown (prefs : NavPrefs) (id : String) (pages : List NavPage) : NavPrefs :=
  moveVisible prefs id 1 pages

/-- `moveVisibleIndex`. -/
def moveVisibleIndex (prefs : NavPrefs) (source target : Int) (pages : List NavPage) : NavPrefs :=
  let visible := (resolveNav prefs pages).visible.map NavPage.id
  if source = target ∨ source < 0 ∨ target < 0 ∨ source ≥ visible.length ∨
      target ≥ visible.length then prefs
  else
    match at? visible source, at? visible target with
    | some id, some targetId =>
      let next := (fullOrder prefs pages).filter fun item => item ≠ id
      let targetIndex := indexOf next targetId
      { prefs with
        order := spliceIn next (if source < target then targetIndex + 1 else targetIndex) id }
    | _, _ => prefs

/-- `hidePage`. -/
def hidePage (prefs : NavPrefs) (id : String) (pages : List NavPage) : NavPrefs :=
  match pages.find? fun item => item.id = id with
  | none => prefs
  | some page =>
    if page.pinned ∨ id ∈ prefs.hidden then prefs
    else { order := fullOrder prefs pages, hidden := prefs.hidden ++ [id] }

/-- `showPage`. -/
def showPage (prefs : NavPrefs) (id : String) : NavPrefs :=
  if id ∈ prefs.hidden then { prefs with hidden := prefs.hidden.filter fun item => item ≠ id }
  else prefs

/-- `insertionSlotFor`, of the tops and bottoms of the items. -/
def insertionSlotFor (pointerY : ℚ) (rects : List (ℚ × ℚ)) : Nat :=
  insertionSlot pointerY rects 0

/-- `slotToIndex`. -/
def slotToIndex (source slot : Int) : Int := indexOfSlot source slot

/-- `finishDrag`, when the drag is not called off. -/
def finishDrag (prefs : NavPrefs) (source slot : Int) (pages : List NavPage) : NavPrefs :=
  let target := slotToIndex source slot
  if target ≠ source then moveVisibleIndex prefs source target pages else prefs

/-- What the panel does to the preferences. -/
inductive NavOp
  | moveUp (id : String)
  | moveDown (id : String)
  | moveVisibleIndex (source target : Int)
  | hidePage (id : String)
  | showPage (id : String)

/-- The preferences after an operation. -/
def NavOp.apply (pages : List NavPage) (prefs : NavPrefs) : NavOp → NavPrefs
  | .moveUp id => Nav.moveUp prefs id pages
  | .moveDown id => Nav.moveDown prefs id pages
  | .moveVisibleIndex source target => Nav.moveVisibleIndex prefs source target pages
  | .hidePage id => Nav.hidePage prefs id pages
  | .showPage id => Nav.showPage prefs id

/-! ## 4. No page is lost -/

section

variable {pages : List NavPage}

theorem byId_of_mem (hdistinct : (pages.map NavPage.id).Nodup) {page : NavPage}
    (hpage : page ∈ pages) : byId pages page.id = some page := by
  cases hfind : byId pages page.id with
  | none =>
    have hnone := List.find?_eq_none.mp hfind page (List.mem_reverse.mpr hpage)
    simp at hnone
  | some other =>
    have hid : other.id = page.id := by simpa using List.find?_some hfind
    have hother : other ∈ pages := List.mem_reverse.mp (List.mem_of_find?_eq_some hfind)
    exact congrArg some (List.inj_on_of_nodup_map hdistinct hother hpage hid)

theorem isSome_byId (hdistinct : (pages.map NavPage.id).Nodup) (id : String) :
    (byId pages id).isSome ↔ id ∈ pages.map NavPage.id := by
  constructor
  · intro h
    obtain ⟨page, hpage⟩ := Option.isSome_iff_exists.mp h
    have hid : page.id = id := by simpa using List.find?_some hpage
    exact hid ▸ List.mem_map_of_mem (List.mem_reverse.mp (List.mem_of_find?_eq_some hpage))
  · intro h
    obtain ⟨page, hpage, rfl⟩ := List.mem_map.mp h
    rw [byId_of_mem hdistinct hpage]
    rfl

theorem foldl_placePage (hdistinct : (pages.map NavPage.id).Nodup) {some' : List NavPage}
    (hsome : ∀ page ∈ some', page ∈ pages) (placed : List String × List NavPage) :
    some'.foldl placePage placed = (some'.map NavPage.id).foldl (place (byId pages)) placed := by
  induction some' generalizing placed with
  | nil => rfl
  | cons page rest ih =>
    have hstep : placePage placed page = place (byId pages) placed page.id := by
      simp [placePage, place, byId_of_mem hdistinct (hsome page (by simp))]
    rw [List.foldl_cons, List.map_cons, List.foldl_cons, hstep,
      ih fun p hp => hsome p (by simp [hp])]

theorem ordered_perm (hdistinct : (pages.map NavPage.id).Nodup) (prefs : NavPrefs) :
    (ordered prefs pages).Perm pages := by
  have hmerge : ordered prefs pages = merge (byId pages) prefs.order (pages.map NavPage.id) := by
    rw [ordered, foldl_placePage hdistinct (fun _ hp => hp)]
    rfl
  have hself : (pages.map NavPage.id).filterMap (byId pages) = pages := by
    rw [List.filterMap_map]
    refine (List.filterMap_congr fun page hpage => ?_).trans List.filterMap_some
    exact byId_of_mem hdistinct hpage
  have h := @merge_perm _ (byId pages) prefs.order _ hdistinct (isSome_byId hdistinct)
  rw [hself] at h
  rw [hmerge]
  exact h

/-- **No page is lost.**  Visible and hidden pages together are the registry. -/
theorem resolveNav_perm (hdistinct : (pages.map NavPage.id).Nodup) (prefs : NavPrefs) :
    ((resolveNav prefs pages).visible ++ (resolveNav prefs pages).hidden).Perm pages := by
  refine List.Perm.trans ?_ (ordered_perm hdistinct prefs)
  have h := List.filter_append_perm (fun page => decide (page.id ∉ hiddenIds prefs pages))
    (ordered prefs pages)
  simpa [resolveNav] using h

/-- **A pinned page is visible.** -/
theorem pinned_visible (hdistinct : (pages.map NavPage.id).Nodup) (prefs : NavPrefs)
    {page : NavPage} (hpage : page ∈ pages) (hpinned : page.pinned = true) :
    page ∈ (resolveNav prefs pages).visible := by
  refine List.mem_filter.mpr ⟨(ordered_perm hdistinct prefs).mem_iff.mpr hpage, ?_⟩
  simp [hiddenIds, byId_of_mem hdistinct hpage, hpinned]

end

end DcsDashboard.Preferences.Nav
