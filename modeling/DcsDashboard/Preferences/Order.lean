/-
# A stored order merged with what exists

The left panel and the LSO tables let the user reorder and hide things.  Both store ids, of any
release, and merge them with what the current release declares: first the stored ids that are
known, each once, then what has not been placed yet, in its default order.  The merge is a
permutation of what is declared whatever has been stored (`mergeOrder_perm`).
-/
import DcsDashboard.Lib.Grouping
import DcsDashboard.Lib.Json

namespace DcsDashboard.Preferences

open Lib

/-! ## 1. Arrays -/

section

variable {α : Type*} [DecidableEq α]

/-- `list.indexOf(item)`, `-1` when it is not there. -/
def indexOf (list : List α) (item : α) : Int :=
  if item ∈ list then (list.idxOf item : Int) else -1

omit [DecidableEq α] in
/-- Where `splice` starts: a negative start counts from the end, and none is past it. -/
def spliceStart (list : List α) (start : Int) : Nat :=
  if start < 0 then (list.length + start).toNat else min start.toNat list.length

omit [DecidableEq α] in
/-- `list.splice(start, 1)`. -/
def spliceOut (list : List α) (start : Int) : List α := list.eraseIdx (spliceStart list start)

omit [DecidableEq α] in
/-- `list.splice(start, 0, item)`. -/
def spliceIn (list : List α) (start : Int) (item : α) : List α :=
  list.take (spliceStart list start) ++ item :: list.drop (spliceStart list start)

omit [DecidableEq α] in
/-- `list[index]` of an index that has been checked. -/
def at? (list : List α) (index : Int) : Option α :=
  if index < 0 then none else list[index.toNat]?

end

/-! ## 2. The merge -/

section

variable {α : Type*}

/-- One round of a loop that places an id: a known id that has not been placed is pushed. -/
def place (known : String → Option α) (placed : List String × List α) (id : String) :
    List String × List α :=
  match known id with
  | none => placed
  | some item => if id ∈ placed.1 then placed else (placed.1 ++ [id], placed.2 ++ [item])

/-- Both loops: the stored ids, then everything that is declared. -/
def merge (known : String → Option α) (order declared : List String) : List α :=
  (declared.foldl (place known) (order.foldl (place known) ([], []))).2

/-- `fullOrder` of both preference files. -/
def mergeOrder (declared order : List String) : List String :=
  merge (fun id => if id ∈ declared then some id else none) order declared

/-- What the loops keep: the items pushed are those of the ids placed, each placed once. -/
structure Placed (known : String → Option α) (placed : List String × List α) : Prop where
  nodup : placed.1.Nodup
  items : placed.1.filterMap known = placed.2
  known : ∀ id ∈ placed.1, (known id).isSome

theorem Placed.place {known : String → Option α} {placed : List String × List α}
    (h : Placed known placed) (id : String) : Placed known (place known placed id) := by
  unfold Preferences.place
  cases hk : known id with
  | none => exact h
  | some item =>
    by_cases hid : id ∈ placed.1
    · simpa [hid] using h
    · simp only [hid, if_false]
      refine ⟨?_, ?_, ?_⟩
      · refine List.nodup_append.mpr ⟨h.nodup, List.nodup_singleton id, ?_⟩
        intro a ha b hb heq
        rw [List.mem_singleton.mp hb] at heq
        exact hid (heq ▸ ha)
      · simp [h.items, hk]
      · intro j hj
        rcases List.mem_append.mp hj with hj | hj
        · exact h.known j hj
        · rw [List.mem_singleton.mp hj, hk]
          rfl

theorem Placed.foldl {known : String → Option α} {placed : List String × List α}
    (h : Placed known placed) (ids : List String) :
    Placed known (ids.foldl (Preferences.place known) placed) := by
  induction ids generalizing placed with
  | nil => exact h
  | cons id ids ih => exact ih (h.place id)

theorem mem_place {known : String → Option α} {placed : List String × List α} {id j : String} :
    j ∈ (place known placed id).1 ↔ j ∈ placed.1 ∨ (j = id ∧ (known id).isSome) := by
  unfold place
  cases hk : known id with
  | none => simp
  | some item =>
    by_cases hid : id ∈ placed.1
    · simp only [hid, if_true, Option.isSome_some, and_true]
      constructor
      · exact .inl
      · rintro (h | rfl)
        · exact h
        · exact hid
    · simp [hid]

theorem mem_foldl_place {known : String → Option α} {placed : List String × List α}
    {ids : List String} {j : String} :
    j ∈ (ids.foldl (place known) placed).1 ↔ j ∈ placed.1 ∨ (j ∈ ids ∧ (known j).isSome) := by
  induction ids generalizing placed with
  | nil => simp
  | cons id ids ih =>
    rw [List.foldl_cons, ih, mem_place, List.mem_cons]
    constructor
    · rintro ((h | ⟨rfl, h⟩) | ⟨h, hk⟩)
      · exact .inl h
      · exact .inr ⟨.inl rfl, h⟩
      · exact .inr ⟨.inr h, hk⟩
    · rintro (h | ⟨rfl | h, hk⟩)
      · exact .inl (.inl h)
      · exact .inl (.inr ⟨rfl, hk⟩)
      · exact .inr ⟨h, hk⟩

/-- **The merge is a permutation** of what is declared, whatever is stored. -/
theorem merge_perm {known : String → Option α} {order declared : List String}
    (hdistinct : declared.Nodup) (hknown : ∀ id, (known id).isSome ↔ id ∈ declared) :
    (merge known order declared).Perm (declared.filterMap known) := by
  have hplaced : Placed known
      (declared.foldl (place known) (order.foldl (place known) ([], []))) :=
    Placed.foldl (Placed.foldl ⟨List.nodup_nil, rfl, by simp⟩ order) declared
  unfold merge
  rw [← hplaced.items]
  refine List.Perm.filterMap _ ?_
  refine (List.perm_ext_iff_of_nodup hplaced.nodup hdistinct).mpr ?_
  intro id
  rw [mem_foldl_place, mem_foldl_place, hknown]
  simp only [List.not_mem_nil, false_or]
  tauto

/-- The ids a preference file knows. -/
def knownId (declared : List String) (id : String) : Option String :=
  if id ∈ declared then some id else none

theorem knownId_isSome {declared : List String} {id : String} :
    (knownId declared id).isSome ↔ id ∈ declared := by
  simp [knownId]

/-- Both loops of a preference file. -/
theorem placed_knownId (declared order : List String) : Placed (knownId declared)
    (declared.foldl (place (knownId declared)) (order.foldl (place (knownId declared)) ([], []))) :=
  Placed.foldl (Placed.foldl ⟨List.nodup_nil, rfl, by simp⟩ order) declared

/-- The full order is the ids placed. -/
theorem mergeOrder_eq_placed (declared order : List String) :
    mergeOrder declared order = (declared.foldl (place (knownId declared))
      (order.foldl (place (knownId declared)) ([], []))).1 := by
  have hplaced := placed_knownId declared order
  refine hplaced.items.symm.trans ?_
  refine (List.filterMap_congr fun id hid => ?_).trans List.filterMap_some
  exact if_pos (knownId_isSome.mp (hplaced.known id hid))

theorem mergeOrder_placed (declared order : List String) :
    (mergeOrder declared order).Nodup ∧
      ∀ id, id ∈ mergeOrder declared order ↔ id ∈ declared := by
  rw [mergeOrder_eq_placed]
  refine ⟨(placed_knownId declared order).nodup, ?_⟩
  intro id
  rw [mem_foldl_place, mem_foldl_place, knownId_isSome]
  simp only [List.not_mem_nil, false_or]
  tauto

/-- **The full order is a permutation** of the declared ids. -/
theorem mergeOrder_perm {declared : List String} (hdistinct : declared.Nodup)
    (order : List String) : (mergeOrder declared order).Perm declared :=
  (List.perm_ext_iff_of_nodup (mergeOrder_placed declared order).1 hdistinct).mpr
    (mergeOrder_placed declared order).2

/-- Which ids are placed depends only on which are known. -/
theorem foldl_place_fst {β : Type*} {known : String → Option α} {known' : String → Option β}
    (h : ∀ id, (known id).isSome = (known' id).isSome) {ids : List String}
    {placed : List String × List α} {placed' : List String × List β} (hplaced : placed.1 = placed'.1) :
    (ids.foldl (place known) placed).1 = (ids.foldl (place known') placed').1 := by
  induction ids generalizing placed placed' with
  | nil => exact hplaced
  | cons id ids ih =>
    refine ih ?_
    have hid := h id
    unfold place
    cases hknown : known id with
    | none =>
      have hnone : known' id = none := by simpa [hknown] using hid
      simpa only [hnone] using hplaced
    | some item =>
      obtain ⟨item', hsome⟩ := Option.isSome_iff_exists.mp (by simpa [hknown] using hid.symm)
      simp only [hsome, ← hplaced]
      split
      · exact hplaced
      · rfl

/-- **The merge is the full order**, each id with what it stands for. -/
theorem merge_eq_filterMap {known : String → Option α} {order declared : List String}
    (hknown : ∀ id, (known id).isSome ↔ id ∈ declared) :
    merge known order declared = (mergeOrder declared order).filterMap known := by
  have hsame : ∀ id, (known id).isSome = (knownId declared id).isSome := fun id => by
    rw [Bool.eq_iff_iff, hknown, knownId_isSome]
  let placed := declared.foldl (place known) (order.foldl (place known) ([], []))
  have hplaced : Placed known placed :=
    Placed.foldl (Placed.foldl ⟨List.nodup_nil, rfl, by simp⟩ order) declared
  have hids : placed.1 = (declared.foldl (place (knownId declared))
      (order.foldl (place (knownId declared)) ([], []))).1 :=
    foldl_place_fst hsame (foldl_place_fst hsame rfl)
  show placed.2 = _
  rw [← hplaced.items, hids, mergeOrder_eq_placed]

/-- Ids that have been placed are not placed again. -/
theorem foldl_place_of_placed {known : String → Option α} {placed : List String × List α}
    {ids : List String} (h : ∀ id ∈ ids, id ∈ placed.1) : ids.foldl (place known) placed = placed := by
  induction ids with
  | nil => rfl
  | cons id ids ih =>
    have hid : place known placed id = placed := by
      unfold place
      cases known id with
      | none => rfl
      | some item => exact if_pos (h id (by simp))
    rw [List.foldl_cons, hid]
    exact ih fun j hj => h j (List.mem_cons_of_mem _ hj)

/-- Known ids, each once, are placed as they come. -/
theorem foldl_place_of_nodup {declared ids : List String} {placed : List String}
    (hknown : ∀ id ∈ ids, id ∈ declared) (hnodup : (placed ++ ids).Nodup) :
    ids.foldl (place (knownId declared)) (placed, placed) = (placed ++ ids, placed ++ ids) := by
  induction ids generalizing placed with
  | nil => simp
  | cons id ids ih =>
    have hfresh : id ∉ placed := fun hmem =>
      (List.nodup_append.mp hnodup).2.2 id hmem id (by simp) rfl
    have hplace : place (knownId declared) (placed, placed) id = (placed ++ [id], placed ++ [id]) := by
      simp [place, knownId, hknown id (by simp), hfresh]
    have hnext : (placed ++ [id] ++ ids).Nodup := by simpa using hnodup
    rw [List.foldl_cons, hplace, ih (fun j hj => hknown j (List.mem_cons_of_mem _ hj)) hnext]
    simp

/-- Stored ids that are all that is declared, each once, are the full order. -/
theorem mergeOrder_of_complete {declared stored : List String} (hnodup : stored.Nodup)
    (hmem : ∀ id, id ∈ stored ↔ id ∈ declared) : mergeOrder declared stored = stored := by
  have hstored : stored.foldl (place (knownId declared)) ([], []) = (stored, stored) :=
    foldl_place_of_nodup (fun id hid => (hmem id).mp hid) hnodup
  change (declared.foldl (place (knownId declared))
    (stored.foldl (place (knownId declared)) ([], []))).2 = _
  rw [hstored, foldl_place_of_placed fun id hid => (hmem id).mpr hid]

/-- **Merging again changes nothing.** -/
theorem mergeOrder_idem (declared order : List String) :
    mergeOrder declared (mergeOrder declared order) = mergeOrder declared order :=
  mergeOrder_of_complete (mergeOrder_placed declared order).1 (mergeOrder_placed declared order).2

end

/-! ## 3. Stored lists of ids -/

/-- The texts of a stored list, each once: `Array.from(new Set(list.filter(…)))`. -/
def storedIds : Option Json → List String
  | some (.arr items) => (items.filterMap Json.asStr).eraseDups
  | _ => []

/-- What the browser's storage answers: it may be absent or raise, and the item may be. -/
inductive Storage
  | unavailable
  | item (raw : Option String)

/-- The record of a stored string, if it is of version 1. -/
def storedRecord (parse : String → Option Json) (raw : Option String) : Option Json :=
  match raw with
  | none => none
  | some "" => none
  | some text =>
    (parse text).bind fun value =>
      match value.get "version" with
      | some (.num n) => if n = 1 then some value else none
      | _ => none

/-! ## 4. Dragging -/

/-- The loop of both insertion slots: the first of the items, counted from `index`, whose middle is
past the pointer. -/
def insertionSlot (pointer : ℚ) : List (ℚ × ℚ) → Nat → Nat
  | [], index => index
  | (first, last) :: rects, index =>
    if pointer < (first + last) / 2 then index else insertionSlot pointer rects (index + 1)

/-- `slotToIndex` of both preference files. -/
def indexOfSlot (source slot : Int) : Int := if slot > source then slot - 1 else slot

end DcsDashboard.Preferences
