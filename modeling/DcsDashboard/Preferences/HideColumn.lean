/-
# Hiding one column

`hideColumn` adds a column to those stored as hidden.  What is stored as hidden and what is not
visible are the same thing, except where the stored state hides every column of the table: then
`resolveColumns` shows them all, and hiding one more changes nothing.  A stored state gets there
when a release removes the columns that were left visible.

`hideColumn_exact_iff` says that this is the only exception.
-/
import DcsDashboard.Preferences.ColumnPrefs

namespace DcsDashboard.Preferences.Columns

open Lib

/-! ## 1. What is visible -/

variable {spec : TableSpec} {prefs : ColumnPrefs} {c : String}

/-- Some column of the table is not stored as hidden. -/
def SomeShown (prefs : ColumnPrefs) (spec : TableSpec) : Prop :=
  ∃ id ∈ spec.columns, id ∉ prefs.hidden

/-- **Visible is what is not stored as hidden**, if there is any. -/
theorem visible_of_someShown (h : SomeShown prefs spec) :
    (resolveColumns prefs spec).visible =
      (fullOrder prefs spec).filter fun id => id ∉ prefs.hidden := by
  obtain ⟨id, hid, hshown⟩ := h
  have hmem : id ∈ (fullOrder prefs spec).filter fun id => id ∉ prefs.hidden :=
    List.mem_filter.mpr ⟨((mergeOrder_placed _ _).2 id).mpr hid, by simpa using hshown⟩
  have hlen := List.length_pos_of_mem hmem
  simp only [resolveColumns]
  rw [if_neg (by omega)]

/-- **A state that hides every column shows them all.** -/
theorem visible_of_not_someShown (h : ¬ SomeShown prefs spec) :
    (resolveColumns prefs spec).visible = fullOrder prefs spec := by
  have hnil : ((fullOrder prefs spec).filter fun id => id ∉ prefs.hidden) = [] := by
    refine List.filter_eq_nil_iff.mpr ?_
    intro id hid
    have hdeclared : id ∈ spec.columns := ((mergeOrder_placed _ _).2 id).mp hid
    by_contra hshown
    exact h ⟨id, hdeclared, by simpa using hshown⟩
  simp only [resolveColumns, hnil]
  rfl

theorem visible_nodup : (resolveColumns prefs spec).visible.Nodup := by
  have horder : (fullOrder prefs spec).Nodup := (mergeOrder_placed _ _).1
  by_cases h : SomeShown prefs spec
  · rw [visible_of_someShown h]
    exact horder.filter _
  · rwa [visible_of_not_someShown h]

theorem mem_columns_of_visible (h : c ∈ (resolveColumns prefs spec).visible) : c ∈ spec.columns := by
  have horder : c ∈ fullOrder prefs spec := by
    by_cases hshown : SomeShown prefs spec
    · rw [visible_of_someShown hshown] at h
      exact List.mem_of_mem_filter h
    · rwa [visible_of_not_someShown hshown] at h
  exact ((mergeOrder_placed _ _).2 c).mp horder

/-! ## 2. Hiding and showing -/

/-- Hiding `c` hides `c` and nothing else, drops the sort when it is by `c` and only then, and is
undone by showing `c`. -/
structure HidesExactly (prefs : ColumnPrefs) (c : String) (spec : TableSpec) : Prop where
  hidden : c ∉ (resolveColumns (hideColumn prefs c spec) spec).visible
  others : (resolveColumns (hideColumn prefs c spec) spec).visible =
    (resolveColumns prefs spec).visible.filter fun id => id ≠ c
  sort : ∀ sort, prefs.sort = some sort →
    (hideColumn prefs c spec).sort = if sort.id = c then none else some sort
  shown : (resolveColumns (showColumn (hideColumn prefs c spec) c) spec).visible =
    (resolveColumns prefs spec).visible

section Hide

variable (hvisible : c ∈ (resolveColumns prefs spec).visible)
  (htwo : 2 ≤ (resolveColumns prefs spec).visible.length)

include hvisible htwo

theorem hideColumn_eq : hideColumn prefs c spec =
    { order := fullOrder prefs spec
      hidden := (prefs.hidden.filter fun item => item ≠ c) ++ [c]
      sort := if prefs.sort.map SortSpec.id = some c then none else prefs.sort } := by
  simp only [hideColumn]
  rw [if_neg]
  rintro (h | h)
  · exact h hvisible
  · omega

theorem fullOrder_hideColumn :
    fullOrder (hideColumn prefs c spec) spec = fullOrder prefs spec := by
  rw [hideColumn_eq hvisible htwo]
  exact mergeOrder_idem _ _

theorem mem_hidden_hideColumn {id : String} :
    id ∈ (hideColumn prefs c spec).hidden ↔ id ∈ prefs.hidden ∨ id = c := by
  rw [hideColumn_eq hvisible htwo]
  by_cases hid : id = c <;> simp [hid]

theorem sort_hideColumn {sort : SortSpec} (hsort : prefs.sort = some sort) :
    (hideColumn prefs c spec).sort = if sort.id = c then none else some sort := by
  rw [hideColumn_eq hvisible htwo]
  simp [hsort]

omit hvisible in
/-- Another column is visible too. -/
theorem exists_other_visible : ∃ id ∈ (resolveColumns prefs spec).visible, id ≠ c := by
  by_contra hnone
  have hall : ∀ id ∈ (resolveColumns prefs spec).visible, id = c := fun id hid =>
    not_not.mp fun hne => hnone ⟨id, hid, hne⟩
  have hrepeated := List.eq_replicate_of_mem hall
  have hnodup : (resolveColumns prefs spec).visible.Nodup := visible_nodup
  rw [hrepeated, List.nodup_replicate] at hnodup
  omega

/-- **Hiding a column** of a table that does not store all of them as hidden. -/
theorem hidesExactly_of_someShown (h : SomeShown prefs spec) : HidesExactly prefs c spec := by
  have hvisible_eq := visible_of_someShown h
  have hc : c ∉ prefs.hidden := by
    rw [hvisible_eq] at hvisible
    simpa using (List.mem_filter.mp hvisible).2
  have hshown : SomeShown (hideColumn prefs c spec) spec := by
    obtain ⟨id, hid, hne⟩ : ∃ id ∈ (resolveColumns prefs spec).visible, id ≠ c :=
      exists_other_visible htwo
    refine ⟨id, mem_columns_of_visible hid, ?_⟩
    rw [hvisible_eq] at hid
    rw [mem_hidden_hideColumn hvisible htwo]
    rintro (hhidden | rfl)
    · exact absurd hhidden (by simpa using (List.mem_filter.mp hid).2)
    · exact hne rfl
  have hothers : (resolveColumns (hideColumn prefs c spec) spec).visible =
      (resolveColumns prefs spec).visible.filter fun id => id ≠ c := by
    rw [visible_of_someShown hshown, hvisible_eq, fullOrder_hideColumn hvisible htwo,
      List.filter_filter]
    refine List.filter_congr ?_
    intro id _
    simp only [mem_hidden_hideColumn hvisible htwo]
    simp [not_or, Bool.and_comm]
  refine ⟨?_, hothers, fun sort hsort => sort_hideColumn hvisible htwo hsort, ?_⟩
  · rw [hothers]
    simp
  · -- showing takes `c` out of the hidden columns again, and it was not there before
    have hhidden : c ∈ (hideColumn prefs c spec).hidden :=
      (mem_hidden_hideColumn hvisible htwo).mpr (.inr rfl)
    have hshow : showColumn (hideColumn prefs c spec) c =
        { hideColumn prefs c spec with
          hidden := (hideColumn prefs c spec).hidden.filter fun item => item ≠ c } :=
      if_pos hhidden
    have hmem : ∀ id, id ∈ (showColumn (hideColumn prefs c spec) c).hidden ↔ id ∈ prefs.hidden := by
      intro id
      simp only [hshow, List.mem_filter, mem_hidden_hideColumn hvisible htwo]
      by_cases hid : id = c
      · subst hid
        simp [hc]
      · simp [hid]
    have hback : SomeShown (showColumn (hideColumn prefs c spec) c) spec := by
      obtain ⟨id, hid, hnot⟩ := h
      exact ⟨id, hid, fun hmem' => hnot ((hmem id).mp hmem')⟩
    have horder : fullOrder (showColumn (hideColumn prefs c spec) c) spec = fullOrder prefs spec := by
      have hsame : fullOrder (showColumn (hideColumn prefs c spec) c) spec =
          fullOrder (hideColumn prefs c spec) spec := by
        rw [hshow]
        rfl
      rw [hsame, fullOrder_hideColumn hvisible htwo]
    rw [visible_of_someShown hback, hvisible_eq, horder]
    refine List.filter_congr ?_
    intro id _
    simp only [hmem]

/-- **In the fallback nothing is hidden.** -/
theorem not_hidesExactly (h : ¬ SomeShown prefs spec) : ¬ HidesExactly prefs c spec := by
  have hstill : ¬ SomeShown (hideColumn prefs c spec) spec := by
    rintro ⟨id, hid, hnot⟩
    exact h ⟨id, hid, fun hhidden =>
      hnot ((mem_hidden_hideColumn hvisible htwo).mpr (.inl hhidden))⟩
  intro hexact
  refine hexact.hidden ?_
  rw [visible_of_not_someShown hstill]
  exact ((mergeOrder_placed _ _).2 c).mpr (mem_columns_of_visible hvisible)

/-- **When hiding a column hides exactly that column.** -/
theorem hideColumn_exact_iff : HidesExactly prefs c spec ↔ SomeShown prefs spec := by
  constructor
  · intro hexact
    by_contra h
    exact not_hidesExactly hvisible htwo h hexact
  · exact hidesExactly_of_someShown hvisible htwo

end Hide

/-- Two columns, of which the stored preferences hide both and show one that is gone. -/
def goneColumn : ColumnPrefs := { order := ["gone"], hidden := ["status", "grade"], sort := none }

/-- **A column that cannot be hidden.** -/
theorem goneColumn_not_hidden :
    "grade" ∈ (resolveColumns goneColumn ⟨["status", "grade"], []⟩).visible ∧
      2 ≤ (resolveColumns goneColumn ⟨["status", "grade"], []⟩).visible.length ∧
      ¬ HidesExactly goneColumn "grade" ⟨["status", "grade"], []⟩ :=
  ⟨by decide, by decide, fun h => absurd h.hidden (by decide)⟩

/-- Stored preferences of an older release, with a hidden column, one that is gone, and the sort. -/
def olderColumns : ColumnPrefs :=
  { order := ["wire", "gone", "status"], hidden := ["status", "gone"], sort := some ⟨"grade", .desc⟩ }

theorem hideColumn_exact_iff_olderColumns :
    (resolveColumns olderColumns ⟨["status", "grade", "wire"], []⟩).visible = ["wire", "grade"] ∧
      HidesExactly olderColumns "grade" ⟨["status", "grade", "wire"], []⟩ :=
  ⟨by decide, (hideColumn_exact_iff (by decide) (by decide)).mpr ⟨"wire", by decide, by decide⟩⟩

end DcsDashboard.Preferences.Columns
