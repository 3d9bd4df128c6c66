/-
# Sorting the LSO tables

A header click sorts a table by the keys of a column, which may be numbers, texts or missing
(`compareSortValues`, `sortRows` of `columnPrefs.ts`).  Missing keys are last in both directions;
otherwise the direction turns the comparison round, and the position of a row comes last.

Keys that are numbers are finite.  The difference of two finite numbers has the sign of the exact
difference, so that they are rational numbers here.  How texts compare is up to the browser's
locale and a parameter.
-/
import DcsDashboard.Lib.StableSort
import DcsDashboard.Preferences.ColumnPrefs

namespace DcsDashboard.Preferences.Columns

open Lib

/-! ## 1. Keys -/

/-- `SortValue`. -/
inductive SortValue
  | null
  | number (x : ℚ)
  | text (s : String)
  deriving DecidableEq

section
variable (localeCompare : String → String → ℚ)

/-- The comparison of two keys that are there. -/
def compareValues : SortValue → SortValue → ℚ
  | .number x, .number y => x - y
  | .number _, _ => -1
  | _, .number _ => 1
  | .text s, .text t => localeCompare s t
  | _, _ => 0

/-- `compareSortValues`. -/
def compareSortValues (a b : SortValue) (dir : SortDir) : ℚ :=
  if a = .null ∨ b = .null then
    if a = b then 0 else if a = .null then 1 else -1
  else
    let result := compareValues localeCompare a b
    if dir = .asc then result else -result

/-- `sortRows`. -/
def sortRows {T : Type*} (rows : List T) (key : T → SortValue) (dir : SortDir) : List T :=
  sortStable (fun a b => compareSortValues localeCompare (key a) (key b) dir) rows

end

/-! ## 2. The order of the keys -/

section
variable {localeCompare : String → String → ℚ} {dir : SortDir} {a b c : SortValue}

theorem compareSortValues_of_ne_null (ha : a ≠ .null) (hb : b ≠ .null) :
    compareSortValues localeCompare a b dir =
      if dir = .asc then compareValues localeCompare a b else -compareValues localeCompare a b :=
  if_neg (by simp [ha, hb])

@[simp] theorem compareSortValues_null_null :
    compareSortValues localeCompare .null .null dir = 0 := by
  simp [compareSortValues]

theorem compareSortValues_null_left (hb : b ≠ .null) :
    compareSortValues localeCompare .null b dir = 1 := by
  simp [compareSortValues, hb.symm]

theorem compareSortValues_null_right (ha : a ≠ .null) :
    compareSortValues localeCompare a .null dir = -1 := by
  simp [compareSortValues, ha]

/-- Of the keys that are there, numbers are before texts. -/
theorem compareValues_isComparison (h : IsComparison localeCompare) :
    IsComparison fun a b : { v : SortValue // v ≠ .null } => compareValues localeCompare a b where
  swap := by
    rintro ⟨a, ha⟩ ⟨b, hb⟩
    cases a with
    | null => exact absurd rfl ha
    | number x => cases b <;> simp_all [compareValues]
    | text s =>
      cases b with
      | null => exact absurd rfl hb
      | number y => simp [compareValues]
      | text t => exact h.swap s t
  trans := by
    rintro ⟨a, ha⟩ ⟨b, hb⟩ ⟨c, hc⟩ hab hbc
    have hone : ¬(1 : ℚ) ≤ 0 := not_le.mpr one_pos
    cases a with
    | null => exact absurd rfl ha
    | number x =>
      cases c with
      | null => exact absurd rfl hc
      | text u => exact neg_nonpos.mpr one_pos.le
      | number z =>
        cases b with
        | null => exact absurd rfl hb
        | text t => exact absurd hbc hone
        | number y =>
          simp only [compareValues] at hab hbc ⊢
          linarith
    | text s =>
      cases b with
      | null => exact absurd rfl hb
      | number y => exact absurd hab hone
      | text t =>
        cases c with
        | null => exact absurd rfl hc
        | number z => exact absurd hbc hone
        | text u => exact h.trans s t u hab hbc

/-- **The keys are ordered** in each direction. -/
theorem compareSortValues_isComparison (h : IsComparison localeCompare) (dir : SortDir) :
    IsComparison fun a b => compareSortValues localeCompare a b dir := by
  have hvalues : IsComparison fun a b : { v : SortValue // v ≠ .null } =>
      compareSortValues localeCompare a b dir := by
    have heq : ∀ a b : { v : SortValue // v ≠ .null }, compareSortValues localeCompare a b dir =
        if dir = .asc then compareValues localeCompare a b else -compareValues localeCompare a b :=
      fun a b => compareSortValues_of_ne_null a.2 b.2
    simp only [heq]
    split
    · exact compareValues_isComparison h
    · exact (compareValues_isComparison h).neg
  refine ⟨?_, ?_⟩
  · intro a b
    by_cases ha : a = .null <;> by_cases hb : b = .null
    · simp [ha, hb]
    · simp [ha, compareSortValues_null_left hb, compareSortValues_null_right hb]
    · simp [hb, compareSortValues_null_left ha, compareSortValues_null_right ha]
    · exact hvalues.swap ⟨a, ha⟩ ⟨b, hb⟩
  · intro a b c hab hbc
    have hone : ¬(1 : ℚ) ≤ 0 := not_le.mpr one_pos
    by_cases hc : c = .null
    · subst hc
      by_cases ha : a = .null
      · simp [ha]
      · simp [compareSortValues_null_right ha]
    · -- what is before a key that is there is there
      have hb : b ≠ .null := by
        rintro rfl
        exact hone (compareSortValues_null_left hc ▸ hbc)
      have ha : a ≠ .null := by
        rintro rfl
        exact hone (compareSortValues_null_left hb ▸ hab)
      exact hvalues.trans ⟨a, ha⟩ ⟨b, hb⟩ ⟨c, hc⟩ hab hbc

/-- The other direction is the other way round, but for missing keys. -/
theorem compareSortValues_reverses {T : Type*} (key : T → SortValue) :
    Reverses (fun a b => compareSortValues localeCompare (key a) (key b) .asc)
      (fun a b => compareSortValues localeCompare (key a) (key b) .desc)
      (fun a => key a = .null) where
  last_last a b ha hb := by
    rw [of_decide_eq_true ha, of_decide_eq_true hb]
    simp
  before_last a b ha hb := by
    have ha' : key a ≠ .null := of_decide_eq_false ha
    rw [of_decide_eq_true hb, compareSortValues_null_right ha', compareSortValues_null_right ha']
    simp
  reversed a b ha hb := by
    have ha' : key a ≠ .null := of_decide_eq_false ha
    have hb' : key b ≠ .null := of_decide_eq_false hb
    rw [compareSortValues_of_ne_null ha' hb', compareSortValues_of_ne_null ha' hb']
    simp

/-! ## 3. Sorted tables -/

/-- A table sorted by a column: the same rows, in the order of their keys, those without a key
last, and those with equal keys as they came. -/
structure SortedRows {T : Type*} (localeCompare : String → String → ℚ) (rows : List T)
    (key : T → SortValue) (dir : SortDir) : Prop where
  perm : (sortRows localeCompare rows key dir).Perm rows
  sorted : (sortRows localeCompare rows key dir).Pairwise fun r r' =>
    compareSortValues localeCompare (key r) (key r') dir ≤ 0
  missingLast : ∃ valued, (∀ r ∈ valued, key r ≠ .null) ∧
    sortRows localeCompare rows key dir = valued ++ rows.filter fun r => key r = .null
  stable : ∀ v, ((sortRows localeCompare rows key dir).filter fun r =>
      compareSortValues localeCompare v (key r) dir = 0) =
    rows.filter fun r => compareSortValues localeCompare v (key r) dir = 0

/-- **Sorting a table.**  The keys are totally preordered in each direction, a sorted table is
what it should be, and the other direction turns round the groups of rows with equal keys and
leaves the rows in them, and those without a key, as they are. -/
theorem sortRows_sorts (h : IsComparison localeCompare) {T : Type*} (rows : List T)
    (key : T → SortValue) :
    (∀ dir, IsComparison fun a b => compareSortValues localeCompare a b dir) ∧
      (∀ dir, SortedRows localeCompare rows key dir) ∧
      ∃ groups,
        Grouped (fun r r' => compareSortValues localeCompare (key r) (key r') .asc) groups ∧
          (∀ g ∈ groups, ∀ r ∈ g, key r ≠ .null) ∧
          sortRows localeCompare rows key .asc =
            groups.flatten ++ rows.filter (fun r => key r = .null) ∧
          sortRows localeCompare rows key .desc =
            groups.reverse.flatten ++ rows.filter (fun r => key r = .null) := by
  have hcmp := fun dir => (compareSortValues_isComparison h dir).comap key
  obtain ⟨groups, hgroups, hvalued, hasc, hdesc⟩ :=
    sortStable_reverse (hcmp .asc) (hcmp .desc) (compareSortValues_reverses key) rows
  have hvalued' : ∀ g ∈ groups, ∀ r ∈ g, key r ≠ .null := fun g hg r hr =>
    of_decide_eq_false (hvalued g hg r hr)
  refine ⟨compareSortValues_isComparison h, fun dir => ?_, groups, hgroups, hvalued', hasc, hdesc⟩
  refine ⟨sortStable_perm _ _, sortStable_sorted (hcmp dir) _, ?_, ?_⟩
  · cases dir with
    | asc =>
      refine ⟨groups.flatten, fun r hr => ?_, hasc⟩
      obtain ⟨g, hg, hr⟩ := List.mem_flatten.mp hr
      exact hvalued' g hg r hr
    | desc =>
      refine ⟨groups.reverse.flatten, fun r hr => ?_, hdesc⟩
      obtain ⟨g, hg, hr⟩ := List.mem_flatten.mp hr
      exact hvalued' g (List.mem_reverse.mp hg) r hr
  · intro v
    refine sortStable_filter (hcmp dir) rows ?_
    intro r r' hr hr'
    have hvr := of_decide_eq_true hr
    have hvr' := of_decide_eq_true hr'
    have hkeys := compareSortValues_isComparison h dir
    exact hkeys.eq_trans (hkeys.eq_comm.mp hvr) hvr'

end

/-- Texts of one letter, compared without regard to case. -/
def compareLetters (s t : String) : ℚ :=
  ((s.toList.headD ' ').toLower.toNat : ℚ) - (t.toList.headD ' ').toLower.toNat

theorem compareLetters_isComparison : IsComparison compareLetters where
  swap s t := by
    unfold compareLetters
    constructor <;> intro h <;> linarith
  trans s t u hst htu := by
    unfold compareLetters at *
    linarith

/-- Four passes, by a column with texts, a number and a missing value: in both directions the two
passes with one letter stay as they came, and the one without a value stays last. -/
theorem sortRows_sorts_passes :
    let rows : List (Nat × SortValue) :=
      [(1, .text "b"), (2, .null), (3, .text "B"), (4, .number 3)]
    (IsComparison fun a b => compareSortValues compareLetters a b .desc) ∧
      SortedRows compareLetters rows Prod.snd .asc ∧
      SortedRows compareLetters rows Prod.snd .desc ∧
      ∃ groups : List (List (Nat × SortValue)),
        Grouped (fun r r' => compareSortValues compareLetters r.2 r'.2 .asc) groups ∧
          sortRows compareLetters rows Prod.snd .asc = groups.flatten ++ [(2, .null)] ∧
          sortRows compareLetters rows Prod.snd .desc = groups.reverse.flatten ++ [(2, .null)] := by
  obtain ⟨hcmp, hsorted, groups, hgroups, -, hasc, hdesc⟩ :=
    sortRows_sorts compareLetters_isComparison
      [(1, .text "b"), (2, .null), (3, .text "B"), (4, .number 3)]
      (Prod.snd : Nat × SortValue → SortValue)
  exact ⟨hcmp .desc, hsorted .asc, hsorted .desc, groups, hgroups, hasc, hdesc⟩

end DcsDashboard.Preferences.Columns
