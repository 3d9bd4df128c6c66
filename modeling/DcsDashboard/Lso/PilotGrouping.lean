/-
# How passes are grouped into pilots

What `list_by_pilot` promises, on top of what its loops compute (`listByPilot_pilots`): which
passes are grouped together, in which order the pilots stand and what each of them sums up
(`Grouping`, `SumsUp`); and that the private UCIDs matter only through which rows share one.
-/
import DcsDashboard.Lso.Pilots
import Mathlib.Logic.Equiv.Basic

namespace DcsDashboard.Lso

open Lib

variable {ρ δ : Type*}

/-! ## 1. The grouping of pilots -/

/-- A list of rows cut into the groups of its pilots. -/
structure Grouping (rows : List (KeyedPass ρ δ)) (gs : List (List (KeyedPass ρ δ))) : Prop where
  /-- Every pass is in one group, as often as it is in the list, -/
  each : gs.flatten.Perm rows
  /-- and in no other. -/
  apart : gs.Pairwise List.Disjoint
  /-- A group is in the order of the list, newest first. -/
  newestFirst : ∀ g ∈ gs, g.Sublist rows
  /-- The group with the newer newest pass comes first. -/
  order : gs.Pairwise (Precedes rows)
  /-- Passes with UCIDs are together exactly when the UCIDs are equal. -/
  sameUcid : ∀ g ∈ gs, ∀ row ∈ g, ∀ u, row.ucid = some u →
    ∀ row' ∈ rows, ∀ u', row'.ucid = some u' → (row' ∈ g ↔ u' = u)
  /-- A pass without UCID joins a UCID exactly when its name occurs with that one alone. -/
  joins : ∀ g ∈ gs, ∀ row ∈ g, ∀ u, row.ucid = some u →
    ∀ row' ∈ rows, row'.ucid = none → (row' ∈ g ↔ SoleUcid rows row'.pass.pilotName u)
  /-- Otherwise it is with the other such passes of its name. -/
  alone : ∀ g ∈ gs, ∀ row ∈ g, row.ucid = none → (∀ u, ¬ SoleUcid rows row.pass.pilotName u) →
    ∀ row' ∈ rows, (row' ∈ g ↔ row'.ucid = none ∧ row'.pass.pilotName = row.pass.pilotName)

/-- A pilot sums up a group. -/
structure SumsUp (perPilot : Option Nat) (g : List (KeyedPass ℚ δ)) (pilot : LsoPilot ℚ δ) :
    Prop where
  newest : ∃ first rest, g = first :: rest ∧ pilot.pilotName = first.pass.pilotName ∧
    pilot.lastPassAt = first.pass.gradeDate
  aliases : ∀ n, n ∈ pilot.aliases ↔ n ≠ pilot.pilotName ∧ ∃ row ∈ g, row.pass.pilotName = n
  aliasesNodup : pilot.aliases.Nodup
  total : pilot.totalPasses = g.length
  graded : pilot.gradedPasses = (g.filterMap fun row => passPoints exact row.pass).length
  average : pilot.avgPoints =
    let points := g.filterMap fun row => passPoints exact row.pass
    if points = [] then none else some (points.sum / points.length)
  passes : pilot.passes = capped perPilot (g.map KeyedPass.pass)

theorem grouping_groups (rows : List (KeyedPass ρ δ)) :
    Grouping rows (groups (groupKey (nameToUcid rows)) rows) where
  each := groups_flatten_perm
  apart := by
    refine List.Pairwise.imp_of_mem ?_ groups_pairwise
    intro g g' hg hg' hprec
    obtain ⟨before, first, after, hrows, hhead, -, hout⟩ := hprec
    have hfirst : first ∈ g := List.mem_of_mem_head? hhead
    have hfirstRows : first ∈ rows := by rw [hrows]; simp
    intro row hrow hrow'
    obtain ⟨r, hr, rfl⟩ := mem_groups.mp hg
    have hrowRows : row ∈ rows := (mem_groupOf.mp hrow).1
    have hkey := (mem_group_iff hg hfirst hrowRows).mp hrow
    exact hout first (by simp) ((mem_group_iff hg' hrow' hfirstRows).mpr hkey.symm)
  newestFirst := by
    intro g hg
    obtain ⟨r, -, rfl⟩ := mem_groups.mp hg
    exact List.filter_sublist
  order := groups_pairwise
  sameUcid := by
    intro g hg row hrow u hu row' hrow' u' hu'
    have hkey : groupKey (nameToUcid rows) row = .ucid u := groupKey_eq_ucid.mpr (.inl hu)
    have hkey' : groupKey (nameToUcid rows) row' = .ucid u' := groupKey_eq_ucid.mpr (.inl hu')
    rw [mem_group_iff hg hrow hrow', hkey, hkey', GroupKey.ucid.injEq]
  joins := by
    intro g hg row hrow u hu row' hrow' hu'
    have hkey : groupKey (nameToUcid rows) row = .ucid u := groupKey_eq_ucid.mpr (.inl hu)
    rw [mem_group_iff hg hrow hrow', hkey, groupKey_eq_ucid]
    simp [hu']
  alone := by
    intro g hg row hrow hu hnone row' hrow'
    have hkey : groupKey (nameToUcid rows) row = .name row.pass.pilotName :=
      groupKey_eq_name.mpr ⟨hu, rfl, hnone⟩
    rw [mem_group_iff hg hrow hrow', hkey, groupKey_eq_name]
    constructor
    · rintro ⟨hu', hname, -⟩
      exact ⟨hu', hname⟩
    · rintro ⟨hu', hname⟩
      exact ⟨hu', hname, hname ▸ hnone⟩

theorem sumsUp_summary (perPilot : Option Nat) {g : List (KeyedPass ℚ δ)} (h : g ≠ []) :
    SumsUp perPilot g (summary exact perPilot (g.map KeyedPass.pass)) := by
  obtain ⟨first, rest, rfl⟩ := List.exists_cons_of_ne_nil h
  have hpoints : ((first :: rest).map KeyedPass.pass).filterMap (passPoints exact) =
      (first :: rest).filterMap fun row => passPoints exact row.pass := List.filterMap_map
  refine ⟨⟨first, rest, rfl, rfl, rfl⟩, ?_, nodup_otherNames _ _, by simp [summary, tally], ?_, ?_,
    rfl⟩
  · intro n
    show n ∈ otherNames _ _ ↔ _
    rw [mem_otherNames, and_comm]
    refine and_congr Iff.rfl ?_
    rw [List.map_map, List.mem_map]
    rfl
  · show (List.filterMap _ _).length = _
    rw [hpoints]
  · show meanPoints exact _ = _
    unfold meanPoints pointSum
    rw [hpoints]
    have hsum : ∀ ps : List ℚ, ps.foldl exact.add (exact.literal 0) = ps.sum := fun ps =>
      List.sum_eq_foldl.symm
    by_cases hnil : ((first :: rest).filterMap fun row => passPoints exact row.pass) = []
    · simp [hnil]
    · rw [if_pos (List.length_pos_of_ne_nil hnil), hsum]
      simp only [hnil, if_false]
      rfl

/-- **Pilot grouping.**  The pilots are the groups of the rows, each summed up, and nothing is
counted twice or left out. -/
theorem listByPilot_grouping (rows : List (KeyedPass ℚ δ)) (perPilot : Option Nat) :
    ∃ gs, Grouping rows gs ∧
      List.Forall₂ (SumsUp perPilot) gs (listByPilot exact rows perPilot).pilots ∧
      (listByPilot exact rows perPilot).totalPasses = rows.length ∧
      ((listByPilot exact rows perPilot).pilots.map LsoPilot.totalPasses).sum = rows.length ∧
      (listByPilot exact rows perPilot).perPilotLimit = perPilot := by
  refine ⟨_, grouping_groups rows, ?_, rfl, ?_, rfl⟩
  · rw [listByPilot_pilots, List.forall₂_map_right_iff, List.forall₂_same]
    intro g hg
    obtain ⟨r, hr, rfl⟩ := mem_groups.mp hg
    exact sumsUp_summary perPilot (groupOf_ne_nil (mem_keysOf.mpr ⟨r, hr, rfl⟩))
  · rw [listByPilot_pilots, List.map_map]
    have hlen := (grouping_groups rows).each.length_eq
    rw [List.length_flatten] at hlen
    rw [← hlen]
    congr 1
    exact List.map_congr_left fun g _ => by simp [summary, tally]

/-! ## 2. UCIDs are not disclosed -/

/-- The UCIDs of a list of rows: its strings that are not blank. -/
def ucidsOf (rows : List (PassRow ρ δ)) : Set String :=
  {u | ∃ row ∈ rows, row.pilotUcid = some u ∧ isBlank u = false}

/-- A row with its UCID renamed. -/
def PassRow.rename (f : String → String) (row : PassRow ρ δ) : PassRow ρ δ :=
  { row with pilotUcid := row.pilotUcid.map fun u => if isBlank u then u else f u }

/-- A keyed pass with its UCID renamed. -/
def KeyedPass.rename (f : String → String) (row : KeyedPass ρ δ) : KeyedPass ρ δ :=
  { row with ucid := row.ucid.map f }

def GroupKey.rename (f : String → String) : GroupKey → GroupKey
  | .ucid u => .ucid (f u)
  | .name n => .name n

theorem keyedPass_rename {f : String → String} {rows : List (PassRow ρ δ)}
    (hf : ∀ u ∈ ucidsOf rows, isBlank (f u) = false) {row : PassRow ρ δ} (hrow : row ∈ rows) :
    keyedPass (row.rename f) = (keyedPass row).rename f := by
  unfold keyedPass PassRow.rename KeyedPass.rename
  cases hu : row.pilotUcid with
  | none => rfl
  | some u =>
    by_cases hblank : isBlank u = true
    · simp [Option.filter, hblank]
    · have hkept := hf u ⟨row, hrow, hu, by simpa using hblank⟩
      simp [Option.filter, hblank, hkept]

section

variable {f : String → String} {rows : List (KeyedPass ρ δ)}

/-- A renaming that keeps the UCIDs of the rows apart. -/
def KeepsApart (f : String → String) (rows : List (KeyedPass ρ δ)) : Prop :=
  ∀ row ∈ rows, ∀ row' ∈ rows, ∀ u u', row.ucid = some u → row'.ucid = some u' →
    f u = f u' → u = u'

theorem uses_rename {name v : String} :
    Uses (rows.map (KeyedPass.rename f)) name v ↔ ∃ u, v = f u ∧ Uses rows name u := by
  unfold Uses
  constructor
  · rintro ⟨row', hrow', hname, hucid⟩
    obtain ⟨row, hrow, rfl⟩ := List.mem_map.mp hrow'
    obtain ⟨u, hu, rfl⟩ := Option.map_eq_some_iff.mp hucid
    exact ⟨u, rfl, row, hrow, hname, hu⟩
  · rintro ⟨u, rfl, row, hrow, hname, hu⟩
    exact ⟨row.rename f, List.mem_map_of_mem hrow, hname, by simp [KeyedPass.rename, hu]⟩

/-- The UCID of a name is renamed with the rows. -/
theorem soleUcid_rename (hf : KeepsApart f rows) {name v : String} :
    SoleUcid (rows.map (KeyedPass.rename f)) name v ↔ ∃ u, v = f u ∧ SoleUcid rows name u := by
  constructor
  · rintro ⟨huses, hsole⟩
    obtain ⟨u, rfl, hu⟩ := uses_rename.mp huses
    refine ⟨u, rfl, hu, ?_⟩
    intro w hw
    have heq : f w = f u := hsole (f w) (uses_rename.mpr ⟨w, rfl, hw⟩)
    obtain ⟨row, hrow, -, hucid⟩ := hu
    obtain ⟨row', hrow', -, hucid'⟩ := hw
    exact hf row' hrow' row hrow w u hucid' hucid heq
  · rintro ⟨u, rfl, hu, hsole⟩
    refine ⟨uses_rename.mpr ⟨u, rfl, hu⟩, ?_⟩
    intro w hw
    obtain ⟨w', rfl, hw'⟩ := uses_rename.mp hw
    rw [hsole w' hw']

theorem groupKey_rename (hf : KeepsApart f rows) (row : KeyedPass ρ δ) :
    groupKey (nameToUcid (rows.map (KeyedPass.rename f))) (row.rename f) =
      (groupKey (nameToUcid rows) row).rename f := by
  cases hk : groupKey (nameToUcid rows) row with
  | ucid u =>
    refine groupKey_eq_ucid.mpr ?_
    rcases groupKey_eq_ucid.mp hk with hu | ⟨hu, hsole⟩
    · exact .inl (by simp [KeyedPass.rename, hu])
    · exact .inr ⟨by simp [KeyedPass.rename, hu], (soleUcid_rename hf).mpr ⟨u, rfl, hsole⟩⟩
  | name n =>
    obtain ⟨hu, hname, hnone⟩ := groupKey_eq_name.mp hk
    refine groupKey_eq_name.mpr ⟨by simp [KeyedPass.rename, hu], hname, ?_⟩
    intro v hv
    obtain ⟨u, -, hsole⟩ := (soleUcid_rename hf).mp hv
    exact hnone u hsole

/-- A UCID that is a key is that of a row. -/
theorem exists_of_groupKey {row : KeyedPass ρ δ} (hrow : row ∈ rows) {u : String}
    (h : groupKey (nameToUcid rows) row = .ucid u) : ∃ r ∈ rows, r.ucid = some u := by
  rcases groupKey_eq_ucid.mp h with hu | ⟨-, ⟨r, hr, -, hu⟩, -⟩
  · exact ⟨row, hrow, hu⟩
  · exact ⟨r, hr, hu⟩

theorem injOn_rename (hf : KeepsApart f rows) :
    Set.InjOn (GroupKey.rename f) {k | k ∈ rows.map (groupKey (nameToUcid rows))} := by
  intro k hk k' hk' heq
  obtain ⟨row, hrow, rfl⟩ := List.mem_map.mp hk
  obtain ⟨row', hrow', rfl⟩ := List.mem_map.mp hk'
  cases hu : groupKey (nameToUcid rows) row with
  | name n =>
    cases hu' : groupKey (nameToUcid rows) row' with
    | name n' => rw [hu, hu'] at heq; exact heq
    | ucid u' => rw [hu, hu'] at heq; cases heq
  | ucid u =>
    cases hu' : groupKey (nameToUcid rows) row' with
    | name n' => rw [hu, hu'] at heq; cases heq
    | ucid u' =>
      rw [hu, hu'] at heq
      obtain ⟨r, hr, hru⟩ := exists_of_groupKey hrow hu
      obtain ⟨r', hr', hru'⟩ := exists_of_groupKey hrow' hu'
      rw [hf r hr r' hr' u u' hru hru' (GroupKey.ucid.inj heq)]

/-- **The groups are renamed with the rows.** -/
theorem groups_rename (hf : KeepsApart f rows) :
    groups (groupKey (nameToUcid (rows.map (KeyedPass.rename f))))
        (rows.map (KeyedPass.rename f)) =
      (groups (groupKey (nameToUcid rows)) rows).map fun g => g.map (KeyedPass.rename f) := by
  have hkeys : keysOf (groupKey (nameToUcid (rows.map (KeyedPass.rename f))))
      (rows.map (KeyedPass.rename f)) =
      (keysOf (groupKey (nameToUcid rows)) rows).map (GroupKey.rename f) := by
    unfold keysOf
    rw [← eraseDups_map (injOn_rename hf), List.map_map, List.map_map]
    congr 1
    exact List.map_congr_left fun row _ => groupKey_rename hf row
  unfold groups
  rw [hkeys, List.map_map, List.map_map]
  refine List.map_congr_left ?_
  intro k hk
  show groupOf _ _ (k.rename f) = (groupOf _ _ k).map _
  unfold groupOf
  rw [List.filter_map]
  congr 1
  refine List.filter_congr ?_
  intro row hrow
  show decide (groupKey _ (row.rename f) = k.rename f) = decide (groupKey _ row = k)
  rw [groupKey_rename hf]
  have hkIn : k ∈ rows.map (groupKey (nameToUcid rows)) := List.mem_eraseDups.mp hk
  have hrowIn : groupKey (nameToUcid rows) row ∈ rows.map (groupKey (nameToUcid rows)) :=
    List.mem_map_of_mem hrow
  exact decide_eq_decide.mpr (injOn_rename hf |>.eq_iff hrowIn hkIn)

end

/-- **UCIDs are not disclosed.**  Renaming the UCIDs injectively leaves the response as it
is. -/
theorem listRowsByPilot_rename (arith : Arithmetic ρ) {f : String → String}
    {rows : List (PassRow ρ δ)} (hinj : Set.InjOn f (ucidsOf rows))
    (hblank : ∀ u ∈ ucidsOf rows, isBlank (f u) = false) (perPilot : Option Nat) :
    listRowsByPilot arith (rows.map (PassRow.rename f)) perPilot =
      listRowsByPilot arith rows perPilot := by
  have hkeyed : (rows.map (PassRow.rename f)).map keyedPass =
      (rows.map keyedPass).map (KeyedPass.rename f) := by
    rw [List.map_map, List.map_map]
    exact List.map_congr_left fun row hrow => keyedPass_rename hblank hrow
  have hin : ∀ keyed ∈ rows.map keyedPass, ∀ u, keyed.ucid = some u → u ∈ ucidsOf rows := by
    intro keyed hkeyed u hu
    obtain ⟨row, hrow, rfl⟩ := List.mem_map.mp hkeyed
    obtain ⟨hucid, hnonblank⟩ := Option.filter_eq_some_iff.mp hu
    exact ⟨row, hrow, hucid, by simpa using hnonblank⟩
  have hapart : KeepsApart f (rows.map keyedPass) :=
    fun row hrow row' hrow' u u' hu hu' heq =>
      hinj (hin row hrow u hu) (hin row' hrow' u' hu') heq
  have hpilots : (listByPilot arith ((rows.map keyedPass).map (KeyedPass.rename f))
      perPilot).pilots = (listByPilot arith (rows.map keyedPass) perPilot).pilots := by
    rw [listByPilot_pilots, listByPilot_pilots, groups_rename hapart, List.map_map]
    refine List.map_congr_left ?_
    intro g _
    show summary arith perPilot ((g.map _).map _) = _
    rw [List.map_map]
    rfl
  unfold listRowsByPilot
  rw [hkeyed]
  have hcount : ((rows.map keyedPass).map (KeyedPass.rename f)).length =
      (rows.map (keyedPass : PassRow ρ δ → _)).length := List.length_map _
  calc
    listByPilot arith ((rows.map keyedPass).map (KeyedPass.rename f)) perPilot
        = ⟨(listByPilot arith ((rows.map keyedPass).map (KeyedPass.rename f)) perPilot).pilots,
            perPilot, ((rows.map keyedPass).map (KeyedPass.rename f)).length⟩ := rfl
    _ = ⟨(listByPilot arith (rows.map keyedPass) perPilot).pilots, perPilot,
            (rows.map keyedPass).length⟩ := by rw [hpilots, hcount]
    _ = listByPilot arith (rows.map keyedPass) perPilot := rfl

/-- A pass of a small board. -/
def boardRow (name : String) (ucid : Option String) (grade date : String) : PassRow ℚ Unit :=
  { pilotUcid := ucid
    pass := { pilotName := name, passGrade := grade, gradeDate := date, gradePoints := none,
              pointsAwarded := none, other := () } }

/-- A rename, a row without UCID that joins its pilot, and one that does not. -/
def smallBoard : List (PassRow ℚ Unit) :=
  [boardRow "AI Wingman" none "--" "2026-08-05",
    boardRow "Viper 501st" (some "A") "OK" "2026-08-04",
    boardRow "Hawk" (some "B") "B" "2026-08-03", boardRow "Viper" (some "A") "(OK)" "2026-08-02",
    boardRow "Viper" none "OK" "2026-08-01"]

/-- The two UCIDs of the small board exchanged. -/
theorem listRowsByPilot_rename_smallBoard :
    listRowsByPilot exact (smallBoard.map (PassRow.rename (Equiv.swap "A" "B"))) (some 2) =
      listRowsByPilot exact smallBoard (some 2) := by
  refine listRowsByPilot_rename exact (Equiv.swap "A" "B").injective.injOn ?_ (some 2)
  intro u hu
  by_cases hA : u = "A"
  · rw [hA, Equiv.swap_apply_left]
    decide
  · by_cases hB : u = "B"
    · rw [hB, Equiv.swap_apply_right]
      decide
    · rw [Equiv.swap_apply_of_ne_of_ne hA hB]
      obtain ⟨row, -, -, hblank⟩ := hu
      exact hblank

example : ((listRowsByPilot exact smallBoard (some 2)).pilots.map fun p =>
    (p.pilotName, p.aliases, p.totalPasses, p.avgPoints, p.passes.length)) =
      [("AI Wingman", [], 1, some 2, 1), ("Viper 501st", ["Viper"], 3, some (11 / 3), 2),
        ("Hawk", [], 1, some (5 / 2), 1)] := by
  decide +kernel

end DcsDashboard.Lso
