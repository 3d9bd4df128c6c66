/-
# Pilots of the greenie board

`lso.rs`: `list_by_pilot` reads the passes newest first and groups them by pilot.  A pilot is
the UCID of a row; a row without one joins the pilot whose UCID alone has been seen under its
name, and otherwise the other such rows of that name.  One loop fills a map from names to
UCIDs, a second one keeps the pilots in a vector, an index from keys to its slots and a vector
of point sums beside it.

The loops are those of the source.  `listByPilot_eq` says what they compute: the groups of
`Lib.groups` under `groupKey`, each summed up by `summary`.

How scores are added and divided is a parameter (`Arithmetic`); `exact` is the one in which
nothing is rounded.
-/
import DcsDashboard.Lib.Grouping
import DcsDashboard.Lib.RustText
import Mathlib.Data.List.AList
import Mathlib.Data.Rat.Floor

namespace DcsDashboard.Lso

open Lib

/-! ## 1. Passes -/

/-- The arithmetic of scores. -/
structure Arithmetic (ρ : Type*) where
  literal : ℚ → ρ
  add : ρ → ρ → ρ
  divCount : ρ → Nat → ρ

/-- Scores that are not rounded. -/
def exact : Arithmetic ℚ where
  literal q := q
  add p q := p + q
  divCount q n := q / n

/-- `LsoPass`; `other` is every column that the grouping does not read. -/
structure LsoPass (ρ δ : Type*) where
  pilotName : String
  passGrade : String
  gradeDate : String
  gradePoints : Option ρ
  pointsAwarded : Option Bool
  other : δ
  deriving DecidableEq

/-- A row of `passes`: its columns, and the private UCID. -/
structure PassRow (ρ δ : Type*) where
  pilotUcid : Option String
  pass : LsoPass ρ δ

/-- `KeyedPass`. -/
structure KeyedPass (ρ δ : Type*) where
  ucid : Option String
  pass : LsoPass ρ δ

/-- `GroupKey`. -/
inductive GroupKey
  | ucid (u : String)
  | name (n : String)
  deriving DecidableEq

/-- `LsoPilot`. -/
structure LsoPilot (ρ δ : Type*) where
  pilotName : String
  aliases : List String
  totalPasses : Nat
  gradedPasses : Nat
  avgPoints : Option ρ
  lastPassAt : String
  passes : List (LsoPass ρ δ)
  deriving DecidableEq

/-- `LsoPilotsResponse`. -/
structure LsoPilotsResponse (ρ δ : Type*) where
  pilots : List (LsoPilot ρ δ)
  perPilotLimit : Option Nat
  totalPasses : Nat
  deriving DecidableEq

variable {ρ δ : Type*}

/-- `value.trim().is_empty()`. -/
def isBlank (s : String) : Bool := (trim s.toList).isEmpty

/-- `query_keyed_passes`, row by row: a blank UCID is none. -/
def keyedPass (row : PassRow ρ δ) : KeyedPass ρ δ :=
  { ucid := row.pilotUcid.filter fun value => !isBlank value, pass := row.pass }

/-! ## 2. `list_by_pilot` -/

section

variable (arith : Arithmetic ρ)

/-- `pass_points`. -/
def passPoints (pass : LsoPass ρ δ) : Option ρ :=
  if pass.pointsAwarded = some false then none
  else
    match pass.gradePoints with
    | some points => some points
    | none =>
      match pass.passGrade with
      | "_OK_" => some (arith.literal 5)
      | "OK" => some (arith.literal 4)
      | "(OK)" => some (arith.literal 3)
      | "--" => some (arith.literal 2)
      | "C" => some (arith.literal 0)
      | "B" => some (arith.literal (5 / 2))
      | "WO" => some (arith.literal 1)
      | _ => none

/-- The map from names to UCIDs; a name that several UCIDs used maps to `none`. -/
abbrev NameMap := AList fun _ : String => Option String

/-- The first loop, for one row. -/
def noteName (known : NameMap) (row : KeyedPass ρ δ) : NameMap :=
  match row.ucid with
  | none => known
  | some ucid =>
    match known.lookup row.pass.pilotName with
    | none => known.insert row.pass.pilotName (some ucid)
    | some seen =>
      known.insert row.pass.pilotName (if seen = some ucid then seen else none)

/-- `name_to_ucid`. -/
def nameToUcid (rows : List (KeyedPass ρ δ)) : NameMap := rows.foldl noteName ∅

/-- The key under which a row is grouped. -/
def groupKey (known : NameMap) (row : KeyedPass ρ δ) : GroupKey :=
  match row.ucid with
  | some ucid => .ucid ucid
  | none =>
    match known.lookup row.pass.pilotName with
    | some (some ucid) => .ucid ucid
    | _ => .name row.pass.pilotName

/-- The variables of the second loop. -/
structure Board (ρ δ : Type*) where
  pilots : List (LsoPilot ρ δ)
  index : AList fun _ : GroupKey => Nat
  pointSums : List ρ

/-- The pilot that the first pass of a group opens. -/
def openPilot (pass : LsoPass ρ δ) : LsoPilot ρ δ :=
  { pilotName := pass.pilotName
    aliases := []
    totalPasses := 0
    gradedPasses := 0
    avgPoints := none
    lastPassAt := pass.gradeDate
    passes := [] }

/-- What a pass adds to its pilot. -/
def countPass (perPilot : Option Nat) (pass : LsoPass ρ δ) (pilot : LsoPilot ρ δ) :
    LsoPilot ρ δ :=
  { pilot with
    aliases :=
      if pass.pilotName ≠ pilot.pilotName ∧ pass.pilotName ∉ pilot.aliases then
        pilot.aliases ++ [pass.pilotName]
      else pilot.aliases
    totalPasses := pilot.totalPasses + 1
    gradedPasses :=
      match passPoints arith pass with
      | some _ => pilot.gradedPasses + 1
      | none => pilot.gradedPasses
    passes :=
      if perPilot.all fun cap => pilot.passes.length < cap then pilot.passes ++ [pass]
      else pilot.passes }

/-- The slot of a key, opening a pilot for one that is new. -/
def Board.slot (board : Board ρ δ) (key : GroupKey) (pass : LsoPass ρ δ) : Board ρ δ × Nat :=
  match board.index.lookup key with
  | some slot => (board, slot)
  | none =>
    ({ pilots := board.pilots ++ [openPilot pass]
       index := board.index.insert key board.pilots.length
       pointSums := board.pointSums ++ [arith.literal 0] }, board.pilots.length)

/-- The second loop, for one row. -/
def Board.add (perPilot : Option Nat) (known : NameMap) (board : Board ρ δ)
    (row : KeyedPass ρ δ) : Board ρ δ :=
  let (board, slot) := board.slot arith (groupKey known row) row.pass
  { board with
    pilots := board.pilots.modify slot (countPass arith perPilot row.pass)
    pointSums :=
      match passPoints arith row.pass with
      | some points => board.pointSums.modify slot fun sum => arith.add sum points
      | none => board.pointSums }

/-- The last loop: the mean of a pilot with graded passes. -/
def averaged : List (LsoPilot ρ δ) → List ρ → List (LsoPilot ρ δ)
  | pilot :: pilots, sum :: sums =>
    (if pilot.gradedPasses > 0 then
      { pilot with avgPoints := some (arith.divCount sum pilot.gradedPasses) }
    else pilot) :: averaged pilots sums
  | pilots, _ => pilots

/-- `list_by_pilot` on the keyed passes, newest first. -/
def listByPilot (rows : List (KeyedPass ρ δ)) (perPilot : Option Nat) :
    LsoPilotsResponse ρ δ :=
  let known := nameToUcid rows
  let board := rows.foldl (Board.add arith perPilot known) ⟨[], ∅, []⟩
  { pilots := averaged arith board.pilots board.pointSums
    perPilotLimit := perPilot
    totalPasses := rows.length }

/-- `list_by_pilot` on the rows of the database, newest first. -/
def listRowsByPilot (rows : List (PassRow ρ δ)) (perPilot : Option Nat) :
    LsoPilotsResponse ρ δ := listByPilot arith (rows.map keyedPass) perPilot

end

/-! ## 3. Names and UCIDs -/

/-- A row with this name carries this UCID. -/
def Uses (rows : List (KeyedPass ρ δ)) (name u : String) : Prop :=
  ∃ row ∈ rows, row.pass.pilotName = name ∧ row.ucid = some u

/-- A name occurs with this UCID and no other. -/
def SoleUcid (rows : List (KeyedPass ρ δ)) (name u : String) : Prop :=
  Uses rows name u ∧ ∀ v, Uses rows name v → v = u

/-- What the map of names may say about a name, in terms of the rows. -/
def NameSays (rows : List (KeyedPass ρ δ)) (name : String) : Option (Option String) → Prop
  | none => ∀ u, ¬ Uses rows name u
  | some (some u) => SoleUcid rows name u
  | some none => ∃ u v, u ≠ v ∧ Uses rows name u ∧ Uses rows name v

theorem uses_concat {rows : List (KeyedPass ρ δ)} {row : KeyedPass ρ δ} {name u : String} :
    Uses (rows ++ [row]) name u ↔
      Uses rows name u ∨ (row.pass.pilotName = name ∧ row.ucid = some u) := by
  simp [Uses, or_and_right, exists_or]

theorem NameSays.congr {rows rows' : List (KeyedPass ρ δ)} {name : String}
    (h : ∀ u, Uses rows' name u ↔ Uses rows name u) {state : Option (Option String)}
    (hs : NameSays rows name state) : NameSays rows' name state := by
  cases state with
  | none => exact fun u hu => hs u ((h u).mp hu)
  | some seen =>
    cases seen with
    | none =>
      obtain ⟨u, v, hne, hu, hv⟩ := hs
      exact ⟨u, v, hne, (h u).mpr hu, (h v).mpr hv⟩
    | some u => exact ⟨(h u).mpr hs.1, fun v hv => hs.2 v ((h v).mp hv)⟩

theorem lookup_noteName_of_ne (known : NameMap) {row : KeyedPass ρ δ} {name : String}
    (h : name ≠ row.pass.pilotName) : (noteName known row).lookup name = known.lookup name := by
  unfold noteName
  cases row.ucid with
  | none => rfl
  | some ucid =>
    cases known.lookup row.pass.pilotName with
    | none => exact AList.lookup_insert_ne h
    | some seen => exact AList.lookup_insert_ne h

/-- A row with a UCID, read into the map. -/
theorem nameSays_noteName {rows : List (KeyedPass ρ δ)} {known : NameMap} {row : KeyedPass ρ δ}
    {u : String} (hu : row.ucid = some u)
    (ih : NameSays rows row.pass.pilotName (known.lookup row.pass.pilotName)) :
    NameSays (rows ++ [row]) row.pass.pilotName
      ((noteName known row).lookup row.pass.pilotName) := by
  have hnew : Uses (rows ++ [row]) row.pass.pilotName u := uses_concat.mpr (.inr ⟨rfl, hu⟩)
  have hold : ∀ v, Uses rows row.pass.pilotName v → Uses (rows ++ [row]) row.pass.pilotName v :=
    fun v hv => uses_concat.mpr (.inl hv)
  have hcases : ∀ v, Uses (rows ++ [row]) row.pass.pilotName v →
      Uses rows row.pass.pilotName v ∨ v = u := by
    intro v hv
    rcases uses_concat.mp hv with hv | ⟨-, hv⟩
    · exact .inl hv
    · exact .inr (Option.some.inj (hv.symm.trans hu))
  cases hl : known.lookup row.pass.pilotName with
  | none =>
    rw [hl] at ih
    have hnow : (noteName known row).lookup row.pass.pilotName = some (some u) := by
      simp [noteName, hu, hl]
    rw [hnow]
    exact ⟨hnew, fun v hv => (hcases v hv).resolve_left (ih v)⟩
  | some seen =>
    rw [hl] at ih
    have hnow : (noteName known row).lookup row.pass.pilotName =
        some (if seen = some u then seen else none) := by
      simp [noteName, hu, hl]
    rw [hnow]
    by_cases hseen : seen = some u
    · rw [if_pos hseen, hseen]
      rw [hseen] at ih
      exact ⟨hnew, fun v hv => (hcases v hv).elim (ih.2 v) id⟩
    · rw [if_neg hseen]
      cases seen with
      | none =>
        obtain ⟨v, w, hne, hv, hw⟩ := ih
        exact ⟨v, w, hne, hold v hv, hold w hw⟩
      | some w =>
        have hne : w ≠ u := fun heq => hseen (congrArg some heq)
        exact ⟨w, u, hne, hold w ih.1, hnew⟩

/-- **The map of names.**  Each name maps to the state of its UCIDs among the rows. -/
theorem nameSays_lookup (rows : List (KeyedPass ρ δ)) (name : String) :
    NameSays rows name ((nameToUcid rows).lookup name) := by
  induction rows using List.reverseRecOn with
  | nil => simp [nameToUcid, NameSays, Uses]
  | append_singleton rows row ih =>
    have hsnoc : nameToUcid (rows ++ [row]) = noteName (nameToUcid rows) row := by
      simp [nameToUcid]
    rw [hsnoc]
    by_cases hname : name = row.pass.pilotName
    · subst hname
      cases hucid : row.ucid with
      | none =>
        have hsame : noteName (nameToUcid rows) row = nameToUcid rows := by
          simp [noteName, hucid]
        rw [hsame]
        exact ih.congr fun u => by simp [uses_concat, hucid]
      | some u => exact nameSays_noteName hucid ih
    · rw [lookup_noteName_of_ne _ hname]
      exact ih.congr fun u => by simp [uses_concat, Ne.symm hname]

theorem lookup_nameToUcid {rows : List (KeyedPass ρ δ)} {name u : String} :
    (nameToUcid rows).lookup name = some (some u) ↔ SoleUcid rows name u := by
  have h := nameSays_lookup rows name
  constructor
  · intro hl
    rw [hl] at h
    exact h
  · intro hu
    cases hl : (nameToUcid rows).lookup name with
    | none => rw [hl] at h; exact absurd hu.1 (h u)
    | some seen =>
      rw [hl] at h
      cases seen with
      | none =>
        obtain ⟨v, w, hne, hv, hw⟩ := h
        exact absurd ((hu.2 v hv).trans (hu.2 w hw).symm) hne
      | some w => rw [hu.2 w h.1]

/-- **The key of a row** is a UCID: its own, or the only one of its name. -/
theorem groupKey_eq_ucid {rows : List (KeyedPass ρ δ)} {row : KeyedPass ρ δ} {u : String} :
    groupKey (nameToUcid rows) row = .ucid u ↔
      row.ucid = some u ∨ (row.ucid = none ∧ SoleUcid rows row.pass.pilotName u) := by
  rw [← lookup_nameToUcid]
  unfold groupKey
  cases row.ucid with
  | some v => simp
  | none =>
    rcases (nameToUcid rows).lookup row.pass.pilotName with _ | _ | w <;> simp

/-- Or it is a name: its own, when no single UCID has it. -/
theorem groupKey_eq_name {rows : List (KeyedPass ρ δ)} {row : KeyedPass ρ δ} {n : String} :
    groupKey (nameToUcid rows) row = .name n ↔
      row.ucid = none ∧ row.pass.pilotName = n ∧ ∀ u, ¬ SoleUcid rows row.pass.pilotName u := by
  simp only [← lookup_nameToUcid]
  unfold groupKey
  cases row.ucid with
  | some v => simp
  | none =>
    rcases (nameToUcid rows).lookup row.pass.pilotName with _ | _ | w <;> simp

/-! ## 4. The pilot of a group -/

/-- The newest passes of a group, as many as the cap allows. -/
def capped (perPilot : Option Nat) (passes : List (LsoPass ρ δ)) : List (LsoPass ρ δ) :=
  match perPilot with
  | none => passes
  | some cap => passes.take cap

/-- The names other than `name`, in order of first occurrence. -/
def otherNames (name : String) (names : List String) : List String :=
  names.eraseDups.filter fun n => n ≠ name

theorem mem_otherNames {name n : String} {names : List String} :
    n ∈ otherNames name names ↔ n ∈ names ∧ n ≠ name := by
  simp [otherNames, List.mem_eraseDups]

theorem nodup_otherNames (name : String) (names : List String) : (otherNames name names).Nodup :=
  (nodup_eraseDups names).filter _

theorem otherNames_concat (name : String) (names : List String) (n : String) :
    otherNames name (names ++ [n]) =
      if n ≠ name ∧ n ∉ otherNames name names then otherNames name names ++ [n]
      else otherNames name names := by
  by_cases hmem : n ∈ names
  · have hold : ¬(n ≠ name ∧ n ∉ otherNames name names) :=
      fun h => h.2 (mem_otherNames.mpr ⟨hmem, h.1⟩)
    rw [if_neg hold, otherNames, eraseDups_concat, if_pos hmem, otherNames]
  · have hnew : n ∉ otherNames name names := fun h => hmem (mem_otherNames.mp h).1
    rw [otherNames, eraseDups_concat, if_neg hmem, List.filter_append]
    by_cases hn : n = name
    · simp [hn, otherNames]
    · rw [if_pos ⟨hn, hnew⟩]
      simp [hn, otherNames]

section

variable (arith : Arithmetic ρ) (perPilot : Option Nat)

/-- The sum of the defined points, in the order of the passes. -/
def pointSum (passes : List (LsoPass ρ δ)) : ρ :=
  (passes.filterMap (passPoints arith)).foldl arith.add (arith.literal 0)

/-- The mean of the defined points, if there are any. -/
def meanPoints (passes : List (LsoPass ρ δ)) : Option ρ :=
  if (passes.filterMap (passPoints arith)).length > 0 then
    some (arith.divCount (pointSum arith passes) (passes.filterMap (passPoints arith)).length)
  else none

/-- A group of passes summed up, with the mean left open. -/
def tally (passes : List (LsoPass ρ δ)) : LsoPilot ρ δ :=
  let name := (passes.head?.map LsoPass.pilotName).getD ""
  { pilotName := name
    aliases := otherNames name (passes.map LsoPass.pilotName)
    totalPasses := passes.length
    gradedPasses := (passes.filterMap (passPoints arith)).length
    avgPoints := none
    lastPassAt := (passes.head?.map LsoPass.gradeDate).getD ""
    passes := capped perPilot passes }

/-- A group of passes summed up. -/
def summary (passes : List (LsoPass ρ δ)) : LsoPilot ρ δ :=
  { tally arith perPilot passes with avgPoints := meanPoints arith passes }

variable {arith perPilot}

theorem capped_concat (passes : List (LsoPass ρ δ)) (pass : LsoPass ρ δ) :
    capped perPilot (passes ++ [pass]) =
      if perPilot.all fun cap => (capped perPilot passes).length < cap then
        capped perPilot passes ++ [pass]
      else capped perPilot passes := by
  cases perPilot with
  | none => rfl
  | some cap =>
    simp only [capped, Option.all_some, decide_eq_true_eq, List.length_take]
    by_cases h : passes.length < cap
    · rw [if_pos (by omega), List.take_of_length_le (by simp; omega),
        List.take_of_length_le (by omega)]
    · rw [if_neg (by omega), List.take_append_of_le_length (by omega)]

/-- **Counting a pass** sums up the group with one pass more. -/
theorem countPass_tally {passes : List (LsoPass ρ δ)} (h : passes ≠ []) (pass : LsoPass ρ δ) :
    countPass arith perPilot pass (tally arith perPilot passes) =
      tally arith perPilot (passes ++ [pass]) := by
  obtain ⟨first, rest, rfl⟩ := List.exists_cons_of_ne_nil h
  have haliases := otherNames_concat first.pilotName ((first :: rest).map LsoPass.pilotName)
    pass.pilotName
  have hgraded : ((first :: rest ++ [pass]).filterMap (passPoints arith)).length =
      match passPoints arith pass with
      | some _ => ((first :: rest).filterMap (passPoints arith)).length + 1
      | none => ((first :: rest).filterMap (passPoints arith)).length := by
    rw [List.filterMap_append, List.length_append]
    cases hp : passPoints arith pass <;> simp [hp]
  unfold countPass tally
  simp only [List.cons_append, List.head?_cons, Option.map_some, Option.getD_some]
  rw [← List.cons_append, List.map_append, List.map_singleton, haliases, hgraded, capped_concat,
    List.length_append, List.length_singleton]
  rfl

/-- The first pass of a group opens the pilot it is counted in. -/
theorem countPass_openPilot (pass : LsoPass ρ δ) :
    countPass arith perPilot pass (openPilot pass) = tally arith perPilot [pass] := by
  have hnone : capped perPilot ([] : List (LsoPass ρ δ)) = [] := by
    cases perPilot <;> simp [capped]
  have hcap := @capped_concat ρ δ perPilot [] pass
  rw [List.nil_append, hnone, List.nil_append] at hcap
  unfold countPass tally openPilot
  simp only [List.head?_cons, Option.map_some, Option.getD_some, hcap]
  cases hp : passPoints arith pass <;> simp [hp, otherNames, List.eraseDups_cons]

variable (arith) in
/-- What a pass adds to the sum of its pilot. -/
def addPoints (pass : LsoPass ρ δ) (sum : ρ) : ρ :=
  match passPoints arith pass with
  | some points => arith.add sum points
  | none => sum

theorem modify_addPoints (sums : List ρ) (slot : Nat) (pass : LsoPass ρ δ) :
    (match passPoints arith pass with
      | some points => sums.modify slot fun sum => arith.add sum points
      | none => sums) = sums.modify slot (addPoints arith pass) := by
  unfold addPoints
  cases passPoints arith pass with
  | some points => rfl
  | none => exact (List.modify_id slot sums).symm

theorem pointSum_concat (passes : List (LsoPass ρ δ)) (pass : LsoPass ρ δ) :
    pointSum arith (passes ++ [pass]) = addPoints arith pass (pointSum arith passes) := by
  unfold pointSum addPoints
  cases hp : passPoints arith pass <;> simp [hp]

/-! ## 5. The loop -/

theorem averaged_map {κ : Type*} (ks : List κ) (group : κ → List (LsoPass ρ δ)) :
    averaged arith (ks.map fun k => tally arith perPilot (group k))
        (ks.map fun k => pointSum arith (group k)) =
      ks.map fun k => summary arith perPilot (group k) := by
  induction ks with
  | nil => rfl
  | cons k ks ih =>
    simp only [List.map_cons, averaged, ih, List.cons.injEq, and_true]
    unfold summary meanPoints
    by_cases h : ((group k).filterMap (passPoints arith)).length > 0
    · have hgraded : (tally arith perPilot (group k)).gradedPasses > 0 := h
      rw [if_pos h, if_pos hgraded]
      rfl
    · have hgraded : ¬(tally arith perPilot (group k)).gradedPasses > 0 := h
      rw [if_neg h, if_neg hgraded]
      rfl

/-- The passes of the rows that have a key. -/
def passesOf (key : KeyedPass ρ δ → GroupKey) (rows : List (KeyedPass ρ δ)) (k : GroupKey) :
    List (LsoPass ρ δ) := (groupOf key rows k).map KeyedPass.pass

theorem passesOf_concat (key : KeyedPass ρ δ → GroupKey) (rows : List (KeyedPass ρ δ))
    (row : KeyedPass ρ δ) (k : GroupKey) :
    passesOf key (rows ++ [row]) k =
      passesOf key rows k ++ if key row = k then [row.pass] else [] := by
  unfold passesOf
  rw [groupOf_concat, List.map_append]
  split <;> rfl

variable (arith perPilot) in
/-- The variables of the loop after the rows `rows`: one slot per key, in order of first
occurrence. -/
structure BoardOf (key : KeyedPass ρ δ → GroupKey) (rows : List (KeyedPass ρ δ))
    (board : Board ρ δ) : Prop where
  pilots : board.pilots =
    (keysOf key rows).map fun k => tally arith perPilot (passesOf key rows k)
  pointSums : board.pointSums = (keysOf key rows).map fun k => pointSum arith (passesOf key rows k)
  index : ∀ k, board.index.lookup k =
    if k ∈ keysOf key rows then some ((keysOf key rows).idxOf k) else none

/-- One row changes the entries of its slot. -/
theorem Board.add_eq {known : NameMap} {board board' : Board ρ δ} {row : KeyedPass ρ δ}
    {slot : Nat} (h : board.slot arith (groupKey known row) row.pass = (board', slot)) :
    board.add arith perPilot known row =
      { pilots := board'.pilots.modify slot (countPass arith perPilot row.pass)
        index := board'.index
        pointSums := board'.pointSums.modify slot (addPoints arith row.pass) } := by
  unfold Board.add
  rw [h, ← modify_addPoints]

/-- A row of a pilot that is on the board. -/
theorem BoardOf.add_old {known : NameMap} {rows : List (KeyedPass ρ δ)} {board : Board ρ δ}
    (h : BoardOf arith perPilot (groupKey known) rows board) {row : KeyedPass ρ δ}
    (hold : groupKey known row ∈ keysOf (groupKey known) rows) :
    BoardOf arith perPilot (groupKey known) (rows ++ [row])
      (board.add arith perPilot known row) := by
  have hkeys : keysOf (groupKey known) (rows ++ [row]) = keysOf (groupKey known) rows := by
    rw [keysOf_concat, if_pos hold]
  have hslot : board.slot arith (groupKey known row) row.pass =
      (board, (keysOf (groupKey known) rows).idxOf (groupKey known row)) := by
    rw [Board.slot, h.index, if_pos hold]
  rw [Board.add_eq hslot]
  refine ⟨?_, ?_, ?_⟩
  · show board.pilots.modify _ _ = _
    rw [h.pilots, modify_map_idxOf nodup_keysOf hold, hkeys]
    refine List.map_congr_left ?_
    intro k hk
    rw [passesOf_concat]
    by_cases hrow : k = groupKey known row
    · have hne : passesOf (groupKey known) rows k ≠ [] := fun hnil =>
        groupOf_ne_nil hk (List.map_eq_nil_iff.mp hnil)
      rw [if_pos hrow, if_pos hrow.symm, countPass_tally hne]
    · rw [if_neg hrow, if_neg (Ne.symm hrow), List.append_nil]
  · show board.pointSums.modify _ _ = _
    rw [h.pointSums, modify_map_idxOf nodup_keysOf hold, hkeys]
    refine List.map_congr_left ?_
    intro k _
    rw [passesOf_concat]
    by_cases hrow : k = groupKey known row
    · rw [if_pos hrow, if_pos hrow.symm, pointSum_concat]
    · rw [if_neg hrow, if_neg (Ne.symm hrow), List.append_nil]
  · rw [hkeys]
    exact h.index

/-- A row that opens a pilot. -/
theorem BoardOf.add_new {known : NameMap} {rows : List (KeyedPass ρ δ)} {board : Board ρ δ}
    (h : BoardOf arith perPilot (groupKey known) rows board) {row : KeyedPass ρ δ}
    (hnew : groupKey known row ∉ keysOf (groupKey known) rows) :
    BoardOf arith perPilot (groupKey known) (rows ++ [row])
      (board.add arith perPilot known row) := by
  have hkeys : keysOf (groupKey known) (rows ++ [row]) =
      keysOf (groupKey known) rows ++ [groupKey known row] := by
    rw [keysOf_concat, if_neg hnew]
  have hlenP : board.pilots.length = (keysOf (groupKey known) rows).length := by
    rw [h.pilots, List.length_map]
  have hlenS : board.pointSums.length = board.pilots.length := by
    rw [hlenP, h.pointSums, List.length_map]
  have hslot : board.slot arith (groupKey known row) row.pass =
      ({ pilots := board.pilots ++ [openPilot row.pass]
         index := board.index.insert (groupKey known row) board.pilots.length
         pointSums := board.pointSums ++ [arith.literal 0] }, board.pilots.length) := by
    rw [Board.slot, h.index, if_neg hnew]
  have hothers : ∀ k ∈ keysOf (groupKey known) rows,
      passesOf (groupKey known) (rows ++ [row]) k = passesOf (groupKey known) rows k := by
    intro k hk
    have hne : groupKey known row ≠ k := fun heq => hnew (heq ▸ hk)
    rw [passesOf_concat, if_neg hne, List.append_nil]
  have hthis : passesOf (groupKey known) (rows ++ [row]) (groupKey known row) = [row.pass] := by
    rw [passesOf_concat, if_pos rfl, passesOf, groupOf_eq_nil hnew, List.map_nil, List.nil_append]
  rw [Board.add_eq hslot]
  refine ⟨?_, ?_, ?_⟩
  · show (board.pilots ++ [openPilot row.pass]).modify board.pilots.length _ = _
    rw [modify_concat_length, hkeys, List.map_append, List.map_singleton, hthis, h.pilots,
      countPass_openPilot]
    congr 1
    exact List.map_congr_left fun k hk => by rw [hothers k hk]
  · show (board.pointSums ++ [arith.literal 0]).modify board.pilots.length _ = _
    rw [← hlenS, modify_concat_length, hkeys, List.map_append, List.map_singleton, hthis,
      h.pointSums]
    congr 1
    · exact List.map_congr_left fun k hk => by rw [hothers k hk]
    · exact congrArg (fun s => [s]) (pointSum_concat [] row.pass).symm
  · intro k
    show (board.index.insert (groupKey known row) board.pilots.length).lookup k = _
    rw [hkeys]
    by_cases hk : k = groupKey known row
    · subst hk
      rw [AList.lookup_insert, if_pos (by simp), List.idxOf_append_of_notMem hnew, hlenP]
      simp
    · rw [AList.lookup_insert_ne hk, h.index]
      by_cases hmem : k ∈ keysOf (groupKey known) rows
      · rw [if_pos hmem, if_pos (by simp only [List.mem_append, hmem, true_or]),
          List.idxOf_append_of_mem hmem]
      · rw [if_neg hmem, if_neg (by simpa only [List.mem_append, hmem, false_or,
          List.mem_singleton] using hk)]

/-- **The loop.**  The board after all rows. -/
theorem boardOf_foldl (known : NameMap) (rows : List (KeyedPass ρ δ)) :
    BoardOf arith perPilot (groupKey known) rows
      (rows.foldl (Board.add arith perPilot known) ⟨[], ∅, []⟩) := by
  induction rows using List.reverseRecOn with
  | nil => exact ⟨rfl, rfl, fun k => by simp [keysOf]⟩
  | append_singleton rows row ih =>
    rw [List.foldl_append, List.foldl_cons, List.foldl_nil]
    by_cases hmem : groupKey known row ∈ keysOf (groupKey known) rows
    · exact ih.add_old hmem
    · exact ih.add_new hmem

/-- **What `list_by_pilot` computes:** the groups of the rows under their keys, summed up. -/
theorem listByPilot_pilots (rows : List (KeyedPass ρ δ)) :
    (listByPilot arith rows perPilot).pilots =
      (groups (groupKey (nameToUcid rows)) rows).map fun g =>
        summary arith perPilot (g.map KeyedPass.pass) := by
  have h : BoardOf arith perPilot (groupKey (nameToUcid rows)) rows _ :=
    boardOf_foldl (nameToUcid rows) rows
  unfold listByPilot groups
  show averaged arith _ _ = _
  rw [h.pilots, h.pointSums, averaged_map, List.map_map]
  rfl

end

end DcsDashboard.Lso
