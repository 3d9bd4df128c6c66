/-
# The Foothold leaderboard

`get_foothold_data` (`foothold.rs`) lets Lua evaluate the save files of a campaign and merges two
tables of players: their credits from the ranks file, and their statistics from the file of the
active mission.  Raw names are cleaned of backslashes and quotes, and the players are collected in
a hash map under their clean names.

Neither Lua nor the hash map says in which order it hands out its entries (`Orders`).  The players
are sorted by credits where the mission file is read (`parse_foothold_ca`), and not where it does
not exist.  `leaderboard_iff` says when the board is one board nevertheless.
-/
import DcsDashboard.Lib.KeyedRows
import DcsDashboard.Lib.LuaRows
import DcsDashboard.Lib.RustText
import DcsDashboard.Lib.WindowsPath
import Mathlib.Algebra.Order.Ring.Rat

namespace DcsDashboard.Foothold

open Lib Lua

/-! ## 1. What is read -/

structure FootholdPlayer where
  name : List Char
  credits : Double
  points : Double
  pointsSpent : Double
  killsAir : ℤ
  killsHelo : ℤ
  killsSam : ℤ
  killsGround : ℤ
  killsInfantry : ℤ
  deaths : ℤ
  deriving DecidableEq

/-- `FootholdPlayer { name, ..Default::default() }`. -/
def FootholdPlayer.new (name : List Char) : FootholdPlayer :=
  ⟨name, .finite 0, .finite 0, .finite 0, 0, 0, 0, 0, 0, 0⟩

structure FootholdMission where
  id : ℤ
  title : List Char
  description : List Char
  isRunning : Bool

structure FootholdEjectedPilot where
  id : ℤ
  coalition : ℤ
  playerName : List Char
  lat : Double
  lon : Double
  alt : Double
  timestamp : Double

structure FootholdZone where
  name : List Char
  side : ℤ
  level : ℤ
  lat : Double
  lon : Double
  units : List (List Char)

structure FootholdData where
  players : List FootholdPlayer
  missions : List FootholdMission
  ejectedPilots : List FootholdEjectedPilot
  zones : List FootholdZone

/-- The Lua interpreter, and how it hands values over. -/
structure Interpreter where
  /-- the globals of a new state -/
  globals : Entries
  /-- a script: whether it succeeds, and the globals afterwards -/
  exec : Entries → List Char → Bool × Entries
  nameKey : Key → Option (List Char)
  intKey : Key → Option ℤ
  f64 : Value → Option Double
  i64 : Value → Option ℤ
  string : Value → Option (List Char)
  boolean : Value → Option Bool

/-- The orders in which tables and the hash map hand out what they hold. -/
structure Orders where
  pairs : Entries → Entries
  values : List FootholdPlayer → List FootholdPlayer
  pairs_perm : ∀ t, (pairs t).Perm t
  values_perm : ∀ ps, (values ps).Perm ps

/-- The save files: whether a path exists, and its text if it can be read. -/
abbrev Files := List Char → Option (Option (List Char))

/-- A value of a table under a name. -/
def field (t : Entries) (name : String) : Value := t.get (fieldKey name.toList)

def asTable : Value → Option Entries
  | .table t => some t
  | _ => none

/-- `get(name).unwrap_or(default)`. -/
def getOr {β : Type} (convert : Value → Option β) (default : β) (t : Entries) (name : String) : β :=
  (convert (field t name)).getD default

/-- The entries of a table up to the first one that cannot be converted, where `mlua` stops. -/
def convertPairs {κ ν : Type} (key : Key → Option κ) (value : Value → Option ν) :
    Entries → List (κ × ν)
  | [] => []
  | (k, v) :: t =>
    match key k, value v with
    | some k, some v => (k, v) :: convertPairs key value t
    | _, _ => []

/-- `partial_cmp`. -/
def partialCmp : Double → Double → Option Ordering
  | .finite x, .finite y => some (if x < y then .lt else if x = y then .eq else .gt)
  | .inf negative, .finite _ => some (if negative then .lt else .gt)
  | .finite _, .inf negative => some (if negative then .gt else .lt)
  | .inf a, .inf b => some (if a = b then .eq else if a then .lt else .gt)
  | .nan, _ | _, .nan => none

/-- `sort_by`: a stable merge sort. -/
def sortByOrdering {α : Type} (cmp : α → α → Ordering) (l : List α) : List α :=
  l.mergeSort fun a b => cmp a b != .gt

/-! ## 2. The merge -/

section
variable (lua : Interpreter) (orders : Orders)

/-- `pairs`, and what of it can be converted. -/
def pairs {κ ν : Type} (key : Key → Option κ) (value : Value → Option ν) (t : Entries) :
    List (κ × ν) :=
  convertPairs key value (orders.pairs t)

/-- Strip out slashes and extra quotes from the raw names. -/
def cleanName (name : List Char) : List Char := (name.filter (· ≠ '\\')).filter (· ≠ '"')

def credits (row : Entries) : Double := getOr lua.f64 (.finite 0) row "credits"

/-- A row of the ranks table. -/
def rankedPlayer (row : List Char × Entries) : FootholdPlayer :=
  { FootholdPlayer.new (cleanName row.1) with credits := credits lua row.2 }

/-- The statistics of a row of `playerStats`. -/
def withStats (stats : Entries) (p : FootholdPlayer) : FootholdPlayer where
  name := p.name
  credits := p.credits
  points := getOr lua.f64 (.finite 0) stats "Points"
  pointsSpent := getOr lua.f64 (.finite 0) stats "Points spent"
  killsAir := getOr lua.i64 0 stats "Air"
  killsHelo := getOr lua.i64 0 stats "Helo"
  killsSam := getOr lua.i64 0 stats "SAM"
  killsGround := getOr lua.i64 0 stats "Ground Units"
  killsInfantry := getOr lua.i64 0 stats "Infantry"
  deaths := getOr lua.i64 0 stats "Deaths"

/-- The name a row is stored under. -/
def rowName (row : List Char × Entries) : List Char := cleanName row.1

abbrev PlayerMap := HashMap (List Char) FootholdPlayer

/-- The players of the ranks table. -/
def collectRanks (rows : List (List Char × Entries)) : PlayerMap :=
  rows.foldl (fun m row => m.alter (rowName row) fun _ => rankedPlayer lua row) ∅

/-- The statistics are entered for players that are known and for new ones. -/
def collectStats (rows : List (List Char × Entries)) (m : PlayerMap) : PlayerMap :=
  rows.foldl (fun m row => m.alter (rowName row) fun known =>
    withStats lua row.2 (known.getD (.new (rowName row)))) m

/-- A script is run; the globals are those after it, also where it fails. -/
def runFile (globals : Entries) (content : Option (List Char)) : Option Entries × Entries :=
  match content with
  | none => (none, globals)
  | some script =>
    let (ok, after) := lua.exec globals script
    (if ok then some after else none, after)

/-- `parse_foothold_ranks`. -/
def parseFootholdRanks (content : Option (List Char)) : Option PlayerMap × Entries :=
  let (ran, after) := runFile lua lua.globals content
  (do
    let globals ← ran
    let rankSave ← asTable (field globals "RankSave")
    let players ← asTable (field rankSave "players")
    return collectRanks lua (pairs orders lua.nameKey asTable players), after)

def parseMission (e : ℤ × Entries) : FootholdMission where
  id := e.1
  title := getOr lua.string [] e.2 "title"
  description := getOr lua.string [] e.2 "description"
  isRunning := getOr lua.boolean false e.2 "isRunning"

def parseEjectedPilot (e : ℤ × Entries) : FootholdEjectedPilot where
  id := e.1
  coalition := getOr lua.i64 0 e.2 "coalition"
  playerName := getOr lua.string [] e.2 "playerName"
  lat := getOr lua.f64 (.finite 0) e.2 "latitude"
  lon := getOr lua.f64 (.finite 0) e.2 "longitude"
  alt := getOr lua.f64 (.finite 0) e.2 "altitude"
  timestamp := getOr lua.f64 (.finite 0) e.2 "timestamp"

/-- The entries of a table that may be missing. -/
def pairsOf {κ ν : Type} (key : Key → Option κ) (value : Value → Option ν) (t : Entries)
    (name : String) : List (κ × ν) :=
  ((asTable (field t name)).map (pairs orders key value)).getD []

def parseZone (e : List Char × Entries) : FootholdZone where
  name := e.1
  side := getOr lua.i64 0 e.2 "side"
  level := getOr lua.i64 0 e.2 "level"
  lat := ((asTable (field e.2 "lat_long")).map fun t =>
    getOr lua.f64 (.finite 0) t "latitude").getD (.finite 0)
  lon := ((asTable (field e.2 "lat_long")).map fun t =>
    getOr lua.f64 (.finite 0) t "longitude").getD (.finite 0)
  units := (pairsOf orders lua.intKey asTable e.2 "remainingUnits").flatMap fun group =>
    (pairs orders lua.intKey lua.string group.2).map Prod.snd

/-- The comparison the players are sorted with. -/
def byCredits (a b : FootholdPlayer) : Ordering := (partialCmp b.credits a.credits).getD .eq

/-- `parse_foothold_ca`, in a state with these globals. -/
def parseFootholdCa (globals : Entries) (content : Option (List Char)) (playerMap : PlayerMap) :
    Option FootholdData := do
  let globals ← (runFile lua globals content).1
  let zonePersistance ← asTable (field globals "zonePersistance")
  let playerMap :=
    collectStats lua (pairsOf orders lua.nameKey asTable zonePersistance "playerStats") playerMap
  return {
    players := sortByOrdering byCredits (orders.values playerMap.values)
    missions :=
      (pairsOf orders lua.intKey asTable zonePersistance "missions").map (parseMission lua)
    ejectedPilots :=
      (pairsOf orders lua.intKey asTable zonePersistance "ejectedPilots").map
        (parseEjectedPilot lua)
    zones :=
      (pairsOf orders lua.nameKey asTable zonePersistance "zones").map (parseZone lua orders) }

section
variable (files : Files) (savesDir : List Char)

def ranksName : List Char := "Foothold_Ranks.lua".toList

/-- A file of the saves directory. -/
def savedFile (name : List Char) : Option (Option (List Char)) :=
  files (WindowsPath.join savesDir name)

/-- The name of the mission file: that of the path in the first line of `foothold.status`. -/
def caFilename : List Char :=
  let fallback := "FootHold_CA_v0.2.lua".toList
  match savedFile files savesDir "foothold.status".toList with
  | some (some content) =>
    let line := trim ((lines content).head?.getD [])
    if line = [] then fallback else (WindowsPath.fileName line).getD fallback
  | _ => fallback

/-- The players of the ranks file, if there are any, and the globals after it. -/
def rankedPlayers : PlayerMap × Entries :=
  match savedFile files savesDir ranksName with
  | none => (∅, lua.globals)
  | some content =>
    let (players, after) := parseFootholdRanks lua orders content
    (players.getD ∅, after)

/-- `get_foothold_data`. -/
def getFootholdData : Option FootholdData :=
  let (playerMap, globals) := rankedPlayers lua orders files savesDir
  match savedFile files savesDir (caFilename files savesDir) with
  | some content => parseFootholdCa lua orders globals content playerMap
  | none => some ⟨orders.values playerMap.values, [], [], []⟩

end

end

/-! ## 3. The board -/

section
variable (lua : Interpreter)

/-- Every key is a name, and every value a row. -/
def WellFormed (t : Entries) : Prop := ∀ e ∈ t, (lua.nameKey e.1).isSome ∧ (asTable e.2).isSome

/-- The rows of a well-formed table. -/
def tableRows (t : Entries) : List (List Char × Entries) :=
  t.filterMap fun e => (lua.nameKey e.1).bind fun name => (asTable e.2).map fun row => (name, row)

/-- What the row of a player says. -/
def ofRow {β : Type} (convert : Value → Option β) (default : β) (rows : List (List Char × Entries))
    (name : List Char) (key : String) : β :=
  ((rowAt rowName rows name).map fun row => getOr convert default row.2 key).getD default

/-- What the board should say of a player. -/
def boardEntry (ranks stats : List (List Char × Entries)) (name : List Char) : FootholdPlayer where
  name := name
  credits := ofRow lua.f64 (.finite 0) ranks name "credits"
  points := ofRow lua.f64 (.finite 0) stats name "Points"
  pointsSpent := ofRow lua.f64 (.finite 0) stats name "Points spent"
  killsAir := ofRow lua.i64 0 stats name "Air"
  killsHelo := ofRow lua.i64 0 stats name "Helo"
  killsSam := ofRow lua.i64 0 stats name "SAM"
  killsGround := ofRow lua.i64 0 stats name "Ground Units"
  killsInfantry := ofRow lua.i64 0 stats name "Infantry"
  deaths := ofRow lua.i64 0 stats name "Deaths"

/-- One player for each name in either table. -/
structure IsMerge (ranks stats : List (List Char × Entries)) (ps : List FootholdPlayer) : Prop where
  distinct : (ps.map FootholdPlayer.name).Nodup
  names : ∀ n, n ∈ ps.map FootholdPlayer.name ↔ n ∈ ranks.map rowName ∨ n ∈ stats.map rowName
  entries : ∀ p ∈ ps, p = boardEntry lua ranks stats p.name

/-- Finite credits, and not less than those of the other. -/
def AtLeast (p q : FootholdPlayer) : Prop :=
  ∃ x y, p.credits = .finite x ∧ q.credits = .finite y ∧ y ≤ x

/-- The merge, sorted by credits. -/
structure IsBoard (ranks stats : List (List Char × Entries)) (ps : List FootholdPlayer) : Prop
    extends IsMerge lua ranks stats ps where
  sorted : ps.Pairwise AtLeast

end

section
variable {lua : Interpreter} {orders : Orders} {t : Entries}
  {ranks stats : List (List Char × Entries)} {ps ps' : List FootholdPlayer}

theorem convertPairs_wellFormed (h : WellFormed lua t) :
    convertPairs lua.nameKey asTable t = tableRows lua t := by
  induction t with
  | nil => rfl
  | cons e t ih =>
    obtain ⟨k, v⟩ := e
    obtain ⟨hk, hv⟩ := h (k, v) (by simp)
    obtain ⟨name, hname⟩ := Option.isSome_iff_exists.mp hk
    obtain ⟨row, hrow⟩ := Option.isSome_iff_exists.mp hv
    have hrest := ih fun e he => h e (List.mem_cons_of_mem _ he)
    simp [convertPairs, tableRows, hname, hrow, hrest]

/-- A well-formed table is handed out whole, in some order. -/
theorem pairs_perm (h : WellFormed lua t) :
    (pairs orders lua.nameKey asTable t).Perm (tableRows lua t) := by
  have hperm := orders.pairs_perm t
  rw [pairs, convertPairs_wellFormed fun e he => h e (hperm.mem_iff.mp he)]
  exact hperm.filterMap _

theorem boardEntry_perm {ranks' stats' : List (List Char × Entries)}
    (hranks : (ranks.map rowName).Nodup) (hstats : (stats.map rowName).Nodup)
    (hperm : ranks.Perm ranks') (hperm' : stats.Perm stats') (n : List Char) :
    boardEntry lua ranks stats n = boardEntry lua ranks' stats' n := by
  simp only [boardEntry, ofRow, rowAt_perm hranks hperm, rowAt_perm hstats hperm']

theorem lookup_collectRanks (hranks : (ranks.map rowName).Nodup) (n : List Char) :
    (collectRanks lua ranks).lookup n = (rowAt rowName ranks n).map (rankedPlayer lua) := by
  rw [collectRanks, HashMap.lookup_foldl_alter hranks fun row _ => rankedPlayer lua row]
  simp

/-- **The outer join.**  The map holds the players of either table. -/
theorem lookup_collectStats (hranks : (ranks.map rowName).Nodup)
    (hstats : (stats.map rowName).Nodup) (n : List Char) :
    (collectStats lua stats (collectRanks lua ranks)).lookup n =
      if n ∈ ranks.map rowName ∨ n ∈ stats.map rowName then some (boardEntry lua ranks stats n)
      else none := by
  rw [collectStats, HashMap.lookup_foldl_alter hstats fun row known =>
    withStats lua row.2 (known.getD (.new (rowName row))), lookup_collectRanks hranks]
  have hmem : ∀ rows : List (List Char × Entries),
      n ∈ rows.map rowName ↔ (rowAt rowName rows n).isSome := by
    intro rows
    rw [← not_iff_not, Bool.not_eq_true, Option.isSome_eq_false_iff, Option.isNone_iff_eq_none,
      rowAt_eq_none]
    simp
  simp only [hmem]
  cases hrank : rowAt rowName ranks n with
  | none =>
    cases hstat : rowAt rowName stats n with
    | none => simp
    | some row =>
      obtain ⟨-, hname⟩ := mem_of_rowAt hstat
      simp [boardEntry, ofRow, hrank, hstat, withStats, FootholdPlayer.new, hname]
  | some rank =>
    have hname : cleanName rank.1 = n := (mem_of_rowAt hrank).2
    cases hstat : rowAt rowName stats n with
    | none =>
      simp [boardEntry, ofRow, hrank, hstat, rankedPlayer, FootholdPlayer.new, hname, credits]
    | some row =>
      simp [boardEntry, ofRow, hrank, hstat, withStats, rankedPlayer, FootholdPlayer.new, hname,
        credits]

theorem collectStats_named : HashMap.Named FootholdPlayer.name
    (collectStats lua stats (collectRanks lua ranks)) := by
  refine HashMap.named_foldl_alter ?_ stats (HashMap.named_foldl_alter ?_ ranks ?_)
  · intro row known hknown
    cases known with
    | none => rfl
    | some p => exact hknown p rfl
  · exact fun row _ _ => rfl
  · intro n p hp
    cases hp

/-- The values of the map are the merge, in whatever order they come. -/
theorem isMerge_collect (hranks : (ranks.map rowName).Nodup) (hstats : (stats.map rowName).Nodup)
    (hps : ps.Perm (collectStats lua stats (collectRanks lua ranks)).values) :
    IsMerge lua ranks stats ps where
  distinct := (hps.map _).nodup_iff.mpr collectStats_named.nodup
  names n := by
    rw [(hps.map _).mem_iff, collectStats_named.mem_names, lookup_collectStats hranks hstats]
    split <;> simp_all
  entries p hp := by
    obtain ⟨n, hn⟩ := HashMap.mem_values.mp (hps.mem_iff.mp hp)
    have hname := collectStats_named n p hn
    rw [lookup_collectStats hranks hstats] at hn
    split at hn
    · rw [hname, Option.some.inj hn]
    · cases hn

theorem IsMerge.perm (h : IsMerge lua ranks stats ps) (h' : IsMerge lua ranks stats ps') :
    ps.Perm ps' :=
  perm_of_entries h.distinct h'.distinct (fun n => (h.names n).trans (h'.names n).symm) h.entries
    h'.entries

theorem IsMerge.of_perm {ranks' stats' : List (List Char × Entries)}
    (hranks : (ranks.map rowName).Nodup) (hstats : (stats.map rowName).Nodup)
    (hperm : ranks.Perm ranks') (hperm' : stats.Perm stats') (h : IsMerge lua ranks stats ps) :
    IsMerge lua ranks' stats' ps where
  distinct := h.distinct
  names n := by rw [h.names, (hperm.map rowName).mem_iff, (hperm'.map rowName).mem_iff]
  entries p hp := by rw [← boardEntry_perm hranks hstats hperm hperm', ← h.entries p hp]

theorem IsMerge.reorder (h : IsMerge lua ranks stats ps) (hperm : ps'.Perm ps) :
    IsMerge lua ranks stats ps' where
  distinct := (hperm.map _).nodup_iff.mpr h.distinct
  names n := by rw [(hperm.map _).mem_iff, h.names]
  entries p hp := h.entries p (hperm.mem_iff.mp hp)

/-- **Boards of the same tables** differ in the order of equal credits only. -/
theorem IsBoard.unique (h : IsBoard lua ranks stats ps) (h' : IsBoard lua ranks stats ps') :
    ps.Perm ps' ∧ ps.map FootholdPlayer.credits = ps'.map FootholdPlayer.credits := by
  have hperm := h.toIsMerge.perm h'.toIsMerge
  refine ⟨hperm, ?_⟩
  have hcredits : ∀ {ps : List FootholdPlayer}, ps.Pairwise AtLeast →
      (ps.map FootholdPlayer.credits).Pairwise fun c d =>
        ∃ x y, c = .finite x ∧ d = .finite y ∧ y ≤ x := fun hsorted =>
    List.pairwise_map.mpr hsorted
  refine (hperm.map _).eq_of_pairwise ?_ (hcredits h.sorted) (hcredits h'.sorted)
  rintro c d - - ⟨x, y, rfl, rfl, hyx⟩ ⟨x', y', hx', hy', hxy⟩
  obtain rfl := Double.finite.inj hx'
  obtain rfl := Double.finite.inj hy'
  exact congrArg Double.finite (le_antisymm hxy hyx)

/-- A number for a double; finite doubles stand for themselves. -/
def finiteOr : Double → ℚ
  | .finite x => x
  | _ => 0

/-- **Sorted by credits**, players with finite credits are in order. -/
theorem sortByCredits_pairwise (hfinite : ∀ p ∈ ps, ∃ x, p.credits = .finite x) :
    (sortByOrdering byCredits ps).Pairwise AtLeast := by
  -- on these players the comparison is that of their credits
  have hcmp : ∀ p ∈ ps, ∀ q ∈ ps, (byCredits p q != .gt) =
      decide (finiteOr q.credits ≤ finiteOr p.credits) := by
    intro p hp q hq
    obtain ⟨x, hx⟩ := hfinite p hp
    obtain ⟨y, hy⟩ := hfinite q hq
    rcases lt_trichotomy y x with hlt | rfl | hgt
    · simp [byCredits, partialCmp, finiteOr, hx, hy, hlt, hlt.le]
    · simp [byCredits, partialCmp, finiteOr, hx, hy]
    · simp [byCredits, partialCmp, finiteOr, hx, hy, hgt, hgt.not_gt, hgt.ne']
  have hsort : sortByOrdering byCredits ps =
      ps.mergeSort fun p q => decide (finiteOr q.credits ≤ finiteOr p.credits) := by
    simpa [sortByOrdering] using List.map_mergeSort (f := id) hcmp
  have hsorted := @List.pairwise_mergeSort _
    (fun p q : FootholdPlayer => decide (finiteOr q.credits ≤ finiteOr p.credits))
    (fun p q r => by simpa using fun hqp hrq => le_trans hrq hqp)
    (fun p q => by simpa using le_total (finiteOr q.credits) (finiteOr p.credits)) ps
  rw [← hsort] at hsorted
  have hperm : (sortByOrdering byCredits ps).Perm ps := List.mergeSort_perm _ _
  refine List.Pairwise.imp_of_mem ?_ hsorted
  intro p q hp hq hle
  obtain ⟨x, hx⟩ := hfinite p (hperm.mem_iff.mp hp)
  obtain ⟨y, hy⟩ := hfinite q (hperm.mem_iff.mp hq)
  exact ⟨x, y, hx, hy, by simpa [finiteOr, hx, hy] using hle⟩

/-- In order both ways round, all credits are equal. -/
theorem eq_credits_of_pairwise (h : ps.Pairwise AtLeast) (h' : ps.reverse.Pairwise AtLeast) :
    ∀ p ∈ ps, ∀ q ∈ ps, p.credits = q.credits := by
  have hboth := h.and (List.pairwise_reverse.mp h')
  have heq : ps.Pairwise fun p q => p.credits = q.credits := by
    refine hboth.imp ?_
    rintro p q ⟨⟨x, y, hx, hy, hyx⟩, ⟨y', x', hy', hx', hxy⟩⟩
    obtain rfl := Double.finite.inj (hx.symm.trans hx')
    obtain rfl := Double.finite.inj (hy.symm.trans hy')
    rw [hx, hy, le_antisymm hxy hyx]
  have hflip : ps.Pairwise (flip fun p q => p.credits = q.credits) := heq.imp Eq.symm
  intro p hp q hq
  exact List.Pairwise.forall_of_forall_of_flip (R := fun p q => p.credits = q.credits)
    (fun _ _ => rfl) heq hflip hp hq

end

/-! ## 4. Well-formed saves -/

section
variable (lua : Interpreter) (files : Files) (savesDir : List Char)

/-- The globals the mission file is evaluated with. -/
def globalsAfterRanks : Entries :=
  match savedFile files savesDir ranksName with
  | none => lua.globals
  | some content => (runFile lua lua.globals content).2

/-- The table `RankSave.players`, empty if there is no such file. -/
def RanksTable (t : Entries) : Prop :=
  savedFile files savesDir ranksName = none ∧ t = [] ∨
    ∃ script globals rankSave,
      savedFile files savesDir ranksName = some (some script) ∧
        lua.exec lua.globals script = (true, globals) ∧
        asTable (field globals "RankSave") = some rankSave ∧
        asTable (field rankSave "players") = some t

/-- The table `playerStats`, empty if there is no such file, or no such table in it. -/
def StatsTable (t : Entries) : Prop :=
  savedFile files savesDir (caFilename files savesDir) = none ∧ t = [] ∨
    ∃ script globals zonePersistance,
      savedFile files savesDir (caFilename files savesDir) = some (some script) ∧
        lua.exec (globalsAfterRanks lua files savesDir) script = (true, globals) ∧
        asTable (field globals "zonePersistance") = some zonePersistance ∧
        (asTable (field zonePersistance "playerStats")).getD [] = t

/-- Two well-formed tables in which every player has one row, and finite credits. -/
structure WellFormedSave (ranks stats : Entries) : Prop where
  ranksTable : RanksTable lua files savesDir ranks
  statsTable : StatsTable lua files savesDir stats
  ranks_wellFormed : WellFormed lua ranks
  stats_wellFormed : WellFormed lua stats
  ranks_distinct : ((tableRows lua ranks).map rowName).Nodup
  stats_distinct : ((tableRows lua stats).map rowName).Nodup
  finite : ∀ row ∈ tableRows lua ranks, ∃ x, credits lua row.2 = .finite x

/-- There is one board: whatever the orders, the players are those of the tables, sorted, and only
players with equal credits change places. -/
def OneBoard (ranks stats : List (List Char × Entries)) : Prop :=
  (∀ orders, ∃ data, getFootholdData lua orders files savesDir = some data ∧
      IsBoard lua ranks stats data.players) ∧
    ∀ orders orders' data data', getFootholdData lua orders files savesDir = some data →
      getFootholdData lua orders' files savesDir = some data' →
      data.players.Perm data'.players ∧
        data.players.map FootholdPlayer.credits = data'.players.map FootholdPlayer.credits

end

section
variable {lua : Interpreter} {files : Files} {savesDir : List Char} {ranks stats : Entries}

theorem rankedPlayers_eq (orders : Orders) (h : RanksTable lua files savesDir ranks) :
    rankedPlayers lua orders files savesDir =
      (collectRanks lua (pairs orders lua.nameKey asTable ranks),
        globalsAfterRanks lua files savesDir) := by
  rcases h with ⟨hfile, rfl⟩ | ⟨script, globals, rankSave, hfile, hexec, hsave, hplayers⟩
  · have hnil : orders.pairs [] = [] := (orders.pairs_perm []).eq_nil
    simp [rankedPlayers, globalsAfterRanks, hfile, pairs, hnil, convertPairs, collectRanks]
  · simp [rankedPlayers, globalsAfterRanks, parseFootholdRanks, runFile, hfile, hexec, hsave,
      hplayers]

/-- The players before they are sorted. -/
def mergedPlayers (lua : Interpreter) (orders : Orders) (ranks stats : Entries) :
    List FootholdPlayer :=
  orders.values (collectStats lua (pairs orders lua.nameKey asTable stats)
    (collectRanks lua (pairs orders lua.nameKey asTable ranks))).values

theorem mergedPlayers_isMerge (orders : Orders) (h : WellFormedSave lua files savesDir ranks stats) :
    IsMerge lua (tableRows lua ranks) (tableRows lua stats)
      (mergedPlayers lua orders ranks stats) := by
  have hranks : (pairs orders lua.nameKey asTable ranks).Perm (tableRows lua ranks) :=
    pairs_perm h.ranks_wellFormed
  have hstats : (pairs orders lua.nameKey asTable stats).Perm (tableRows lua stats) :=
    pairs_perm h.stats_wellFormed
  have hdistinct := (hranks.map rowName).nodup_iff.mpr h.ranks_distinct
  have hdistinct' := (hstats.map rowName).nodup_iff.mpr h.stats_distinct
  exact (isMerge_collect hdistinct hdistinct' (orders.values_perm _)).of_perm hdistinct hdistinct'
    hranks hstats

theorem mergedPlayers_finite (orders : Orders) (h : WellFormedSave lua files savesDir ranks stats) :
    ∀ p ∈ mergedPlayers lua orders ranks stats, ∃ x, p.credits = .finite x := by
  intro p hp
  rw [(mergedPlayers_isMerge orders h).entries p hp]
  cases hrow : rowAt rowName (tableRows lua ranks) p.name with
  | none => exact ⟨0, by simp [boardEntry, ofRow, hrow]⟩
  | some row =>
    obtain ⟨x, hx⟩ := h.finite row (mem_of_rowAt hrow).1
    exact ⟨x, by simpa [boardEntry, ofRow, hrow, credits] using hx⟩

/-- Without the mission file the players come as the map hands them out. -/
theorem getFootholdData_absent (orders : Orders) (h : WellFormedSave lua files savesDir ranks stats)
    (hfile : savedFile files savesDir (caFilename files savesDir) = none) :
    getFootholdData lua orders files savesDir =
      some ⟨mergedPlayers lua orders ranks stats, [], [], []⟩ := by
  rcases h.statsTable with ⟨-, rfl⟩ | ⟨script, globals, zonePersistance, hsome, -⟩
  · have hnil : orders.pairs [] = [] := (orders.pairs_perm []).eq_nil
    simp [getFootholdData, rankedPlayers_eq orders h.ranksTable, hfile, mergedPlayers, pairs, hnil,
      convertPairs, collectStats]
  · rw [hfile] at hsome
    cases hsome

/-- With the mission file they are sorted. -/
theorem getFootholdData_present (orders : Orders)
    (h : WellFormedSave lua files savesDir ranks stats)
    (hfile : (savedFile files savesDir (caFilename files savesDir)).isSome) :
    ∃ data, getFootholdData lua orders files savesDir = some data ∧
      data.players = sortByOrdering byCredits (mergedPlayers lua orders ranks stats) := by
  rcases h.statsTable with ⟨hnone, -⟩ | ⟨script, globals, zonePersistance, hsome, hexec, hzone, hstats⟩
  · rw [hnone] at hfile
    cases hfile
  · have hpairs : pairsOf orders lua.nameKey asTable zonePersistance "playerStats" =
        pairs orders lua.nameKey asTable stats := by
      have hnil : orders.pairs [] = [] := (orders.pairs_perm []).eq_nil
      subst hstats
      unfold pairsOf
      cases asTable (field zonePersistance "playerStats") <;> simp [pairs, hnil, convertPairs]
    simp [getFootholdData, rankedPlayers_eq orders h.ranksTable, hsome, parseFootholdCa, runFile,
      hexec, hzone, hpairs, mergedPlayers]

/-- A player has the credits of their row. -/
theorem credits_of_row (orders : Orders) (h : WellFormedSave lua files savesDir ranks stats)
    {row : List Char × Entries} (hrow : row ∈ tableRows lua ranks) :
    ∃ p ∈ mergedPlayers lua orders ranks stats, p.credits = credits lua row.2 := by
  have hmerge := mergedPlayers_isMerge orders h
  obtain ⟨p, hp, hname⟩ := List.mem_map.mp
    ((hmerge.names (rowName row)).mpr (.inl (List.mem_map_of_mem hrow)))
  have hat := (rowAt_eq_some h.ranks_distinct).mpr ⟨hrow, rfl⟩
  refine ⟨p, hp, ?_⟩
  rw [hmerge.entries p hp, hname]
  simp [boardEntry, ofRow, hat, credits]

/-- Without the mission file, equal credits make a sorted board. -/
theorem mergedPlayers_pairwise (orders : Orders) (h : WellFormedSave lua files savesDir ranks stats)
    (hfile : savedFile files savesDir (caFilename files savesDir) = none)
    (hequal : ∀ row ∈ tableRows lua ranks, ∀ row' ∈ tableRows lua ranks,
      credits lua row.2 = credits lua row'.2) :
    (mergedPlayers lua orders ranks stats).Pairwise AtLeast := by
  have hmerge := mergedPlayers_isMerge orders h
  obtain rfl : stats = [] := by
    rcases h.statsTable with ⟨-, hnil⟩ | ⟨_, _, _, hsome, -⟩
    · exact hnil
    · rw [hfile] at hsome
      cases hsome
  -- every player is in the ranks table
  have hrow : ∀ p ∈ mergedPlayers lua orders ranks [],
      ∃ row ∈ tableRows lua ranks, p.credits = credits lua row.2 := by
    intro p hp
    have hname := (hmerge.names p.name).mp (List.mem_map_of_mem hp)
    obtain ⟨row, hrow, hname⟩ := List.mem_map.mp (hname.resolve_right (by simp [tableRows]))
    have hat := (rowAt_eq_some h.ranks_distinct).mpr ⟨hrow, hname⟩
    refine ⟨row, hrow, ?_⟩
    rw [hmerge.entries p hp]
    simp [boardEntry, ofRow, hat, credits]
  refine List.pairwise_of_forall_mem_list ?_
  intro p hp q hq
  obtain ⟨row, hrow', hp'⟩ := hrow p hp
  obtain ⟨row', hrow'', hq'⟩ := hrow q hq
  obtain ⟨x, hx⟩ := h.finite row hrow'
  exact ⟨x, x, hp'.trans hx, by rw [hq', ← hequal row hrow' row' hrow'', hx], le_refl x⟩

/-- The orders in which everything was stored, and the values the other way round. -/
def Orders.stored : Orders := ⟨id, id, List.Perm.refl, List.Perm.refl⟩

def Orders.reversed : Orders := ⟨id, List.reverse, List.Perm.refl, List.reverse_perm⟩

/-- **The leaderboard.**  For well-formed saves there is one board if the mission file exists, and
otherwise only if all ranked players have the same credits. -/
theorem leaderboard_iff (h : WellFormedSave lua files savesDir ranks stats) :
    OneBoard lua files savesDir (tableRows lua ranks) (tableRows lua stats) ↔
      (savedFile files savesDir (caFilename files savesDir)).isSome ∨
        ∀ row ∈ tableRows lua ranks, ∀ row' ∈ tableRows lua ranks,
          credits lua row.2 = credits lua row'.2 := by
  constructor
  · intro hboard
    by_cases hfile : (savedFile files savesDir (caFilename files savesDir)).isSome
    · exact .inl hfile
    · right
      have hnone := Option.not_isSome_iff_eq_none.mp hfile
      have hsorted : ∀ orders, (mergedPlayers lua orders ranks stats).Pairwise AtLeast := by
        intro orders
        obtain ⟨data, hdata, hisBoard⟩ := hboard.1 orders
        rw [getFootholdData_absent orders h hnone] at hdata
        cases hdata
        exact hisBoard.sorted
      have hall := eq_credits_of_pairwise (hsorted .stored) (hsorted .reversed)
      intro row hrow row' hrow'
      obtain ⟨p, hp, hcredits⟩ := credits_of_row .stored h hrow
      obtain ⟨q, hq, hcredits'⟩ := credits_of_row .stored h hrow'
      rw [← hcredits, ← hcredits', hall p hp q hq]
  · intro hcases
    have hboards : ∀ orders, ∃ data, getFootholdData lua orders files savesDir = some data ∧
        IsBoard lua (tableRows lua ranks) (tableRows lua stats) data.players := by
      intro orders
      have hmerge := mergedPlayers_isMerge orders h
      by_cases hfile : (savedFile files savesDir (caFilename files savesDir)).isSome
      · obtain ⟨data, hdata, hplayers⟩ := getFootholdData_present orders h hfile
        refine ⟨data, hdata, ?_⟩
        rw [hplayers]
        exact ⟨hmerge.reorder (List.mergeSort_perm _ _),
          sortByCredits_pairwise (mergedPlayers_finite orders h)⟩
      · have hnone := Option.not_isSome_iff_eq_none.mp hfile
        exact ⟨_, getFootholdData_absent orders h hnone, hmerge,
          mergedPlayers_pairwise orders h hnone (hcases.resolve_left hfile)⟩
    refine ⟨hboards, ?_⟩
    intro orders orders' data data' hdata hdata'
    obtain ⟨_, hd, hisBoard⟩ := hboards orders
    obtain ⟨_, hd', hisBoard'⟩ := hboards orders'
    obtain rfl := Option.some.inj (hdata.symm.trans hd)
    obtain rfl := Option.some.inj (hdata'.symm.trans hd')
    exact hisBoard.unique hisBoard'

end

/-! ## 5. Two players -/

/-- Lua, for scripts that only assign data. -/
def dataInterpreter : Interpreter where
  globals := []
  exec globals script :=
    match readChunk .finite script with
    | some assigned => (true, assigned.foldr (fun e es => es.set (fieldKey e.1) e.2) globals)
    | none => (false, globals)
  nameKey
    | .string bytes => (toStr bytes).map String.toList
    | _ => none
  intKey
    | .number (.finite q) => if q.den = 1 then some q.num else none
    | _ => none
  f64
    | .number x => some x
    | _ => none
  i64
    | .number (.finite q) => if q.den = 1 then some q.num else none
    | _ => none
  string
    | .string bytes => (toStr bytes).map String.toList
    | _ => none
  boolean
    | .bool b => some b
    | _ => some true

def ranksScript : List Char :=
  "RankSave = \x7b players = \x7b Ace = \x7b credits = 10 \x7d, Bob = \x7b credits = 20 \x7d \x7d \x7d".toList

def missionScript : List Char :=
  "zonePersistance = \x7b playerStats = \x7b Ace = \x7b Air = 3 \x7d, Cat = \x7b SAM = 1 \x7d \x7d \x7d".toList

/-- The ranks file, and perhaps the mission file. -/
def exampleFiles (mission : Bool) : Files := fun path =>
  if path = ranksName then some (some ranksScript)
  else if mission ∧ path = "FootHold_CA_v0.2.lua".toList then some (some missionScript)
  else none

/-- A table in a global table after a script. -/
def tableIn (globals : Entries) (script : List Char) (outer inner : String) : Option Entries := do
  asTable (field (← asTable (field (dataInterpreter.exec globals script).2 outer)) inner)

def exampleRanks : Entries := (tableIn [] ranksScript "RankSave" "players").getD []

def exampleStats : Entries :=
  (tableIn (dataInterpreter.exec [] ranksScript).2 missionScript "zonePersistance"
    "playerStats").getD []

/-- What is in a table that is there. -/
theorem eq_getD {o : Option Entries} (h : o.isSome = true) : o = some (o.getD []) := by
  obtain ⟨t, rfl⟩ := Option.isSome_iff_exists.mp h
  rfl

/-- A script that succeeds leaves a table in a global table. -/
theorem tableIn_spec {globals : Entries} {script : List Char} {outer inner : String}
    (hran : (dataInterpreter.exec globals script).1 = true)
    (h : (tableIn globals script outer inner).isSome = true) :
    ∃ after t, dataInterpreter.exec globals script = (true, after) ∧
      asTable (field after outer) = some t ∧
      asTable (field t inner) = some ((tableIn globals script outer inner).getD []) := by
  have htable := eq_getD h
  obtain ⟨t, houter, hinner⟩ := Option.bind_eq_some_iff.mp htable
  exact ⟨_, t, Prod.ext hran rfl, houter, hinner⟩

/-- What the scripts leave behind. -/
theorem scripts_evaluated :
    ((dataInterpreter.exec [] ranksScript).1 = true ∧
      (tableIn [] ranksScript "RankSave" "players").isSome = true ∧
      (dataInterpreter.exec (dataInterpreter.exec [] ranksScript).2 missionScript).1 = true ∧
      (tableIn (dataInterpreter.exec [] ranksScript).2 missionScript "zonePersistance"
        "playerStats").isSome = true) ∧
    ((∀ e ∈ exampleRanks, (dataInterpreter.nameKey e.1).isSome ∧ (asTable e.2).isSome) ∧
      ((tableRows dataInterpreter exampleRanks).map rowName).Nodup ∧
      ∀ row ∈ tableRows dataInterpreter exampleRanks,
        credits dataInterpreter row.2 = .finite 10 ∨ credits dataInterpreter row.2 = .finite 20) ∧
    (∀ e ∈ exampleStats, (dataInterpreter.nameKey e.1).isSome ∧ (asTable e.2).isSome) ∧
      ((tableRows dataInterpreter exampleStats).map rowName).Nodup := by
  decide +kernel

/-- Ace and Bob are ranked; the mission file, if there is one, has statistics of Ace and Cat. -/
theorem exampleSave (mission : Bool) : WellFormedSave dataInterpreter (exampleFiles mission) []
    exampleRanks (if mission then exampleStats else []) := by
  obtain ⟨⟨hran, hranks, hran', hstats⟩, ⟨hwf, hdistinct, hcredits⟩, hwf', hdistinct'⟩ :=
    scripts_evaluated
  have hfile : ∀ mission, savedFile (exampleFiles mission) [] ranksName = some (some ranksScript) :=
    fun mission => by cases mission <;> decide
  have hglobals : ∀ mission, globalsAfterRanks dataInterpreter (exampleFiles mission) [] =
      (dataInterpreter.exec [] ranksScript).2 := fun mission => by
    simp only [globalsAfterRanks, hfile, runFile]
    rfl
  refine ⟨?_, ?_, hwf, ?_, hdistinct, ?_, fun row hrow =>
    (hcredits row hrow).elim (⟨10, ·⟩) (⟨20, ·⟩)⟩
  · obtain ⟨after, t, hafter, houter, hinner⟩ := tableIn_spec hran hranks
    exact .inr ⟨ranksScript, after, t, hfile mission, hafter, houter, hinner⟩
  · cases mission with
    | false => exact .inl ⟨by decide, rfl⟩
    | true =>
      obtain ⟨after, t, hafter, houter, hinner⟩ := tableIn_spec hran' hstats
      rw [← hglobals true] at hafter
      refine .inr ⟨missionScript, after, t, by decide, hafter, houter, ?_⟩
      rw [hinner]
      rfl
  · cases mission with
    | false => exact fun e he => nomatch he
    | true => exact hwf'
  · cases mission with
    | false => exact List.nodup_nil
    | true => exact hdistinct'

/-- With both files there is one board. -/
theorem leaderboard_iff_both : OneBoard dataInterpreter (exampleFiles true) []
    (tableRows dataInterpreter exampleRanks) (tableRows dataInterpreter exampleStats) :=
  (leaderboard_iff (exampleSave true)).mpr (.inl (by decide))

/-- **No sorting without the mission file.**  The map may hand out Ace, with 10 credits, before
Bob, with 20. -/
theorem unsorted_without_mission :
    WellFormedSave dataInterpreter (exampleFiles false) [] exampleRanks [] ∧
      ¬OneBoard dataInterpreter (exampleFiles false) [] (tableRows dataInterpreter exampleRanks)
        (tableRows dataInterpreter []) := by
  refine ⟨exampleSave false, ?_⟩
  intro hboard
  obtain ⟨data, hdata, hisBoard⟩ := hboard.1 .reversed
  have hplayers : (getFootholdData dataInterpreter .reversed (exampleFiles false) []).map
      (·.players.map FootholdPlayer.credits) = some [.finite 10, .finite 20] := by decide +kernel
  rw [hdata] at hplayers
  have hcredits : data.players.map FootholdPlayer.credits = [.finite 10, .finite 20] :=
    Option.some.inj hplayers
  have hsorted : (data.players.map FootholdPlayer.credits).Pairwise fun c d =>
      ∃ x y, c = .finite x ∧ d = .finite y ∧ y ≤ x := List.pairwise_map.mpr hisBoard.sorted
  rw [hcredits, List.pairwise_pair] at hsorted
  obtain ⟨x, y, hx, hy, hle⟩ := hsorted
  obtain rfl := Double.finite.inj hx
  obtain rfl := Double.finite.inj hy
  exact absurd hle (by decide)

end DcsDashboard.Foothold
