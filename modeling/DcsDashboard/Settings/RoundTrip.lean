/-
# What is saved is read back

`settings_roundTrip`: a storable settings object, written by `serialize_settings` and read by
`parse_blocking`, comes back as the object with its line ends normalized and its `advanced`
strings read.  The file is built up entry by entry; for each entry the writer and the reader are
followed at once (`extends_lines`, `foldlM_readEntry`).

What is not storable shows what the encoders do not do: an `advanced` string is written without
quotes unless it stands for a boolean or a number (`advanced_string_lost`); a mission name may
not hold a quote or a line end; and a carriage return must stand before a line feed.
-/
import DcsDashboard.Settings.Encoders
import Mathlib.Tactic.FinCases

namespace DcsDashboard.Settings

open Lib Lua

/-! ## 1. Storable objects -/

section
variable (F : NumberFormat)

/-- A value of the top level under the encoder of its key. -/
def IsSetting (key : String) (value : Json) : Prop :=
  match value with
  | .str s => key ∉ numberKeys ∧ key ∉ boolKeys ∧ crlfOnly s.toList
  | .num n => key ∉ stringKeys ∧ key ∉ boolKeys ∧ F.Kept n
  | .bool _ => key ∉ stringKeys ∧ key ∉ numberKeys
  | _ => False

/-- A value of `advanced` that is not a string to be quoted. -/
def IsAdvanced (value : Json) : Prop :=
  match value with
  | .str s => s = "true" ∨ s = "false" ∨ ∃ n, parseTrimmed F s.toList = some (.finite n) ∧ F.Kept n
  | .num n => F.Kept n
  | .bool _ => True
  | _ => False

/-- A list of mission names that can be quoted. -/
def IsMissionList (value : Json) : Prop :=
  ∃ names : List String, value = .arr (names.map .str) ∧ names.length ≤ 2 ^ 53 ∧
    ∀ name ∈ names, IsQuotable name.toList

/-- The members of a map whose keys are identifiers. -/
structure HasIdentifiers (members : List (String × Json)) : Prop where
  nodup : (members.map Prod.fst).Nodup
  identifier : ∀ e ∈ members, isIdentifier e.1

/-- A settings object that can be stored. -/
structure Storable (members : List (String × Json)) : Prop extends HasIdentifiers members where
  setting : ∀ e ∈ members, e.1 ≠ "advanced" → e.1 ≠ "missionList" → IsSetting F e.1 e.2
  advanced : ∀ value, ("advanced", value) ∈ members →
    ∃ inner, value = .obj inner ∧ HasIdentifiers inner ∧ ∀ e ∈ inner, IsAdvanced F e.2
  missionList : ∀ value, ("missionList", value) ∈ members → IsMissionList value

/-- A value of the top level as it comes back. -/
def settingRead : Json → Json
  | .str s => .str (String.ofList (replaceCrlf s.toList))
  | v => v

/-- A value of `advanced` as it comes back. -/
def advancedRead : Json → Json
  | .str s =>
    if s = "true" then .bool true
    else if s = "false" then .bool false
    else match parseTrimmed F s.toList with
      | some (.finite n) => .num n
      | _ => .str s
  | v => v

/-- The settings object with some members, as it comes back. -/
def settingsOf (members : List (String × Json)) : ServerSettings where
  scalars key :=
    if key = "advanced" ∨ key = "missionList" then none
    else (members.lookup key).map settingRead
  advanced := ((members.lookup "advanced").bind Json.asObject).map fun inner key =>
    (inner.lookup key).map (advancedRead F)
  missionList := ((members.lookup "missionList").bind Json.asArray).map (·.filterMap Json.asStr)

end

/-! ## 2. Writing and reading a row of members -/

/-- The key a name is read as. -/
def stringKey (name : String) : Key := .string (utf8Bytes name.toList)

theorem keyName_stringKey (F : NumberFormat) (name : String) :
    keyName F (stringKey name) = some name :=
  (toStr_utf8Bytes name.toList).trans (by rw [String.ofList_toList])

theorem stringKey_inj {a b : String} : stringKey a = stringKey b ↔ a = b := by
  refine ⟨fun h => ?_, congrArg stringKey⟩
  have hbytes : utf8Bytes a.toList = utf8Bytes b.toList := by simpa [stringKey] using h
  have hstr := congrArg toStr hbytes
  simpa using hstr

section
variable {F : NumberFormat}

/-- The Lua value of a scalar. -/
def toLua : Json → Value
  | .bool b => .bool b
  | .num n => .number (.finite n)
  | .str s => .string (utf8Bytes s.toList)
  | _ => .nil

/-- The token is read as a scalar. -/
structure Encodes (F : NumberFormat) (token : List Char) (v : Json) : Prop where
  written : Written F.round token (toLua v)
  scalar : scalarToJson F (toLua v) = some v

theorem Encodes.ne_nil {token : List Char} {v : Json} (h : Encodes F token v) :
    toLua v ≠ .nil := by
  intro hnil
  have hscalar := h.scalar
  rw [hnil] at hscalar
  cases hscalar

/-- The fields of some members. -/
def toEntries (members : List (String × Json)) : Entries :=
  members.map fun e => (stringKey e.1, toLua e.2)

/-- The members as they are read. -/
def readAs (read : Json → Json) (members : List (String × Json)) : List (String × Json) :=
  members.map fun e => (e.1, read e.2)

/-- The line of a member sets its field. -/
def IsLine (F : NumberFormat) (line : List Char) (name : String) (v : Json) : Prop :=
  ∃ indent token, line = settingLine indent name token ∧
    Lexes .normal indent.toList [] .normal ∧ Encodes F token v

/-- **The lines of some members append their fields.** -/
theorem extends_lines {members : List (String × Json)} {read : Json → Json}
    {line : String × Json → List Char} {es : Entries} (hmembers : HasIdentifiers members)
    (hline : ∀ e ∈ members, IsLine F (line e) e.1 (read e.2))
    (hfresh : ∀ e ∈ members, stringKey e.1 ∉ es.map Prod.fst) :
    Extends F.round (members.flatMap line) (keyed es)
      (keyed (es ++ toEntries (readAs read members))) := by
  induction members generalizing es with
  | nil => simpa [readAs, toEntries] using extends_blank (lexes_nil.mpr ⟨rfl, rfl⟩)
  | cons e members ih =>
    obtain ⟨hnotin, hnodup⟩ := List.nodup_cons.mp hmembers.nodup
    obtain ⟨indent, token, heq, hindent, htoken⟩ := hline e (by simp)
    have hfirst : Extends F.round (line e) (keyed es)
        (keyed (es ++ [(stringKey e.1, toLua (read e.2))])) := by
      rw [heq, ← Entries.set_fresh (hfresh e (by simp)) htoken.ne_nil]
      exact extends_settingLine hindent (hmembers.identifier e (by simp)) htoken.written
    have hfresh' : ∀ e' ∈ members,
        stringKey e'.1 ∉ (es ++ [(stringKey e.1, toLua (read e.2))]).map Prod.fst := by
      intro e' he'
      have hne : e'.1 ≠ e.1 := fun h => hnotin (List.mem_map.mpr ⟨e', he', h⟩)
      simpa [stringKey_inj, hne] using hfresh e' (by simp [he'])
    have hrest := ih ⟨hnodup, fun e' he' => hmembers.identifier e' (by simp [he'])⟩
      (fun e' he' => hline e' (by simp [he'])) hfresh'
    have hall := hfirst.append hrest
    simpa [readAs, toEntries] using hall

/-- Reading scalars of the top level. -/
theorem foldlM_readEntry {members : List (String × Json)}
    (h : ∀ e ∈ members, e.1 ≠ "missionList" ∧ e.1 ≠ "advanced" ∧
      scalarToJson F (toLua e.2) = some e.2) (q : ServerSettings) :
    (toEntries members).foldlM (readEntry F) q =
      .ok { q with scalars := insertAll q.scalars members } := by
  induction members generalizing q with
  | nil => rfl
  | cons e members ih =>
    obtain ⟨hlist, hadvanced, hscalar⟩ := h e (by simp)
    have hstep : readEntry F q (stringKey e.1, toLua e.2) =
        .ok { q with scalars := q.scalars.insert e.1 e.2 } := by
      simp [readEntry, keyName_stringKey, hlist, hadvanced, hscalar]
    have hrest := ih (fun e' he' => h e' (by simp [he']))
      { q with scalars := q.scalars.insert e.1 e.2 }
    simpa [toEntries, hstep, insertAll, JsonMap.insert, bind, Except.bind] using hrest

/-- Reading the members of `advanced`. -/
theorem foldl_readAdvanced {members : List (String × Json)}
    (h : ∀ e ∈ members, scalarToJson F (toLua e.2) = some e.2) (m : JsonMap) :
    (toEntries members).foldl (readAdvanced F) m = insertAll m members := by
  induction members generalizing m with
  | nil => rfl
  | cons e members ih =>
    have hstep : readAdvanced F m (stringKey e.1, toLua e.2) = m.insert e.1 e.2 := by
      simp [readAdvanced, keyName_stringKey, h e (by simp)]
    have hrest := ih (fun e' he' => h e' (by simp [he'])) (m.insert e.1 e.2)
    simpa [toEntries, hstep, insertAll, JsonMap.insert] using hrest

/-! ## 3. The lines and blocks of the file -/

theorem encodes_bool (b : Bool) : Encodes F (boolText b) (.bool b) :=
  ⟨written_boolText b, rfl⟩

theorem encodes_num {token : List Char} {n : ℚ} (hn : F.Kept n)
    (h : Written F.round token (.number (.finite n))) : Encodes F token (.num n) := by
  refine ⟨h, ?_⟩
  cases hi : F.integer (.finite n) with
  | none => simp [toLua, scalarToJson, hi]
  | some i => simp [toLua, scalarToJson, hi, hn.2 i hi]

theorem encodes_str {s : String} (h : crlfOnly s.toList) :
    Encodes F (quoted (escapeLuaString s.toList))
      (.str (String.ofList (replaceCrlf s.toList))) where
  written := by simpa [toLua] using written_escapeLuaString h
  scalar := by simp [toLua, scalarToJson]

theorem isLine_topLevel (hF : F.Lawful) {key : String} {v : Json} (h : IsSetting F key v) :
    IsLine F (serializeTopLevel F key v) key (settingRead v) := by
  refine ⟨"\t", _, rfl, by decide, ?_⟩
  cases v with
  | str s =>
    obtain ⟨hnumber, hbool, hs⟩ := h
    simpa [hnumber, hbool, jsString, settingRead] using encodes_str hs
  | num n =>
    obtain ⟨hstring, hbool, hn⟩ := h
    by_cases hnumber : key ∈ numberKeys
    · simpa [hstring, hnumber, numberToken, hn.1, settingRead] using
        encodes_num hn (written_jsNumberFormat hF hn.1)
    · simpa [hstring, hnumber, hbool, settingRead] using
        encodes_num hn (hF.printed_serialize n hn.1).written
  | bool b =>
    obtain ⟨hstring, hnumber⟩ := h
    simpa [hstring, hnumber, boolToken, settingRead] using encodes_bool b
  | null | arr _ | obj _ => exact h.elim

theorem isLine_advanced (hF : F.Lawful) {key : String} {v : Json} (h : IsAdvanced F v) :
    IsLine F (settingLine "\t\t" key (advancedToken F v)) key (advancedRead F v) := by
  refine ⟨"\t\t", _, rfl, by decide, ?_⟩
  cases v with
  | str s =>
    by_cases htrue : s = "true"
    · simpa [advancedToken, advancedRead, htrue, boolText] using encodes_bool true
    · by_cases hfalse : s = "false"
      · simpa [advancedToken, advancedRead, hfalse, boolText] using encodes_bool false
      · obtain ⟨n, hparse, hn⟩ := (h.resolve_left htrue).resolve_left hfalse
        simpa [advancedToken, advancedRead, htrue, hfalse, hparse] using
          encodes_num hn (written_jsNumberFormat hF hn.1)
  | num n => exact encodes_num h (hF.printed_serialize n h.1).written
  | bool b => exact encodes_bool b
  | null | arr _ | obj _ => exact h.elim

/-- A table on lines of its own is a field. -/
theorem extends_block (name : String) {before lines after : List Char} {v : Value} {es : Entries}
    (hname : isIdentifier name)
    (hbefore : before = "\t[\"".toList ++ name.toList ++ "\"] = \r\n\t\x7b\r\n".toList)
    (hafter : Lexes .normal after [] .normal)
    (hv : Written F.round ('{' :: ("\r\n".toList ++ lines ++ "\t".toList) ++ ['}']) v) :
    Extends F.round (before ++ lines ++ ("\t\x7d,".toList ++ after)) (keyed es)
      (keyed (es.set (stringKey name) v)) := by
  have hfield := extends_field (isPlain_of_isIdentifier hname)
    (hv.space (s := "\r\n\t".toList) (by decide))
    (keyed_set_string es _ v)
  have hindent : Extends F.round "\t".toList (keyed es) (keyed es) := extends_blank (by decide)
  have hall := (hindent.append hfield).append (extends_blank hafter)
  subst hbefore
  simpa [stringKey] using hall

/-- The block of `advanced`. -/
theorem extends_advancedBlock (hF : F.Lawful) {inner : List (String × Json)} {es : Entries}
    (hinner : HasIdentifiers inner) (h : ∀ e ∈ inner, IsAdvanced F e.2) :
    Extends F.round (advancedBlock F inner) (keyed es)
      (keyed (es.set (stringKey "advanced") (.table (toEntries (readAs (advancedRead F) inner))))) :=
    by
  have hlines : Extends F.round
      (inner.flatMap fun e => settingLine "\t\t" e.1 (advancedToken F e.2)) (keyed [])
      (keyed ([] ++ toEntries (readAs (advancedRead F) inner))) :=
    extends_lines hinner (fun e he => isLine_advanced hF (h e he)) (by simp)
  have hblank : Extends F.round "\r\n".toList (keyed []) (keyed []) := extends_blank (by decide)
  have htable := written_table ((hblank.append hlines).append
    (extends_blank (s := "\t".toList) (by decide)))
  have hend : "\t\x7d, -- end of [\"advanced\"]\r\n".toList =
      "\t\x7d,".toList ++ " -- end of [\"advanced\"]\r\n".toList := by decide
  have htext : advancedBlock F inner = "\t[\"advanced\"] = \r\n\t\x7b\r\n".toList ++
      (inner.flatMap fun e => settingLine "\t\t" e.1 (advancedToken F e.2)) ++
      ("\t\x7d,".toList ++ " -- end of [\"advanced\"]\r\n".toList) := by
    unfold advancedBlock
    exact congrArg _ hend
  rw [htext]
  exact extends_block "advanced" (by decide) (by decide) (by decide) htable

theorem missionLines_str (index : Nat) (names : List String) :
    missionLines index (names.map .str) = queueLines index names := by
  induction names generalizing index with
  | nil => rfl
  | cons name names ih => simp [missionLines, queueLines, Json.asStr, ih]

/-- The block of `missionList`. -/
theorem extends_missionListBlock (hF : F.Lawful) {names : List String} {es : Entries}
    (hnames : ∀ name ∈ names, IsQuotable name.toList) (hlen : names.length ≤ 2 ^ 53) :
    Extends F.round (missionListBlock (names.map .str)) (keyed es)
      (keyed (es.set (stringKey "missionList") (.table (indexed 1 names)))) := by
  have hend : "\t\x7d, -- end of [\"missionList\"]\r\n".toList =
      "\t\x7d,".toList ++ " -- end of [\"missionList\"]\r\n".toList := by decide
  have htext : missionListBlock (names.map .str) =
      "\t[\"missionList\"] = \r\n\t\x7b\r\n".toList ++ queueLines 0 names ++
      ("\t\x7d,".toList ++ " -- end of [\"missionList\"]\r\n".toList) :=
    (congrArg _ hend).trans (by rw [missionLines_str])
  rw [htext]
  exact extends_block "missionList" (by decide) (by decide) (by decide)
    (written_queue hF hnames hlen)

/-! ## 4. The file -/

/-- The text of `cfg` up to some entry: the fields it sets and the settings they are read as. -/
structure Built (F : NumberFormat) (s : List Char) (es : Entries) (q : ServerSettings) :
    Prop where
  text : Extends F.round s .empty (keyed es)
  read : es.foldlM (readEntry F) .empty = .ok q

/-- One more block. -/
theorem Built.block {s block : List Char} {es : Entries} {q q' : ServerSettings} {name : String}
    {v : Value} (h : Built F s es q) (hfresh : stringKey name ∉ es.map Prod.fst)
    (hblock : Extends F.round block (keyed es) (keyed (es.set (stringKey name) v)))
    (hv : v ≠ .nil) (hread : readEntry F q (stringKey name, v) = .ok q') :
    Built F (s ++ block) (es ++ [(stringKey name, v)]) q' where
  text := by
    rw [← Entries.set_fresh hfresh hv]
    exact h.text.append hblock
  read := by simp [List.foldlM_append, h.read, hread, bind, Except.bind, pure, Except.pure]

/-- A finished file is read as its settings. -/
theorem Built.parse {s : List Char} {es : Entries} {q : ServerSettings} (h : Built F s es q) :
    parseBlocking F ("cfg = \r\n\x7b\r\n".toList ++ s ++ "\x7d -- end of cfg\r\n".toList) = .ok q := by
  have hblank : Extends F.round "\r\n".toList .empty .empty := extends_blank (by decide)
  obtain ⟨ts, hlex, hv⟩ := lexes_table (hblank.append h.text)
  have hbefore : Lexes .normal "cfg = \r\n".toList [.name "cfg".toList, .sym '='] .normal := by
    decide
  have hafter : Lexes .normal (" -- end of cfg\r\n".toList ++ ['\n']) [] .normal := by decide
  have hchunk := readChunk_assignment (by decide) hbefore hlex hv hafter
  have htext : "cfg = \r\n\x7b\r\n".toList ++ s ++ "\x7d -- end of cfg\r\n".toList =
      "cfg = \r\n".toList ++ ('{' :: ("\r\n".toList ++ s) ++ ['}']) ++
        " -- end of cfg\r\n".toList := by simp
  rw [htext, parseBlocking, hchunk]
  exact h.read

theorem lookup_readAs (read : Json → Json) (members : List (String × Json)) (key : String) :
    (readAs read members).lookup key = (members.lookup key).map read := by
  induction members with
  | nil => rfl
  | cons e members ih =>
    obtain ⟨name, v⟩ := e
    simp only [readAs, List.map_cons, List.lookup_cons]
    cases key == name
    · exact ih
    · rfl

/-- The members that are not tables. -/
def topLevelMembers (members : List (String × Json)) : List (String × Json) :=
  members.filter fun e => ¬(e.1 = "advanced" ∨ e.1 = "missionList")

theorem lookup_topLevelMembers (members : List (String × Json)) (key : String) :
    (topLevelMembers members).lookup key =
      if key = "advanced" ∨ key = "missionList" then none else members.lookup key := by
  induction members with
  | nil => simp [topLevelMembers]
  | cons e members ih =>
    obtain ⟨name, v⟩ := e
    rw [topLevelMembers, List.filter_cons, ← topLevelMembers, List.lookup_cons]
    by_cases htable : name = "advanced" ∨ name = "missionList"
    · have hdrop : ¬decide ¬(name = "advanced" ∨ name = "missionList") := by simp [htable]
      rw [if_neg hdrop, ih]
      cases hk : key == name with
      | false => rfl
      | true => simp [eq_of_beq hk, htable]
    · rw [if_pos (decide_eq_true htable), List.lookup_cons, ih]
      cases hk : key == name with
      | false => rfl
      | true => simp [eq_of_beq hk, htable]

/-- The lines of the top level. -/
theorem built_topLevel (hF : F.Lawful) {members : List (String × Json)}
    (h : Storable F members) :
    Built F ((topLevelMembers members).flatMap fun e => serializeTopLevel F e.1 e.2)
      (toEntries (readAs settingRead (topLevelMembers members)))
      { ServerSettings.empty with
        scalars := insertAll (fun _ => none) (readAs settingRead (topLevelMembers members)) } := by
  have hmem : ∀ e ∈ topLevelMembers members, e ∈ members ∧ e.1 ≠ "advanced" ∧
      e.1 ≠ "missionList" := by
    intro e he
    simpa [topLevelMembers] using he
  have hline : ∀ e ∈ topLevelMembers members,
      IsLine F (serializeTopLevel F e.1 e.2) e.1 (settingRead e.2) := fun e he =>
    isLine_topLevel hF (h.setting e (hmem e he).1 (hmem e he).2.1 (hmem e he).2.2)
  have hnames : HasIdentifiers (topLevelMembers members) :=
    ⟨h.nodup.sublist (List.filter_sublist.map _), fun e he => h.identifier e (hmem e he).1⟩
  refine ⟨extends_lines hnames hline (by simp), foldlM_readEntry ?_ _⟩
  intro e he
  obtain ⟨e', he', rfl⟩ := List.mem_map.mp he
  obtain ⟨_, _, _, _, hencodes⟩ := hline e' he'
  exact ⟨(hmem e' he').2.2, (hmem e' he').2.1, hencodes.scalar⟩

/-- The block of `advanced`, where there is one. -/
theorem Built.advanced (hF : F.Lawful) {s : List Char} {es : Entries} {q : ServerSettings}
    (h : Built F s es q) (hfresh : stringKey "advanced" ∉ es.map Prod.fst)
    (hq : q.advanced = none) {o : Option Json}
    (ho : ∀ v, o = some v → ∃ inner, v = .obj inner ∧ HasIdentifiers inner ∧
      ∀ e ∈ inner, IsAdvanced F e.2) :
    ∃ es', Built F (s ++ ((o.bind Json.asObject).map (advancedBlock F)).getD []) es'
        { q with advanced := (o.bind Json.asObject).map fun inner key =>
          (inner.lookup key).map (advancedRead F) } ∧
      ∀ k ∈ es'.map Prod.fst, k ∈ es.map Prod.fst ∨ k = stringKey "advanced" := by
  cases o with
  | none => exact ⟨es, by simpa [← hq] using h, fun k hk => .inl hk⟩
  | some v =>
    obtain ⟨inner, rfl, hinner, hvalues⟩ := ho v rfl
    have hmap : advancedFromLua F (.table (toEntries (readAs (advancedRead F) inner))) =
        fun key => (inner.lookup key).map (advancedRead F) := by
      have hscalar : ∀ e ∈ readAs (advancedRead F) inner,
          scalarToJson F (toLua e.2) = some e.2 := by
        intro e he
        obtain ⟨e', he', rfl⟩ := List.mem_map.mp he
        have hline : IsLine F _ e'.1 (advancedRead F e'.2) :=
          isLine_advanced hF (hvalues e' he')
        obtain ⟨_, _, _, _, hencodes⟩ := hline
        exact hencodes.scalar
      have hnodup : ((readAs (advancedRead F) inner).map Prod.fst).Nodup := by
        simpa [readAs, Function.comp_def] using hinner.nodup
      funext key
      rw [advancedFromLua, foldl_readAdvanced hscalar, insertAll_apply hnodup, lookup_readAs,
        Option.or_none]
    refine ⟨_, h.block hfresh (extends_advancedBlock hF hinner hvalues) (by simp) ?_, ?_⟩
    · simp [readEntry, keyName_stringKey, hmap, Json.asObject]
    · simp

/-- The block of `missionList`, where there is one. -/
theorem Built.missionList (hF : F.Lawful) {s : List Char} {es : Entries} {q : ServerSettings}
    (h : Built F s es q) (hfresh : stringKey "missionList" ∉ es.map Prod.fst)
    (hq : q.missionList = none) {o : Option Json} (ho : ∀ v, o = some v → IsMissionList v) :
    ∃ es', Built F (s ++ ((o.bind Json.asArray).map missionListBlock).getD []) es'
      { q with missionList := (o.bind Json.asArray).map (·.filterMap Json.asStr) } := by
  cases o with
  | none => exact ⟨es, by simpa [← hq] using h⟩
  | some v =>
    obtain ⟨names, rfl, hlen, hnames⟩ := ho v rfl
    have hread : (names.map Json.str).filterMap Json.asStr = names := by
      simp [List.filterMap_map, Function.comp_def, Json.asStr]
    refine ⟨_, h.block hfresh (extends_missionListBlock hF hnames hlen) (by simp) ?_⟩
    simp [readEntry, keyName_stringKey, missionListFromLua_indexed, Json.asArray, hread, Except.map]

/-- **What is saved is read back.** -/
theorem settings_roundTrip (hF : F.Lawful) {members : List (String × Json)}
    (h : Storable F members) :
    parseBlocking F (serializeSettings F (.obj members)) = .ok (settingsOf F members) := by
  have htop := built_topLevel hF h
  have hkeys : ∀ name, name = "advanced" ∨ name = "missionList" →
      stringKey name ∉ (toEntries (readAs settingRead (topLevelMembers members))).map Prod.fst := by
    rintro name hname hmem
    simp only [toEntries, readAs, List.map_map, List.mem_map, Function.comp_apply, stringKey_inj,
      topLevelMembers, List.mem_filter, decide_eq_true_eq] at hmem
    obtain ⟨e, ⟨-, hne⟩, rfl⟩ := hmem
    exact hne hname
  obtain ⟨es, hadvanced, hes⟩ := htop.advanced hF (hkeys _ (.inl rfl)) rfl
    (o := members.lookup "advanced") fun v hv => h.advanced v (mem_of_lookup hv)
  obtain ⟨es', hall⟩ := hadvanced.missionList hF
    (fun hmem => (hes _ hmem).elim (hkeys _ (.inr rfl)) (by rw [stringKey_inj]; decide)) rfl
    (o := members.lookup "missionList") fun v hv =>
      h.missionList v (mem_of_lookup hv)
  have hscalars : insertAll (fun _ => none) (readAs settingRead (topLevelMembers members)) =
      (settingsOf F members).scalars := by
    have hnodup : ((readAs settingRead (topLevelMembers members)).map Prod.fst).Nodup := by
      have hsub : ((topLevelMembers members).map Prod.fst).Nodup :=
        h.nodup.sublist (List.filter_sublist.map _)
      simpa [readAs, Function.comp_def] using hsub
    funext key
    rw [insertAll_apply hnodup, lookup_readAs, lookup_topLevelMembers, Option.or_none]
    simp only [settingsOf]
    split <;> rfl
  have htext : serializeSettings F (.obj members) =
      "cfg = \r\n\x7b\r\n".toList ++
        ((topLevelMembers members).flatMap (fun e => serializeTopLevel F e.1 e.2) ++
          (((members.lookup "advanced").bind Json.asObject).map (advancedBlock F)).getD [] ++
          (((members.lookup "missionList").bind Json.asArray).map missionListBlock).getD []) ++
        "\x7d -- end of cfg\r\n".toList := by
    unfold serializeSettings
    simp only [List.append_assoc]
    rfl
  rw [htext, hall.parse, hscalars]
  rfl

end

/-! ## 5. A setting that is lost -/

/-- **A text among the advanced settings makes the file unreadable.**  It is written without
quotes. -/
theorem advanced_string_lost :
    parseBlocking integers (serializeSettings integers
      (.obj [("advanced", .obj [("note", .str "hello world")])])) = .error .evaluate := by
  have hchunk : readChunk integers.round (serializeSettings integers
      (.obj [("advanced", .obj [("note", .str "hello world")])])) = none :=
    Option.isNone_iff_eq_none.mp (by decide +kernel)
  rw [parseBlocking, hchunk]

/-- Settings with a setting of each kind. -/
def nightServer : List (String × Json) :=
  [("advanced", .obj [("allow_ownship_export", .bool true)]),
    ("description", .str "Night \"ops\"\r\nC:\\srs"),
    ("isPublic", .bool true),
    ("missionList", .arr (["C:\\Missions\\a.miz", "b.miz"].map .str)),
    ("port", .num (10308 : ℤ)),
    ("version", .num (1 : ℤ))]

theorem settings_roundTrip_nightServer :
    parseBlocking integers (serializeSettings integers (.obj nightServer)) =
      .ok (settingsOf integers nightServer) := by
  refine settings_roundTrip integers_lawful ⟨⟨by decide, by decide⟩, ?_, ?_, ?_⟩
  · intro e he hadvanced hlist
    fin_cases he
    · exact absurd rfl hadvanced
    · exact ⟨by decide, by decide, by decide⟩
    · exact ⟨by decide, by decide⟩
    · exact absurd rfl hlist
    · exact ⟨by decide, by decide, integers_kept 10308⟩
    · exact ⟨by decide, by decide, integers_kept 1⟩
  · intro v hv
    obtain rfl : v = .obj [("allow_ownship_export", .bool true)] := by
      simpa [nightServer] using hv
    exact ⟨_, rfl, ⟨by decide, by decide⟩, fun e he => by fin_cases he; trivial⟩
  · intro v hv
    obtain rfl : v = .arr (["C:\\Missions\\a.miz", "b.miz"].map .str) := by
      simpa [nightServer] using hv
    exact ⟨_, rfl, by decide, by decide⟩

end DcsDashboard.Settings
