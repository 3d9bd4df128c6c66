/-
# The help texts of Foothold Config.lua

`get_foothold_config` reads the comments of the file as well: the comment lines above an
assignment and the comment after it are its help text, and where that says `Valid values:` the
quoted texts after it are its choices.

The marker is searched in the help text in lower case, and the offset found there is used to slice
the help text itself.  The two texts need not have their characters at the same offsets.  The
slices are good exactly where the help text has whole characters on one line there (`Sliceable`),
and the choices are then quoted after the marker unless a quote stands between the slices and the
marker (`getFootholdConfigResponse_safe`).

What Lua makes of the file is a parameter.
-/
import DcsDashboard.Foothold.ConfigEditing
import DcsDashboard.Lib.JoinedText
import DcsDashboard.Lib.LowerCase
import DcsDashboard.Lib.TextLines

namespace DcsDashboard.Foothold

open Lib

/-! ## 1. Choices -/

/-- `"valid values:"`. -/
def marker : List Char := "valid values:".toList

/-- What stands between a quote at an offset and the next one: the choice, if there is a next
one. -/
def quotedPart (q : Char) (p : List Char) (start : Nat) : Option (Option (List Char)) := do
  let rest ← sliceFrom p (start + 1)
  match findChar q rest with
  | some stop => (slice p (start + 1) (start + 1 + stop)).map some
  | none => return none

/-- What the loop over `parts` pushes for one of them. -/
def partChoice (part : List Char) : Option (Option (List Char)) :=
  let p := trim part
  match findChar '"' p with
  | some start => quotedPart '"' p start
  | none =>
    match findChar '\x27' p with
    | some start => quotedPart '\x27' p start
    | none => return none

/-- The choices in `remaining`. -/
def collectChoices (remaining : List Char) : Option (List (List Char)) :=
  ((remaining.splitOnP fun c => c = '|' || c = ',').mapM partChoice).map fun found =>
    found.filterMap id

/-- The choices of a help text, `none` where a slice panics. -/
def validValues (T : LowerCase) (help : List Char) : Option (List (List Char)) :=
  match find marker (T.toLowercase help) with
  | none => some []
  | some idx => do
    let tail ← sliceFrom help idx
    match findChar '\n' tail with
    | some lineEnd =>
      collectChoices (← slice help (idx + byteLength marker) (idx + lineEnd))
    | none => collectChoices (← sliceFrom help (idx + byteLength marker))

/-! ## 2. The loop over the lines -/

/-- `FootholdMetadata`. -/
structure FootholdMetadata where
  help : Option (List Char)
  choices : List (List Char)
  deriving DecidableEq

/-- `metadata`, by key. -/
abbrev MetadataMap := List Char → Option FootholdMetadata

/-- `trim_start_matches("--")`. -/
def trimStartDashes : List Char → List Char
  | '-' :: '-' :: s => trimStartDashes s
  | s => s

/-- What `current_block_comment` is after a comment line. -/
def afterComment (comments : List (List Char)) (trimmed : List Char) : List (List Char) :=
  if "---".toList.isPrefixOf trimmed || "-- =".toList.isPrefixOf trimmed then comments
  else
    let text := trim (trimStartDashes trimmed)
    if text = [] then comments else comments ++ [text]

/-- The left-hand side looks like a key. -/
def isHelpKey (C : CharClasses) (lhs : List Char) : Bool :=
  lhs.all (fun c => C.alphanumeric c || c = '_' || c = '.') && !lhs.isEmpty

/-- `trailing_comment`. -/
def trailingComment (trimmed : List Char) (eqIdx : Nat) : Option (Option (List Char)) :=
  match find "--".toList trimmed with
  | some commentIdx =>
    if commentIdx > eqIdx then (sliceFrom trimmed (commentIdx + 2)).map fun s => some (trim s)
    else return none
  | none => return none

/-- `help`. -/
def helpText (comments : List (List Char)) (trailing : Option (List Char)) : List Char :=
  let help := joinLines comments
  match trailing with
  | some tc => (if help = [] then [] else help ++ ['\n']) ++ tc
  | none => help

/-- `is_bool`. -/
def isBoolText (value : List Char) : Bool :=
  "true".toList.isPrefixOf (trim value) || "false".toList.isPrefixOf (trim value)

/-- What is inserted for a key. -/
def insertMetadata (metadata : MetadataMap) (lhs help : List Char) (choices : List (List Char)) :
    MetadataMap :=
  if help = [] ∧ choices = [] then metadata
  else fun key =>
    if key = lhs then some { help := if help = [] then none else some help, choices }
    else metadata key

/-- The body of the loop. -/
def scanLine (T : LowerCase) (C : CharClasses) (state : List (List Char) × MetadataMap)
    (line : List Char) : Option (List (List Char) × MetadataMap) :=
  let (comments, metadata) := state
  let trimmed := trim line
  if "--".toList.isPrefixOf trimmed then return (afterComment comments trimmed, metadata)
  else if trimmed = [] then return (comments, metadata)
  else
    match findChar '=' trimmed with
    | none => return ([], metadata)
    | some eqIdx => do
      let lhs := trim (← sliceTo trimmed eqIdx)
      if isHelpKey C lhs then do
        let help := helpText comments (← trailingComment trimmed eqIdx)
        let choices ← validValues T help
        let value ← sliceFrom trimmed (eqIdx + 1)
        let choices := if isBoolText value then ["true".toList, "false".toList] else choices
        return ([], insertMetadata metadata lhs help choices)
      else return ([], metadata)

/-- `get_foothold_config` of a file: `none` where it panics, `some none` where Lua refuses the
file. -/
def getFootholdConfigResponse {V : Type*} (luaValues : List Char → Option V) (T : LowerCase)
    (C : CharClasses) (content : List Char) : Option (Option (V × MetadataMap)) :=
  match luaValues content with
  | none => some none
  | some values =>
    ((lines content).foldlM (scanLine T C) ([], fun _ => none)).map fun state =>
      some (values, state.2)

/-! ## 3. The help texts that are scanned -/

/-- `current_block_comment` after a line. -/
def commentsAfter (comments : List (List Char)) (line : List Char) : List (List Char) :=
  let trimmed := trim line
  if "--".toList.isPrefixOf trimmed then afterComment comments trimmed
  else if trimmed = [] then comments else []

/-- The help text of a line. -/
def helpOf (C : CharClasses) (comments : List (List Char)) (line : List Char) :
    Option (List Char) :=
  let trimmed := trim line
  if "--".toList.isPrefixOf trimmed || trimmed.isEmpty then none
  else do
    let (before, _) ← splitOnce '=' trimmed
    if isHelpKey C (trim before) then
      (trailingComment trimmed (byteLength before)).map (helpText comments)
    else none

/-- The help texts of some lines. -/
def helpTexts (C : CharClasses) (comments : List (List Char)) : List (List Char) → List (List Char)
  | [] => []
  | line :: ls =>
    (helpOf C comments line).toList ++ helpTexts C (commentsAfter comments line) ls

/-- The help texts of a file, which are scanned when Lua accepts it. -/
def scannedHelp {V : Type*} (luaValues : List Char → Option V) (C : CharClasses)
    (content : List Char) : List (List Char) :=
  if (luaValues content).isSome then helpTexts C [] (lines content) else []

/-- What stands before and after the marker, in whatever case it is written. -/
def markerSplit (help : List Char) : Option (List Char × List Char) :=
  (findText marker (help.map Char.toLower)).map fun parts =>
    (help.take parts.1.length, help.drop (parts.1.length + marker.length))

/-- A text stands between two quotes of a kind. -/
def QuotedIn (text choice : List Char) : Prop :=
  ∃ q, (q = '"' ∨ q = '\x27') ∧ q ∉ choice ∧ q :: choice ++ [q] <:+: text

/-- No slice panics, and every choice that is extracted is quoted after the marker. -/
structure SafeHelp {V : Type*} (luaValues : List Char → Option V) (T : LowerCase)
    (C : CharClasses) (content : List Char) : Prop where
  returns : getFootholdConfigResponse luaValues T C content ≠ none
  quoted : ∀ help ∈ scannedHelp luaValues C content, ∀ choices,
    validValues T help = some choices → ∀ choice ∈ choices,
      ∃ before after, markerSplit help = some (before, after) ∧ QuotedIn after choice

/-- A help text can be sliced at the offset of the marker in its lower-case form: there it has as
many bytes as the marker, in whole characters and on one line. -/
def Sliceable (T : LowerCase) (help : List Char) : Prop :=
  ∀ before after, markerSplit help = some (before, after) →
    ∃ x y rest, help = x ++ (y ++ rest) ∧ byteLength x = byteLength (T.toLowercase before) ∧
      byteLength y = byteLength marker ∧ '\n' ∉ y

/-- Where these bytes end before the marker, no quote stands between. -/
def NoQuoteBetween (T : LowerCase) (help : List Char) : Prop :=
  ∀ before after, markerSplit help = some (before, after) →
    ∀ front back, before = front ++ back →
      byteLength (T.toLowercase before) + byteLength marker ≤ byteLength front →
        '"' ∉ back ∧ '\x27' ∉ back

/-- Lower-casing keeps the length of what stands before the marker. -/
def KeepsLength (T : LowerCase) (help : List Char) : Prop :=
  ∀ before after, markerSplit help = some (before, after) →
    byteLength (T.toLowercase before) = byteLength before

/-! ## 4. Choices are quoted -/

theorem QuotedIn.mono {text text' choice : List Char} (h : QuotedIn text choice)
    (hin : text <:+: text') : QuotedIn text' choice := by
  obtain ⟨q, hq, hfree, hquoted⟩ := h
  exact ⟨q, hq, hfree, hquoted.trans hin⟩

/-- A piece without quotes in front does not matter. -/
theorem QuotedIn.of_append {front text choice : List Char}
    (hfront : '"' ∉ front ∧ '\x27' ∉ front) (h : QuotedIn (front ++ text) choice) :
    QuotedIn text choice := by
  obtain ⟨q, hq, hfree, a, b, hab⟩ := h
  have hqfront : q ∉ front := by
    rcases hq with rfl | rfl
    · exact hfront.1
    · exact hfront.2
  rw [List.append_assoc] at hab
  rcases List.append_eq_append_iff.mp hab with ⟨z, hz, hrest⟩ | ⟨z, -, hrest⟩
  · cases z with
    | nil => exact ⟨q, hq, hfree, [], b, by simpa using hrest⟩
    | cons d z =>
      -- the quote would stand in the piece in front
      obtain rfl : q = d := (List.cons.inj hrest).1
      exact absurd (by rw [hz]; simp) hqfront
  · exact ⟨q, hq, hfree, z, b, by rw [hrest, List.append_assoc]⟩

theorem quotedPart_spec {q : Char} (hsize : q.utf8Size = 1) (hq : q = '"' ∨ q = '\x27')
    {p : List Char} {start : Nat} (hstart : findChar q p = some start) :
    ∃ choice, quotedPart q p start = some choice ∧ ∀ c ∈ choice, QuotedIn p c := by
  obtain ⟨x, rest, rfl, -, hx⟩ := findChar_eq_some hstart
  have hrest : sliceFrom (x ++ q :: rest) (start + 1) = some rest :=
    sliceFrom_eq_some.mpr ⟨x ++ [q], by simp, by simp [hx, hsize]⟩
  cases hstop : findChar q rest with
  | none => exact ⟨none, by simp [quotedPart, hrest, hstop], by simp⟩
  | some stop =>
    obtain ⟨y, z, rfl, hfree, hy⟩ := findChar_eq_some hstop
    have hchoice : slice (x ++ q :: (y ++ q :: z)) (start + 1) (start + 1 + stop) = some y :=
      slice_eq_some.mpr ⟨x ++ [q], q :: z, by simp, by simp [hx, hsize], by simp [hx, hsize, hy]⟩
    refine ⟨some y, by simp [quotedPart, hrest, hstop, hchoice], ?_⟩
    intro c hc
    obtain rfl : y = c := Option.mem_some_iff.mp hc
    exact ⟨q, hq, hfree, x, z, by simp⟩

theorem partChoice_spec (part : List Char) :
    ∃ choice, partChoice part = some choice ∧ ∀ c ∈ choice, QuotedIn part c := by
  obtain ⟨front, back, hpart, -, -⟩ := exists_trim_append part
  have hin : trim part <:+: part := ⟨front, back, hpart.symm⟩
  unfold partChoice
  dsimp only
  cases hdouble : findChar '"' (trim part) with
  | some start =>
    obtain ⟨choice, hchoice, hquoted⟩ := quotedPart_spec (by decide) (.inl rfl) hdouble
    exact ⟨choice, hchoice, fun c hc => (hquoted c hc).mono hin⟩
  | none =>
    cases hsingle : findChar '\x27' (trim part) with
    | some start =>
      obtain ⟨choice, hchoice, hquoted⟩ := quotedPart_spec (by decide) (.inr rfl) hsingle
      exact ⟨choice, hchoice, fun c hc => (hquoted c hc).mono hin⟩
    | none => exact ⟨none, rfl, by simp⟩

/-- The loop over the parts. -/
theorem mapM_partChoice (parts : List (List Char)) :
    ∃ found, parts.mapM partChoice = some found ∧
      ∀ choice ∈ found.filterMap id, ∃ part ∈ parts, QuotedIn part choice := by
  induction parts with
  | nil => exact ⟨[], rfl, by simp⟩
  | cons part parts ih =>
    obtain ⟨choice, hchoice, hpart⟩ := partChoice_spec part
    obtain ⟨found, hfound, hparts⟩ := ih
    refine ⟨choice :: found, by simp [hchoice, hfound], ?_⟩
    intro c hc
    obtain ⟨o, ho, hoc⟩ := List.mem_filterMap.mp hc
    rcases List.mem_cons.mp ho with rfl | ho
    · exact ⟨part, by simp, hpart c hoc⟩
    · obtain ⟨p, hp, hquoted⟩ := hparts c (List.mem_filterMap.mpr ⟨o, ho, hoc⟩)
      exact ⟨p, List.mem_cons_of_mem part hp, hquoted⟩

/-- **No slice of the loop over the parts panics**, and what it collects is quoted. -/
theorem collectChoices_spec (remaining : List Char) :
    ∃ choices, collectChoices remaining = some choices ∧
      ∀ choice ∈ choices, QuotedIn remaining choice := by
  obtain ⟨found, hfound, hquoted⟩ :=
    mapM_partChoice (remaining.splitOnP fun c => c = '|' || c = ',')
  refine ⟨found.filterMap id, by rw [collectChoices, hfound, Option.map_some], ?_⟩
  intro choice hchoice
  obtain ⟨part, hpart, hin⟩ := hquoted choice hchoice
  exact hin.mono (infix_of_mem_splitOnP hpart)

/-! ## 5. The marker -/

theorem marker_searchable : LowerCase.Searchable marker := by
  refine ⟨?_, by decide⟩
  have hall : marker.all (fun d => d.toNat < 128 && d ≠ 'k') = true := by decide +kernel
  simpa [List.all_eq_true] using hall

/-- The marker as it stands in the help text. -/
theorem markerSplit_spec {help before after : List Char}
    (h : markerSplit help = some (before, after)) (T : LowerCase) :
    find marker (T.toLowercase help) = some (byteLength (T.toLowercase before)) ∧
      ∃ found, help = before ++ (found ++ after) ∧ found.map Char.toLower = marker := by
  obtain ⟨⟨u, v⟩, hfind, hparts⟩ := Option.map_eq_some_iff.mp h
  obtain ⟨rfl, rfl⟩ := Prod.mk.inj hparts
  obtain ⟨huv, w, rfl⟩ := findText_spec hfind
  refine ⟨?_, (help.drop u.length).take marker.length, ?_, ?_⟩
  · rw [LowerCase.find_toLowercase marker_searchable (by decide), hfind, Option.map_some]
  · rw [← List.drop_drop, List.take_append_drop, List.take_append_drop]
  · rw [List.map_take, List.map_drop, huv, List.drop_left, List.take_left]

theorem find_of_markerSplit_eq_none {help : List Char} (h : markerSplit help = none)
    (T : LowerCase) : find marker (T.toLowercase help) = none := by
  rw [LowerCase.find_toLowercase marker_searchable (by decide), Option.map_eq_none_iff.mp h,
    Option.map_none]

/-- A character whose lower-case form is in the marker. -/
theorem marker_char {c : Char} (h : c.toLower ∈ marker) :
    c.utf8Size = 1 ∧ c ≠ '\n' ∧ c ≠ '"' ∧ c ≠ '\x27' := by
  have hascii : c.toNat < 128 := by
    by_contra hbeyond
    rw [LowerCase.toLower_beyond (Nat.le_of_not_lt hbeyond)] at h
    exact hbeyond (marker_searchable.ascii c h).1
  refine ⟨Char.utf8Size_eq_one_iff.mpr ?_, ?_, ?_, ?_⟩
  · have hval : c.toNat = c.val.toNat := rfl
    rw [UInt32.le_iff_toNat_le, ← hval]
    exact Nat.le_of_lt_succ hascii
  · rintro rfl
    exact absurd h (by decide)
  · rintro rfl
    exact absurd h (by decide)
  · rintro rfl
    exact absurd h (by decide)

/-- The marker has as many bytes in any case, and neither quotes nor line feeds. -/
theorem marker_found {found : List Char} (h : found.map Char.toLower = marker) :
    byteLength found = byteLength marker ∧ '\n' ∉ found ∧ '"' ∉ found ∧ '\x27' ∉ found := by
  have hchar : ∀ c ∈ found, c.utf8Size = 1 ∧ c ≠ '\n' ∧ c ≠ '"' ∧ c ≠ '\x27' := fun c hc =>
    marker_char (by rw [← h]; exact List.mem_map_of_mem hc)
  have hbytes : byteLength found = found.length :=
    byteLength_eq_length fun c hc => (hchar c hc).1
  have hlength : found.length = marker.length := by rw [← h, List.length_map]
  refine ⟨?_, fun hc => (hchar _ hc).2.1 rfl, fun hc => (hchar _ hc).2.2.1 rfl,
    fun hc => (hchar _ hc).2.2.2 rfl⟩
  rw [hbytes, hlength]
  decide

/-! ## 6. The slices of a help text -/

/-- The line a text begins with. -/
theorem takeWhile_line {r : List Char} (h : '\n' ∉ r) (t : List Char) :
    (r ++ '\n' :: t).takeWhile (· ≠ '\n') = r := by
  rw [List.takeWhile_append_of_pos (decide_ne_of_notMem h)]
  simp

theorem takeWhile_lastLine {r : List Char} (h : '\n' ∉ r) : r.takeWhile (· ≠ '\n') = r :=
  List.takeWhile_eq_self_iff.mpr (decide_ne_of_notMem h)

/-- The slices, when they are good, are parts of the help text. -/
theorem validValues_slices {T : LowerCase} {help : List Char} {idx : Nat}
    (hfind : find marker (T.toLowercase help) = some idx) {choices : List (List Char)}
    (h : validValues T help = some choices) :
    ∃ x y rest, help = x ++ (y ++ rest) ∧ byteLength x = idx ∧
      byteLength y = byteLength marker ∧ '\n' ∉ y ∧
      collectChoices (rest.takeWhile (· ≠ '\n')) = some choices := by
  simp only [validValues, hfind, Option.bind_eq_bind] at h
  obtain ⟨tail, htail, h⟩ := Option.bind_eq_some_iff.mp h
  obtain ⟨x, rfl, hx⟩ := sliceFrom_eq_some.mp htail
  cases hfeed : findChar '\n' tail with
  | some lineEnd =>
    rw [hfeed] at h
    obtain ⟨remaining, hslice, hchoices⟩ := Option.bind_eq_some_iff.mp h
    obtain ⟨x', rest', happ, hx', hlength⟩ := slice_eq_some.mp hslice
    obtain ⟨l, t, rfl, hl, hline⟩ := findChar_eq_some hfeed
    obtain ⟨y, rfl, hrest⟩ := append_of_byteLength_le happ (by omega)
    rw [byteLength_append] at hx' hlength
    -- the piece before the line feed and the two slices have the same length
    obtain ⟨z, rfl, hend⟩ := append_of_byteLength_le
      ((List.append_assoc y remaining rest').trans hrest.symm)
      (by rw [byteLength_append]; omega)
    have hz : z = [] := by
      rw [byteLength_append, byteLength_append] at hline
      exact byteLength_eq_zero.mp (by omega)
    subst hz
    rw [List.append_nil, List.mem_append, not_or] at hl
    refine ⟨x, y, remaining ++ '\n' :: t, by simp, hx, by omega, hl.1, ?_⟩
    rw [takeWhile_line hl.2]
    exact hchoices
  | none =>
    rw [hfeed] at h
    obtain ⟨remaining, hslice, hchoices⟩ := Option.bind_eq_some_iff.mp h
    obtain ⟨x', happ, hx'⟩ := sliceFrom_eq_some.mp hslice
    obtain ⟨y, rfl, rfl⟩ := append_of_byteLength_le happ (by omega)
    rw [findChar_eq_none, List.mem_append, not_or] at hfeed
    rw [byteLength_append] at hx'
    refine ⟨x, y, remaining, rfl, hx, by omega, hfeed.1, ?_⟩
    rw [takeWhile_lastLine hfeed.2]
    exact hchoices

/-- What is read behind as many bytes as the marker has. -/
theorem validValues_of_slices {T : LowerCase} {x y rest : List Char}
    (hfind : find marker (T.toLowercase (x ++ (y ++ rest))) = some (byteLength x))
    (hy : byteLength y = byteLength marker) (hfree : '\n' ∉ y) :
    validValues T (x ++ (y ++ rest)) = collectChoices (rest.takeWhile (· ≠ '\n')) := by
  simp only [validValues, hfind, Option.bind_eq_bind]
  rw [sliceFrom_byteLength, Option.bind_some, ← hy]
  by_cases hfeed : '\n' ∈ rest
  · obtain ⟨r, t, rfl, hr⟩ := List.eq_append_cons_of_mem hfeed
    have hline : findChar '\n' (y ++ (r ++ '\n' :: t)) = some (byteLength (y ++ r)) := by
      rw [← List.append_assoc]
      exact findChar_append (by simp [hfree, hr]) t
    have hslice : slice (x ++ (y ++ (r ++ '\n' :: t))) (byteLength x + byteLength y)
        (byteLength x + byteLength (y ++ r)) = some r :=
      slice_eq_some.mpr ⟨x ++ y, '\n' :: t, by simp, by simp, by simp; omega⟩
    rw [takeWhile_line hr, hline]
    simp only [hslice, Option.bind_some]
  · have hline : findChar '\n' (y ++ rest) = none :=
      findChar_eq_none.mpr (by simp [hfree, hfeed])
    have hslice : sliceFrom (x ++ (y ++ rest)) (byteLength x + byteLength y) = some rest :=
      sliceFrom_eq_some.mpr ⟨x ++ y, by simp, by simp⟩
    rw [takeWhile_lastLine hfeed, hline]
    simp only [hslice, Option.bind_some]

/-- **When the slices are good**: at the offset there are as many bytes as the marker has, and the
choices are those of the rest of their line. -/
theorem validValues_eq_some_iff {T : LowerCase} {help : List Char} {idx : Nat}
    (hfind : find marker (T.toLowercase help) = some idx) {choices : List (List Char)} :
    validValues T help = some choices ↔
      ∃ x y rest, help = x ++ (y ++ rest) ∧ byteLength x = idx ∧
        byteLength y = byteLength marker ∧ '\n' ∉ y ∧
        collectChoices (rest.takeWhile (· ≠ '\n')) = some choices := by
  constructor
  · exact validValues_slices hfind
  · rintro ⟨x, y, rest, rfl, rfl, hy, hfree, hchoices⟩
    rw [validValues_of_slices hfind hy hfree]
    exact hchoices

/-- No slice panics, and the choices are quoted after the marker. -/
def ScannedWell (T : LowerCase) (help : List Char) : Prop :=
  ∃ choices, validValues T help = some choices ∧ ∀ choice ∈ choices,
    ∃ before after, markerSplit help = some (before, after) ∧ QuotedIn after choice

theorem ScannedWell.sliceable {T : LowerCase} {help : List Char} (h : ScannedWell T help) :
    Sliceable T help := by
  obtain ⟨choices, hchoices, -⟩ := h
  intro before after hsplit
  obtain ⟨x, y, rest, rfl, hx, hy, hfree, -⟩ :=
    (validValues_eq_some_iff (markerSplit_spec hsplit T).1).mp hchoices
  exact ⟨x, y, rest, rfl, hx, hy, hfree⟩

/-- **One help text.**  What is read after the slices is quoted after the marker, wherever they
end. -/
theorem Sliceable.scannedWell {T : LowerCase} {help : List Char} (h : Sliceable T help)
    (hbetween : NoQuoteBetween T help) : ScannedWell T help := by
  cases hsplit : markerSplit help with
  | none =>
    refine ⟨[], ?_, by simp⟩
    rw [validValues, find_of_markerSplit_eq_none hsplit]
  | some parts =>
    obtain ⟨before, after⟩ := parts
    obtain ⟨hfind, found, hhelp, hmarker⟩ := markerSplit_spec hsplit T
    obtain ⟨x, y, rest, hslices, hx, hy, hfree⟩ := h before after hsplit
    obtain ⟨choices, hcollect, hquoted⟩ := collectChoices_spec (rest.takeWhile (· ≠ '\n'))
    refine ⟨choices, (validValues_eq_some_iff hfind).mpr
      ⟨x, y, rest, hslices, hx, hy, hfree, hcollect⟩, ?_⟩
    intro choice hchoice
    refine ⟨before, after, hsplit, ?_⟩
    have hrest : QuotedIn rest choice :=
      (hquoted choice hchoice).mono (List.takeWhile_prefix _).isInfix
    have hsame : before ++ (found ++ after) = x ++ y ++ rest :=
      hhelp.symm.trans (hslices.trans (List.append_assoc x y rest).symm)
    rcases le_total (byteLength before) (byteLength (x ++ y)) with hle | hle
    · -- the rest of the text begins within the marker or after it
      obtain ⟨z, -, hz⟩ := append_of_byteLength_le hsame hle
      have hlate : QuotedIn (z ++ rest) choice := hrest.mono (List.suffix_append z rest).isInfix
      rw [← hz] at hlate
      exact hlate.of_append (marker_found hmarker).2.2
    · -- what is left before the marker has no quotes
      obtain ⟨z, hbefore, rfl⟩ := append_of_byteLength_le hsame.symm hle
      have hz := hbetween before after hsplit (x ++ y) z hbefore
        (by rw [byteLength_append, hx, hy])
      exact (hrest.of_append hz).of_append (marker_found hmarker).2.2

/-- Where lower-casing keeps the length of what stands before the marker, the slices are those
meant. -/
theorem KeepsLength.scannedWell {T : LowerCase} {help : List Char} (h : KeepsLength T help) :
    ScannedWell T help := by
  refine Sliceable.scannedWell ?_ ?_
  · intro before after hsplit
    obtain ⟨-, found, hhelp, hmarker⟩ := markerSplit_spec hsplit T
    obtain ⟨hlength, hfree, -⟩ := marker_found hmarker
    exact ⟨before, found, after, hhelp, (h before after hsplit).symm, hlength, hfree⟩
  · intro before after hsplit front back hbefore hle
    have hkept := h before after hsplit
    have hpositive : 0 < byteLength marker := by decide
    rw [hkept, hbefore, byteLength_append] at hle
    omega

/-! ## 7. The file -/

/-- The slice after a comment mark. -/
theorem trailingComment_isSome (trimmed : List Char) (eqIdx : Nat) :
    ∃ trailing, trailingComment trimmed eqIdx = some trailing := by
  unfold trailingComment
  cases hfind : find "--".toList trimmed with
  | none => exact ⟨none, rfl⟩
  | some commentIdx =>
    obtain ⟨x, _, rfl, ⟨rest, rfl⟩, rfl⟩ := find_eq_some hfind
    dsimp only
    split
    · have hslice : sliceFrom (x ++ ("--".toList ++ rest)) (byteLength x + 2) = some rest :=
        sliceFrom_eq_some.mpr ⟨x ++ "--".toList, by simp, by
          rw [byteLength_append]
          rfl⟩
      exact ⟨some (trim rest), by rw [hslice, Option.map_some]⟩
    · exact ⟨none, rfl⟩

/-- **A line panics** when scanning its help text does; else the comments go on as said. -/
theorem scanLine_eq (T : LowerCase) (C : CharClasses) (comments : List (List Char))
    (metadata : MetadataMap) (line : List Char) :
    (∀ help, helpOf C comments line = some help → validValues T help = none →
      scanLine T C (comments, metadata) line = none) ∧
    ((∀ help, helpOf C comments line = some help → validValues T help ≠ none) →
      ∃ metadata', scanLine T C (comments, metadata) line =
        some (commentsAfter comments line, metadata')) := by
  unfold helpOf scanLine commentsAfter
  dsimp only
  cases hcomment : "--".toList.isPrefixOf (trim line) with
  | true =>
    simp only [Bool.true_or, if_true]
    refine ⟨fun help hhelp => ?_, fun _ => ⟨metadata, rfl⟩⟩
    cases hhelp
  | false =>
    by_cases hempty : trim line = []
    · simp only [hempty, List.isEmpty_nil, Bool.or_true, if_true, Bool.false_eq_true, if_false]
      refine ⟨fun help hhelp => ?_, fun _ => ⟨metadata, rfl⟩⟩
      cases hhelp
    · have hnonempty : (trim line).isEmpty = false := by simpa using hempty
      simp only [hempty, hnonempty, if_false, Bool.or_self, Bool.false_eq_true]
      cases hsplit : splitOnce '=' (trim line) with
      | none => simp [findChar, hsplit]
      | some parts =>
        obtain ⟨before, value⟩ := parts
        obtain ⟨hline, -⟩ := eq_append_of_splitOnce hsplit
        have hfind : findChar '=' (trim line) = some (byteLength before) := by
          rw [findChar, hsplit, Option.map_some]
        have hlhs : sliceTo (trim line) (byteLength before) = some before := by
          rw [hline]
          exact sliceTo_byteLength before ('=' :: value)
        have hvalue : sliceFrom (trim line) (byteLength before + 1) = some value :=
          sliceFrom_eq_some.mpr ⟨before ++ ['='], by simp [hline], by
            rw [byteLength_append]
            rfl⟩
        obtain ⟨trailing, htrailing⟩ := trailingComment_isSome (trim line) (byteLength before)
        simp only [hfind, hlhs, hvalue, htrailing, Option.bind_eq_bind, Option.bind_some,
          Option.map_some]
        by_cases hkey : isHelpKey C (trim before) = true
        · simp only [hkey, if_true, Option.some.injEq]
          refine ⟨?_, ?_⟩
          · rintro help rfl hnone
            rw [hnone, Option.bind_none]
          · intro hsome
            obtain ⟨choices, hchoices⟩ := Option.ne_none_iff_exists'.mp (hsome _ rfl)
            rw [hchoices]
            exact ⟨_, rfl⟩
        · simp [hkey]

/-- **The loop panics** when scanning one of the help texts does. -/
theorem foldlM_scanLine_ne_none (T : LowerCase) (C : CharClasses) (ls : List (List Char))
    (comments : List (List Char)) (metadata : MetadataMap) :
    ls.foldlM (scanLine T C) (comments, metadata) ≠ none ↔
      ∀ help ∈ helpTexts C comments ls, validValues T help ≠ none := by
  induction ls generalizing comments metadata with
  | nil => simp [helpTexts]
  | cons line ls ih =>
    obtain ⟨hpanics, hgoes⟩ := scanLine_eq T C comments metadata line
    simp only [helpTexts, List.mem_append, Option.mem_toList, List.foldlM_cons]
    by_cases hline : ∀ help, helpOf C comments line = some help → validValues T help ≠ none
    · obtain ⟨metadata', hstep⟩ := hgoes hline
      rw [hstep, Option.bind_eq_bind, Option.bind_some, ih]
      exact ⟨fun h help hhelp => hhelp.elim (hline help) (h help),
        fun h help hhelp => h help (.inr hhelp)⟩
    · simp only [not_forall, not_not] at hline
      obtain ⟨help, hhelp, hnone⟩ := hline
      rw [hpanics help hhelp hnone]
      exact iff_of_false (fun h => h rfl) fun h => h help (.inl hhelp) hnone

theorem safeHelp_iff {V : Type*} {luaValues : List Char → Option V} {T : LowerCase}
    {C : CharClasses} {content : List Char} :
    SafeHelp luaValues T C content ↔
      ∀ help ∈ scannedHelp luaValues C content, ScannedWell T help := by
  have hreturns : getFootholdConfigResponse luaValues T C content ≠ none ↔
      ∀ help ∈ scannedHelp luaValues C content, validValues T help ≠ none := by
    unfold getFootholdConfigResponse scannedHelp
    cases luaValues content with
    | none => simp
    | some values =>
      simp only [ne_eq, Option.map_eq_none_iff, Option.isSome_some, if_true]
      exact foldlM_scanLine_ne_none T C (lines content) [] fun _ => none
  constructor
  · rintro ⟨hok, hquoted⟩ help hhelp
    obtain ⟨choices, hchoices⟩ := Option.ne_none_iff_exists'.mp (hreturns.mp hok help hhelp)
    exact ⟨choices, hchoices, hquoted help hhelp choices hchoices⟩
  · intro h
    refine ⟨hreturns.mpr ?_, ?_⟩
    · intro help hhelp
      obtain ⟨choices, hchoices, -⟩ := h help hhelp
      rw [hchoices]
      simp
    · intro help hhelp choices hchoices
      obtain ⟨found, hfound, hquoted⟩ := h help hhelp
      obtain rfl : found = choices := Option.some.inj (hfound.symm.trans hchoices)
      exact hquoted

/-- **When the help texts are read safely**: each of them has to be `Sliceable`; and that is enough
where no quote stands between the slices and the marker, as it does where lower-casing keeps the
length of what stands before the marker. -/
theorem getFootholdConfigResponse_safe {V : Type*} (luaValues : List Char → Option V)
    (T : LowerCase) (C : CharClasses) (content : List Char) :
    (SafeHelp luaValues T C content →
      ∀ help ∈ scannedHelp luaValues C content, Sliceable T help) ∧
    ((∀ help ∈ scannedHelp luaValues C content, Sliceable T help ∧ NoQuoteBetween T help) →
      SafeHelp luaValues T C content) ∧
    ((∀ help ∈ scannedHelp luaValues C content, KeepsLength T help) →
      SafeHelp luaValues T C content) := by
  refine ⟨?_, ?_, ?_⟩
  · intro hsafe help hhelp
    exact (safeHelp_iff.mp hsafe help hhelp).sliceable
  · intro h
    exact safeHelp_iff.mpr fun help hhelp => (h help hhelp).1.scannedWell (h help hhelp).2
  · intro h
    exact safeHelp_iff.mpr fun help hhelp => (h help hhelp).scannedWell

/-- Lower case for ASCII, the dotted capital I and the Kelvin sign. -/
def plainLowerCase : LowerCase where
  form c := if c = '\u0130' then ['i', '\u0307'] else if c = '\u212a' then ['k'] else [c.toLower]
  finalSigma _ _ := false
  form_ascii c hc := by
    have hdotted : c ≠ '\u0130' := by
      rintro rfl
      exact absurd hc (by decide)
    have hkelvin : c ≠ '\u212a' := by
      rintro rfl
      exact absurd hc (by decide)
    rw [if_neg hdotted, if_neg hkelvin]
  form_dottedI := rfl
  form_kelvin := rfl
  form_other c hc hdotted hkelvin := by
    rw [if_neg hdotted, if_neg hkelvin, LowerCase.toLower_beyond hc]
    simpa using hc

def plainClasses : CharClasses := ⟨fun c => c.isAlphanum || c = '_', Char.isAlphanum⟩

/-- Where no quote stands before the marker, the slices at one place are all there is to check. -/
theorem sliceable_of_quoteless {T : LowerCase} {help before after x y rest : List Char}
    (hsplit : markerSplit help = some (before, after)) (hslices : help = x ++ (y ++ rest))
    (hx : byteLength x = byteLength (T.toLowercase before))
    (hy : byteLength y = byteLength marker ∧ '\n' ∉ y) (hquotes : '"' ∉ before ∧ '\x27' ∉ before) :
    Sliceable T help ∧ NoQuoteBetween T help := by
  constructor
  · intro before' after' hsplit'
    obtain ⟨rfl, rfl⟩ := Prod.mk.inj (Option.some.inj (hsplit.symm.trans hsplit'))
    exact ⟨x, y, rest, hslices, hx, hy⟩
  · intro before' after' hsplit' front back hbefore _
    obtain ⟨rfl, rfl⟩ := Prod.mk.inj (Option.some.inj (hsplit.symm.trans hsplit'))
    subst hbefore
    exact ⟨fun hmem => hquotes.1 (List.mem_append_right _ hmem),
      fun hmem => hquotes.2 (List.mem_append_right _ hmem)⟩

/-- Help texts in front of whose markers the lower-case form is as long, shorter and longer. -/
def accentedConfig : List Char :=
  ("-- Coop\u00e9ration, valid values: 'on' | 'off'\nMode = 1\n" ++
    "-- Tens of \u212a: valid values: \"30\"\nHeat = 30\n" ++
    "-- \u0130 valid values:  'A'\nSide = 2").toList

theorem getFootholdConfigResponse_safe_accents :
    SafeHelp (fun _ => some ()) plainLowerCase plainClasses accentedConfig := by
  refine (getFootholdConfigResponse_safe _ plainLowerCase plainClasses _).2.1 ?_
  have hscanned : scannedHelp (fun _ => some ()) plainClasses accentedConfig =
      ["Coop\u00e9ration, valid values: 'on' | 'off'".toList,
        "Tens of \u212a: valid values: \"30\"".toList,
        "\u0130 valid values:  'A'".toList] := by decide +kernel
  have hlong := @sliceable_of_quoteless plainLowerCase
    "Coop\u00e9ration, valid values: 'on' | 'off'".toList "Coop\u00e9ration, ".toList
    " 'on' | 'off'".toList "Coop\u00e9ration, ".toList "valid values:".toList
    " 'on' | 'off'".toList (by decide +kernel) (by decide +kernel) (by decide +kernel)
    (by decide +kernel) (by decide +kernel)
  have hshorter := @sliceable_of_quoteless plainLowerCase
    "Tens of \u212a: valid values: \"30\"".toList "Tens of \u212a: ".toList " \"30\"".toList
    "Tens of \u212a".toList ": valid value".toList "s: \"30\"".toList (by decide +kernel)
    (by decide +kernel) (by decide +kernel) (by decide +kernel) (by decide +kernel)
  have hlonger := @sliceable_of_quoteless plainLowerCase "\u0130 valid values:  'A'".toList
    "\u0130 ".toList "  'A'".toList "\u0130 v".toList "alid values: ".toList " 'A'".toList
    (by decide +kernel) (by decide +kernel) (by decide +kernel) (by decide +kernel)
    (by decide +kernel)
  intro help hhelp
  rw [hscanned] at hhelp
  simp only [List.mem_cons, List.not_mem_nil, or_false] at hhelp
  rcases hhelp with rfl | rfl | rfl
  · exact hlong
  · exact hshorter
  · exact hlonger

/-- The lower-case form of the first letter is a byte longer, so that the last slice begins beyond
the end of the help text. -/
theorem longer_lowerCase_panics :
    ¬ SafeHelp (fun _ => some ()) plainLowerCase plainClasses
      "-- \u0130pucu: valid values:\nSpeed = 1".toList := by
  intro h
  have hpanics : (getFootholdConfigResponse (fun _ => some ()) plainLowerCase plainClasses
      "-- \u0130pucu: valid values:\nSpeed = 1".toList).isNone = true := by decide +kernel
  exact h.returns (Option.isNone_iff_eq_none.mp hpanics)

example : validValues plainLowerCase "Mode.\nValid values: \"A\" | 'B' | C\nSee above.".toList =
    some ["A".toList, "B".toList] := by decide +kernel

end DcsDashboard.Foothold
