/-
# The settings editor of SRS

`routes/srs.rs`: `get_settings` reads the `server.cfg` of SRS into an object of sections, and
`post_settings` rewrites the lines of the file that the posted object has a value for.  Both go
through the file line by line, on their own.  The reader guesses for each value whether it is a
boolean, a number or a text, and the writer prints what is posted.

Floating-point numbers and their texts are a parameter (`NumberTexts`), with what is documented of
them.
-/
import DcsDashboard.Lib.RustText
import Mathlib.Logic.Function.Basic

namespace DcsDashboard.Srs

open Lib

/-! ## 1. Values -/

/-- A value of the object. -/
inductive CfgValue (N : Type*)
  | bool (b : Bool)
  | number (n : N)
  | null
  | string (s : List Char)
  deriving DecidableEq

/-- The numbers of `serde_json` and their texts. -/
structure NumberTexts (N : Type*) where
  /-- `parse::<f64>` and then `json!`: `none` for a text that is not a number, `some none` for one
  that is not finite, which `json!` makes `null` -/
  parse : List Char → Option (Option N)
  /-- `Number::to_string` -/
  print : N → List Char
  /-- a number on its way through a client that parses and stringifies it -/
  echo : N → N
  parse_nil : parse [] = none
  parse_null : parse "null".toList = none
  parse_chars : ∀ text, parse text ≠ none → ∀ c ∈ text, c ≠ '\n' ∧ c ≠ '=' ∧ c ≠ ']'
  print_chars : ∀ n, ∀ c ∈ print n, isWhitespace c = false ∧ c ≠ ']'

section

variable {N : Type*} (T : NumberTexts N)

/-- `parsed_val` of `get_settings`. -/
def typed (value : List Char) : CfgValue N :=
  if eqIgnoreAsciiCase value "true".toList then .bool true
  else if eqIgnoreAsciiCase value "false".toList then .bool false
  else
    match T.parse value with
    | some (some n) => .number n
    | some none => .null
    | none => .string value

/-- `val_str` of `post_settings`. -/
def printValue : CfgValue N → List Char
  | .string s => s
  | .bool true => "true".toList
  | .bool false => "false".toList
  | .number n => T.print n
  | .null => "null".toList

/-- A value as a client sends back what it got. -/
def echoValue : CfgValue N → CfgValue N
  | .number n => .number (T.echo n)
  | value => value

end

/-! ## 2. Lines -/

/-- Blank lines and comments. -/
def isSkipped (line : List Char) : Bool :=
  line = [] || line.head? = some ';' || line.head? = some '#'

/-- A line in brackets. -/
def isSection (line : List Char) : Bool := line.head? = some '[' && line.getLast? = some ']'

/-- The name between the brackets. -/
def sectionName (line : List Char) : List Char := trim (line.drop 1).dropLast

/-- The section of the lines before the first section line. -/
def defaultSection : List Char := "General Settings".toList

/-- The object of the settings: from the name of a section to its keys and values. -/
abbrev Settings (N : Type*) := List Char → Option (List Char → Option (CfgValue N))

section

variable {N : Type*}

/-- The value of a key. -/
def Settings.value (settings : Settings N) (name key : List Char) : Option (CfgValue N) :=
  (settings name).bind fun keys => keys key

/-- A section that is not there yet is added without keys. -/
def Settings.addSection (settings : Settings N) (name : List Char) : Settings N :=
  if (settings name).isSome then settings else Function.update settings name (some fun _ => none)

/-- A key of a section is set. -/
def Settings.insert (settings : Settings N) (name key : List Char) (value : CfgValue N) :
    Settings N :=
  let settings := settings.addSection name
  Function.update settings name
    ((settings name).map fun keys => Function.update keys key (some value))

variable (T : NumberTexts N)

/-! ## 3. The reader -/

/-- The body of the loop of `get_settings`; the state is the current section and the object. -/
def readLine (state : List Char × Settings N) (line : List Char) : List Char × Settings N :=
  let line := trim line
  if isSkipped line then state
  else if isSection line then (sectionName line, state.2.addSection (sectionName line))
  else
    match splitOnce '=' line with
    | some (k, v) => (state.1, state.2.insert state.1 (trim k) (typed T (trim v)))
    | none => state

/-- The object `get_settings` reads from the content of the file. -/
def getSettings (content : List Char) : Settings N :=
  ((lines content).foldl (readLine T) (defaultSection, fun _ => none)).2

/-! ## 4. The writer -/

/-- The body of the loop of `post_settings`; the state is the current section and the new lines. -/
def writeLine (updates : Settings N) (state : List Char × List (List Char)) (line : List Char) :
    List Char × List (List Char) :=
  let trimmed := trim line
  if isSection trimmed then (sectionName trimmed, state.2 ++ [line])
  else if isSkipped trimmed then (state.1, state.2 ++ [line])
  else
    match splitOnce '=' trimmed with
    | some (k, _) =>
      match updates.value state.1 (trim k) with
      | some value => (state.1, state.2 ++ [trim k ++ '=' :: printValue T value])
      | none => (state.1, state.2 ++ [line])
    | none => (state.1, state.2 ++ [line])

/-- The content `post_settings` writes. -/
def postSettings (updates : Settings N) (content : List Char) : List Char :=
  ['\r', '\n'].intercalate ((lines content).foldl (writeLine T updates) (defaultSection, [])).2

/-! ## 5. The routes -/

/-- `SRS_CFG_PATH` and the file there. -/
inductive CfgFile
  | notConfigured
  | unreadable (error : String)
  | content (text : List Char)

/-- `GET /api/srs/settings`. -/
def getSettingsRoute : CfgFile → Except String (Settings N)
  | .notConfigured => .error ("SRS_CFG_PATH not configured. Please set it in your .env or " ++
      "configure SRS_START_CMD correctly.")
  | .unreadable error => .error error
  | .content text => .ok (getSettings T text)

/-- `POST /api/srs/settings`: the answer and the file after it; no payload is one that is not an
object. -/
def postSettingsRoute (payload : Option (Settings N)) : CfgFile → Except String Unit × CfgFile
  | .notConfigured => (.error "SRS_CFG_PATH not configured.", .notConfigured)
  | .unreadable error => (.error error, .unreadable error)
  | .content text =>
    match payload with
    | none => (.error "Payload must be an object", .content text)
    | some updates => (.ok (), .content (postSettings T updates text))

/-- A failed request leaves the file as it is. -/
theorem postSettingsRoute_error {payload : Option (Settings N)} {file : CfgFile} {e : String}
    (h : (postSettingsRoute T payload file).1 = .error e) :
    (postSettingsRoute T payload file).2 = file := by
  cases file with
  | notConfigured => rfl
  | unreadable error => rfl
  | content text =>
    cases payload with
    | none => rfl
    | some updates => cases h

end

end DcsDashboard.Srs
