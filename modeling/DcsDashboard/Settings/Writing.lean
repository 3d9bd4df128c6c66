/-
# Writing serverSettings.lua

`serialize_settings` writes a whole file from a JSON object, in the byte layout of DCS.  Each
kind of entry has its own encoder: the top level, where some keys are coerced to a type and
strings are quoted; `advanced`, where a string is written as it stands, unless it reads as a
boolean or a number; and `missionList`, where a name is quoted and its backslashes doubled.
-/
import DcsDashboard.Lib.Json
import DcsDashboard.Lib.NumberFormat
import DcsDashboard.Lib.RustText

namespace DcsDashboard.Settings

open Lib Lua

/-! ## 1. Texts -/

/-- `s.replace("\r\n", "\n")`. -/
def replaceCrlf : List Char → List Char
  | '\r' :: '\n' :: s => '\n' :: replaceCrlf s
  | c :: s => c :: replaceCrlf s
  | [] => []

/-- `s.replace('\\', "\\\\")`. -/
def doubleBackslashes (s : List Char) : List Char :=
  s.flatMap fun c => if c = '\\' then ['\\', '\\'] else [c]

/-- `escape_lua_string`. -/
def escapeLuaString (value : List Char) : List Char :=
  let escaped := (doubleBackslashes value).flatMap fun c => if c = '"' then ['\\', '"'] else [c]
  (replaceCrlf escaped).flatMap fun c => if c = '\n' then ['\\', '\r', '\n'] else [c]

/-- `js_number_format`. -/
def jsNumberFormat (F : NumberFormat) : Double → List Char
  | .nan => "NaN".toList
  | .finite n => if n.den = 1 ∧ |n| < 10 ^ 15 then intText n.num else F.display n
  | .inf negative => if negative then "-inf".toList else "inf".toList

def boolText (b : Bool) : List Char := if b then "true".toList else "false".toList

section
variable (F : NumberFormat)

/-- `js_string`. -/
def jsString : Json → List Char
  | .str s => s.toList
  | .num n => F.serialize n
  | .bool b => boolText b
  | .null => "null".toList
  | other => other.text F.serialize

/-- The number a string is read as, with blanks around it. -/
def parseTrimmed (s : List Char) : Option Double :=
  if trim s = [] then none else F.parse (trim s)

/-- `number_token`. -/
def numberToken (value : Json) : List Char :=
  jsNumberFormat F <|
    match value with
    | .num n => F.round n
    | .str s => (parseTrimmed F s.toList).getD .nan
    | .bool b => .finite (if b then 1 else 0)
    | _ => .nan

/-- `bool_token`. -/
def boolToken : Json → Bool
  | .bool b => b
  | .str s => s = "true"
  | _ => false

/-- `advanced_token`. -/
def advancedToken : Json → List Char
  | .bool b => boolText b
  | .num n => F.serialize n
  | .str s =>
    if s = "true" then "true".toList
    else if s = "false" then "false".toList
    else match parseTrimmed F s.toList with
      | some x => jsNumberFormat F x
      | none => s.toList
  | .null => "null".toList
  | other => other.text F.serialize

/-! ## 2. The file -/

/-- `STRING_KEYS`. -/
def stringKeys : List String := ["name", "description", "password", "bind_address"]

/-- `NUMBER_KEYS`. -/
def numberKeys : List String := ["port", "mode", "listStartIndex", "maxPlayers"]

/-- `BOOL_KEYS`. -/
def boolKeys : List String :=
  ["require_pure_textures", "require_pure_scripts", "require_pure_clients",
    "require_pure_models", "listShuffle", "listLoop", "isPublic"]

/-- `["key"] = token,` on a line of its own. -/
def settingLine (indent key : String) (token : List Char) : List Char :=
  indent.toList ++ ("[\"".toList ++ key.toList ++ "\"] = ".toList ++ (token ++ [','])) ++
    "\r\n".toList

def quoted (body : List Char) : List Char := '"' :: body ++ ['"']

/-- `serialize_top_level`. -/
def serializeTopLevel (key : String) (value : Json) : List Char :=
  settingLine "\t" key <|
    if key ∈ stringKeys then quoted (escapeLuaString (jsString F value))
    else if key ∈ numberKeys then numberToken F value
    else if key ∈ boolKeys then boolText (boolToken value)
    else match value with
      | .str s => quoted (escapeLuaString s.toList)
      | .bool b => boolText b
      | .num n => F.serialize n
      | other => quoted (escapeLuaString (jsString F other))

/-- The line of the `index`-th mission. -/
def missionLine (index : Nat) (name : String) : List Char :=
  "\t\t".toList ++ ('[' :: Nat.toDigits 10 (index + 1) ++ "] = ".toList ++
    (quoted (doubleBackslashes name.toList) ++ [','])) ++ "\r\n".toList

/-- The lines of a queue of missions, from an index on. -/
def queueLines : Nat → List String → List Char
  | _, [] => []
  | index, name :: names => missionLine index name ++ queueLines (index + 1) names

/-- The block of `advanced`. -/
def advancedBlock (members : List (String × Json)) : List Char :=
  "\t[\"advanced\"] = \r\n\t\x7b\r\n".toList ++
    members.flatMap (fun e => settingLine "\t\t" e.1 (advancedToken F e.2)) ++
    "\t\x7d, -- end of [\"advanced\"]\r\n".toList

/-- The lines of a list of missions, from an index on.  What is not a string is passed over, but
counted. -/
def missionLines : Nat → List Json → List Char
  | _, [] => []
  | index, item :: items =>
    (item.asStr.map (missionLine index)).getD [] ++ missionLines (index + 1) items

/-- The block of `missionList`. -/
def missionListBlock (items : List Json) : List Char :=
  "\t[\"missionList\"] = \r\n\t\x7b\r\n".toList ++ missionLines 0 items ++
    "\t\x7d, -- end of [\"missionList\"]\r\n".toList

/-- `serialize_settings`. -/
def serializeSettings (payload : Json) : List Char :=
  let map := payload.asObject.getD []
  let topLevel := map.filter fun e => ¬(e.1 = "advanced" ∨ e.1 = "missionList")
  "cfg = \r\n\x7b\r\n".toList ++
    topLevel.flatMap (fun e => serializeTopLevel F e.1 e.2) ++
    (((payload.get "advanced").bind Json.asObject).map (advancedBlock F)).getD [] ++
    (((payload.get "missionList").bind Json.asArray).map missionListBlock).getD [] ++
    "\x7d -- end of cfg\r\n".toList

end

end DcsDashboard.Settings
