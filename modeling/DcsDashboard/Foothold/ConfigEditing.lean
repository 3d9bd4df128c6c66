/-
# Editing Foothold Config.lua

`update_foothold_config` edits the file line by line.  Three regular expressions tell the lines
apart: the end of a table, the beginning of one, and an assignment.  The PATH is the keys of the
tables around the line; joined with dots, and with the key of an assignment, it is the name an
update is looked up by.  Updates that are left when a table ends become rows before its end.

The regular expressions are deterministic: white space, a key, an equals sign and what follows
have no character in common, so each is written as the function that takes them in turn.  The two
classes of Unicode characters are parameters.  A map of updates is given as the list of its
entries, in any order.
-/
import DcsDashboard.Lib.Json
import DcsDashboard.Lib.NumberFormat
import DcsDashboard.Lib.RustText

namespace DcsDashboard.Foothold

open Lib

/-! ## 1. The regular expressions -/

/-- Classes of Unicode characters. -/
structure CharClasses where
  /-- `\w` -/
  word : Char → Bool
  /-- `char::is_alphanumeric` -/
  alphanumeric : Char → Bool

/-- `(?:\["([^"]+)"\])|([a-zA-Z_]\w*)`: a key, and the text after it. -/
def matchKey (C : CharClasses) : List Char → Option (List Char × List Char)
  | '[' :: '"' :: s =>
    match s.takeWhile (· ≠ '"'), s.dropWhile (· ≠ '"') with
    | [], _ => none
    | key, '"' :: ']' :: rest => some (key, rest)
    | _, _ => none
  | c :: s =>
    if c.isAlpha || c = '_' then some (c :: s.takeWhile C.word, s.dropWhile C.word) else none
  | [] => none

/-- `re_assignment`: the key, and the text from the value on. -/
def reAssignment (C : CharClasses) (line : List Char) : Option (List Char × List Char) :=
  (matchKey C (line.dropWhile isWhitespace)).bind fun (key, s) =>
    match s.dropWhile isWhitespace with
    | '=' :: rest => some (key, rest.dropWhile isWhitespace)
    | _ => none

/-- `\s*(?:--.*)?$`. -/
def isCommentOrEnd (s : List Char) : Bool :=
  let s := s.dropWhile isWhitespace
  s.isEmpty || "--".toList.isPrefixOf s

/-- `re_table_start`: the key. -/
def reTableStart (C : CharClasses) (line : List Char) : Option (List Char) :=
  (reAssignment C line).bind fun (key, rest) =>
    match rest with
    | '{' :: s => if isCommentOrEnd s then some key else none
    | _ => none

/-- `re_table_end`. -/
def reTableEnd (line : List Char) : Bool :=
  match line.dropWhile isWhitespace with
  | '}' :: ',' :: s => isCommentOrEnd s
  | '}' :: s => isCommentOrEnd s
  | _ => false

/-! ## 2. The updates -/

/-- The text for a value that is to be deleted. -/
def deleteMark : List Char := "__DELETE__".toList

/-- A string that is taken for a Lua table. -/
def isLiteral (s : List Char) : Bool := s.head? = some '{' && s.getLast? = some '}'

/-- The text that is written for a value. -/
def valueText (F : NumberFormat) : Json → Option (List Char)
  | .null => some deleteMark
  | .str s =>
    some (if isLiteral s.toList then s.toList
      else '"' :: (s.toList.flatMap fun c => if c = '"' then ['\\', '"'] else [c]) ++ ['"'])
  | .bool b => some (if b then "true".toList else "false".toList)
  | .num n => some (F.serialize n)
  | .arr _ | .obj _ => none

/-- `str_updates`. -/
def strUpdates (F : NumberFormat) (updates : List (List Char × Json)) :
    List (List Char × List Char) :=
  updates.filterMap fun (name, v) => (valueText F v).map fun text => (name, text)

/-! ## 3. The lines -/

/-- `path.join(".")`. -/
def joinPath (path : List (List Char)) : List Char := ['.'].intercalate path

/-- The key a name has in a table, if it is directly inside. -/
def localKey (tableName name : List Char) : Option (List Char) :=
  let before := tableName ++ ['.']
  if before.isPrefixOf name then
    let key := name.drop before.length
    if '.' ∈ key then none else some key
  else none

section
variable (C : CharClasses)

/-- A new key is written as it stands where it looks like a name. -/
def isSafeKey (key : List Char) : Bool := key.all fun c => C.alphanumeric c || c = '_'

/-- The row for a new key. -/
def newRow (indent key value : List Char) : List Char :=
  let safeKey := if isSafeKey C key then key else "[\"".toList ++ key ++ "\"]".toList
  indent ++ "    ".toList ++ safeKey ++ " = ".toList ++ value ++ [',']

/-- What is inserted before the end of a table. -/
def toInsert (path : List (List Char)) (updates : List (List Char × List Char))
    (line : List Char) : List (List Char) :=
  updates.filterMap fun (name, value) =>
    if value = deleteMark then none
    else (localKey (joinPath path) name).map fun key =>
      newRow C (line.takeWhile isWhitespace) key value

/-- The text from the first `--` on. -/
def commentOf (rest : List Char) : List Char :=
  ((findText "--".toList rest).map Prod.snd).getD []

/-- An assignment with another value: what is taken for a comment is kept. -/
def rewriteLine (line rest value : List Char) : List Char :=
  let comma :=
    if (trimEnd rest).getLast? = some ',' ∧ value.getLast? ≠ some ',' then [','] else []
  trimEnd (line.take (line.length - rest.length) ++ value ++ comma ++ ' ' :: commentOf rest)

structure EditState where
  path : List (List Char)
  updates : List (List Char × List Char)

/-- One line. -/
def editLine (st : EditState) (line : List Char) : EditState × List Char :=
  if reTableEnd line then
    let rows := if st.path = [] then [] else toInsert C st.path st.updates line
    ({ st with path := st.path.dropLast },
      if rows = [] then line else joinLines rows ++ '\n' :: line)
  else
    match reTableStart C line with
    | some key => ({ st with path := st.path ++ [key] }, line)
    | none =>
      match reAssignment C line with
      | none => (st, line)
      | some (key, rest) =>
        let name := joinPath (st.path ++ [key])
        match st.updates.lookup name with
        | none => (st, line)
        | some value =>
          ({ st with updates := st.updates.filter (·.1 ≠ name) },
            if value = deleteMark then [] else rewriteLine line rest value)

/-- The lines, one after the other. -/
def editLines : EditState → List (List Char) → List (List Char)
  | _, [] => []
  | st, line :: ls => (editLine C st line).2 :: editLines (editLine C st line).1 ls

/-- `update_foothold_config`: the file after it.  A line that has been emptied goes, unless the
file had an empty line. -/
def updateFootholdConfig (F : NumberFormat) (updates : List (List Char × Json))
    (content : List Char) : List Char :=
  let ls := lines content
  let final := (editLines C ⟨[], strUpdates F updates⟩ ls).filter fun l => l ≠ [] ∨ [] ∈ ls
  joinLines final ++ ['\n']

end

end DcsDashboard.Foothold
