/-
# Reading a number as Lua does

`str2d` is `luaO_str2d` of Lua 5.1: what the lexer makes of a numeral and what `tonumber` makes
of a string.  The value is exact, since nothing here depends on rounding; white space may stand
on either side, and `0x` introduces a hexadecimal integer.
-/
import Mathlib.Data.Rat.Defs
import Mathlib.Data.Char

namespace DcsDashboard.Lib

/-- C's `isspace`. -/
def isSpace (c : Char) : Bool := c = ' ' || ('\t' ≤ c && c ≤ '\r')

/-- The value of a character as a digit, letters counting from ten. -/
def digitValue (c : Char) : Nat :=
  if c.isDigit then c.toNat - 48 else c.toLower.toNat - 87

/-- The value of a row of digits. -/
def digitsValue (base : Nat) (ds : List Char) : Nat :=
  ds.foldl (fun n c => base * n + digitValue c) 0

/-- Whether a character is a hexadecimal digit. -/
def isHexDigit (c : Char) : Bool :=
  c.isDigit || ('a' ≤ c.toLower && c.toLower ≤ 'f')

/-- A sign, if there is one: whether it is a minus, and what follows. -/
def takeSign : List Char → Bool × List Char
  | '-' :: s => (true, s)
  | '+' :: s => (false, s)
  | s => (false, s)

/-- The decimal exponent, `0` where the text does not go on with one. -/
def takeExponent : List Char → ℤ × List Char
  | c :: s =>
    if c = 'e' ∨ c = 'E' then
      let (neg, s') := takeSign s
      let (ds, rest) := s'.span Char.isDigit
      if ds = [] then (0, c :: s)
      else ((if neg then -1 else 1) * (digitsValue 10 ds : ℤ), rest)
    else (0, c :: s)
  | [] => (0, [])

/-- An unsigned decimal number at the head of the text. -/
def takeDecimal (s : List Char) : Option (ℚ × List Char) :=
  let (ip, s₁) := s.span Char.isDigit
  let (fp, s₂) := match s₁ with
    | '.' :: r => r.span Char.isDigit
    | _ => ([], s₁)
  if ip = [] ∧ fp = [] then none
  else
    let (e, rest) := takeExponent s₂
    some ((digitsValue 10 (ip ++ fp) : ℚ) * (10 : ℚ) ^ (e - fp.length), rest)

/-- An unsigned number at the head of the text. -/
def takeNumber (s : List Char) : Option (ℚ × List Char) :=
  match s with
  | '0' :: x :: r =>
    let (ds, rest) := r.span isHexDigit
    if (x = 'x' ∨ x = 'X') ∧ ds ≠ [] then some (digitsValue 16 ds, rest) else takeDecimal s
  | _ => takeDecimal s

/-- `luaO_str2d`. -/
def str2d (s : List Char) : Option ℚ :=
  let (neg, s') := takeSign (s.dropWhile isSpace)
  match takeNumber s' with
  | some (q, rest) => if rest.all isSpace then some (if neg then -q else q) else none
  | none => none

example : str2d " -2.50e1 ".toList = some (-25) := by decide +kernel

end DcsDashboard.Lib
