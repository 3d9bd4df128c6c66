/-
# The lexer of Lua 5.1

A text is read one character after the other.  The MODE between two characters says what has
begun and not ended: a name, a numeral, a string, a comment.  A name or a numeral ends at the
first character that does not belong to it, which is then read as the beginning of what follows.

The mode is all that is carried on, so reading composes (`Lexes.append`): a piece of text that
leads from `normal` back to `normal` gives its tokens wherever it stands.  A writer is verified
piece by piece with it.

Strings are rows of bytes, as in Lua: a decimal escape may write what is not UTF-8.  An operator
of several characters is given as its characters.
-/
import DcsDashboard.Lib.LuaNumber
import Mathlib.Data.List.Basic

namespace DcsDashboard.Lib.Lua

/-! ## 1. Tokens and modes -/

/-- A token.  Reserved words are names; a numeral is given with its exact value. -/
inductive Token
  | name (x : List Char)
  | number (q : ℚ)
  | string (bytes : List UInt8)
  | sym (c : Char)
  deriving DecidableEq

/-- The part of a numeral that is being read: digits and dots; the place after the `e`, where
a sign may stand; and the rest. -/
inductive NumeralPart
  | digits
  | exponent
  | tail
  deriving DecidableEq

/-- The place in a long bracket: right after its opening; somewhere inside; after a `[`; after a
line end, the other half of which may follow; after a `]` and `n` equals signs. -/
inductive LongPlace
  | opening
  | body
  | bracket
  | newline (first : Char)
  | closing (n : Nat)
  deriving DecidableEq

inductive Mode
  | normal
  | name (x : List Char)
  | numeral (part : NumeralPart) (text : List Char)
  | dot (several : Bool)
  | minus
  | bracket (level : Nat)
  | dashes
  | dashesBracket (level : Nat)
  | comment
  | long (comment : Bool) (level : Nat) (bytes : List UInt8) (place : LongPlace)
  | string (quote : Char) (bytes : List UInt8)
  | escape (quote : Char) (bytes : List UInt8)
  | escapeNewline (quote : Char) (bytes : List UInt8) (first : Char)
  | escapeDigits (quote : Char) (bytes : List UInt8) (value count : Nat)
  deriving DecidableEq

/-- The bytes of a character in the file. -/
abbrev utf8 (c : Char) : List UInt8 := String.utf8EncodeChar c

/-- The bytes of a text. -/
def utf8Bytes (s : List Char) : List UInt8 := s.flatMap utf8

/-- The string some bytes encode, if they do. -/
def toStr (bytes : List UInt8) : Option String := String.fromUTF8? bytes.toByteArray

@[simp] theorem toStr_utf8Bytes (s : List Char) :
    toStr (utf8Bytes s) = some (String.ofList s) := by
  have h : (utf8Bytes s).toByteArray = (String.ofList s).toByteArray := by
    rw [← String.utf8Encode_toList, String.toList_ofList]
    rfl
  simp only [toStr, String.fromUTF8?, h, String.isValidUTF8, dite_true]
  rfl

/-- A line end is a line feed, a carriage return, or both in either order. -/
def isNewline (c : Char) : Bool := c = '\n' || c = '\r'

/-- What a name goes on with. -/
def isNameChar (c : Char) : Bool := c.isAlphanum || c = '_'

/-! ## 2. One character -/

/-- The next part of a numeral, `none` where it ends. -/
def NumeralPart.next : NumeralPart → Char → Option NumeralPart
  | .digits, c =>
    if c.isDigit || c = '.' then some .digits
    else if c = 'e' || c = 'E' then some .exponent
    else if isNameChar c then some .tail else none
  | .exponent, c => if c = '+' || c = '-' || isNameChar c then some .tail else none
  | .tail, c => if isNameChar c then some .tail else none

/-- A character between two tokens. -/
def lexNormal (c : Char) : List Token × Mode :=
  if isSpace c then ([], .normal)
  else if c.isDigit then ([], .numeral .digits [c])
  else if isNameChar c then ([], .name [c])
  else match c with
    | '"' | '\x27' => ([], .string c [])
    | '-' => ([], .minus)
    | '[' => ([], .bracket 0)
    | '.' => ([], .dot false)
    | _ => ([.sym c], .normal)

/-- A token ends before a character. -/
def lexAfter (t : Token) (c : Char) : List Token × Mode :=
  (t :: (lexNormal c).1, (lexNormal c).2)

/-- A character of a quoted string. -/
def lexString (quote : Char) (bytes : List UInt8) (c : Char) : Option (List Token × Mode) :=
  if c = quote then some ([.string bytes], .normal)
  else if isNewline c then none
  else if c = '\\' then some ([], .escape quote bytes)
  else some ([], .string quote (bytes ++ utf8 c))

/-- The character after a backslash. -/
def lexEscape (quote : Char) (bytes : List UInt8) (c : Char) : Mode :=
  match c with
  | 'a' => .string quote (bytes ++ [7])
  | 'b' => .string quote (bytes ++ [8])
  | 'f' => .string quote (bytes ++ [12])
  | 'n' => .string quote (bytes ++ [10])
  | 'r' => .string quote (bytes ++ [13])
  | 't' => .string quote (bytes ++ [9])
  | 'v' => .string quote (bytes ++ [11])
  | c =>
    if isNewline c then .escapeNewline quote (bytes ++ [10]) c
    else if c.isDigit then .escapeDigits quote bytes (digitValue c) 1
    else .string quote (bytes ++ utf8 c)

/-- A character inside a long bracket. -/
def lexLongBody (comment : Bool) (level : Nat) (bytes : List UInt8) (c : Char) : Mode :=
  if c = ']' then .long comment level bytes (.closing 0)
  else if isNewline c then .long comment level (bytes ++ [10]) (.newline c)
  else .long comment level (bytes ++ utf8 c) (if c = '[' then .bracket else .body)

/-- A character of a long bracket.  `[[` in a bracket of level 0 is refused. -/
def lexLong (comment : Bool) (level : Nat) (bytes : List UInt8) (place : LongPlace) (c : Char) :
    Option (List Token × Mode) :=
  match place with
  | .opening =>
    some ([], if isNewline c then .long comment level bytes (.newline c)
      else lexLongBody comment level bytes c)
  | .body => some ([], lexLongBody comment level bytes c)
  | .bracket =>
    if c = '[' ∧ level = 0 then none else some ([], lexLongBody comment level bytes c)
  | .newline first =>
    some ([], if isNewline c ∧ c ≠ first then .long comment level bytes .body
      else lexLongBody comment level bytes c)
  | .closing n =>
    let text := utf8Bytes (']' :: List.replicate n '=')
    if c = '=' then some ([], .long comment level bytes (.closing (n + 1)))
    else if c = ']' ∧ n = level then some (if comment then [] else [.string bytes], .normal)
    else some ([], lexLongBody comment level (bytes ++ text) c)

/-- One character: the tokens that end with it or before it, and the mode after it.  `none` is
a lexical error. -/
def lexStep : Mode → Char → Option (List Token × Mode)
  | .normal, c => some (lexNormal c)
  | .name x, c =>
    some (if isNameChar c then ([], .name (x ++ [c])) else lexAfter (.name x) c)
  | .numeral part text, c =>
    match part.next c with
    | some part => some ([], .numeral part (text ++ [c]))
    | none => (str2d text).map fun q => lexAfter (.number q) c
  | .dot several, c =>
    some (if c = '.' then ([.sym '.'], .dot true)
      else if c.isDigit ∧ several = false then ([], .numeral .digits ['.', c])
      else lexAfter (.sym '.') c)
  | .minus, c => some (if c = '-' then ([], .dashes) else lexAfter (.sym '-') c)
  | .bracket level, c =>
    if c = '[' then some ([], .long false level [] .opening)
    else if c = '=' then some ([], .bracket (level + 1))
    else if level = 0 then some (lexAfter (.sym '[') c) else none
  | .dashes, c =>
    some ([], if c = '[' then .dashesBracket 0 else if isNewline c then .normal else .comment)
  | .dashesBracket level, c =>
    some ([], if c = '[' then .long true level [] .opening
      else if c = '=' then .dashesBracket (level + 1)
      else if isNewline c then .normal else .comment)
  | .comment, c => some ([], if isNewline c then .normal else .comment)
  | .long comment level bytes place, c => lexLong comment level bytes place c
  | .string quote bytes, c => lexString quote bytes c
  | .escape quote bytes, c => some ([], lexEscape quote bytes c)
  | .escapeNewline quote bytes first, c =>
    if isNewline c ∧ c ≠ first then some ([], .string quote bytes) else lexString quote bytes c
  | .escapeDigits quote bytes value count, c =>
    if c.isDigit ∧ count < 3 then
      some ([], .escapeDigits quote bytes (10 * value + digitValue c) (count + 1))
    else if value < 256 then lexString quote (bytes ++ [UInt8.ofNat value]) c else none

/-! ## 3. Texts -/

/-- The tokens of a piece of text and the mode after it. -/
def lexFrom : Mode → List Char → Option (List Token × Mode)
  | m, [] => some ([], m)
  | m, c :: s =>
    (lexStep m c).bind fun (ts, m') => (lexFrom m' s).map fun (us, m'') => (ts ++ us, m'')

/-- The tokens of a text.  Its end is read as a line end, which ends all that may end there. -/
def lex (s : List Char) : Option (List Token) :=
  match lexFrom .normal (s ++ ['\n']) with
  | some (ts, .normal) => some ts
  | _ => none

/-- `Lexes m s ts m'`: a piece of text, read from the mode `m` on, gives `ts` and ends in `m'`. -/
def Lexes (m : Mode) (s : List Char) (ts : List Token) (m' : Mode) : Prop :=
  lexFrom m s = some (ts, m')

instance (m : Mode) (s : List Char) (ts : List Token) (m' : Mode) : Decidable (Lexes m s ts m') :=
  inferInstanceAs (Decidable (_ = _))

@[simp] theorem lexes_nil {m m' : Mode} {ts : List Token} :
    Lexes m [] ts m' ↔ ts = [] ∧ m = m' := by
  simp [Lexes, lexFrom, eq_comm]

theorem lexes_cons {m m'' : Mode} {c : Char} {s : List Char} {vs : List Token} :
    Lexes m (c :: s) vs m'' ↔
      ∃ ts m' us, lexStep m c = some (ts, m') ∧ Lexes m' s us m'' ∧ vs = ts ++ us := by
  simp only [Lexes, lexFrom, Option.bind_eq_some_iff, Option.map_eq_some_iff, Prod.mk.injEq,
    Prod.exists]
  constructor
  · rintro ⟨ts, m', h1, us, m''', h2, rfl, rfl⟩; exact ⟨ts, m', us, h1, h2, rfl⟩
  · rintro ⟨ts, m', us, h1, h2, rfl⟩; exact ⟨ts, m', h1, us, m'', h2, rfl, rfl⟩

/-- One character, and the rest from the mode after it. -/
theorem Lexes.cons {m m' m'' : Mode} {c : Char} {s : List Char} {ts us : List Token}
    (h : lexStep m c = some (ts, m')) (hs : Lexes m' s us m'') :
    Lexes m (c :: s) (ts ++ us) m'' :=
  lexes_cons.mpr ⟨ts, m', us, h, hs, rfl⟩

/-- A character that ends no token. -/
theorem Lexes.skip {m m' m'' : Mode} {c : Char} {s : List Char} {us : List Token}
    (h : lexStep m c = some ([], m')) (hs : Lexes m' s us m'') : Lexes m (c :: s) us m'' :=
  Lexes.cons h hs

/-- Where a token ends before a character, what follows is read as between two tokens. -/
theorem Lexes.after {m m' : Mode} {t : Token} {c : Char} {s : List Char} {ts : List Token}
    (h : lexStep m c = some (lexAfter t c)) (hs : Lexes .normal (c :: s) ts m') :
    Lexes m (c :: s) (t :: ts) m' := by
  obtain ⟨us, m₁, vs, hc, hrest, rfl⟩ := lexes_cons.mp hs
  have hnormal : lexNormal c = (us, m₁) := Option.some.inj hc
  have hstep : lexStep m c = some (t :: us, m₁) := by rw [h, lexAfter, hnormal]
  exact Lexes.cons hstep hrest

/-- **Reading composes.** -/
theorem lexes_append {m m'' : Mode} {s t : List Char} {vs : List Token} :
    Lexes m (s ++ t) vs m'' ↔
      ∃ ts m' us, Lexes m s ts m' ∧ Lexes m' t us m'' ∧ vs = ts ++ us := by
  induction s generalizing m vs with
  | nil => simp
  | cons c s ih =>
    simp only [List.cons_append, lexes_cons, ih]
    constructor
    · rintro ⟨ts, m', _, h1, ⟨us, m₂, ws, h2, h3, rfl⟩, rfl⟩
      exact ⟨ts ++ us, m₂, ws, ⟨ts, m', us, h1, h2, rfl⟩, h3, by rw [List.append_assoc]⟩
    · rintro ⟨_, m₂, ws, ⟨ts, m', us, h1, h2, rfl⟩, h3, rfl⟩
      exact ⟨ts, m', us ++ ws, h1, ⟨us, m₂, ws, h2, h3, rfl⟩, by rw [List.append_assoc]⟩

theorem Lexes.append {m m' m'' : Mode} {s t : List Char} {ts us : List Token}
    (h : Lexes m s ts m') (h' : Lexes m' t us m'') : Lexes m (s ++ t) (ts ++ us) m'' :=
  lexes_append.mpr ⟨ts, m', us, h, h', rfl⟩

/-- Reading is a function. -/
theorem Lexes.unique {m m₁ m₂ : Mode} {s : List Char} {ts us : List Token}
    (h : Lexes m s ts m₁) (h' : Lexes m s us m₂) : ts = us ∧ m₁ = m₂ := by
  simpa using h.symm.trans h'

theorem lex_eq_some_iff {s : List Char} {ts : List Token} :
    lex s = some ts ↔ Lexes .normal (s ++ ['\n']) ts .normal := by
  unfold lex Lexes
  split
  · next us h => simp [h]
  · next h =>
    simp only [reduceCtorEq, false_iff]
    exact fun h' => h ts h'

example : lex "x = \x7b -.5e1, 'a\\065' \x7d --[[ done ]]".toList =
    some [.name ['x'], .sym '=', .sym '{', .sym '-', .number 5, .sym ',', .string [97, 65],
      .sym '}'] := by decide +kernel

end DcsDashboard.Lib.Lua
