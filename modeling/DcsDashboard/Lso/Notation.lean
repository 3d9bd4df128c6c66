/-
# LSO comments

`lso_notation.rs`: a landing-signal-officer comment of DCS, read with the NATOPS glossary and
rendered in plain English.  A token is a waveoff call or not, is marked by parentheses or
underscores, and spells glossary symbols and a position suffix.  What the glossary cannot read is
kept verbatim.

Texts are lists of characters; the tables and what is taken from them are strings.
-/
import DcsDashboard.Lib.RustText
import Mathlib.Data.Char
import Mathlib.Data.List.Lex
import Mathlib.Data.List.Sort

namespace DcsDashboard.Lso

open Lib

/-! ## 1. The glossary -/

/-- `SYMBOLS`. -/
def symbolTable : List (String × String) :=
  [("AA", "angling approach"), ("ACC", "accelerating"), ("AFU", "all fouled up"),
    ("B", "flat glideslope"), ("C", "climbing"), ("CB", "coming back to lineup"),
    ("CD", "coming down"), ("CH", "chased"), ("CO", "come-on"), ("CU", "cocked up"),
    ("DD", "deck down"), ("DEC", "decelerating"), ("DL", "drifted left"), ("DN", "dropped nose"),
    ("DR", "drifted right"), ("DU", "deck up"), ("EG", "eased gun"), ("F", "fast"),
    ("FD", "fouled deck"), ("GLI", "gliding approach"), ("H", "high"), ("HO", "hold off"),
    ("LIG", "long in the groove"), ("LL", "landed left"), ("LLU", "late lineup"), ("LO", "low"),
    ("LR", "landed right"), ("LTR", "left to right"), ("LU", "lineup"), ("LUL", "lined up left"),
    ("LUR", "lined up right"), ("LWD", "left wing down"), ("N", "nose"), ("ND", "nose down"),
    ("NEA", "not enough attitude"), ("NEP", "not enough power"),
    ("NERD", "not enough rate of descent"), ("NERR", "not enough right rudder"),
    ("NESA", "not enough straightaway"), ("NH", "no hook"), ("NSU", "not set up"),
    ("OR", "overrotated"), ("OS", "overshot"), ("OSCB", "overshot coming back"), ("P", "power"),
    ("PD", "pitching deck"), ("PNU", "pulled nose up"), ("ROT", "rotated"), ("RUD", "rudder"),
    ("RUF", "rough"), ("RWD", "right wing down"), ("RR", "right rudder"), ("RTL", "right to left"),
    ("S", "settling"), ("SD", "spotted the deck"), ("SHT", "ship's turn"), ("SKD", "skidded"),
    ("SLO", "slow"), ("SRD", "stopped rate of descent"), ("ST", "steep turn"),
    ("TCA", "too close abeam"), ("TMA", "too much attitude"), ("TMP", "too much power"),
    ("TMRD", "too much rate of descent"), ("TMRR", "too much right rudder"),
    ("TTL", "turned too late"), ("TTS", "turned too soon"), ("TWA", "too wide abeam"),
    ("W", "wings not level"), ("WU", "wrapped up"), ("XCTL", "cross-controlled"),
    ("LLWD", "landed left wing down"), ("LRWD", "landed right wing down"),
    ("LNF", "landed nose first"), ("3PTS", "landed three points")]

/-- `SUFFIXES`. -/
def suffixTable : List (String × String) :=
  [("CCA", "on the carrier-controlled approach"), ("OT", "out of the turn"),
    ("BC", "at the ball call"), ("X", "at the start"), ("IM", "in the middle"),
    ("IC", "in close"), ("AR", "at the ramp"), ("TL", "to land"), ("IW", "in the wires"),
    ("AW", "all the way")]

/-- `GRADES`. -/
def gradeTable : List (String × String) :=
  [("_OK_", "perfect pass"), ("OK", "OK"), ("(OK)", "fair"), ("---", "no grade"),
    ("--", "no grade"), ("C", "cut"), ("WOP", "pattern waveoff"), ("OWO", "own waveoff"),
    ("WO", "waveoff"), ("B", "bolter"), ("NC", "no count")]

/-- `lookup`. -/
def lookup (table : List (String × String)) (code : String) : String :=
  (table.lookup code).getD ""

/-- The longest first, those of one length in alphabetical order. -/
def longestFirst (a b : String) : Bool :=
  b.length < a.length || (b.length == a.length && a.toList ≤ b.toList)

/-- `symbols_longest_first`. -/
def symbolsLongestFirst : List String :=
  (symbolTable.map Prod.fst).insertionSort fun a b => longestFirst a b

/-! ## 2. Readings of a token -/

/-- `segmentations`: every way to cut a text into symbols, in at most so many rounds. -/
def segmentations (symbols : List String) : Nat → List Char → List (List String)
  | _, [] => [[]]
  | 0, _ :: _ => []
  | n + 1, c :: s => symbols.flatMap fun symbol =>
      match (c :: s).dropPrefix? symbol.toList with
      | some rest => (segmentations symbols n rest).map (symbol :: ·)
      | none => []

/-- `Magnitude`. -/
inductive Magnitude
  | aLittle
  | moderate
  | gross
  deriving DecidableEq

/-- `Deviation`. -/
structure Deviation where
  symbols : List String
  magnitude : Magnitude
  suffix : Option String
  waveoff : Bool
  deriving DecidableEq

/-- `Notation`. -/
structure Notation where
  grade : Option String
  wire : Option UInt8
  deviations : List Deviation
  ballCall : Bool
  freeText : Option (List Char)
  unknown : List (List Char)
  deriving DecidableEq

/-- `Notation::default()`. -/
def Notation.empty : Notation := ⟨none, none, [], false, none, []⟩

/-- What is left of a token when the waveoff call, parentheses and underscores are taken off, and
what they said. -/
structure Markings where
  waveoff : Bool
  magnitude : Magnitude
  core : List Char
  deriving DecidableEq

/-- The first half of `parse_token`: what the token is marked with. -/
def markings (token : List Char) : Markings :=
  let waveoff := "WO".toList.isPrefixOf token
  let core := if waveoff then token.drop 2 else token
  let (magnitude, core) :=
    match core with
    | '(' :: inner =>
      if ')' ∈ inner then
        -- after a waveoff the parentheses group the reason
        (if waveoff then Magnitude.moderate else .aLittle,
          inner.takeWhile (· ≠ ')') ++ (inner.dropWhile (· ≠ ')')).drop 1)
      else (.moderate, core)
    | _ => (.moderate, core)
  let stripped := trimMatches '_' core
  ⟨waveoff, if stripped.length < core.length then .gross else magnitude, stripped⟩

/-- `candidates` of `parse_token`: with each suffix the token ends with, and without a suffix. -/
def candidates (waveoff : Bool) (core : List Char) : List (Option String × List String) :=
  (suffixTable.flatMap fun (suffix, _) =>
      match core.dropSuffix? suffix.toList with
      | some head =>
        ((segmentations symbolsLongestFirst head.length head).filter fun reading =>
          reading ≠ [] || waveoff).map fun reading => (some suffix, reading)
      | none => []) ++
    (segmentations symbolsLongestFirst core.length core).map fun reading => (none, reading)

/-- The order of the candidates: a suffix first, then the fewest symbols. -/
def betterReading (a b : Option String × List String) : Bool :=
  (a.1.isSome && b.1.isNone) ||
    (a.1.isSome == b.1.isSome && a.2.length ≤ b.2.length)

/-- `parse_token`. -/
def parseToken (token : List Char) (n : Notation) : Notation :=
  if token = "[BC]".toList then { n with ballCall := true }
  else
    let m := markings token
    if m.core = [] then
      if m.waveoff then
        { n with deviations := n.deviations ++ [⟨[], m.magnitude, none, true⟩] }
      else if token ≠ [] then { n with unknown := n.unknown ++ [token] }
      else n
    else
      match ((candidates m.waveoff m.core).insertionSort fun a b => betterReading a b).head? with
      | some (suffix, reading) =>
        { n with deviations := n.deviations ++ [⟨reading, m.magnitude, suffix, m.waveoff⟩] }
      | none => { n with unknown := n.unknown ++ [token] }

/-! ## 3. A comment -/

/-- The number and the text glued to it, when a `WIRE#` item has a number. -/
def wireNumber (number : List Char) : Option (UInt8 × List Char) :=
  let digits := number.takeWhile Char.isDigit
  let tail := number.drop digits.length
  match parseU8 digits with
  | some wire => if tail = [] ∨ tail.head? = some '[' then some (wire, tail) else none
  | none => none

/-- What `parse` makes of the text after `WIRE#`. -/
def parseWire (number : List Char) (n : Notation) : Notation :=
  match wireNumber number with
  | some (wire, tail) =>
    let n := { n with wire := some wire }
    if tail ≠ [] then parseToken tail n else n
  | none => { n with unknown := n.unknown ++ ["WIRE# ".toList ++ number] }

/-- The loop of `parse` over the tokens of the body. -/
def parseBody : List (List Char) → Notation → Notation
  | [], n => n
  | token :: tokens, n =>
    match token.dropPrefix? "WIRE#".toList with
    | none => parseBody tokens (parseToken token n)
    | some [] =>
      match tokens with
      | [] => parseWire [] n
      | number :: tokens => parseBody tokens (parseWire number n)
    | some after => parseBody tokens (parseWire after n)

/-- The grade label of a comment, if it has one, and the body after it. -/
def splitGrade (comment : List Char) : Option (List Char) × List Char :=
  let rest := trim comment
  let rest := ((rest.dropPrefix? "LSO:".toList).map trimStart).getD rest
  match rest.dropPrefix? "GRADE:".toList with
  | none => (none, rest)
  | some after =>
    let after := trimStart after
    let label := after.takeWhile fun c => !isWhitespace c
    let rest := trimStart (after.drop label.length)
    (some label, ((rest.dropPrefix? ":".toList).map trimStart).getD rest)

/-- What `parse` records of a grade label. -/
def recordGrade : Option (List Char) → Notation → Notation
  | none, n => n
  | some label, n =>
    match gradeTable.find? fun (code, _) => code.toList = label with
    | some (code, _) => { n with grade := some code }
    | none =>
      if label ≠ [] then { n with unknown := n.unknown ++ ["GRADE:".toList ++ label] } else n

/-- `parse`. -/
def parse (comment : List Char) : Notation :=
  let (label, rest) := splitGrade comment
  let n := recordGrade label .empty
  if n.grade = some "NC" then { n with freeText := some rest }
  else parseBody (splitWhitespace rest) n

/-! ## 4. Plain English -/

/-- Repeated identical meanings are repeated calls. -/
def callsText (calls : List String) : List Char :=
  let meaning := (calls.headD "").toList
  match calls.length with
  | 1 => meaning
  | 2 => meaning ++ " (two calls)".toList
  | 3 => meaning ++ " (three calls)".toList
  | n => meaning ++ " (".toList ++ Nat.toDigits 10 n ++ " calls)".toList

/-- The words of `deviation_phrase`. -/
def Deviation.words (d : Deviation) : List (List Char) :=
  (if d.waveoff then ["waveoff".toList] else []) ++
    (if d.magnitude = .aLittle ∧ d.symbols ≠ [] then ["a little".toList] else []) ++
    ((d.symbols.map (lookup symbolTable)).splitBy (· == ·)).map callsText ++
    match d.suffix with
    | some suffix =>
      let meaning := lookup suffixTable suffix
      if meaning ≠ "" then [meaning.toList] else []
    | none => []

/-- `deviation_phrase`. -/
def Deviation.phrase (d : Deviation) : List Char :=
  let phrase := " ".toList.intercalate d.words
  let phrase :=
    if d.waveoff ∧ d.symbols = [] then "waveoff".toList
    else if d.waveoff then replaceFirst "waveoff ".toList "waveoff: ".toList phrase
    else phrase
  if d.magnitude = .gross then phrase ++ " (gross)".toList else phrase

/-- `capitalise`. -/
def capitalise : List Char → List Char
  | [] => []
  | c :: s => c.toUpper :: s

/-- The phrases of a notation without free text. -/
def Notation.phrases (n : Notation) : List (List Char) :=
  n.deviations.map Deviation.phrase ++
    (n.wire.map fun wire => "wire ".toList ++ Nat.toDigits 10 wire.toNat).toList ++
    (if n.ballCall then ["ball call".toList] else []) ++
    if n.unknown = [] then []
    else ["not understood: ".toList ++ " ".toList.intercalate n.unknown]

/-- `Notation::english`. -/
def Notation.english (n : Notation) : List Char :=
  match n.freeText with
  | some text =>
    capitalise (match n.grade with
      | some grade => (lookup gradeTable grade).toList ++ ": ".toList ++ text
      | none => text)
  | none => capitalise (", ".toList.intercalate n.phrases)

/-- `to_english`. -/
def toEnglish (comment : List Char) : List Char := (parse comment).english

example : toEnglish "LSO: GRADE:C : _QQQX_  (LOAR)  WO(AFU)IC WIRE# 1[BC] _PPPIC_".toList =
    ("A little low at the ramp, waveoff: all fouled up in close, power (three calls) in close " ++
      "(gross), wire 1, ball call, not understood: _QQQX_").toList := by
  decide +kernel

end DcsDashboard.Lso
