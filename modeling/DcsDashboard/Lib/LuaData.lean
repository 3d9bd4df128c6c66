/-
# Reading a Lua data file

A data file is a Lua chunk that only assigns literals and table constructors to globals, with
`-` before numbers.  `readToken` is a pushdown automaton over the tokens: the CONTEXT is what the
value being read is for, and a value is handed to its context as soon as it is complete
(`give`), so that no syntax tree is built.  Anything else a chunk may contain is refused.

Like the lexer it composes, and a piece of a file can be verified where it stands: `Yields ts v`
says that the tokens `ts` are an expression with the value `v`, whatever it is for.
-/
import DcsDashboard.Lib.LuaLexer

namespace DcsDashboard.Lib.Lua

/-! ## 1. Values -/

/-- A floating-point number. -/
inductive Double
  | finite (q : ℚ)
  | inf (negative : Bool)
  | nan
  deriving DecidableEq

def Double.neg : Double → Double
  | finite q => finite (-q)
  | inf negative => inf (!negative)
  | nan => nan

/-- A table key that can be written down. -/
inductive Key
  | bool (b : Bool)
  | number (x : Double)
  | string (bytes : List UInt8)
  deriving DecidableEq

inductive Value
  | nil
  | bool (b : Bool)
  | number (x : Double)
  | string (bytes : List UInt8)
  | table (entries : List (Key × Value))

/-- What a table holds, a key once, in the order of the assignments. -/
abbrev Entries := List (Key × Value)

/-- `t[k] = v`. -/
def Entries.set (es : Entries) (k : Key) (v : Value) : Entries :=
  match v with
  | .nil => es.filter (·.1 ≠ k)
  | v => es.filter (·.1 ≠ k) ++ [(k, v)]

/-- `t[k]`. -/
def Entries.get (es : Entries) (k : Key) : Value := (es.lookup k).getD .nil

/-- The key for an index. -/
def Key.index (i : Nat) : Key := .number (.finite i)

/-- `t[i]`, `t[i + 1]` and so on, up to the first `nil`. -/
def Entries.sequenceFrom (es : Entries) : Nat → Nat → List Value
  | 0, _ => []
  | fuel + 1, i =>
    match es.get (.index i) with
    | .nil => []
    | v => v :: es.sequenceFrom fuel (i + 1)

/-- The values of a table as a sequence.  It has no more of them than entries. -/
def Entries.sequence (es : Entries) : List Value := es.sequenceFrom es.length 1

theorem Entries.sequenceFrom_eq {es : Entries} {i fuel : Nat} {vs : List Value}
    (hget : ∀ j, es.get (.index (i + j)) = vs[j]?.getD .nil) (hvs : ∀ v ∈ vs, v ≠ .nil)
    (hfuel : vs.length ≤ fuel) : es.sequenceFrom fuel i = vs := by
  induction fuel generalizing i vs with
  | zero =>
    obtain rfl : vs = [] := List.length_eq_zero_iff.mp (by omega)
    rfl
  | succ fuel ih =>
    have h0 := hget 0
    cases vs with
    | nil =>
      have hnil : es.get (.index i) = .nil := h0
      rw [sequenceFrom, hnil]
    | cons v vs =>
      have hv : es.get (.index i) = v := h0
      have hget' : ∀ j, es.get (.index (i + 1 + j)) = vs[j]?.getD .nil := fun j => by
        have hj := hget (j + 1)
        rw [show i + (j + 1) = i + 1 + j by omega] at hj
        simpa using hj
      have hrest := ih hget' (fun w hw => hvs w (by simp [hw])) (by simpa using hfuel)
      rw [sequenceFrom, hv, hrest]
      split
      · exact absurd rfl (hvs .nil (by simp))
      · rfl

/-! ## 2. The automaton -/

/-- A constructor that is being read.  Items without a key wait in `pending`, since Lua stores
them fifty at a time; `stored` counts those already stored. -/
structure Frame where
  entries : Entries
  stored : Nat
  pending : List Value

/-- What the value being read is for. -/
inductive Context
  | global (x : List Char)
  | entry (k : Value) (f : Frame) (c : Context)
  | item (f : Frame) (c : Context)
  | key (f : Frame) (c : Context)
  | negation (c : Context)

/-- What is expected next. -/
inductive Expecting
  | statement
  | statementOrSemicolon
  | equals (x : List Char)
  | value (c : Context)
  | fieldOrEnd (f : Frame) (c : Context)
  | keyEnd (k : Value) (f : Frame) (c : Context)
  | keyEquals (k : Value) (f : Frame) (c : Context)
  | separatorOrEnd (f : Frame) (c : Context)

structure Reader where
  globals : List (List Char × Value)
  expecting : Expecting

def Frame.empty : Frame := ⟨[], 0, []⟩

/-- Stores the items that wait. -/
def Frame.flush (f : Frame) : Frame where
  entries := f.pending.zipIdx.foldl (fun es (v, i) => es.set (.index (f.stored + i + 1)) v) f.entries
  stored := f.stored + f.pending.length
  pending := []

/-- What happens before another field: fifty waiting items are stored. -/
def Frame.beforeField (f : Frame) : Frame := if f.pending.length = 50 then f.flush else f

/-- `[k] = v`; a table can be a key, but no other key equals it.  `none` is an error. -/
def Frame.set (f : Frame) (k v : Value) : Option Frame :=
  match k with
  | .nil | .number .nan => none
  | .bool b => some { f with entries := f.entries.set (.bool b) v }
  | .number x => some { f with entries := f.entries.set (.number x) v }
  | .string bytes => some { f with entries := f.entries.set (.string bytes) v }
  | .table _ => some f

/-- `-v`; a string is converted. -/
def Value.negate (round : ℚ → Double) : Value → Option Value
  | .number x => some (.number x.neg)
  | .string bytes =>
    ((toStr bytes).bind fun s => str2d s.toList).map fun q => .number (round q).neg
  | _ => none

def reserved : List String :=
  ["and", "break", "do", "else", "elseif", "end", "false", "for", "function", "if", "in",
    "local", "nil", "not", "or", "repeat", "return", "then", "true", "until", "while"]

section
variable (round : ℚ → Double)

/-- Hands a value to its context. -/
def give (globals : List (List Char × Value)) : Context → Value → Option Reader
  | .global x, v => some ⟨(x, v) :: globals, .statementOrSemicolon⟩
  | .entry k f c, v => (f.set k v).map fun f => ⟨globals, .separatorOrEnd f c⟩
  | .item f c, v => some ⟨globals, .separatorOrEnd { f with pending := f.pending ++ [v] } c⟩
  | .key f c, v => some ⟨globals, .keyEnd v f c⟩
  | .negation c, v => (v.negate round).bind (give globals c)

/-- The first token of a value. -/
def readValue (globals : List (List Char × Value)) (c : Context) : Token → Option Reader
  | .number q => give round globals c (.number (round q))
  | .string bytes => give round globals c (.string bytes)
  | .name x =>
    if x = "nil".toList then give round globals c .nil
    else if x = "true".toList then give round globals c (.bool true)
    else if x = "false".toList then give round globals c (.bool false)
    else none
  | .sym s =>
    if s = '{' then some ⟨globals, .fieldOrEnd .empty c⟩
    else if s = '-' then some ⟨globals, .value (.negation c)⟩
    else none

/-- The end of a constructor. -/
def closeTable (globals : List (List Char × Value)) (f : Frame) (c : Context) : Option Reader :=
  give round globals c (.table f.flush.entries)

/-- A name at the beginning of a statement. -/
def readStatement (globals : List (List Char × Value)) : Token → Option Reader
  | .name x => if String.ofList x ∈ reserved then none else some ⟨globals, .equals x⟩
  | _ => none

/-- The first token of a field. -/
def readField (globals : List (List Char × Value)) (f : Frame) (c : Context) :
    Token → Option Reader
  | .sym '[' => some ⟨globals, .value (.key f c)⟩
  | .name x =>
    if String.ofList x ∈ reserved then readValue round globals (.item f c) (.name x)
    else some ⟨globals, .keyEquals (.string (utf8Bytes x)) f c⟩
  | t => readValue round globals (.item f c) t

/-- One token.  `none` is an error. -/
def readToken (r : Reader) (t : Token) : Option Reader :=
  match r.expecting with
  | .statement => readStatement r.globals t
  | .statementOrSemicolon =>
    if t = .sym ';' then some ⟨r.globals, .statement⟩ else readStatement r.globals t
  | .equals x => if t = .sym '=' then some ⟨r.globals, .value (.global x)⟩ else none
  | .value c => readValue round r.globals c t
  | .fieldOrEnd f c =>
    if t = .sym '}' then closeTable round r.globals f c
    else readField round r.globals f.beforeField c t
  | .keyEnd k f c => if t = .sym ']' then some ⟨r.globals, .keyEquals k f c⟩ else none
  | .keyEquals k f c => if t = .sym '=' then some ⟨r.globals, .value (.entry k f c)⟩ else none
  | .separatorOrEnd f c =>
    if t = .sym '}' then closeTable round r.globals f c
    else if t = .sym ',' ∨ t = .sym ';' then some ⟨r.globals, .fieldOrEnd f c⟩
    else none

/-- A row of tokens. -/
def readTokens (r : Reader) (ts : List Token) : Option Reader := ts.foldlM (readToken round) r

/-- The globals of a chunk, `none` where it is refused or fails. -/
def readChunk (text : List Char) : Option (List (List Char × Value)) :=
  (lex text).bind fun ts =>
    (readTokens round ⟨[], .statement⟩ ts).bind fun r =>
      match r.expecting with
      | .statement | .statementOrSemicolon => some r.globals
      | _ => none

end

/-- A global variable after a chunk. -/
def globalValue (globals : List (List Char × Value)) (x : String) : Value :=
  (globals.lookup x.toList).getD .nil

example : (readChunk .finite "t = -x".toList).isNone ∧
    ((readChunk .finite "x = 1; t = \x7b ['k'] = --y\n 2, nil, 3 \x7d".toList).map
      fun gs => globalValue gs "t" matches
        .table [(.string [107], .number (.finite 2)), (.number (.finite 2), .number (.finite 3))])
      = some true := by decide +kernel

/-! ## 3. Reading composes -/

section
variable {round : ℚ → Double}

@[simp] theorem readTokens_nil (r : Reader) : readTokens round r [] = some r := rfl

@[simp] theorem readTokens_cons (r : Reader) (t : Token) (ts : List Token) :
    readTokens round r (t :: ts) = (readToken round r t).bind fun r => readTokens round r ts := rfl

theorem readTokens_singleton (r : Reader) (t : Token) :
    readTokens round r [t] = readToken round r t := by simp

theorem readTokens_append (r : Reader) (ts us : List Token) :
    readTokens round r (ts ++ us) =
      (readTokens round r ts).bind fun r => readTokens round r us :=
  List.foldlM_append

/-- A chunk is read when its tokens are, up to the end of a statement. -/
theorem readChunk_eq_some_iff {text : List Char} {globals : List (List Char × Value)} :
    readChunk round text = some globals ↔
      ∃ ts e, Lexes .normal (text ++ ['\n']) ts .normal ∧
        readTokens round ⟨[], .statement⟩ ts = some ⟨globals, e⟩ ∧
        (e = .statement ∨ e = .statementOrSemicolon) := by
  unfold readChunk
  simp only [Option.bind_eq_some_iff, lex_eq_some_iff]
  constructor
  · rintro ⟨ts, hlex, ⟨g, e⟩, hread, hend⟩
    cases e <;> simp at hend <;> subst hend
    · exact ⟨ts, _, hlex, hread, .inl rfl⟩
    · exact ⟨ts, _, hlex, hread, .inr rfl⟩
  · rintro ⟨ts, e, hlex, hread, rfl | rfl⟩
    · exact ⟨ts, hlex, _, hread, rfl⟩
    · exact ⟨ts, hlex, _, hread, rfl⟩

/-- `Yields ts v`: the tokens are an expression with the value `v`. -/
def Yields (round : ℚ → Double) (ts : List Token) (v : Value) : Prop :=
  ∀ globals c, readTokens round ⟨globals, .value c⟩ ts = give round globals c v

theorem yields_string (bytes : List UInt8) : Yields round [.string bytes] (.string bytes) :=
  fun globals c => readTokens_singleton ⟨globals, .value c⟩ _

theorem yields_number (q : ℚ) : Yields round [.number q] (.number (round q)) :=
  fun globals c => readTokens_singleton ⟨globals, .value c⟩ _

theorem yields_true : Yields round [.name "true".toList] (.bool true) :=
  fun globals c => readTokens_singleton ⟨globals, .value c⟩ _

theorem yields_false : Yields round [.name "false".toList] (.bool false) :=
  fun globals c => readTokens_singleton ⟨globals, .value c⟩ _

theorem Yields.neg {ts : List Token} {x : Double} (h : Yields round ts (.number x)) :
    Yields round (.sym '-' :: ts) (.number x.neg) := by
  intro globals c
  have hgive := h globals (.negation c)
  simpa [readToken, readValue, give, Value.negate] using hgive

end

end DcsDashboard.Lib.Lua
