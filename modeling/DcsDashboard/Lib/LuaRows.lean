/-
# Data files of one field per line

A line of a file that is laid out well is a ROW: quiet (blank, or a comment), a field or an
assignment, the beginning of a table, or its end.  `step` is a machine over rows; its state is the
tables that have been opened and not closed, and whether a field may begin.  It refuses a row that
sets a key a second time.

It reads what the automaton over the tokens reads (`Row.Reads.step`, `readChunk_rows`), so what a
program does to the lines of such a file can be followed row by row.
-/
import DcsDashboard.Lib.LuaLines

namespace DcsDashboard.Lib.Lua

/-! ## 1. Rows -/

/-- What a line says.  A key is a name, or a quoted string in brackets. -/
inductive Row
  | quiet
  | assign (key : List Char) (bracketed : Bool) (v : Value) (comma : Bool)
  | opens (key : List Char) (bracketed : Bool)
  | closes (comma : Bool)

/-- The tokens up to the value. -/
def keyTokens (key : List Char) (bracketed : Bool) : List Token :=
  if bracketed then [.sym '[', .string (utf8Bytes key), .sym ']', .sym '=']
  else [.name key, .sym '=']

def commaTokens (comma : Bool) : List Token := if comma then [.sym ','] else []

/-- A key that can be written so. -/
def CanBeKey (key : List Char) (bracketed : Bool) : Prop :=
  key ≠ [] ∧ (bracketed = false → (∀ c ∈ key, isNameChar c) ∧ String.ofList key ∉ reserved)

instance (key : List Char) (bracketed : Bool) : Decidable (CanBeKey key bracketed) :=
  have : Decidable (∀ c ∈ key, isNameChar c) := List.decidableBAll _ key
  inferInstanceAs (Decidable (_ ∧ _))

/-- The tokens are those of the row. -/
def Row.Reads (round : ℚ → Double) : Row → List Token → Prop
  | .quiet, ts => ts = []
  | .assign key bracketed v comma, ts =>
    CanBeKey key bracketed ∧ ∃ vs, ts = keyTokens key bracketed ++ (vs ++ commaTokens comma) ∧
      Yields round vs v
  | .opens key bracketed, ts =>
    CanBeKey key bracketed ∧ ts = keyTokens key bracketed ++ [.sym '{']
  | .closes comma, ts => ts = .sym '}' :: commaTokens comma

/-- The line is the row. -/
def LineReads (round : ℚ → Double) (line : List Char) (row : Row) : Prop :=
  ∃ ts, Lexes .normal (line ++ ['\n']) ts .normal ∧ row.Reads round ts

/-! ## 2. The machine -/

/-- The globals, the tables that have been opened, the innermost first, and whether a field may
begin in it. -/
structure RowState where
  globals : List (List Char × Value)
  stack : List (List Char × Entries)
  ready : Bool

def RowState.start : RowState := ⟨[], [], false⟩

def fieldKey (key : List Char) : Key := .string (utf8Bytes key)

theorem fieldKey_inj {a b : List Char} : fieldKey a = fieldKey b ↔ a = b := by
  refine ⟨fun h => ?_, congrArg fieldKey⟩
  have hbytes : utf8Bytes a = utf8Bytes b := by simpa [fieldKey] using h
  have hstr := congrArg toStr hbytes
  simpa [String.ofList_inj] using hstr

/-- A key that is set for the first time comes last. -/
theorem Entries.set_fresh {es : Entries} {k : Key} (h : k ∉ es.map Prod.fst) (v : Value) :
    v = .nil ∧ es.set k v = es ∨ es.set k v = es ++ [(k, v)] := by
  have hfilter : es.filter (·.1 ≠ k) = es := by
    refine List.filter_eq_self.mpr ?_
    intro e he
    simpa using fun heq : e.1 = k => h (List.mem_map.mpr ⟨e, he, heq⟩)
  cases v with
  | nil => exact .inl ⟨rfl, hfilter⟩
  | _ => exact .inr (by simp only [set, hfilter])

theorem Entries.mem_keys_set {es : Entries} {k k' : Key} {v : Value}
    (h : k ∈ (es.set k' v).map Prod.fst) : k = k' ∨ k ∈ es.map Prod.fst := by
  have hfilter : ∀ {k}, k ∈ (es.filter (·.1 ≠ k')).map Prod.fst → k ∈ es.map Prod.fst :=
    fun hk => List.map_subset _ (List.filter_subset_self _) hk
  cases v <;> simp only [set, List.map_append, List.mem_append, List.map_cons, List.map_nil,
    List.mem_singleton] at h
  · exact .inr (hfilter h)
  all_goals exact h.symm.imp_right hfilter

/-- A key of the innermost table, or a global, gets its value. -/
def RowState.put (σ : RowState) (key : List Char) (v : Value) (comma : Bool) : Option RowState :=
  match σ.stack with
  | [] =>
    if comma = true ∨ key ∈ σ.globals.map Prod.fst then none
    else some { σ with globals := (key, v) :: σ.globals }
  | (p, es) :: rest =>
    if fieldKey key ∈ es.map Prod.fst then none
    else some ⟨σ.globals, (p, es.set (fieldKey key) v) :: rest, comma⟩

/-- A key may stand here: outside of tables a name, in a table after a comma. -/
def RowState.mayBegin (σ : RowState) (bracketed : Bool) : Bool :=
  if σ.stack.isEmpty then !bracketed else σ.ready

/-- One row. -/
def RowState.step (σ : RowState) : Row → Option RowState
  | .quiet => some σ
  | .assign key bracketed v comma => if σ.mayBegin bracketed then σ.put key v comma else none
  | .opens key bracketed =>
    if σ.mayBegin bracketed then some ⟨σ.globals, (key, []) :: σ.stack, true⟩ else none
  | .closes comma =>
    match σ.stack with
    | [] => none
    | (p, es) :: rest => RowState.put ⟨σ.globals, rest, σ.ready⟩ p (.table es) comma

/-- A row of rows. -/
def RowState.run (σ : RowState) (rows : List Row) : Option RowState := rows.foldlM RowState.step σ

@[simp] theorem RowState.run_nil (σ : RowState) : σ.run [] = some σ := rfl

@[simp] theorem RowState.run_cons (σ : RowState) (row : Row) (rows : List Row) :
    σ.run (row :: rows) = (σ.step row).bind fun σ => σ.run rows := rfl

theorem RowState.run_append (σ : RowState) (rows rows' : List Row) :
    σ.run (rows ++ rows') = (σ.run rows).bind fun σ => σ.run rows' :=
  List.foldlM_append

/-- What `put` does. -/
theorem RowState.put_cases {σ τ : RowState} {key : List Char} {v : Value} {comma : Bool}
    (h : σ.put key v comma = some τ) :
    (σ.stack = [] ∧ comma = false ∧ key ∉ σ.globals.map Prod.fst ∧
        τ = { σ with globals := (key, v) :: σ.globals }) ∨
      ∃ p es rest, σ.stack = (p, es) :: rest ∧ fieldKey key ∉ es.map Prod.fst ∧
        τ = ⟨σ.globals, (p, es.set (fieldKey key) v) :: rest, comma⟩ := by
  obtain ⟨globals, stack, ready⟩ := σ
  cases stack with
  | nil =>
    simp only [put] at h
    split at h
    · cases h
    · next hnot =>
      rw [not_or] at hnot
      exact .inl ⟨rfl, Bool.eq_false_iff.mpr hnot.1, hnot.2, (Option.some.inj h).symm⟩
  | cons entry rest =>
    obtain ⟨p, es⟩ := entry
    simp only [put] at h
    split at h
    · cases h
    · next hnot => exact .inr ⟨p, es, rest, rfl, hnot, (Option.some.inj h).symm⟩

/-! ## 3. The machine and the automaton -/

/-- What the value of a key is for. -/
def stackContext (key : List Char) : List (List Char × Entries) → Context
  | [] => .global key
  | (p, es) :: rest => .entry (.string (utf8Bytes key)) ⟨es, 0, []⟩ (stackContext p rest)

/-- What the automaton expects after some rows. -/
def RowState.Expects (σ : RowState) (e : Expecting) : Prop :=
  match σ.stack with
  | [] => e = .statement ∨ e = .statementOrSemicolon
  | (p, es) :: rest =>
    e = if σ.ready then .fieldOrEnd ⟨es, 0, []⟩ (stackContext p rest)
      else .separatorOrEnd ⟨es, 0, []⟩ (stackContext p rest)

section
variable {round : ℚ → Double} {σ τ : RowState} {e : Expecting}

/-- A key where it may stand. -/
theorem RowState.Expects.key (h : σ.Expects e) {key : List Char} {bracketed : Bool}
    (hkey : CanBeKey key bracketed) (hbegin : σ.mayBegin bracketed) :
    readTokens round ⟨σ.globals, e⟩ (keyTokens key bracketed) =
      some ⟨σ.globals, .value (stackContext key σ.stack)⟩ := by
  obtain ⟨globals, stack, ready⟩ := σ
  cases stack with
  | nil =>
    obtain rfl : bracketed = false := by simpa [mayBegin] using hbegin
    have hname := (hkey.2 rfl).2
    rcases h with rfl | rfl <;>
      simp [keyTokens, readToken, readStatement, hname, stackContext]
  | cons entry rest =>
    obtain ⟨p, es⟩ := entry
    obtain rfl : ready = true := by simpa [mayBegin] using hbegin
    obtain rfl : e = .fieldOrEnd ⟨es, 0, []⟩ (stackContext p rest) := h
    cases bracketed with
    | true => rfl
    | false =>
      have hname := (hkey.2 rfl).2
      simp [keyTokens, readToken, readField, hname, stackContext, Frame.beforeField]

variable (round) in
/-- The value of a key is handed over, and a comma read. -/
theorem RowState.give_put {key : List Char} {v : Value} {comma : Bool}
    (h : σ.put key v comma = some τ) :
    ∃ e, (give round σ.globals (stackContext key σ.stack) v).bind
      (fun r => readTokens round r (commaTokens comma)) = some ⟨τ.globals, e⟩ ∧ τ.Expects e := by
  rcases put_cases h with ⟨hstack, rfl, -, rfl⟩ | ⟨p, es, rest, hstack, -, rfl⟩
  · refine ⟨.statementOrSemicolon, ?_, ?_⟩
    · simp [hstack, stackContext, give, commaTokens]
    · simp [Expects, hstack]
  · cases comma
    · exact ⟨_, by simp [hstack, stackContext, give, Frame.set, commaTokens, fieldKey], rfl⟩
    · refine ⟨.fieldOrEnd ⟨es.set (fieldKey key) v, 0, []⟩ (stackContext p rest), ?_, rfl⟩
      simp [hstack, stackContext, give, Frame.set, commaTokens, fieldKey, readToken]

/-- **One row.** -/
theorem Row.Reads.step {row : Row} {ts : List Token} (hrow : row.Reads round ts)
    (h : σ.step row = some τ) (he : σ.Expects e) :
    ∃ e', readTokens round ⟨σ.globals, e⟩ ts = some ⟨τ.globals, e'⟩ ∧ τ.Expects e' := by
  cases row with
  | quiet =>
    obtain rfl : ts = [] := hrow
    obtain rfl := Option.some.inj h
    exact ⟨e, rfl, he⟩
  | assign key bracketed v comma =>
    obtain ⟨hkey, vs, rfl, hv⟩ := hrow
    simp only [RowState.step] at h
    split at h
    · next hbegin =>
      obtain ⟨e', hgive, he'⟩ := RowState.give_put round h
      refine ⟨e', ?_, he'⟩
      rw [readTokens_append, he.key hkey hbegin, Option.bind_some, readTokens_append, hv]
      exact hgive
    · cases h
  | opens key bracketed =>
    obtain ⟨hkey, rfl⟩ := hrow
    simp only [RowState.step] at h
    split at h
    · next hbegin =>
      obtain rfl := Option.some.inj h
      refine ⟨_, ?_, rfl⟩
      rw [readTokens_append, he.key hkey hbegin, Option.bind_some]
      rfl
    · cases h
  | closes comma =>
    obtain rfl : ts = .sym '}' :: commaTokens comma := hrow
    obtain ⟨globals, stack, ready⟩ := σ
    cases stack with
    | nil => cases h
    | cons entry rest =>
      obtain ⟨p, es⟩ := entry
      obtain ⟨e', hgive, he'⟩ := RowState.give_put round h
      refine ⟨e', ?_, he'⟩
      have hclose : readToken round ⟨globals, e⟩ (.sym '}') =
          give round globals (stackContext p rest) (.table es) := by
        obtain rfl : e = if ready then .fieldOrEnd ⟨es, 0, []⟩ (stackContext p rest)
          else .separatorOrEnd ⟨es, 0, []⟩ (stackContext p rest) := he
        cases ready <;> rfl
      rw [readTokens_cons, hclose]
      exact hgive

/-- **A row of rows.** -/
theorem readTokens_rows {rows : List Row} {tokens : List (List Token)}
    (hrows : List.Forall₂ (Row.Reads round) rows tokens) (h : σ.run rows = some τ)
    (he : σ.Expects e) :
    ∃ e', readTokens round ⟨σ.globals, e⟩ tokens.flatten = some ⟨τ.globals, e'⟩ ∧ τ.Expects e' := by
  induction hrows generalizing σ e with
  | nil =>
    obtain rfl := Option.some.inj h
    exact ⟨e, rfl, he⟩
  | cons hrow _ ih =>
    obtain ⟨σ₁, hstep, hrun⟩ := Option.bind_eq_some_iff.mp h
    obtain ⟨e₁, hread, he₁⟩ := hrow.step hstep he
    obtain ⟨e', hrest, he'⟩ := ih hrun he₁
    exact ⟨e', by rw [List.flatten_cons, readTokens_append, hread, Option.bind_some, hrest], he'⟩

/-- The tokens of some lines. -/
theorem exists_tokens {ls : List (List Char)} {rows : List Row}
    (h : List.Forall₂ (LineReads round) ls rows) :
    ∃ tokens : List (List Token),
      List.Forall₂ (fun line ts => Lexes .normal (line ++ ['\n']) ts .normal) ls tokens ∧
        List.Forall₂ (Row.Reads round) rows tokens := by
  induction h with
  | nil => exact ⟨[], .nil, .nil⟩
  | cons hline _ ih =>
    obtain ⟨ts, hlex, hrow⟩ := hline
    obtain ⟨tokens, hlines, hrows⟩ := ih
    exact ⟨ts :: tokens, .cons hlex hlines, .cons hrow hrows⟩

/-- **A file of rows is read as the machine reads it.** -/
theorem readChunk_rows {text : List Char} {rows : List Row} {tokens : List (List Token)}
    (hlex : Lexes .normal (text ++ ['\n']) tokens.flatten .normal)
    (hrows : List.Forall₂ (Row.Reads round) rows tokens)
    (h : RowState.start.run rows = some τ) (hstack : τ.stack = []) :
    readChunk round text = some τ.globals := by
  have hstart : RowState.start.Expects .statement := .inl rfl
  obtain ⟨e, hread, he⟩ := readTokens_rows hrows h hstart
  simp only [RowState.Expects, hstack] at he
  exact readChunk_eq_some_iff.mpr ⟨_, e, hlex, hread, he⟩

end

end DcsDashboard.Lib.Lua
