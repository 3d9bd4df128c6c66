/-
# Foothold Config.lua is read as it was written

A file that is laid out line by line, each line what it is taken for (`LaidOut`), is reported row
by row (`getFootholdConfig_rows`).  An update that fits it (`Askable`) leaves such a file, and what
is reported then is what was reported, with the updates in place of the names they are for
(`update_reported`).

A string that begins with `{` and ends with `}` is a case of its own: it is written as the table it
denotes, so it is not reported back as a string (`literal_not_reported`).
-/
import DcsDashboard.Foothold.ConfigLines
import Mathlib.Data.List.Pairwise
import Mathlib.Tactic.FinCases

namespace DcsDashboard.Foothold

open Lib Lua

/-! ## 1. The file before and after -/

section
variable (C : CharClasses)

/-- The assignments by their full names, with the text from the value on and the separator. -/
def separators : List (List Char) → List (List Char) → List Row → List (List Char × List Char × Bool)
  | path, line :: ls, row :: rows =>
    (match row, reAssignment C line with
      | .assign key _ _ comma, some (_, rest) => [(joinPath (path ++ [key]), rest, comma)]
      | _, _ => []) ++ separators (pathAfter path row) ls rows
  | _, _, _ => []

end

section
variable {F : NumberFormat} {C : CharClasses}

/-- **The edit of the lines is the edit of the rows.** -/
theorem editLines_reads {ls : List (List Char)} {rows : List Row}
    (hlines : List.Forall₂ (IsLine F C) ls rows) {s : EditState} {t : RowEdit} {ready : Bool}
    (h : SameEdit F s t)
    (hkeeps : ∀ a ∈ separators C t.path ls rows, (∃ w, (a.1, some w) ∈ t.pending) →
      KeepsSeparator a.2.1 a.2.2)
    (hinserts : insertsWell C t ready rows) :
    List.Forall₂ (TextReads F.round) (editLines C s ls) (editRows C t rows) := by
  induction hlines generalizing s t ready with
  | nil => exact .nil
  | @cons line row ls rows hline _ ih =>
    simp only [insertsWell, Bool.and_eq_true] at hinserts
    have hinsert : ∀ comma, row = .closes comma →
        (newRows C (joinPath t.path) t.pending).all (canInsert C ready) := by
      rintro comma rfl
      exact hinserts.1
    have hstep := editLine_reads h hline (fun key bracketed v comma rest hrow hassign hasked =>
      hkeeps (joinPath (t.path ++ [key]), rest, comma) (by simp [separators, hrow, hassign]) hasked)
      hinsert
    refine .cons hstep.2 (ih hstep.1 (fun a ha hasked => ?_) hinserts.2)
    obtain ⟨w, hw⟩ := hasked
    rw [editRow_path] at ha
    exact hkeeps a (List.mem_append_right _ ha) ⟨w, (editRow_pending C t row).subset hw⟩

/-- The tokens of some texts, whether or not empty ones among them are left out. -/
theorem lexes_texts {texts : List (List Char)} {rows : List (List Row)}
    (h : List.Forall₂ (TextReads F.round) texts rows) {p : List Char → Bool}
    (hp : ∀ text, text ≠ [] → p text) :
    ∃ tokens : List (List Token),
      Lexes .normal ((texts.filter p).flatMap (· ++ ['\n'])) tokens.flatten .normal ∧
        List.Forall₂ (Row.Reads F.round) rows.flatten tokens := by
  induction h with
  | nil => exact ⟨[], lexes_nil.mpr ⟨rfl, rfl⟩, .nil⟩
  | @cons text row texts rows htext _ ih =>
    obtain ⟨tokens, hlex, hrow⟩ := htext
    obtain ⟨tokens', hlex', hrows⟩ := ih
    refine ⟨tokens ++ tokens', ?_, List.rel_append hrow hrows⟩
    rw [List.flatten_append]
    by_cases htext : p text
    · simpa [htext] using hlex.append hlex'
    · obtain rfl : text = [] := by
        by_contra hne
        exact htext (hp text hne)
      have hfeed : Lexes .normal ['\n'] [] .normal := by decide
      obtain ⟨htokens, -⟩ := hlex.unique hfeed
      simpa [htext, htokens] using hlex'

/-- What is written. -/
theorem lexes_joinLines {ls : List (List Char)} {ts : List Token}
    (h : Lexes .normal (ls.flatMap (· ++ ['\n'])) ts .normal) :
    Lexes .normal (joinLines ls ++ ['\n'] ++ ['\n']) ts .normal := by
  have hfeed : Lexes .normal ['\n'] [] .normal := by decide
  by_cases hls : ls = []
  · subst hls
    obtain ⟨rfl, -⟩ := lexes_nil.mp h
    decide
  · rw [joinLines_append_lineFeed hls]
    simpa using h.append hfeed

theorem keyed_of_reads {row : Row} {ts : List Token} (h : row.Reads F.round ts) : Keyed row := by
  have hdot : ∀ {key bracketed}, CanBeKey key bracketed →
      key ≠ [] ∧ (bracketed = false → '.' ∉ key) := fun hkey =>
    ⟨hkey.1, fun hb hmem => absurd ((hkey.2 hb).1 '.' hmem) (by decide)⟩
  cases row with
  | assign key bracketed v comma => exact hdot h.1
  | opens key bracketed => exact hdot h.1
  | quiet => trivial
  | closes comma => trivial

/-- **A file is reported row by row.** -/
theorem getFootholdConfig_rows {text : List Char} {rows : List Row} {tokens : List (List Token)}
    {τ : RowState} (hlex : Lexes .normal (text ++ ['\n']) tokens.flatten .normal)
    (hrows : List.Forall₂ (Row.Reads F.round) rows tokens)
    (hrun : RowState.start.run rows = some τ) (hstack : τ.stack = []) :
    getFootholdConfig F text =
      some (insertAll (fun _ => none) ((assigned [] rows).flatMap (reports F))) := by
  have hkeyed : ∀ row ∈ rows, Keyed row := by
    clear hlex hrun
    induction hrows with
    | nil => simp
    | cons hrow _ ih => simpa using ⟨keyed_of_reads hrow, ih⟩
  rw [getFootholdConfig, readChunk_rows hlex hrows hrun hstack, Option.map_some,
    configEntries_rows hrun hstack hkeyed]

/-! ## 2. Updates -/

/-- The table that a string denotes. -/
def constructorValue (F : NumberFormat) (s : List Char) : Value :=
  globalValue ((readChunk F.round ("t = ".toList ++ s)).getD []) "t"

/-- The Lua value that is written for a JSON value. -/
def updateValue (F : NumberFormat) : Json → Option Value
  | .bool b => some (.bool b)
  | .num n => some (.number (.finite n))
  | .str s =>
    some (if isLiteral s.toList then constructorValue F s.toList
      else .string (utf8Bytes s.toList))
  | .null | .arr _ | .obj _ => none

/-- A value that is written as it is: a number is a double that mlua hands over unchanged, a string
has no backslash and no line end, or else it is a table that Lua reads. -/
def IsValue (F : NumberFormat) : Json → Prop
  | .null | .bool _ => True
  | .num n => F.Kept n
  | .str s =>
    if isLiteral s.toList then ∃ v, Written F.round s.toList v
    else ∀ c ∈ s.toList, c ≠ '\\' ∧ isNewline c = false
  | .arr _ | .obj _ => False

/-- What is to be reported for an update. -/
def told (F : NumberFormat) (e : List Char × Json) : List (List Char × Json) :=
  match e.2 with
  | .null => []
  | .str s =>
    if isLiteral s.toList then flattenLuaValue F e.1 (constructorValue F s.toList) else [e]
  | _ => [e]

theorem Written.constructorValue {s : List Char} {v : Value} (h : Written F.round s v) :
    constructorValue F s = v := by
  obtain ⟨us, m, vs, hlex, hm, hv⟩ := h.ends
  have hbefore : Lexes .normal "t = ".toList [.name "t".toList, .sym '='] .normal := by decide
  have hfeed := hlex.separate hm (c := '\n') (by decide)
  have hall : Lexes .normal ("t = ".toList ++ s ++ ['\n'])
      ([.name "t".toList, .sym '='] ++ (us ++ vs)) .normal := by
    have hline := hbefore.append hfeed
    simpa [lexNormal, isSpace] using hline
  have hgive := hv [] (.global "t".toList)
  have hread : readChunk F.round ("t = ".toList ++ s) = some [("t".toList, v)] := by
    refine readChunk_eq_some_iff.mpr ⟨_, .statementOrSemicolon, hall, ?_, .inr rfl⟩
    have hname : "t" ∉ reserved := by decide
    have hname' : readTokens F.round ⟨[], .statement⟩ [.name "t".toList, .sym '='] =
        some ⟨[], .value (.global "t".toList)⟩ := by
      simp [readToken, readStatement, hname]
    rw [readTokens_append, hname', Option.bind_some, hgive]
    rfl
  rw [Foothold.constructorValue, hread]
  rfl

/-- What is to be reported is what the value reports. -/
theorem told_eq {e : List Char × Json} (h : IsValue F e.2) :
    told F e = ((updateValue F e.2).map (flattenLuaValue F e.1)).getD [] := by
  obtain ⟨name, u⟩ := e
  cases u with
  | null => rfl
  | bool b => rfl
  | num n =>
    have hscalar : scalarValue F (.number (.finite n)) = some (.num n) := by
      obtain ⟨-, hint⟩ : F.Kept n := h
      cases hi : F.integer (.finite n) with
      | none => simp [scalarValue, hi]
      | some i => simp [scalarValue, hi, hint i hi]
    simp [told, updateValue, flattenLuaValue_scalar hscalar]
  | str s =>
    by_cases hs : isLiteral s.toList
    · simp [told, updateValue, hs]
    · have hscalar : scalarValue F (.string (utf8Bytes s.toList)) = some (.str s) := by
        simp [scalarValue]
      simp [told, updateValue, hs, flattenLuaValue_scalar hscalar]
  | arr xs => exact h.elim
  | obj kvs => exact h.elim

/-- The updates as values. -/
def pendingOf (F : NumberFormat) (updates : List (List Char × Json)) : Pending :=
  updates.map fun e => (e.1, updateValue F e.2)

theorem not_isWhitespace_of_next {part part' : NumeralPart} {c : Char}
    (h : part.next c = some part') : isWhitespace c = false ∧ c ≠ ',' := by
  have hname : isNameChar c → isWhitespace c = false ∧ c ≠ ',' := fun hc =>
    ⟨not_isWhitespace_of_isNameChar hc, by rintro rfl; exact absurd hc (by decide)⟩
  have hdigit : c.isDigit → isNameChar c := fun hc => by simp [isNameChar, Char.isAlphanum, hc]
  cases part with
  | digits =>
    simp only [NumeralPart.next, Bool.or_eq_true, decide_eq_true_eq] at h
    split at h
    · next hc =>
      rcases hc with hc | rfl
      · exact hname (hdigit hc)
      · decide
    · split at h
      · next hc => rcases hc with rfl | rfl <;> decide
      · split at h
        · next hc => exact hname hc
        · cases h
  | exponent =>
    simp only [NumeralPart.next, Bool.or_eq_true, decide_eq_true_eq] at h
    split at h
    · next hc =>
      rcases hc with (rfl | rfl) | hc
      · decide
      · decide
      · exact hname hc
    · cases h
  | tail =>
    simp only [NumeralPart.next] at h
    split at h
    · next hc => exact hname hc
    · cases h

theorem endsWell_cons {text : List Char} (h : EndsWell text) (c : Char) : EndsWell (c :: text) := by
  obtain ⟨front, d, rfl, hd⟩ := h
  exact ⟨c :: front, d, rfl, hd⟩

theorem endsWell_numeral {text : List Char} (h : IsNumeral text) : EndsWell text := by
  obtain ⟨d, s, part, rfl, hd, hrun⟩ := h
  have hlast : ∀ {part part' : NumeralPart} {s : List Char}, s ≠ [] → part.run s = some part' →
      EndsWell s := by
    intro part part' s hne hrun
    induction s generalizing part with
    | nil => exact absurd rfl hne
    | cons c s ih =>
      obtain ⟨part₁, hnext, hrest⟩ := Option.bind_eq_some_iff.mp hrun
      by_cases hs : s = []
      · exact ⟨[], c, by simp [hs], not_isWhitespace_of_next hnext⟩
      · exact endsWell_cons (ih hs hrest) c
  by_cases hs : s = []
  · have hnext : NumeralPart.digits.next d = some .digits := by simp [NumeralPart.next, hd]
    exact ⟨[], d, by simp [hs], not_isWhitespace_of_next hnext⟩
  · exact endsWell_cons (hlast hs hrun) d

/-- A string without backslashes and line ends, its quotes escaped. -/
theorem lexes_escapeQuotes {s : List Char} {bytes : List UInt8}
    (h : ∀ c ∈ s, c ≠ '\\' ∧ isNewline c = false) :
    Lexes (.string '"' bytes) (s.flatMap fun c => if c = '"' then ['\\', '"'] else [c]) []
      (.string '"' (bytes ++ utf8Bytes s)) := by
  induction s generalizing bytes with
  | nil => simp [utf8Bytes]
  | cons c s ih =>
    obtain ⟨hbackslash, hnewline⟩ := h c (by simp)
    have hrest : Lexes (.string '"' (bytes ++ utf8 c))
        (s.flatMap fun c => if c = '"' then ['\\', '"'] else [c]) []
        (.string '"' (bytes ++ utf8Bytes (c :: s))) := by
      have hih := @ih (bytes ++ utf8 c) fun d hd => h d (by simp [hd])
      simpa [utf8Bytes] using hih
    rw [List.flatMap_cons]
    by_cases hc : c = '"'
    · subst hc
      have hescape : lexStep (.string '"' bytes) '\\' = some ([], .escape '"' bytes) := by
        simp [lexStep, lexString, isNewline]
      have hquote : lexStep (.escape '"' bytes) '"' = some ([], .string '"' (bytes ++ utf8 '"')) := by
        simp [lexStep, lexEscape, isNewline, Char.isDigit]
      exact Lexes.skip hescape (Lexes.skip hquote hrest)
    · rw [if_neg hc]
      exact lexes_string_plain ⟨hc, hnewline, hbackslash⟩ hrest

/-- **The text of a value is read as the value.** -/
theorem means_update (hF : F.Lawful) {u : Json} (h : IsValue F u) (name : List Char) :
    ∃ text, valueText F u = some text ∧ Means F (name, text) (name, updateValue F u) := by
  have hmark : ∀ {c : Char} {s : List Char}, c ≠ '_' → c :: s ≠ deleteMark := by
    intro c s hc heq
    exact hc (List.cons.inj heq).1
  cases u with
  | null => exact ⟨deleteMark, rfl, rfl, rfl⟩
  | bool b =>
    refine ⟨_, rfl, rfl, ?_, written_bool b, ?_⟩
    · have htext : (if b then "true".toList else "false".toList) ≠ deleteMark := by
        cases b <;> decide
      exact htext
    · cases b
      · exact ⟨"fals".toList, 'e', rfl, by decide, by decide⟩
      · exact ⟨"tru".toList, 'e', rfl, by decide, by decide⟩
  | num n =>
    have hprinted := hF.printed_serialize n (show F.Kept n from h).1
    refine ⟨_, rfl, rfl, ?_, hprinted.written, ?_⟩
    all_goals obtain ⟨body, q, hbody, -, ⟨htext, -⟩ | ⟨htext, -⟩⟩ := hprinted
    all_goals rw [htext]
    · obtain ⟨d, s, -, rfl, hd, -⟩ := hbody
      exact hmark (by rintro rfl; exact absurd hd (by decide))
    · exact hmark (by decide)
    · exact endsWell_numeral hbody
    · exact endsWell_cons (endsWell_numeral hbody) '-'
  | str s =>
    by_cases hs : isLiteral s.toList
    · obtain ⟨v, hv⟩ : ∃ v, Written F.round s.toList v := by simpa [IsValue, hs] using h
      refine ⟨s.toList, by simp [valueText, hs], ?_⟩
      rw [updateValue, if_pos hs, Written.constructorValue hv]
      simp only [isLiteral, Bool.and_eq_true, decide_eq_true_eq] at hs
      refine ⟨rfl, ?_, hv, ?_⟩
      · obtain ⟨rest, hrest⟩ := List.head?_eq_some_iff.mp hs.1
        dsimp only
        rw [hrest]
        exact hmark (by decide)
      · obtain ⟨front, hfront⟩ := List.getLast?_eq_some_iff.mp hs.2
        exact ⟨front, '}', hfront, by decide, by decide⟩
    · have hplain : ∀ c ∈ s.toList, c ≠ '\\' ∧ isNewline c = false := by
        simpa [IsValue, hs] using h
      refine ⟨_, by simp only [valueText, if_neg hs]; rfl, ?_⟩
      rw [updateValue, if_neg hs]
      have hbody := @lexes_escapeQuotes _ [] hplain
      refine ⟨rfl, hmark (by decide), written_quoted (by simpa using hbody), ?_⟩
      exact ⟨_, '"', rfl, by decide, by decide⟩
  | arr xs => exact h.elim
  | obj kvs => exact h.elim

theorem means_updates (hF : F.Lawful) {updates : List (List Char × Json)}
    (h : ∀ e ∈ updates, IsValue F e.2) :
    List.Forall₂ (Means F) (strUpdates F updates) (pendingOf F updates) := by
  induction updates with
  | nil => exact .nil
  | cons e updates ih =>
    obtain ⟨name, u⟩ := e
    obtain ⟨text, htext, hmeans⟩ := means_update hF (h (name, u) (by simp)) name
    have hrest := ih fun e he => h e (by simp [he])
    simpa [strUpdates, pendingOf, htext] using List.Forall₂.cons hmeans hrest

end

/-! ## 3. What is reported after an update -/

/-- **A file that is laid out line by line.**  Each line is what it is taken for; the lines are
well nested, with their separators; no full name is used twice; and no two values are reported
under one name. -/
structure LaidOut (F : NumberFormat) (C : CharClasses) (content : List Char) (rows : List Row) :
    Prop where
  lines : List.Forall₂ (IsLine F C) (lines content) rows
  nested : ∃ σ, RowState.start.run rows = some σ ∧ σ.stack = []
  once : ((assigned [] rows).map Prod.fst ++ tables [] rows).Nodup
  reported : (((assigned [] rows).flatMap (reports F)).map Prod.fst).Nodup

/-- A name an update can be for: one that is reported of a row of its own, or one that is new and
directly inside a table that is not passed over. -/
def IsName (F : NumberFormat) (rows : List Row) (name : List Char) : Prop :=
  isShown name ∧
    ((∃ v j, (name, v) ∈ assigned [] rows ∧ scalarValue F v = some j) ∨
      (name ∉ ((assigned [] rows).flatMap (reports F)).map Prod.fst ∧
        name ∉ (assigned [] rows).map Prod.fst ++ tables [] rows ∧
        ∃ tableName ∈ tables [] rows, (localKey tableName name).isSome))

/-- **Updates that fit the file.** -/
structure Askable (F : NumberFormat) (C : CharClasses) (content : List Char) (rows : List Row)
    (updates : List (List Char × Json)) : Prop where
  nodup : (updates.map Prod.fst).Nodup
  values : ∀ e ∈ updates, IsValue F e.2
  names : ∀ e ∈ updates, IsName F rows e.1
  /-- the separator of a row that gets another value is kept -/
  separators : ∀ a ∈ separators C [] (Lib.lines content) rows,
    (∃ w, (a.1, some w) ∈ pendingOf F updates) → KeepsSeparator a.2.1 a.2.2
  /-- new rows can be inserted -/
  inserts : insertsWell C ⟨[], pendingOf F updates⟩ false rows
  /-- no two values are to be reported under one name -/
  told : ((updates.flatMap (told F)).map Prod.fst).Nodup ∧
    ∀ name ∈ (updates.flatMap (Foothold.told F)).map Prod.fst, name ∉ updates.map Prod.fst →
      name ∉ ((assigned [] rows).flatMap (reports F)).map Prod.fst

section
variable {F : NumberFormat} {C : CharClasses} {content : List Char} {rows : List Row}
  {updates : List (List Char × Json)}

theorem pendingOf_names (updates : List (List Char × Json)) :
    (pendingOf F updates).map Prod.fst = updates.map Prod.fst := by
  simp [pendingOf, Function.comp_def]

theorem LaidOut.assigned_unique (h : LaidOut F C content rows) {name : List Char} {v w : Value}
    (hv : (name, v) ∈ assigned [] rows) (hw : (name, w) ∈ assigned [] rows) : v = w :=
  (Prod.mk.inj (List.inj_on_of_nodup_map (List.nodup_append.mp h.once).1 hv hw rfl)).2

/-- An update is for no table, and for no row without a value. -/
theorem Askable.fits (h : LaidOut F C content rows) (ha : Askable F C content rows updates) :
    Fits C ⟨[], pendingOf F updates⟩ false rows := by
  obtain ⟨-, -, hdisjoint⟩ := List.nodup_append.mp h.once
  refine ⟨?_, ?_, ha.inserts⟩
  · intro tableName htable hmem
    rw [pendingOf_names] at hmem
    obtain ⟨e, he, rfl⟩ := List.mem_map.mp hmem
    rcases (ha.names e he).2 with ⟨v, j, hv, -⟩ | ⟨-, hnew, -⟩
    · exact hdisjoint _ (List.mem_map.mpr ⟨_, hv, rfl⟩) _ htable rfl
    · exact hnew (List.mem_append_right _ htable)
  · intro e he hmem
    rw [pendingOf_names] at hmem
    obtain ⟨e', he', hname⟩ := List.mem_map.mp hmem
    obtain ⟨name, v⟩ := e
    obtain rfl : e'.1 = name := hname
    rcases (ha.names e' he').2 with ⟨w, j, hw, hscalar⟩ | ⟨-, hnew, -⟩
    · rw [h.assigned_unique he hw]
      rintro rfl
      cases hscalar
    · exact absurd (List.mem_append_left _ (List.mem_map.mpr ⟨_, he, rfl⟩)) hnew

/-- What is reported before. -/
theorem LaidOut.reported_before (h : LaidOut F C content rows) :
    getFootholdConfig F content =
      some (insertAll (fun _ => none) ((assigned [] rows).flatMap (reports F))) := by
  obtain ⟨σ, hrun, hstack⟩ := h.nested
  obtain ⟨tokens, hlines, hrows⟩ := exists_tokens (h.lines.imp fun _ _ => IsLine.reads)
  exact getFootholdConfig_rows (lexes_lines hlines) hrows hrun hstack

/-- What is reported after. -/
theorem LaidOut.reported_after (hF : F.Lawful) (h : LaidOut F C content rows)
    (ha : Askable F C content rows updates) :
    getFootholdConfig F (updateFootholdConfig C F updates content) =
      some (insertAll (fun _ => none) ((assigned []
        (editRows C ⟨[], pendingOf F updates⟩ rows).flatten).flatMap (reports F))) := by
  obtain ⟨σ, hrun, hstack⟩ := h.nested
  have hsame : SameEdit F ⟨[], strUpdates F updates⟩ ⟨[], pendingOf F updates⟩ :=
    ⟨rfl, means_updates hF ha.values⟩
  have hedited := editLines_reads h.lines hsame ha.separators ha.inserts
  have hkept : ∀ l : List Char, l ≠ [] → decide (l ≠ [] ∨ [] ∈ Lib.lines content) = true :=
    fun l hl => decide_eq_true (.inl hl)
  obtain ⟨tokens, hlex, hrows⟩ := lexes_texts hedited hkept
  have hstart : Editing ⟨[], pendingOf F updates⟩ false RowState.start RowState.start :=
    ⟨rfl, by simpa [pendingOf_names] using ha.nodup, trivial,
      ⟨fun _ => id, .nil, fun _ => id⟩, fun hne => absurd rfl hne⟩
  obtain ⟨τ, hτ, hfollows⟩ := hstart.run C (Askable.fits h ha) hrun
  have hτstack : τ.stack = [] := by
    have hforall := hfollows.stack
    rw [hstack] at hforall
    exact List.forall₂_nil_left_iff.mp hforall
  exact getFootholdConfig_rows (lexes_joinLines hlex) hrows hτ hτstack

/-- Two rows do not report one name. -/
theorem LaidOut.reports_disjoint (h : LaidOut F C content rows) {e e' : List Char × Value}
    (he : e ∈ assigned [] rows) (he' : e' ∈ assigned [] rows) {name : List Char} {i j : Json}
    (hi : (name, i) ∈ reports F e) (hj : (name, j) ∈ reports F e') : e = e' := by
  have hnodup := h.reported
  rw [List.map_flatMap] at hnodup
  have hpairwise := (List.nodup_flatMap.mp hnodup).2
  by_contra hne
  have hsymm : Std.Symm (Function.onFun List.Disjoint fun e : List Char × Value =>
    (reports F e).map Prod.fst) := ⟨fun _ _ hd _ h1 h2 => hd h2 h1⟩
  have hdisjoint := hpairwise.forall he he' hne
  exact hdisjoint (List.mem_map.mpr ⟨_, hi, rfl⟩) (List.mem_map.mpr ⟨_, hj, rfl⟩)

/-- A name with a row of its own is reported of that row. -/
theorem reports_scalar {name : List Char} {v : Value} {j : Json} (hshown : isShown name)
    (hv : scalarValue F v = some j) : reports F (name, v) = [(name, j)] := by
  simp [reports, hshown, flattenLuaValue_scalar hv]

/-- **The entries after an update**: what is told, and the entries of the other names. -/
theorem mem_entries_after (h : LaidOut F C content rows) (ha : Askable F C content rows updates)
    {name : List Char} {j : Json} :
    (name, j) ∈ (assigned [] (editRows C ⟨[], pendingOf F updates⟩ rows).flatten).flatMap
        (reports F) ↔
      (name, j) ∈ updates.flatMap (told F) ∨
        ((name, j) ∈ (assigned [] rows).flatMap (reports F) ∧ name ∉ updates.map Prod.fst) := by
  have hpending : ((pendingOf F updates).map Prod.fst).Nodup := by
    simpa [pendingOf_names] using ha.nodup
  have hassigned : ∀ n v, (n, v) ∈ assigned [] (editRows C ⟨[], pendingOf F updates⟩ rows).flatten ↔
      ((n, v) ∈ assigned [] rows ∧ n ∉ updates.map Prod.fst) ∨
        ((n, some v) ∈ pendingOf F updates ∧ Placed [] rows n) := by
    intro n v
    rw [← pendingOf_names (F := F)]
    exact @mem_assigned_editRows C ⟨[], _⟩ rows hpending (List.nodup_append.mp h.once).1 n v
  simp only [List.mem_flatMap, Prod.exists, hassigned]
  constructor
  · rintro ⟨n, v, ⟨hv, hn⟩ | ⟨hmem, -⟩, hj⟩
    · -- a row that is as it was
      refine .inr ⟨⟨n, v, hv, hj⟩, ?_⟩
      intro hname
      obtain ⟨e, he, rfl⟩ := List.mem_map.mp hname
      rcases (ha.names e he).2 with ⟨w, i, hw, hscalar⟩ | ⟨hnew, -, -⟩
      · have hi : (e.1, i) ∈ reports F (e.1, w) := by
          simp [reports_scalar (ha.names e he).1 hscalar]
        obtain ⟨rfl, -⟩ := Prod.mk.inj (h.reports_disjoint hv hw hj hi)
        exact hn hname
      · exact hnew (List.mem_map.mpr ⟨_, List.mem_flatMap.mpr ⟨_, hv, hj⟩, rfl⟩)
    · -- a row for an update
      obtain ⟨e, he, heq⟩ := List.mem_map.mp hmem
      obtain ⟨rfl, hvalue⟩ := Prod.mk.inj heq
      have hshown := (ha.names e he).1
      refine .inl ⟨e.1, e.2, he, ?_⟩
      rw [told_eq (ha.values e he), hvalue]
      simpa [reports, hshown] using hj
  · rintro (⟨n, u, he, hj⟩ | ⟨⟨n, v, hv, hj⟩, hname⟩)
    · rw [told_eq (ha.values (n, u) he)] at hj
      obtain ⟨hshown, hplace⟩ := ha.names (n, u) he
      cases hvalue : updateValue F u with
      | none => simp [hvalue] at hj
      | some v =>
        refine ⟨n, v, .inr ⟨List.mem_map.mpr ⟨_, he, by rw [hvalue]⟩, ?_⟩, ?_⟩
        · rcases hplace with ⟨w, i, hw, -⟩ | ⟨-, -, htable⟩
          · exact .inl (List.mem_map.mpr ⟨_, hw, rfl⟩)
          · exact .inr htable
        · simpa [reports, hshown, hvalue] using hj
    · refine ⟨n, v, .inl ⟨hv, fun hn => ?_⟩, hj⟩
      obtain ⟨e, he, rfl⟩ := List.mem_map.mp hn
      rcases (ha.names e he).2 with ⟨w, i, hw, hscalar⟩ | ⟨-, hnew, -⟩
      · obtain rfl := h.assigned_unique hv hw
        rw [reports_scalar (ha.names e he).1 hscalar, List.mem_singleton] at hj
        obtain ⟨rfl, -⟩ := Prod.mk.inj hj
        exact hname hn
      · exact hnew (List.mem_append_left _ (List.mem_map.mpr ⟨_, hv, rfl⟩))

/-- **What is reported after an update**: what was reported, with the updates in place of the
names they are for. -/
theorem update_reported (hF : F.Lawful) (h : LaidOut F C content rows)
    (ha : Askable F C content rows updates) :
    ∃ old new, getFootholdConfig F content = some old ∧
      getFootholdConfig F (updateFootholdConfig C F updates content) = some new ∧
      ∀ name j, new name = some j ↔ (name, j) ∈ updates.flatMap (told F) ∨
        (old name = some j ∧ name ∉ updates.map Prod.fst) := by
  have hold : ∀ name i j, (name, i) ∈ (assigned [] rows).flatMap (reports F) →
      (name, j) ∈ (assigned [] rows).flatMap (reports F) → i = j := fun name i j hi hj =>
    (Prod.mk.inj (List.inj_on_of_nodup_map h.reported hi hj rfl)).2
  have htold : ∀ name i j, (name, i) ∈ updates.flatMap (told F) →
      (name, j) ∈ updates.flatMap (told F) → i = j := fun name i j hi hj =>
    (Prod.mk.inj (List.inj_on_of_nodup_map ha.told.1 hi hj rfl)).2
  have hboth : ∀ name i j, (name, i) ∈ updates.flatMap (told F) →
      (name, j) ∈ (assigned [] rows).flatMap (reports F) → name ∈ updates.map Prod.fst := by
    intro name i j hi hj
    by_contra hname
    exact ha.told.2 name (List.mem_map.mpr ⟨_, hi, rfl⟩) hname (List.mem_map.mpr ⟨_, hj, rfl⟩)
  refine ⟨_, _, h.reported_before, h.reported_after hF ha, ?_⟩
  intro name j
  rw [insertAll_eq_some_iff hold, insertAll_eq_some_iff, mem_entries_after h ha]
  intro name i j hi hj
  rw [mem_entries_after h ha] at hi hj
  rcases hi with hi | ⟨hi, hname⟩ <;> rcases hj with hj | ⟨hj, hname'⟩
  · exact htold name i j hi hj
  · exact absurd (hboth name i j hi hj) hname'
  · exact absurd (hboth name j i hj hi) hname
  · exact hold name i j hi hj

end

/-- The classes on ASCII. -/
def asciiClasses : CharClasses := ⟨isNameChar, Char.isAlphanum⟩

/-- A file with a comment, a global and a table. -/
def smallConfig : List Char :=
  "-- start\nStartNormal = true -- at once\nGlobalSettings = \x7b\n    rate = 3,\n\x7d\n".toList

def smallRows : List Row :=
  [.quiet, .assign "StartNormal".toList false (.bool true) false,
    .opens "GlobalSettings".toList false,
    .assign "rate".toList false (.number (integers.round 3)) true, .closes false]

theorem laidOut_smallConfig : LaidOut integers asciiClasses smallConfig smallRows where
  lines := by
    have hlines : Lib.lines smallConfig = ["-- start".toList,
        "StartNormal = ".toList ++ "true -- at once".toList, "GlobalSettings = \x7b".toList,
        "    rate = ".toList ++ "3,".toList, "\x7d".toList] := by decide
    have hstart : Lexes .normal ("true -- at once".toList ++ ['\n'])
        ([.name "true".toList] ++ commaTokens false) .normal := by decide
    have hrate : Lexes .normal ("3,".toList ++ ['\n'])
        ([.number 3] ++ commaTokens true) .normal := by
      decide +kernel
    rw [hlines]
    refine .cons ?_ (.cons ?_ (.cons ?_ (.cons ?_ (.cons ?_ .nil))))
    · exact .quiet (by decide) (by decide) (by decide)
    · exact .assign (by decide) (by decide) (by decide) (by decide) (by decide) hstart yields_true
    · exact .opens (by decide) (by decide)
        ⟨[.name "GlobalSettings".toList, .sym '=', .sym '{'], by decide, by decide, rfl⟩
    · exact .assign (by decide) (by decide) (by decide) (by decide) (by decide) hrate
        (yields_number 3)
    · exact .closes (by decide) ⟨[.sym '}'], by decide, rfl⟩
  nested := ⟨_, rfl, rfl⟩
  once := by decide
  reported := by decide +kernel

/-- One row gets another value, and one is new. -/
theorem update_reported_smallConfig :
    ∃ old new, getFootholdConfig integers smallConfig = some old ∧
      getFootholdConfig integers (updateFootholdConfig asciiClasses integers
        [("StartNormal".toList, .bool false), ("GlobalSettings.limit".toList, .num (7 : ℤ))]
          smallConfig) = some new ∧
      ∀ name j, new name = some j ↔ (name, j) ∈
          [("StartNormal".toList, .bool false), ("GlobalSettings.limit".toList, .num (7 : ℤ))].flatMap
            (told integers) ∨
        (old name = some j ∧ name ∉ ["StartNormal".toList, "GlobalSettings.limit".toList]) := by
  refine update_reported integers_lawful laidOut_smallConfig ⟨?_, ?_, ?_, ?_, ?_, ?_⟩
  · decide
  · intro e he
    fin_cases he
    · trivial
    · exact integers_kept 7
  · intro e he
    fin_cases he
    · exact ⟨by decide, .inl ⟨.bool true, .bool true, List.Mem.head _, rfl⟩⟩
    · exact ⟨by decide, .inr ⟨by decide +kernel, by decide, by decide⟩⟩
  · intro a ha _
    have hlist : separators asciiClasses [] (Lib.lines smallConfig) smallRows =
        [("StartNormal".toList, "true -- at once".toList, false),
          ("GlobalSettings.rate".toList, "3,".toList, true)] := by decide
    rw [hlist] at ha
    fin_cases ha
    · exact ⟨by decide, by decide⟩
    · exact ⟨by decide, by decide⟩
  · decide
  · decide

/-- **A string that denotes a table is not reported as a string.**  The table is. -/
theorem literal_not_reported :
    ∃ old new, getFootholdConfig integers "X = 5\n".toList = some old ∧
      (old "X".toList).bind Json.asF64 = some 5 ∧
      getFootholdConfig integers (updateFootholdConfig asciiClasses integers
        [("X".toList, .str "\x7b1400, 1500\x7d")] "X = 5\n".toList) = some new ∧
      new "X".toList = none ∧ (new "X.1".toList).bind Json.asF64 = some 1400 := by
  have hold : ((getFootholdConfig integers "X = 5\n".toList).any fun old =>
      decide ((old "X".toList).bind Json.asF64 = some 5)) = true := by decide +kernel
  have hnew : ((getFootholdConfig integers (updateFootholdConfig asciiClasses integers
      [("X".toList, .str "\x7b1400, 1500\x7d")] "X = 5\n".toList)).any fun new =>
        (new "X".toList).isNone && decide ((new "X.1".toList).bind Json.asF64 = some 1400)) = true := by
    decide +kernel
  obtain ⟨old, hold, hx⟩ := (Option.any_eq_true _ _).mp hold
  obtain ⟨new, hnew, hy⟩ := (Option.any_eq_true _ _).mp hnew
  simp only [Bool.and_eq_true, Option.isNone_iff_eq_none, decide_eq_true_eq] at hx hy
  exact ⟨old, new, hold, hx, hnew, hy⟩

end DcsDashboard.Foothold
