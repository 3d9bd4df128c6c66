/-
# The lines of Foothold Config.lua

What the regular expressions take a line for has to be what it is (`IsLine`): they know nothing of
strings and comments.  On such a line `editLine` does on the text what `editRow` does on the row
(`editLine_reads`), where the update can be written and the separator is kept.

It is not kept where a comma stands before a comment, since only the end of the line is looked at
(`KeepsSeparator`).
-/
import DcsDashboard.Foothold.ConfigUpdates

namespace DcsDashboard.Foothold

open Lib Lua

/-! ## 1. Lines -/

/-- **A line is what it is taken for.** -/
inductive IsLine (F : NumberFormat) (C : CharClasses) : List Char → Row → Prop
  | quiet {line : List Char} (hend : reTableEnd line = false) (hassign : reAssignment C line = none)
      (hlex : Lexes .normal (line ++ ['\n']) [] .normal) : IsLine F C line .quiet
  | assign {pre rest key : List Char} {bracketed comma : Bool} {vs : List Token} {v : Value}
      (hend : reTableEnd (pre ++ rest) = false) (hstart : reTableStart C (pre ++ rest) = none)
      (hassign : reAssignment C (pre ++ rest) = some (key, rest)) (hkey : CanBeKey key bracketed)
      (hpre : Lexes .normal pre (keyTokens key bracketed) .normal)
      (hrest : Lexes .normal (rest ++ ['\n']) (vs ++ commaTokens comma) .normal)
      (hv : Yields F.round vs v) : IsLine F C (pre ++ rest) (.assign key bracketed v comma)
  | opens {line key : List Char} {bracketed : Bool} (hend : reTableEnd line = false)
      (hstart : reTableStart C line = some key)
      (hreads : LineReads F.round line (.opens key bracketed)) :
      IsLine F C line (.opens key bracketed)
  | closes {line : List Char} {comma : Bool} (hend : reTableEnd line = true)
      (hreads : LineReads F.round line (.closes comma)) : IsLine F C line (.closes comma)

/-- Several lines in one text. -/
def TextReads (round : ℚ → Double) (text : List Char) (rows : List Row) : Prop :=
  ∃ tokens : List (List Token), Lexes .normal (text ++ ['\n']) tokens.flatten .normal ∧
    List.Forall₂ (Row.Reads round) rows tokens

/-- What is taken for the end of the value is: the separator is at the end of the line, and what
is taken for a comment is one. -/
structure KeepsSeparator (rest : List Char) (comma : Bool) : Prop where
  separator : (trimEnd rest).getLast? = some ',' ↔ comma = true
  comment : Lexes .normal (commentOf rest ++ ['\n']) [] .normal

/-- The last character of a text that is written for a value. -/
def EndsWell (text : List Char) : Prop :=
  ∃ front c, text = front ++ [c] ∧ isWhitespace c = false ∧ c ≠ ','

/-- An update as text, and as a value. -/
def Means (F : NumberFormat) (u : List Char × List Char) (w : List Char × Option Value) : Prop :=
  u.1 = w.1 ∧
    match w.2 with
    | none => u.2 = deleteMark
    | some v => u.2 ≠ deleteMark ∧ Written F.round u.2 v ∧ EndsWell u.2

section
variable {F : NumberFormat} {C : CharClasses} {line : List Char} {row : Row}

theorem IsLine.reads (h : IsLine F C line row) : LineReads F.round line row := by
  cases h with
  | quiet _ _ hlex => exact ⟨[], hlex, rfl⟩
  | @assign pre rest key bracketed comma vs v _ _ _ hkey hpre hrest hv =>
    refine ⟨keyTokens key bracketed ++ (vs ++ commaTokens comma), ?_, hkey, vs, rfl, hv⟩
    rw [List.append_assoc]
    exact hpre.append hrest
  | opens _ _ hreads => exact hreads
  | closes _ hreads => exact hreads

theorem textReads_line (h : LineReads F.round line row) : TextReads F.round line [row] := by
  obtain ⟨ts, hlex, hrow⟩ := h
  exact ⟨[ts], by simpa using hlex, .cons hrow .nil⟩

theorem TextReads.append {text : List Char} {rows rows' : List Row}
    (h : TextReads F.round text rows) (h' : TextReads F.round line rows') :
    TextReads F.round (text ++ '\n' :: line) (rows ++ rows') := by
  obtain ⟨tokens, hlex, hrows⟩ := h
  obtain ⟨tokens', hlex', hrows'⟩ := h'
  refine ⟨tokens ++ tokens', ?_, List.rel_append hrows hrows'⟩
  have hall := hlex.append hlex'
  simpa using hall

/-! ## 2. A line with another value -/

theorem trimEnd_concat_blank {s : List Char} {c : Char} (hc : isWhitespace c = false) :
    trimEnd (s ++ [c] ++ [' ']) = s ++ [c] := by
  have hblank : isWhitespace ' ' = true := by decide
  unfold trimEnd
  rw [List.rdropWhile_concat_pos _ _ _ hblank, List.rdropWhile_concat_neg _ _ _ (by simp [hc])]

/-- What is taken for a comment begins as one. -/
theorem commentOf_cases (rest : List Char) :
    commentOf rest = [] ∨ ∃ s, commentOf rest = '-' :: s := by
  unfold commentOf
  cases hfind : findText "--".toList rest with
  | none => exact .inl rfl
  | some found =>
    obtain ⟨before, after⟩ := found
    obtain ⟨s, hs⟩ := (findText_spec hfind).2
    exact .inr ⟨'-' :: s, hs.symm⟩

/-- The text of a value, its separator, and blanks and comments after it. -/
theorem lexes_value {text : List Char} {v : Value} (h : Written F.round text v) (comma : Bool) :
    ∃ vs, Yields F.round vs v ∧ ∀ {c : Char} {s : List Char}, isSeparator c →
      lexNormal c = ([], .normal) → Lexes .normal s [] .normal →
      Lexes .normal (text ++ (if comma then [','] else []) ++ c :: s) (vs ++ commaTokens comma)
        .normal := by
  obtain ⟨us, m, ws, htext, hm, hv⟩ := h.ends
  refine ⟨us ++ ws, hv, ?_⟩
  intro c s hc hblank hs
  cases comma with
  | false =>
    have hall := (htext.separate hm hc)
    rw [hblank] at hall
    simpa [commaTokens] using hall.append hs
  | true =>
    have hcomma := htext.separate hm (c := ',') (by decide)
    have hskip : Lexes .normal (c :: s) [] .normal :=
      Lexes.skip (by simp [lexStep, hblank]) hs
    have hall := hcomma.append hskip
    simpa [commaTokens, lexNormal, isSpace, isNameChar] using hall

/-- **A row with another value.** -/
theorem reads_rewriteLine {pre rest key value : List Char} {bracketed comma : Bool} {w : Value}
    (hkey : CanBeKey key bracketed) (hpre : Lexes .normal pre (keyTokens key bracketed) .normal)
    (hkeeps : KeepsSeparator rest comma) (hw : Written F.round value w) (hends : EndsWell value) :
    LineReads F.round (rewriteLine (pre ++ rest) rest value) (.assign key bracketed w comma) := by
  obtain ⟨vs, hv, hlex⟩ := lexes_value hw comma
  obtain ⟨front, c, rfl, hc, hcomma⟩ := hends
  have htake : (pre ++ rest).take ((pre ++ rest).length - rest.length) = pre := by simp
  have hseparator : (if (trimEnd rest).getLast? = some ',' ∧ (front ++ [c]).getLast? ≠ some ','
      then [','] else []) = if comma then [','] else [] := by
    by_cases hlast : (trimEnd rest).getLast? = some ','
    · simp [hlast, hcomma, hkeeps.separator.mp hlast]
    · have hfalse : comma = false := Bool.eq_false_iff.mpr fun h => hlast (hkeeps.separator.mpr h)
      simp [hlast, hfalse]
  -- the last character before the blank
  obtain ⟨before, d, hbefore, hd⟩ : ∃ before d,
      pre ++ (front ++ [c]) ++ (if comma then [','] else []) = before ++ [d] ∧
        isWhitespace d = false := by
    cases comma
    · exact ⟨pre ++ front, c, by simp, hc⟩
    · exact ⟨pre ++ (front ++ [c]), ',', by simp, by decide⟩
  have hblank : lexNormal ' ' = ([], .normal) := by decide
  have hfeed : lexNormal '\n' = ([], .normal) := by decide
  refine ⟨keyTokens key bracketed ++ (vs ++ commaTokens comma), ?_, hkey, vs, rfl, hv⟩
  unfold rewriteLine
  dsimp only
  rw [htake, hseparator]
  rcases commentOf_cases rest with hnone | ⟨s, hsome⟩
  · rw [hnone, hbefore, trimEnd_concat_blank hd, ← hbefore]
    have hline := hlex (c := '\n') (s := []) (by decide) hfeed (by decide)
    simpa using hpre.append hline
  · have hcomment := hkeeps.comment.trimEnd
    have htrim : trimEnd (pre ++ (front ++ [c]) ++ (if comma then [','] else []) ++
        ' ' :: commentOf rest) = pre ++ (front ++ [c]) ++ (if comma then [','] else []) ++
          ' ' :: trimEnd (commentOf rest) := by
      have hdash : isWhitespace '-' = false := by decide
      have hsplit := trimEnd_append (s := pre ++ (front ++ [c]) ++ (if comma then [','] else []) ++
        [' ']) hdash s
      rw [hsome]
      simpa using hsplit
    rw [htrim]
    have hline := hlex (c := ' ') (by decide) hblank hcomment
    simpa using hpre.append hline

/-! ## 3. New rows -/

/-- A new row is read as what it is for. -/
theorem reads_newRow {indent key value : List Char} {v : Value} (hkey : isNewKey C key)
    (hindent : Lexes .normal indent [] .normal) (hw : Written F.round value v) :
    LineReads F.round (newRow C indent key value) (.assign key (!isSafeKey C key) v true) := by
  obtain ⟨vs, hv, hlex⟩ := lexes_value hw true
  have hvalue : Lexes .normal (value ++ [','] ++ ['\n']) (vs ++ commaTokens true) .normal := by
    simpa using hlex (c := '\n') (s := []) (by decide) (by decide) (by decide)
  have hblanks : Lexes .normal "    ".toList [] .normal := by decide
  have hfront := hindent.append hblanks
  simp only [isNewKey, Bool.and_eq_true, Bool.not_eq_true', List.isEmpty_eq_false_iff] at hkey
  obtain ⟨hne, hkey⟩ := hkey
  suffices Lexes .normal ((if isSafeKey C key then key else
      "[\"".toList ++ key ++ "\"]".toList) ++ " = ".toList) (keyTokens key (!isSafeKey C key))
        .normal ∧ CanBeKey key (!isSafeKey C key) by
    obtain ⟨hname, hcan⟩ := this
    refine ⟨_, ?_, hcan, vs, rfl, hv⟩
    have hall := hfront.append (hname.append hvalue)
    simpa [newRow] using hall
  cases hsafe : isSafeKey C key with
  | true =>
    simp only [hsafe, if_true, Bool.and_eq_true, Bool.not_eq_true', decide_eq_true_eq,
      List.all_eq_true] at hkey
    obtain ⟨⟨hall, hdigit⟩, hreserved⟩ := hkey
    have hfirst : ∀ c ∈ key.head?, c.isDigit = false := fun c hc => by
      simpa [List.headD_eq_head?_getD, Option.mem_def.mp hc] using hdigit
    have hequals : Lexes (.name key) " = ".toList [.name key, .sym '='] .normal := by
      simp [lexes_cons, lexStep, lexAfter, lexNormal, isSpace, isNameChar]
    refine ⟨?_, hne, fun _ => ⟨hall, hreserved⟩⟩
    simpa [keyTokens] using (lexes_name hne hall hfirst).append hequals
  | false =>
    simp only [hsafe, if_false, Bool.false_eq_true, List.all_eq_true, Bool.and_eq_true,
      Bool.not_eq_true', decide_eq_true_eq] at hkey
    have hplain : ∀ c ∈ key, IsPlain '"' c :=
      fun c hc => ⟨(hkey c hc).1.1, (hkey c hc).1.2, (hkey c hc).2⟩
    have hopen : Lexes .normal "[\"".toList [.sym '['] (.string '"' []) := by decide
    have hclose : Lexes (.string '"' (utf8Bytes key)) "\"]".toList
        [.string (utf8Bytes key), .sym ']'] .normal := by
      simp [lexes_cons, lexStep, lexString, lexNormal, isSpace, isNameChar]
    have hequals : Lexes .normal " = ".toList [.sym '='] .normal := by decide
    refine ⟨?_, hne, by simp⟩
    have hall := ((hopen.append (lexes_string_plains hplain)).append hclose).append hequals
    simpa [keyTokens] using hall

/-- The indentation of the end of a table. -/
theorem lexes_indent {comma : Bool} (hend : reTableEnd line = true)
    (h : LineReads F.round line (.closes comma)) :
    Lexes .normal (line.takeWhile isWhitespace) [] .normal := by
  obtain ⟨ts, hlex, rfl⟩ := h
  have htake : (line ++ ['\n']).takeWhile isWhitespace = line.takeWhile isWhitespace := by
    rw [List.takeWhile_append, if_neg]
    intro hlength
    have hnil : line.dropWhile isWhitespace = [] := by
      have hsum := congrArg List.length
        (List.takeWhile_append_dropWhile (p := isWhitespace) (l := line))
      rw [List.length_append, hlength] at hsum
      exact List.length_eq_zero_iff.mp (by omega)
    simp [reTableEnd, hnil] at hend
  have hindent := hlex.takeWhile_isWhitespace (by decide)
  rwa [htake] at hindent

/-- The rows for the names directly inside a table, as text. -/
theorem reads_toInsert {updates : List (List Char × List Char)} {pending : Pending}
    (h : List.Forall₂ (Means F) updates pending) {path : List (List Char)} {ready : Bool}
    (hrows : (newRows C (joinPath path) pending).all (canInsert C ready))
    (hindent : Lexes .normal (line.takeWhile isWhitespace) [] .normal) :
    List.Forall₂ (LineReads F.round) (toInsert C path updates line)
      (newRows C (joinPath path) pending) := by
  induction h with
  | nil => exact .nil
  | @cons u w updates pending hmeans _ ih =>
    obtain ⟨name, text⟩ := u
    obtain ⟨name', w⟩ := w
    obtain ⟨rfl, hmeans⟩ := hmeans
    cases w with
    | none =>
      obtain rfl : text = deleteMark := hmeans
      simpa [toInsert, newRows] using ih hrows
    | some v =>
      obtain ⟨hmark, hw, -⟩ := hmeans
      cases hkey : localKey (joinPath path) name with
      | none =>
        simp only [newRows, List.filterMap_cons, Option.bind_some, hkey, Option.map_none] at hrows
        simpa [toInsert, newRows, hkey, hmark] using ih hrows
      | some key =>
        simp only [newRows, List.filterMap_cons, Option.bind_some, hkey, Option.map_some,
          List.all_cons, Bool.and_eq_true] at hrows
        have hnew : isNewKey C key := by
          have hcan := hrows.1
          simp only [canInsert, Bool.and_eq_true] at hcan
          exact hcan.2
        have hrow := reads_newRow hnew hindent hw
        simpa [toInsert, newRows, hkey, hmark] using List.Forall₂.cons hrow (ih hrows.2)

theorem textReads_joinLines {ls : List (List Char)} {rows : List Row}
    (h : List.Forall₂ (LineReads F.round) ls rows) (hne : ls ≠ []) :
    TextReads F.round (joinLines ls) rows := by
  induction h with
  | nil => exact absurd rfl hne
  | @cons l row ls rows hrow hrows ih =>
    by_cases hls : ls = []
    · subst hls
      cases hrows
      simpa [joinLines] using textReads_line hrow
    · have hjoin : joinLines (l :: ls) = l ++ '\n' :: joinLines ls := by
        rw [joinLines, List.intercalate_cons_of_ne_nil hls]
        simp [joinLines]
      rw [hjoin]
      exact (textReads_line hrow).append (ih hls)

/-! ## 4. The edit of a line -/

/-- The edit of the lines and the edit of the rows have the same left to do. -/
structure SameEdit (F : NumberFormat) (s : EditState) (t : RowEdit) : Prop where
  path : s.path = t.path
  updates : List.Forall₂ (Means F) s.updates t.pending

theorem lookup_means {updates : List (List Char × List Char)} {pending : Pending}
    (h : List.Forall₂ (Means F) updates pending) (name : List Char) :
    (updates.lookup name = none ∧ pending.lookup name = none) ∨
      ∃ text w, updates.lookup name = some text ∧ pending.lookup name = some w ∧
        Means F (name, text) (name, w) := by
  induction h with
  | nil => exact .inl ⟨rfl, rfl⟩
  | @cons u w updates pending hmeans _ ih =>
    obtain ⟨name₁, text⟩ := u
    obtain ⟨name₂, w⟩ := w
    obtain ⟨rfl, hmeans⟩ := hmeans
    cases hbeq : name == name₁ with
    | true =>
      obtain rfl := eq_of_beq hbeq
      exact .inr ⟨text, w, by simp, by simp, rfl, hmeans⟩
    | false => simpa [List.lookup_cons, hbeq] using ih

theorem filter_means {updates : List (List Char × List Char)} {pending : Pending}
    (h : List.Forall₂ (Means F) updates pending) (name : List Char) :
    List.Forall₂ (Means F) (updates.filter (·.1 ≠ name)) (pending.filter (·.1 ≠ name)) := by
  induction h with
  | nil => exact .nil
  | @cons u w updates pending hmeans _ ih =>
    obtain ⟨name₁, text⟩ := u
    obtain ⟨name₂, w⟩ := w
    obtain ⟨rfl, hmeans⟩ := hmeans
    by_cases hname : name₁ = name
    · simpa [hname] using ih
    · have hcons : List.Forall₂ (Means F) ((name₁, text) :: updates.filter (·.1 ≠ name))
          ((name₁, w) :: pending.filter (·.1 ≠ name)) := .cons ⟨rfl, hmeans⟩ ih
      simpa [hname] using hcons

/-- **The edit of a line is the edit of its row.** -/
theorem editLine_reads {s : EditState} {t : RowEdit} {ready : Bool} (h : SameEdit F s t)
    (hline : IsLine F C line row)
    (hkeeps : ∀ key bracketed v comma rest, row = .assign key bracketed v comma →
      reAssignment C line = some (key, rest) →
      (∃ w, (joinPath (t.path ++ [key]), some w) ∈ t.pending) → KeepsSeparator rest comma)
    (hinserts : ∀ comma, row = .closes comma →
      (newRows C (joinPath t.path) t.pending).all (canInsert C ready)) :
    SameEdit F (editLine C s line).1 (editRow C t row).1 ∧
      TextReads F.round (editLine C s line).2 (editRow C t row).2 := by
  obtain ⟨hpath, hupdates⟩ := h
  cases hline with
  | quiet hend hassign hlex =>
    have hstart : reTableStart C line = none := by simp [reTableStart, hassign]
    simp only [editLine, hend, hstart, hassign, editRow, Bool.false_eq_true, if_false]
    exact ⟨⟨hpath, hupdates⟩, textReads_line ⟨[], hlex, rfl⟩⟩
  | opens hend hstart hreads =>
    simp only [editLine, hend, hstart, editRow, Bool.false_eq_true, if_false]
    exact ⟨⟨by rw [hpath], hupdates⟩, textReads_line hreads⟩
  | @assign pre rest key bracketed comma vs v hend hstart hassign hkey hpre hrest hv =>
    have hsame : LineReads F.round (pre ++ rest) (.assign key bracketed v comma) :=
      (IsLine.assign hend hstart hassign hkey hpre hrest hv : IsLine F C _ _).reads
    simp only [editLine, hend, hstart, hassign, hpath, editRow, Bool.false_eq_true, if_false]
    rcases lookup_means hupdates (joinPath (t.path ++ [key])) with
      ⟨h1, h2⟩ | ⟨text, w, h1, h2, -, hmeans⟩
    · simp only [h1, h2]
      exact ⟨⟨hpath, hupdates⟩, textReads_line hsame⟩
    · simp only [h1, h2]
      refine ⟨⟨rfl, filter_means hupdates _⟩, ?_⟩
      cases w with
      | none =>
        obtain rfl : text = deleteMark := hmeans
        rw [if_pos rfl]
        exact textReads_line ⟨[], by decide, rfl⟩
      | some w =>
        obtain ⟨hmark, hw, hends⟩ := hmeans
        have hkeep : KeepsSeparator rest comma :=
          hkeeps key bracketed v comma rest rfl hassign ⟨w, mem_of_lookup h2⟩
        rw [if_neg hmark]
        exact textReads_line (reads_rewriteLine hkey hpre hkeep hw hends)
  | @closes _ comma hend hreads =>
    simp only [editLine, hend, hpath, editRow, if_true]
    refine ⟨⟨rfl, hupdates⟩, ?_⟩
    by_cases hne : t.path = []
    · simpa [hne] using textReads_line hreads
    · have hrows := reads_toInsert hupdates (hinserts comma rfl) (lexes_indent hend hreads)
      simp only [if_neg hne]
      by_cases hnew : toInsert C t.path s.updates line = []
      · rw [hnew] at hrows
        cases hrows' : newRows C (joinPath t.path) t.pending with
        | nil => simpa [hnew] using textReads_line hreads
        | cons row rows =>
          rw [hrows'] at hrows
          cases hrows
      · rw [if_neg hnew]
        exact (textReads_joinLines hrows hnew).append (textReads_line hreads)

end

end DcsDashboard.Foothold
