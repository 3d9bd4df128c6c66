/-
# Reader and writer of `server.cfg` over the same rows

`get_settings` and `post_settings` are two parsers of one format.  They agree on what a trimmed
line is: a section, an entry of a key and a text, or neither (`rowOf`).  The reader is then a fold
over the ROWS of the content (`getSettings_eq_fold`), and the rows of the content that the writer
leaves are those of the old content with each posted entry replaced by the rows of the line
printed for it (`rows_postSettings`).

That line is one entry of the same key again exactly when the printed value `Fits` the line.
-/
import DcsDashboard.Srs.ServerCfg
import DcsDashboard.Lib.TextLines

namespace DcsDashboard.Srs

open Lib

/-! ## 1. The rows of a content -/

/-- What a trimmed line is to both parsers. -/
inductive Row
  | heading (name : List Char)
  | entry (key text : List Char)
  | other

def rowOf (line : List Char) : Row :=
  if isSkipped line then .other
  else if isSection line then .heading (sectionName line)
  else
    match splitOnce '=' line with
    | some (k, v) => .entry (trim k) (trim v)
    | none => .other

/-- The rows of the lines that are not blank. -/
def rows (content : List Char) : List Row := (contentLines content).map rowOf

/-- The section after a row. -/
def Row.nextSection (name : List Char) : Row → List Char
  | .heading new => new
  | _ => name

/-- An entry of the file, with the section it stands in. -/
structure Entry where
  heading : List Char
  key : List Char
  text : List Char
  deriving DecidableEq

/-- The entry of a row in a section, if it is one. -/
def Row.entries (name : List Char) : Row → List Entry
  | .entry key text => [⟨name, key, text⟩]
  | _ => []

/-- The entries of rows that start in a section. -/
def entriesFrom : List Char → List Row → List Entry
  | _, [] => []
  | name, r :: rs => r.entries name ++ entriesFrom (r.nextSection name) rs

/-- The entries of the file, in order. -/
def entries (content : List Char) : List Entry := entriesFrom defaultSection (rows content)

/-- A line in brackets is no comment: the two orders of the checks agree. -/
theorem isSkipped_of_isSection {line : List Char} (h : isSection line = true) :
    isSkipped line = false := by
  have hhead : line.head? = some '[' := by
    simp only [isSection, Bool.and_eq_true, decide_eq_true_eq] at h
    exact h.1
  have hne : line ≠ [] := by
    rintro rfl
    cases hhead
  simp [isSkipped, hhead, hne]

/-! ## 2. Keys and texts -/

/-- What a key is that stands before the first `=` of a trimmed line that is not skipped. -/
structure IsKey (key : List Char) : Prop where
  trimmed : trim key = key
  lineFeed : '\n' ∉ key
  equals : '=' ∉ key
  semicolon : key.head? ≠ some ';'
  hash : key.head? ≠ some '#'

/-- What key and text of an entry are. -/
structure IsEntry (key text : List Char) : Prop extends IsKey key where
  text_trimmed : trim text = text
  text_lineFeed : '\n' ∉ text
  noSection : ¬(key.head? = some '[' ∧ text.getLast? = some ']')

/-- What a line is that is an entry. -/
theorem entry_cases {line key text : List Char} (h : rowOf line = .entry key text) :
    ¬isSkipped line ∧ ¬isSection line ∧
      ∃ k v, line = k ++ '=' :: v ∧ '=' ∉ k ∧ key = trim k ∧ text = trim v := by
  unfold rowOf at h
  split at h
  · cases h
  next hskipped =>
  split at h
  · cases h
  next hsection =>
  cases hsplit : splitOnce '=' line with
  | none => simp [hsplit] at h
  | some parts =>
    obtain ⟨k, v⟩ := parts
    obtain ⟨rfl, rfl⟩ : trim k = key ∧ trim v = text := by simpa [hsplit] using h
    obtain ⟨hline, hequals⟩ := eq_append_of_splitOnce hsplit
    exact ⟨hskipped, hsection, k, v, hline, hequals, rfl, rfl⟩

theorem isEntry_of_rowOf {line key text : List Char} (hfeed : '\n' ∉ line)
    (htrim : trim line = line) (h : rowOf line = .entry key text) : IsEntry key text := by
  obtain ⟨hskipped, hsection, k, v, hline, hequals, rfl, rfl⟩ := entry_cases h
  have hhead : ∀ c, k.head? = some c → isWhitespace c = false := by
    intro c hc
    refine isWhitespace_head_trim (s := line) ?_
    rw [htrim, hline, List.head?_append, hc, Option.some_or]
  have hlast : ∀ c, v.getLast? = some c → isWhitespace c = false := by
    intro c hc
    refine isWhitespace_last_trim (s := line) ?_
    rw [htrim, hline, List.getLast?_append, List.getLast?_cons, hc]
    rfl
  -- a first character of the key is the first of the line
  have hfirst : ∀ c, (trim k).head? = some c → line.head? = some c := by
    intro c hc
    cases hk : k.head? with
    | none =>
      have hnil : k = [] := List.head?_eq_none_iff.mp hk
      simp [hnil, trim] at hc
    | some d =>
      rw [head?_trim hk (hhead d hk)] at hc
      rw [hline, List.head?_append, hk, ← hc, Option.some_or]
  have hfinal : ∀ c, (trim v).getLast? = some c → line.getLast? = some c := by
    intro c hc
    cases hv : v.getLast? with
    | none =>
      have hnil : v = [] := List.getLast?_eq_none_iff.mp hv
      simp [hnil, trim] at hc
    | some d =>
      rw [getLast?_trim hv (hlast d hv)] at hc
      rw [hline, List.getLast?_append, List.getLast?_cons, hv, ← hc]
      rfl
  exact {
    trimmed := trim_trim k
    lineFeed := fun hmem => hfeed (by simp [hline, mem_of_mem_trim hmem])
    equals := fun hmem => hequals (mem_of_mem_trim hmem)
    semicolon := fun hc => hskipped (by simp [isSkipped, hfirst _ hc])
    hash := fun hc => hskipped (by simp [isSkipped, hfirst _ hc])
    text_trimmed := trim_trim v
    text_lineFeed := fun hmem => hfeed (by simp [hline, mem_of_mem_trim hmem])
    noSection := fun hc => hsection (by simp [isSection, hfirst _ hc.1, hfinal _ hc.2]) }

/-- The entries among rows are such entries. -/
def Proper (rs : List Row) : Prop := ∀ key text, Row.entry key text ∈ rs → IsEntry key text

theorem Proper.isEntry {key text : List Char} {rs : List Row}
    (h : Proper (.entry key text :: rs)) : IsEntry key text :=
  h key text List.mem_cons_self

theorem Proper.head {r : Row} {rs : List Row} (h : Proper (r :: rs)) : Proper [r] :=
  fun key text hmem => h key text (List.mem_cons.mpr (.inl (List.mem_singleton.mp hmem)))

theorem Proper.tail {r : Row} {rs : List Row} (h : Proper (r :: rs)) : Proper rs :=
  fun key text hmem => h key text (List.mem_cons_of_mem _ hmem)

theorem proper_rows (content : List Char) : Proper (rows content) := by
  intro key text h
  obtain ⟨line, hline, hrow⟩ := List.mem_map.mp h
  obtain ⟨hfeed, htrim, -⟩ := mem_contentLines hline
  exact isEntry_of_rowOf hfeed htrim hrow

theorem isEntry_of_mem_entriesFrom {name : List Char} {rs : List Row} (hrs : Proper rs) {e : Entry}
    (h : e ∈ entriesFrom name rs) : IsEntry e.key e.text := by
  induction rs generalizing name with
  | nil => cases h
  | cons r rs ih =>
    rcases List.mem_append.mp h with hr | hrest
    · cases r with
      | heading new => cases hr
      | other => cases hr
      | entry key text =>
        rw [List.mem_singleton.mp hr]
        exact hrs.isEntry
    · exact ih hrs.tail hrest

/-- **What the entries of a file are.** -/
theorem isEntry_of_mem_entries {content : List Char} {e : Entry} (h : e ∈ entries content) :
    IsEntry e.key e.text :=
  isEntry_of_mem_entriesFrom (proper_rows content) h

/-- The printed text keeps to the line of the key, and does not make a section of it. -/
def Fits (key text : List Char) : Prop :=
  '\n' ∉ trimEnd text ∧ ¬(key.head? = some '[' ∧ (trimEnd text).getLast? = some ']')

theorem IsKey.head_not_blank {key : List Char} (hk : IsKey key) {c : Char}
    (h : key.head? = some c) : isWhitespace c = false :=
  isWhitespace_head_trim (s := key) (by rw [hk.trimmed, h])

/-- A line of a key and a text with no white space behind it is trimmed. -/
theorem IsKey.trim_line {key text : List Char} (hk : IsKey key) (htext : trimEnd text = text) :
    trim (key ++ '=' :: text) = key ++ '=' :: text := by
  refine trim_eq_self ?_ ?_
  · intro c hc
    rw [List.head?_append] at hc
    cases hhead : key.head? with
    | none =>
      rw [hhead, Option.none_or, List.head?_cons, Option.some.injEq] at hc
      rw [← hc]
      decide
    | some d =>
      rw [hhead, Option.some_or, Option.some.injEq] at hc
      exact hc ▸ hk.head_not_blank hhead
  · intro c hc
    rw [List.getLast?_append, List.getLast?_cons, Option.some_or, Option.some.injEq] at hc
    cases hlast : text.getLast? with
    | none =>
      rw [hlast, Option.getD_none] at hc
      rw [← hc]
      decide
    | some d =>
      rw [hlast, Option.getD_some] at hc
      obtain ⟨front, hfront⟩ := List.getLast?_eq_some_iff.mp hlast
      by_contra hblank
      have hd : isWhitespace d = true := by simpa [hc] using hblank
      have hshort : trimEnd text = trimEnd front := by
        rw [hfront]
        exact trimEnd_append_blank front (by simp [Blank, hd])
      have hlen := exists_trimEnd_append front
      obtain ⟨back, hback, -⟩ := hlen
      have hlt : text.length ≤ front.length := by
        rw [← htext, hshort]
        conv_rhs => rw [hback]
        simp
      rw [hfront, List.length_append, List.length_singleton] at hlt
      omega

/-- The row of a printed line: an entry of the key, unless the line is one in brackets. -/
theorem IsKey.rowOf_line {key text : List Char} (hk : IsKey key)
    (hno : ¬(key.head? = some '[' ∧ text.getLast? = some ']')) :
    rowOf (key ++ '=' :: text) = .entry key (trim text) := by
  have hhead : ∀ c, c ≠ '=' → (key ++ '=' :: text).head? = some c → key.head? = some c := by
    intro c hc h
    rw [List.head?_append] at h
    cases hkey : key.head? with
    | none =>
      rw [hkey, Option.none_or, List.head?_cons, Option.some.injEq] at h
      exact absurd h.symm hc
    | some d => rwa [hkey, Option.some_or] at h
  have hskipped : isSkipped (key ++ '=' :: text) = false := by
    have hne : key ++ '=' :: text ≠ [] := by simp
    simp only [isSkipped, hne, decide_false, Bool.false_or, Bool.or_eq_false_iff,
      decide_eq_false_iff_not]
    exact ⟨fun h => hk.semicolon (hhead _ (by decide) h), fun h => hk.hash (hhead _ (by decide) h)⟩
  have hsection : isSection (key ++ '=' :: text) = false := by
    rw [isSection, Bool.and_eq_false_iff, decide_eq_false_iff_not, decide_eq_false_iff_not]
    by_contra hboth
    push Not at hboth
    obtain ⟨hfirst, hlast⟩ := hboth
    refine hno ⟨hhead _ (by decide) hfirst, ?_⟩
    rw [List.getLast?_append, List.getLast?_cons, Option.some_or, Option.some.injEq] at hlast
    cases htext : text.getLast? with
    | none => simp [htext] at hlast
    | some d => rw [htext, Option.getD_some] at hlast; rw [hlast]
  unfold rowOf
  rw [hskipped, hsection, splitOnce_append hk.equals]
  simp [hk.trimmed]

theorem rows_append_blank (s : List Char) {w : List Char} (hw : Blank w) :
    rows (s ++ w) = rows s := by
  rw [rows, rows, contentLines_append_blank s hw]

theorem rows_trimEnd (key text : List Char) :
    rows (key ++ '=' :: text) = rows (key ++ '=' :: trimEnd text) := by
  obtain ⟨back, hback, hblank⟩ := exists_trimEnd_append text
  have hline : key ++ '=' :: text = (key ++ '=' :: trimEnd text) ++ back := by
    rw [List.append_assoc, List.cons_append, ← hback]
  rw [hline, rows_append_blank _ hblank]

/-- The row of a trimmed line. -/
theorem rows_line {line : List Char} (hfeed : '\n' ∉ line) (htrim : trim line = line)
    (hne : line ≠ []) : rows line = [rowOf line] := by
  rw [rows, contentLines_of_notMem hfeed, htrim, List.filter_cons_of_pos (by simp [hne])]
  rfl

/-- **A printed value that fits is an entry of its key again.** -/
theorem IsKey.rows_of_fits {key text : List Char} (hk : IsKey key) (h : Fits key text) :
    rows (key ++ '=' :: text) = [.entry key (trim text)] := by
  have htrim : trim (trimEnd text) = trim text := by
    obtain ⟨back, hback, hblank⟩ := exists_trimEnd_append text
    conv_rhs => rw [hback]
    exact (trim_append_blank _ hblank).symm
  rw [rows_trimEnd, rows_line (by simp [hk.lineFeed, h.1])
    (hk.trim_line (trimEnd_trimEnd text)) (by simp), hk.rowOf_line h.2, htrim]

/-- **A line feed before the value** leaves the key empty, and makes a line of the value. -/
theorem IsKey.rows_of_broken {key text : List Char} (hk : IsKey key)
    (hbroken : '\n' ∈ trimEnd text) (hline : '\n' ∉ trim text) :
    trim text ≠ [] ∧ rows (key ++ '=' :: text) = [.entry key [], rowOf (trim text)] := by
  obtain ⟨front, hfront, hblank, hnil⟩ := exists_trimEnd_eq text
  have hmem : '\n' ∈ front := by
    rw [hfront] at hbroken
    exact (List.mem_append.mp hbroken).resolve_right hline
  have hne : trim text ≠ [] := by
    intro h
    simp [hnil h] at hmem
  obtain ⟨before, after, rfl, -⟩ := List.eq_append_cons_of_mem hmem
  have hbefore : Blank before := fun c hc => hblank c (by simp [hc])
  have hafter : Blank after := fun c hc => hblank c (by simp [hc])
  have hsplit : key ++ '=' :: trimEnd text =
      (key ++ ['=']) ++ before ++ '\n' :: (after ++ trim text) := by simp [hfront]
  have hkey : contentLines (key ++ ['=']) = [key ++ ['=']] := by
    rw [contentLines_of_notMem (by simp [hk.lineFeed]), hk.trim_line (by rfl),
      List.filter_cons_of_pos (by simp)]
    rfl
  have hvalue : contentLines (trim text) = [trim text] := by
    rw [contentLines_of_notMem hline, trim_trim, List.filter_cons_of_pos (by simp [hne])]
    rfl
  refine ⟨hne, ?_⟩
  rw [rows_trimEnd, hsplit, rows, contentLines_append_lineFeed,
    contentLines_append_blank _ hbefore, contentLines_blank_append hafter, hkey, hvalue]
  have hrow : rowOf (key ++ ['=']) = .entry key [] := hk.rowOf_line (by simp)
  simp [hrow]

/-! ## 3. The reader over rows -/

section

variable {N : Type*} (T : NumberTexts N)

/-- What a row does to the section and the object. -/
def applyRow (state : List Char × Settings N) : Row → List Char × Settings N
  | .heading name => (name, state.2.addSection name)
  | .entry key text => (state.1, state.2.insert state.1 key (typed T text))
  | .other => state

theorem applyRow_fst (state : List Char × Settings N) (r : Row) :
    (applyRow T state r).1 = r.nextSection state.1 := by
  cases r <;> rfl

theorem readLine_eq_applyRow (state : List Char × Settings N) (line : List Char) :
    readLine T state line = applyRow T state (rowOf (trim line)) := by
  unfold readLine rowOf
  dsimp only
  split
  · rfl
  · split
    · rfl
    · cases splitOnce '=' (trim line) <;> rfl

/-- **The reader is a fold over the rows.** -/
theorem getSettings_eq_fold (content : List Char) :
    getSettings T content =
      ((rows content).foldl (applyRow T) (defaultSection, fun _ => none)).2 := by
  have hfold : ∀ (ls : List (List Char)) (state : List Char × Settings N),
      ls.foldl (readLine T) state =
        (((ls.map trim).filter (· ≠ [])).map rowOf).foldl (applyRow T) state := by
    intro ls
    induction ls with
    | nil => exact fun _ => rfl
    | cons l ls ih =>
      intro state
      rw [List.foldl_cons, ih, readLine_eq_applyRow, List.map_cons]
      by_cases hl : trim l = []
      · rw [List.filter_cons_of_neg (by simp [hl]), hl]
        rfl
      · rw [List.filter_cons_of_pos (by simp [hl]), List.map_cons, List.foldl_cons]
  rw [getSettings, hfold, contentLines_eq_lines, rows]

/-! ## 4. The writer over rows -/

/-- The rows that the writer leaves of a row. -/
def rewriteRow (updates : Settings N) (name : List Char) : Row → List Row
  | .entry key text =>
    match updates.value name key with
    | some value => rows (key ++ '=' :: printValue T value)
    | none => [.entry key text]
  | r => [r]

theorem rewriteRow_none {updates : Settings N} {name key : List Char}
    (h : updates.value name key = none) (text : List Char) :
    rewriteRow T updates name (.entry key text) = [.entry key text] := by
  simp [rewriteRow, h]

theorem rewriteRow_some {updates : Settings N} {name key : List Char} {v : CfgValue N}
    (h : updates.value name key = some v) (text : List Char) :
    rewriteRow T updates name (.entry key text) = rows (key ++ '=' :: printValue T v) := by
  simp [rewriteRow, h]

/-- The rows that the writer leaves of rows that start in a section. -/
def rewriteRows (updates : Settings N) : List Char → List Row → List Row
  | _, [] => []
  | name, r :: rs => rewriteRow T updates name r ++ rewriteRows updates (r.nextSection name) rs

/-- The line written for a line. -/
def writtenLine (updates : Settings N) (name line : List Char) : List Char :=
  match rowOf (trim line) with
  | .entry key _ =>
    match updates.value name key with
    | some value => key ++ '=' :: printValue T value
    | none => line
  | _ => line

theorem writeLine_eq (updates : Settings N) (state : List Char × List (List Char))
    (line : List Char) :
    writeLine T updates state line =
      ((rowOf (trim line)).nextSection state.1,
        state.2 ++ [writtenLine T updates state.1 line]) := by
  unfold writeLine writtenLine rowOf
  dsimp only
  by_cases hsection : isSection (trim line) = true
  · rw [isSkipped_of_isSection hsection, hsection]
    rfl
  · by_cases hskipped : isSkipped (trim line) = true
    · simp only [hsection, hskipped]
      rfl
    · rw [if_neg hsection, if_neg hskipped, if_neg hskipped, if_neg hsection]
      cases splitOnce '=' (trim line) with
      | none => rfl
      | some parts =>
        dsimp only [Row.nextSection]
        cases updates.value state.1 (trim parts.1) <;> rfl

/-- The row of a line that is no line feed wide. -/
theorem rows_of_notMem {line : List Char} (h : '\n' ∉ line) :
    rows line = ([trim line].filter (· ≠ [])).map rowOf := by
  rw [rows, contentLines_of_notMem h]

theorem rows_writtenLine (updates : Settings N) (name : List Char) {line : List Char}
    (h : '\n' ∉ line) (hne : trim line ≠ []) :
    rows (writtenLine T updates name line) = rewriteRow T updates name (rowOf (trim line)) := by
  have hrows : rows line = [rowOf (trim line)] := by simp [rows_of_notMem h, hne]
  unfold writtenLine rewriteRow
  cases hrow : rowOf (trim line) with
  | heading new => rw [hrows, hrow]
  | other => rw [hrows, hrow]
  | entry key text =>
    dsimp only
    cases updates.value name key with
    | none => rw [hrows, hrow]
    | some value => rfl

theorem writtenLine_of_blank (updates : Settings N) (name : List Char) {line : List Char}
    (h : trim line = []) : writtenLine T updates name line = line := by
  rw [writtenLine, h]
  rfl

/-- **The rows of the content that is written.** -/
theorem rows_postSettings (updates : Settings N) (content : List Char) :
    rows (postSettings T updates content) =
      rewriteRows T updates defaultSection (rows content) := by
  have hfold : ∀ (ls : List (List Char)) (state : List Char × List (List Char)),
      (∀ l ∈ ls, '\n' ∉ l) →
      ((ls.foldl (writeLine T updates) state).2.flatMap rows) = state.2.flatMap rows ++
        rewriteRows T updates state.1 (((ls.map trim).filter (· ≠ [])).map rowOf) := by
    intro ls
    induction ls with
    | nil => simp [rewriteRows]
    | cons l ls ih =>
      intro state hls
      have hl : '\n' ∉ l := hls l (by simp)
      rw [List.foldl_cons, ih _ fun m hm => hls m (by simp [hm]), writeLine_eq,
        List.flatMap_append, List.flatMap_singleton, List.append_assoc, List.map_cons]
      by_cases hblank : trim l = []
      · rw [List.filter_cons_of_neg (by simp [hblank]), writtenLine_of_blank T updates _ hblank,
          rows_of_notMem hl, hblank]
        rfl
      · rw [List.filter_cons_of_pos (by simp [hblank]), List.map_cons, rewriteRows,
          rows_writtenLine T updates _ hl hblank]
  have hlines : ∀ l ∈ lines content, '\n' ∉ l := fun l hl => lineFeed_notMem_of_mem_lines hl
  have hjoin : ∀ ls : List (List Char),
      rows (['\r', '\n'].intercalate ls) = ls.flatMap rows := by
    intro ls
    rw [rows, contentLines_intercalate, List.map_flatMap]
    rfl
  rw [postSettings, hjoin, hfold _ _ hlines, contentLines_eq_lines, rows]
  rfl

end

end DcsDashboard.Srs
