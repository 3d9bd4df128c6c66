/-
# What the encoders write is read back

One theorem for each encoder of the settings writer: Lua reads its text as the value it stands
for.  A quoted top-level string reads back with its line ends normalized, provided a carriage
return stands only before a line feed.  The encoder of mission names escapes backslashes only,
so a name must not contain a quote or a line end (`IsQuotable`).
-/
import DcsDashboard.Settings.Reading
import DcsDashboard.Settings.Writing

namespace DcsDashboard.Settings

open Lib Lua

/-! ## 1. Strings -/

/-- Every carriage return stands before a line feed. -/
def crlfOnly : List Char → Bool
  | '\r' :: '\n' :: s => crlfOnly s
  | c :: s => c ≠ '\r' && crlfOnly s
  | [] => true

/-- What `escape_lua_string` makes of a character other than a carriage return. -/
def escapedChar (c : Char) : List Char :=
  if c = '\\' then ['\\', '\\']
  else if c = '"' then ['\\', '"']
  else if c = '\n' then ['\\', '\r', '\n']
  else [c]

theorem replaceCrlf_cons {c : Char} (hc : c ≠ '\r') (s : List Char) :
    replaceCrlf (c :: s) = c :: replaceCrlf s := by
  rw [replaceCrlf]
  rintro s' rfl
  exact absurd rfl hc

theorem escapeLuaString_cons {c : Char} (hc : c ≠ '\r') (s : List Char) :
    escapeLuaString (c :: s) = escapedChar c ++ escapeLuaString s := by
  by_cases hb : c = '\\'
  · subst hb
    simp [escapeLuaString, doubleBackslashes, escapedChar, replaceCrlf_cons]
  · by_cases hq : c = '"'
    · subst hq
      simp [escapeLuaString, doubleBackslashes, escapedChar, replaceCrlf_cons]
    · by_cases hn : c = '\n'
      · subst hn
        simp [escapeLuaString, doubleBackslashes, escapedChar, replaceCrlf_cons]
      · simp [escapeLuaString, doubleBackslashes, escapedChar, replaceCrlf_cons hc, hb, hq, hn]

theorem escapeLuaString_crlf (s : List Char) :
    escapeLuaString ('\r' :: '\n' :: s) = escapedChar '\n' ++ escapeLuaString s := by
  simp [escapeLuaString, doubleBackslashes, escapedChar, replaceCrlf]

/-- An escaped character is read as its bytes. -/
theorem lexes_escapedChar {c : Char} (hc : c ≠ '\r') (bytes : List UInt8) :
    Lexes (.string '"' bytes) (escapedChar c) [] (.string '"' (bytes ++ utf8 c)) := by
  by_cases hb : c = '\\'
  · subst hb
    simp [escapedChar, lexes_cons, lexStep, lexString, lexEscape, isNewline]
  · by_cases hq : c = '"'
    · subst hq
      simp [escapedChar, lexes_cons, lexStep, lexString, lexEscape, isNewline]
    · by_cases hn : c = '\n'
      · -- a backslash, and a line end of two characters
        subst hn
        simp [escapedChar, lexes_cons, lexStep, lexString, lexEscape, isNewline, utf8,
          String.utf8EncodeChar]
      · simp [escapedChar, lexes_cons, lexStep, lexString, isNewline, hb, hq, hn, hc]

/-- **A quoted string reads back with its line ends normalized.** -/
theorem lexes_escapeLuaString {s : List Char} (h : crlfOnly s) (bytes : List UInt8) :
    Lexes (.string '"' bytes) (escapeLuaString s) []
      (.string '"' (bytes ++ utf8Bytes (replaceCrlf s))) := by
  induction s using crlfOnly.induct generalizing bytes with
  | case1 s ih =>
    have hs := (lexes_escapedChar (c := '\n') (by decide) bytes).append (ih h _)
    rw [escapeLuaString_crlf, replaceCrlf]
    simpa [utf8Bytes] using hs
  | case2 c s hcrlf ih =>
    rw [crlfOnly, Bool.and_eq_true, decide_eq_true_eq] at h
    · obtain ⟨hc, hs⟩ := h
      have hs' := (lexes_escapedChar hc bytes).append (ih hs _)
      rw [escapeLuaString_cons hc, replaceCrlf_cons hc]
      simpa [utf8Bytes] using hs'
    · exact hcrlf
  | case3 => simp [escapeLuaString, doubleBackslashes, replaceCrlf, utf8Bytes]

/-- **The literal is read whole.**  Between its quotes nothing ends it, and at the second quote it
is the string with its line ends normalized. -/
theorem literal_reads_whole {s : List Char} (h : crlfOnly s) :
    Lexes .normal (quoted (escapeLuaString s)) [.string (utf8Bytes (replaceCrlf s))] .normal ∧
      ∀ body rest, escapeLuaString s = body ++ rest → ∃ mode, Lexes .normal ('"' :: body) [] mode := by
  have hopen : lexStep .normal '"' = some ([], .string '"' []) := by decide
  have hbody : Lexes .normal ('"' :: escapeLuaString s) []
      (.string '"' (utf8Bytes (replaceCrlf s))) :=
    Lexes.skip hopen (by simpa using lexes_escapeLuaString h [])
  constructor
  · have hquote : Lexes (.string '"' (utf8Bytes (replaceCrlf s))) ['"']
        [.string (utf8Bytes (replaceCrlf s))] .normal := by
      simp [lexes_cons, lexStep, lexString]
    exact hbody.append hquote
  · intro body rest hsplit
    rw [hsplit, ← List.cons_append, lexes_append] at hbody
    obtain ⟨ts, mode, us, hfront, -, hnone⟩ := hbody
    obtain ⟨rfl, -⟩ := List.append_eq_nil_iff.mp hnone.symm
    exact ⟨mode, hfront⟩

/-- Backslashes before a quote, and before a line end of two characters. -/
theorem literal_reads_whole_backslashes :
    escapeLuaString "a\\\"\\\\\r\nb".toList = "a\\\\\\\"\\\\\\\\\\\r\nb".toList ∧
    Lexes .normal (quoted "a\\\\\\\"\\\\\\\\\\\r\nb".toList)
      [.string (utf8Bytes "a\\\"\\\\\nb".toList)] .normal :=
  have hcrlf : crlfOnly "a\\\"\\\\\r\nb".toList := by decide
  ⟨by decide, (literal_reads_whole hcrlf).1⟩

/-- A character that the encoder of mission names leaves intact. -/
def IsQuotable (name : List Char) : Prop := ∀ c ∈ name, c ≠ '"' ∧ isNewline c = false

instance (name : List Char) : Decidable (IsQuotable name) := List.decidableBAll _ name

/-- A mission name reads back. -/
theorem lexes_doubleBackslashes {name : List Char} (h : IsQuotable name) (bytes : List UInt8) :
    Lexes (.string '"' bytes) (doubleBackslashes name) []
      (.string '"' (bytes ++ utf8Bytes name)) := by
  induction name generalizing bytes with
  | nil => simp [doubleBackslashes, utf8Bytes]
  | cons c name ih =>
    obtain ⟨hquote, hnewline⟩ := h c (by simp)
    have hname := ih (fun d hd => h d (by simp [hd])) (bytes ++ utf8 c)
    have hc : Lexes (.string '"' bytes) (if c = '\\' then ['\\', '\\'] else [c]) []
        (.string '"' (bytes ++ utf8 c)) := by
      split
      · next hb =>
        subst hb
        simp [lexes_cons, lexStep, lexString, lexEscape, isNewline]
      · next hb => simp [lexes_cons, lexStep, lexString, hquote, hnewline, hb]
    have hall := hc.append hname
    simpa [doubleBackslashes, utf8Bytes] using hall

/-! ## 2. Values -/

section
variable {F : NumberFormat}

theorem written_escapeLuaString {s : List Char} (h : crlfOnly s) :
    Written F.round (quoted (escapeLuaString s)) (.string (utf8Bytes (replaceCrlf s))) :=
  written_quoted (by simpa using lexes_escapeLuaString h [])

theorem written_missionName {name : List Char} (h : IsQuotable name) :
    Written F.round (quoted (doubleBackslashes name)) (.string (utf8Bytes name)) :=
  written_quoted (by simpa using lexes_doubleBackslashes h [])

theorem written_boolText (b : Bool) : Written F.round (boolText b) (.bool b) := written_bool b

/-- A double is written in full. -/
theorem written_jsNumberFormat (hF : F.Lawful) {n : ℚ} (hn : F.round n = .finite n) :
    Written F.round (jsNumberFormat F (.finite n)) (.number (.finite n)) := by
  rw [jsNumberFormat]
  split
  · next h =>
    obtain ⟨hden, habs⟩ := h
    have hnum : (n.num : ℚ) = n := Rat.den_eq_one_iff n |>.mp hden
    have hbound : n.num.natAbs ≤ 2 ^ 53 := by
      rw [← hnum] at habs
      have habs' : |n.num| < 10 ^ 15 := by exact_mod_cast habs
      rw [Int.abs_eq_natAbs] at habs'
      omega
    have hprinted := (printed_intText (hF.round_nat _ hbound)).written
    rwa [hnum] at hprinted
  · exact (hF.printed_display n hn).written

/-! ## 3. Lines -/

/-- A constructor in which every field so far has a key. -/
def keyed (es : Entries) : Frame := ⟨es, 0, []⟩

theorem keyed_set_string (es : Entries) (bytes : List UInt8) (v : Value) :
    (keyed es).beforeField.set (.string bytes) v = some (keyed (es.set (.string bytes) v)) := rfl

theorem Entries.set_fresh {es : Entries} {k : Key} {v : Value} (hk : k ∉ es.map Prod.fst)
    (hv : v ≠ .nil) : es.set k v = es ++ [(k, v)] := by
  have hfilter : es.filter (·.1 ≠ k) = es :=
    List.filter_eq_self.mpr fun e he => by
      simpa using fun h => hk (List.mem_map.mpr ⟨e, he, h⟩)
  unfold Lua.Entries.set
  split
  · exact absurd rfl hv
  · rw [hfilter]

/-- A plain identifier. -/
def isIdentifier (name : String) : Bool :=
  name.toList.all isNameChar && !(name.toList.headD '0').isDigit

theorem isPlain_of_isIdentifier {name : String} (h : isIdentifier name) :
    ∀ c ∈ name.toList, IsPlain '"' c := by
  have hall : ∀ c ∈ name.toList, isNameChar c :=
    List.all_eq_true.mp (Bool.and_eq_true_iff.mp h).1
  exact fun c hc => isPlain_of_isNameChar (hall c hc)

/-- A setting on a line of its own. -/
theorem extends_settingLine {indent name : String} {token : List Char} {v : Value} {es : Entries}
    (hindent : Lexes .normal indent.toList [] .normal) (hname : isIdentifier name)
    (hv : Written F.round token v) :
    Extends F.round (settingLine indent name token) (keyed es)
      (keyed (es.set (.string (utf8Bytes name.toList)) v)) := by
  have hfield := extends_field (isPlain_of_isIdentifier hname) hv (keyed_set_string es _ v)
  have hend : Extends F.round "\r\n".toList (keyed (es.set (.string (utf8Bytes name.toList)) v))
      (keyed (es.set (.string (utf8Bytes name.toList)) v)) := extends_blank (by decide)
  exact ((extends_blank hindent).append hfield).append hend

/-! ## 4. The list of missions -/

/-- The table with some strings as a sequence, the first at a given index. -/
def indexed : Nat → List String → Entries
  | _, [] => []
  | i, name :: names => (.index i, .string (utf8Bytes name.toList)) :: indexed (i + 1) names

theorem length_indexed (i : Nat) (names : List String) :
    (indexed i names).length = names.length := by
  induction names generalizing i with
  | nil => rfl
  | cons name names ih => simp [indexed, ih]

theorem get_indexed (i j : Nat) (names : List String) :
    Entries.get (indexed i names) (.index (i + j)) =
      ((names.map fun name => Value.string (utf8Bytes name.toList))[j]?).getD .nil := by
  induction names generalizing i j with
  | nil => rfl
  | cons name names ih =>
    cases j with
    | zero => simp [indexed, Entries.get]
    | succ j =>
      have hne : (Key.index (i + (j + 1)) == Key.index i) = false := by
        simpa [Key.index] using Nat.cast_add_one_ne_zero j
      have hi := ih (i + 1) j
      rw [show i + 1 + j = i + (j + 1) by omega] at hi
      simpa [indexed, Entries.get, List.lookup_cons, hne] using hi

/-- The table read as a sequence gives the strings. -/
theorem sequence_indexed (names : List String) :
    Entries.sequence (indexed 1 names) =
      names.map fun name => Value.string (utf8Bytes name.toList) :=
  Entries.sequenceFrom_eq (get_indexed 1 · names) (by simp) (by simp [length_indexed])

/-- One line appends one mission. -/
theorem extends_missionLine (hF : F.Lawful) {index : Nat} {name : String} {es : Entries}
    (hname : IsQuotable name.toList) (hindex : index + 1 ≤ 2 ^ 53)
    (hes : ∀ e ∈ es, ∃ j, e.1 = .index j ∧ j ≤ index) :
    Extends F.round (missionLine index name) (keyed es)
      (keyed (es ++ [(.index (index + 1), .string (utf8Bytes name.toList))])) := by
  have hfresh : Key.index (index + 1) ∉ es.map Prod.fst := by
    rintro hmem
    obtain ⟨e, he, heq⟩ := List.mem_map.mp hmem
    obtain ⟨j, hj, hle⟩ := hes e he
    have hcast : ((j : Nat) : ℚ) = ((index + 1 : Nat) : ℚ) := by
      simpa [Key.index] using hj.symm.trans heq
    have := Nat.cast_injective hcast
    omega
  have hset : (keyed es).beforeField.set (.number (F.round (index + 1 : Nat)))
      (.string (utf8Bytes name.toList)) =
        some (keyed (es ++ [(.index (index + 1), .string (utf8Bytes name.toList))])) := by
    rw [hF.round_nat _ hindex, ← Entries.set_fresh hfresh (by simp)]
    rfl
  have hfield := extends_index (written_missionName hname) hset
  exact ((extends_blank (by decide)).append hfield).append (extends_blank (by decide))

/-- The lines of a queue append its missions. -/
theorem extends_queueLines (hF : F.Lawful) {index : Nat} {names : List String} {es : Entries}
    (hnames : ∀ name ∈ names, IsQuotable name.toList) (hlen : index + names.length ≤ 2 ^ 53)
    (hes : ∀ e ∈ es, ∃ j, e.1 = .index j ∧ j ≤ index) :
    Extends F.round (queueLines index names) (keyed es)
      (keyed (es ++ indexed (index + 1) names)) := by
  induction names generalizing index es with
  | nil => simpa [queueLines, indexed] using extends_blank (lexes_nil.mpr ⟨rfl, rfl⟩)
  | cons name names ih =>
    have hline := extends_missionLine hF (hnames name (by simp))
      (by simp at hlen; omega) hes
    have hes' : ∀ e ∈ es ++ [(Key.index (index + 1), Value.string (utf8Bytes name.toList))],
        ∃ j, e.1 = .index j ∧ j ≤ index + 1 := by
      intro e he
      rcases List.mem_append.mp he with he | he
      · obtain ⟨j, hj, hle⟩ := hes e he
        exact ⟨j, hj, by omega⟩
      · obtain rfl := List.mem_singleton.mp he
        exact ⟨index + 1, rfl, le_rfl⟩
    have hrest := ih (fun n hn => hnames n (by simp [hn])) (by simp at hlen; omega) hes'
    have hall := hline.append hrest
    simpa [queueLines, indexed] using hall

/-- **The table of a mission queue reads back.** -/
theorem written_queue (hF : F.Lawful) {names : List String}
    (hnames : ∀ name ∈ names, IsQuotable name.toList) (hlen : names.length ≤ 2 ^ 53) :
    Written F.round ('{' :: ("\r\n".toList ++ queueLines 0 names ++ "\t".toList) ++ ['}'])
      (.table (indexed 1 names)) := by
  have hlines : Extends F.round (queueLines 0 names) (keyed []) (keyed ([] ++ indexed 1 names)) :=
    extends_queueLines hF hnames (by simpa using hlen) (by simp)
  exact written_table (f := keyed (indexed 1 names))
    (((extends_blank (by decide)).append hlines).append (extends_blank (by decide)))

theorem missionNames_strings (names : List String) :
    missionNames (names.map fun name => .string (utf8Bytes name.toList)) = .ok names := by
  induction names with
  | nil => rfl
  | cons name names ih => simp [missionNames, ih, Except.map]

theorem missionListFromLua_indexed (names : List String) :
    missionListFromLua (.table (indexed 1 names)) = .ok names := by
  rw [missionListFromLua, sequence_indexed, missionNames_strings]

end

end DcsDashboard.Settings
