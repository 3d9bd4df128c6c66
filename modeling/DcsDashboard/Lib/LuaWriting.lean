/-
# Writing what Lua reads back

A program that writes a data file puts values between fixed pieces of text.  `Written text v`
says that such a text is read as the value `v`; a comma follows it in the file, since only the
next character ends a numeral or a name.  The section on fields lifts it to the entries of a
constructor.
-/
import DcsDashboard.Lib.LuaData
import Mathlib.Data.List.TakeDrop
import Mathlib.Data.List.TakeWhile

namespace DcsDashboard.Lib

/-! ## 1. Rows of digits -/

theorem digitsValue_eq_ofDigitChars {ds : List Char} (h : ∀ c ∈ ds, c.isDigit) :
    digitsValue 10 ds = Nat.ofDigitChars 10 ds 0 := by
  rw [digitsValue, Nat.ofDigitChars_eq_foldl]
  refine List.foldl_ext _ _ _ ?_
  intro n c hc
  simp [digitValue, h c hc]

theorem not_isSpace_of_isDigit {c : Char} (h : c.isDigit) : isSpace c = false := by
  simp only [Char.isDigit, Bool.and_eq_true, decide_eq_true_eq] at h
  simp only [isSpace, Bool.or_eq_false_iff, Bool.and_eq_false_iff, decide_eq_false_iff_not]
  refine ⟨?_, .inr ?_⟩
  · rintro rfl; exact absurd h.1 (by decide)
  · exact fun hle => absurd (le_trans h.1 hle) (by decide)

/-- A row of digits is read as the number it writes. -/
theorem str2d_digits {ds : List Char} (hne : ds ≠ []) (h : ∀ c ∈ ds, c.isDigit) :
    str2d ds = some (digitsValue 10 ds : ℚ) := by
  obtain ⟨d, ds', rfl⟩ := List.exists_cons_of_ne_nil hne
  have hd : d.isDigit := h d (by simp)
  have htake : (d :: ds').takeWhile Char.isDigit = d :: ds' := List.takeWhile_eq_self_iff.mpr h
  have hdrop : (d :: ds').dropWhile Char.isDigit = [] := List.dropWhile_eq_nil_iff.mpr h
  have hdecimal : takeDecimal (d :: ds') = some ((digitsValue 10 (d :: ds') : ℚ), []) := by
    simp [takeDecimal, htake, hdrop, takeExponent]
  have hnumber : takeNumber (d :: ds') = some ((digitsValue 10 (d :: ds') : ℚ), []) := by
    unfold takeNumber
    split
    · next x r heq =>
      have hx : ¬(x = 'x' ∨ x = 'X') := by
        have hx : x.isDigit := h x (by rw [heq]; simp)
        rintro (rfl | rfl) <;> exact absurd hx (by decide)
      simp only [hx, false_and, if_false, hdecimal]
    · exact hdecimal
  have hsign : takeSign (d :: ds') = (false, d :: ds') := by
    unfold takeSign
    split
    · next heq => cases heq; exact absurd hd (by decide)
    · next heq => cases heq; exact absurd hd (by decide)
    · rfl
  simp [str2d, not_isSpace_of_isDigit hd, hsign, hnumber]

/-- A natural number is read as it is printed. -/
theorem str2d_repr (n : Nat) : str2d (Nat.toDigits 10 n) = some (n : ℚ) := by
  have hdigit : ∀ c ∈ Nat.toDigits 10 n, c.isDigit := fun c hc =>
    Nat.isDigit_of_mem_toDigits (by omega) (by omega) hc
  rw [str2d_digits Nat.toDigits_ne_nil hdigit, digitsValue_eq_ofDigitChars hdigit,
    Nat.ofDigitChars_ten_toDigits]

namespace Lua

/-! ## 2. Pieces of tokens -/

/-- A character of a string that stands for itself. -/
def IsPlain (quote c : Char) : Prop := c ≠ quote ∧ isNewline c = false ∧ c ≠ '\\'

theorem isPlain_of_isNameChar {c : Char} (h : isNameChar c) : IsPlain '"' c := by
  refine ⟨?_, ?_, ?_⟩
  · rintro rfl; exact absurd h (by decide)
  · by_contra hn
    rw [Bool.not_eq_false, isNewline, Bool.or_eq_true, decide_eq_true_eq,
      decide_eq_true_eq] at hn
    rcases hn with rfl | rfl <;> exact absurd h (by decide)
  · rintro rfl; exact absurd h (by decide)

theorem lexes_string_plain {quote c : Char} {bytes : List UInt8} {s : List Char}
    {ts : List Token} {m : Mode} (hc : IsPlain quote c)
    (h : Lexes (.string quote (bytes ++ utf8 c)) s ts m) :
    Lexes (.string quote bytes) (c :: s) ts m := by
  obtain ⟨hquote, hnewline, hbackslash⟩ := hc
  exact Lexes.skip (by simp [lexStep, lexString, hquote, hnewline, hbackslash]) h

/-- Plain characters are read as their bytes. -/
theorem lexes_string_plains {quote : Char} {bytes : List UInt8} {s : List Char}
    (h : ∀ c ∈ s, IsPlain quote c) :
    Lexes (.string quote bytes) s [] (.string quote (bytes ++ utf8Bytes s)) := by
  induction s generalizing bytes with
  | nil => simp [utf8Bytes]
  | cons c s ih =>
    refine lexes_string_plain (h c (by simp)) ?_
    have hs : Lexes (.string quote (bytes ++ utf8 c)) s []
        (.string quote (bytes ++ utf8 c ++ utf8Bytes s)) := ih fun d hd => h d (by simp [hd])
    simpa [utf8Bytes] using hs

/-- The parts a numeral goes through, `none` where it ends. -/
def NumeralPart.run : NumeralPart → List Char → Option NumeralPart
  | part, [] => some part
  | part, c :: s => (part.next c).bind fun part => part.run s

theorem lexes_numeral {part part' : NumeralPart} {text s : List Char}
    (h : part.run s = some part') :
    Lexes (.numeral part text) s [] (.numeral part' (text ++ s)) := by
  induction s generalizing part text with
  | nil => simp_all [NumeralPart.run]
  | cons c s ih =>
    obtain ⟨part₁, hnext, hrun⟩ := Option.bind_eq_some_iff.mp h
    have hstep : lexStep (.numeral part text) c = some ([], .numeral part₁ (text ++ [c])) := by
      simp [lexStep, hnext]
    have hs : Lexes (.numeral part₁ (text ++ [c])) s [] (.numeral part' (text ++ [c] ++ s)) :=
      ih hrun
    exact Lexes.skip hstep (by simpa using hs)

theorem NumeralPart.run_digits {ds : List Char} (h : ∀ c ∈ ds, c.isDigit) :
    NumeralPart.digits.run ds = some .digits := by
  induction ds with
  | nil => rfl
  | cons c ds ih =>
    simp [NumeralPart.run, NumeralPart.next, h c (by simp), ih fun d hd => h d (by simp [hd])]

/-! ## 3. Values -/

section
variable {round : ℚ → Double}

/-- **A text is read as a value** when a comma follows it. -/
def Written (round : ℚ → Double) (text : List Char) (v : Value) : Prop :=
  ∃ ts, Lexes .normal (text ++ [',']) (ts ++ [.sym ',']) .normal ∧ Yields round ts v

/-- A quoted string. -/
theorem written_quoted {body : List Char} {bytes : List UInt8}
    (h : Lexes (.string '"' []) body [] (.string '"' bytes)) :
    Written round ('"' :: body ++ ['"']) (.string bytes) := by
  refine ⟨[.string bytes], ?_, yields_string bytes⟩
  have hend : Lexes (.string '"' bytes) ['"', ','] [.string bytes, .sym ','] .normal := by
    simp [lexes_cons, lexStep, lexString, lexNormal, isSpace, isNameChar]
  have hbody := Lexes.skip (c := '"') (m := .normal) (by decide) (h.append hend)
  simpa using hbody

theorem written_bool (b : Bool) :
    Written round (if b then "true".toList else "false".toList) (.bool b) := by
  cases b
  · exact ⟨_, by decide, yields_false⟩
  · exact ⟨_, by decide, yields_true⟩

/-- A text that the lexer takes for one numeral. -/
def IsNumeral (text : List Char) : Prop :=
  ∃ d s part, text = d :: s ∧ d.isDigit ∧ NumeralPart.digits.run s = some part

/-- A numeral ends before a symbol. -/
theorem lexes_numeral_sym {text : List Char} {q : ℚ} (h : IsNumeral text)
    (hq : str2d text = some q) {c : Char} (hpart : ∀ part : NumeralPart, part.next c = none)
    (hc : lexNormal c = ([.sym c], .normal)) :
    Lexes .normal (text ++ [c]) [.number q, .sym c] .normal := by
  obtain ⟨d, s, part, rfl, hd, hrun⟩ := h
  have hfirst : lexStep .normal d = some ([], .numeral .digits [d]) := by
    simp [lexStep, lexNormal, not_isSpace_of_isDigit hd, hd]
  have hlast : Lexes (.numeral part (d :: s)) [c] [.number q, .sym c] .normal := by
    refine lexes_cons.mpr ⟨[.number q, .sym c], .normal, [], ?_, by simp, rfl⟩
    simp only [lexStep, hpart, hq, Option.map_some, lexAfter, hc]
  exact Lexes.skip hfirst ((lexes_numeral hrun).append hlast)

theorem lexes_numeral_comma {text : List Char} {q : ℚ} (h : IsNumeral text)
    (hq : str2d text = some q) :
    Lexes .normal (text ++ [',']) [.number q, .sym ','] .normal :=
  lexes_numeral_sym h hq (fun part => by cases part <;> decide) (by decide)

/-- A numeral in brackets. -/
theorem lexes_bracketed_numeral {text : List Char} {q : ℚ} (h : IsNumeral text)
    (hq : str2d text = some q) :
    Lexes .normal ('[' :: text ++ [']']) [.sym '[', .number q, .sym ']'] .normal := by
  have htext : Lexes .normal (text ++ [']']) [.number q, .sym ']'] .normal :=
    lexes_numeral_sym h hq (fun part => by cases part <;> decide) (by decide)
  obtain ⟨d, s, part, rfl, hd, hrun⟩ := h
  have h1 : d ≠ '[' := by rintro rfl; exact absurd hd (by decide)
  have h2 : d ≠ '=' := by rintro rfl; exact absurd hd (by decide)
  -- the bracket is not the beginning of a long one
  have hbracket : lexStep (.bracket 0) d = some (lexAfter (.sym '[') d) := by
    simp [lexStep, h1, h2]
  have hopen : lexStep .normal '[' = some ([], .bracket 0) := by decide
  exact Lexes.skip hopen (Lexes.after hbracket htext)

/-- A numeral. -/
theorem written_numeral {text : List Char} {q : ℚ} (h : IsNumeral text)
    (hq : str2d text = some q) : Written round text (.number (round q)) :=
  ⟨[.number q], lexes_numeral_comma h hq, yields_number q⟩

/-- A numeral with a minus before it. -/
theorem written_minus {text : List Char} {q : ℚ} (h : IsNumeral text)
    (hq : str2d text = some q) : Written round ('-' :: text) (.number (round q).neg) := by
  refine ⟨[.sym '-', .number q], ?_, (yields_number q).neg⟩
  have htext := lexes_numeral_comma h hq
  obtain ⟨d, s, part, rfl, hd, hrun⟩ := h
  have hne : d ≠ '-' := by rintro rfl; exact absurd hd (by decide)
  have hminus : lexStep .minus d = some (lexAfter (.sym '-') d) := by simp [lexStep, hne]
  have hopen : lexStep .normal '-' = some ([], .minus) := by decide
  exact Lexes.skip hopen (Lexes.after hminus htext)

theorem isNumeral_digits {ds : List Char} (hne : ds ≠ []) (h : ∀ c ∈ ds, c.isDigit) :
    IsNumeral ds := by
  obtain ⟨d, ds, rfl⟩ := List.exists_cons_of_ne_nil hne
  exact ⟨d, ds, .digits, rfl, h d (by simp),
    NumeralPart.run_digits fun c hc => h c (by simp [hc])⟩

theorem isNumeral_repr (n : Nat) : IsNumeral (Nat.toDigits 10 n) :=
  isNumeral_digits Nat.toDigits_ne_nil fun _ hc =>
    Nat.isDigit_of_mem_toDigits (by omega) (by omega) hc

/-- Blanks before a value do not count. -/
theorem Written.space {text : List Char} {v : Value} (h : Written round text v) {s : List Char}
    (hs : Lexes .normal s [] .normal) : Written round (s ++ text) v := by
  obtain ⟨ts, hlex, hv⟩ := h
  refine ⟨ts, ?_, hv⟩
  rw [List.append_assoc]
  exact hs.append hlex

/-! ## 4. Fields -/

/-- The text leads from one state of a constructor to another, read between two fields. -/
def Extends (round : ℚ → Double) (s : List Char) (f f' : Frame) : Prop :=
  ∃ ts, Lexes .normal s ts .normal ∧
    ∀ globals c, readTokens round ⟨globals, .fieldOrEnd f c⟩ ts = some ⟨globals, .fieldOrEnd f' c⟩

theorem Extends.append {s t : List Char} {f f' f'' : Frame} (h : Extends round s f f')
    (h' : Extends round t f' f'') : Extends round (s ++ t) f f'' := by
  obtain ⟨ts, hs, hf⟩ := h
  obtain ⟨us, ht, hf'⟩ := h'
  refine ⟨ts ++ us, hs.append ht, ?_⟩
  intro globals c
  rw [readTokens_append, hf, Option.bind_some, hf']

/-- Blanks and comments between fields do not count. -/
theorem extends_blank {s : List Char} {f : Frame} (h : Lexes .normal s [] .normal) :
    Extends round s f f :=
  ⟨[], h, fun _ _ => rfl⟩

/-- The tokens `[k] = v,` set a field. -/
theorem readTokens_field {ks vs : List Token} {k v : Value} {f f' : Frame}
    (hk : Yields round ks k) (hv : Yields round vs v) (hf : f.beforeField.set k v = some f')
    (globals : List (List Char × Value)) (c : Context) :
    readTokens round ⟨globals, .fieldOrEnd f c⟩
        (.sym '[' :: ks ++ [.sym ']', .sym '='] ++ (vs ++ [.sym ','])) =
      some ⟨globals, .fieldOrEnd f' c⟩ := by
  have hkey := hk globals (.key f.beforeField c)
  have hvalue := hv globals (.entry k f.beforeField c)
  simp only [give, hf, Option.map_some] at hkey hvalue
  simp [readTokens_append, readToken, readField, hkey, hvalue]

/-- A field whose key is a quoted string. -/
theorem extends_field {key text : List Char} {v : Value} {f f' : Frame}
    (hkey : ∀ c ∈ key, IsPlain '"' c) (hv : Written round text v)
    (hf : f.beforeField.set (.string (utf8Bytes key)) v = some f') :
    Extends round ("[\"".toList ++ key ++ "\"] = ".toList ++ (text ++ [','])) f f' := by
  obtain ⟨vs, hlex, hyields⟩ := hv
  refine ⟨_, ?_, readTokens_field (yields_string _) hyields hf⟩
  have hopen : Lexes .normal "[\"".toList [.sym '['] (.string '"' []) := by decide
  have hclose : Lexes (.string '"' (utf8Bytes key)) "\"] = ".toList
      [.string (utf8Bytes key), .sym ']', .sym '='] .normal := by
    simp [lexes_cons, lexStep, lexString, lexNormal, isSpace, isNameChar]
  simpa using (hopen.append (lexes_string_plains hkey)).append (hclose.append hlex)

/-- A field whose key is an index. -/
theorem extends_index {n : Nat} {text : List Char} {v : Value} {f f' : Frame}
    (hv : Written round text v) (hf : f.beforeField.set (.number (round n)) v = some f') :
    Extends round ('[' :: Nat.toDigits 10 n ++ "] = ".toList ++ (text ++ [','])) f f' := by
  obtain ⟨vs, hlex, hyields⟩ := hv
  refine ⟨_, ?_, readTokens_field (yields_number _) hyields hf⟩
  have hkey : Lexes .normal ('[' :: Nat.toDigits 10 n ++ [']']) [.sym '[', .number n, .sym ']']
      .normal := lexes_bracketed_numeral (isNumeral_repr n) (str2d_repr n)
  have hequals : Lexes .normal " = ".toList [.sym '='] .normal := by decide
  simpa using hkey.append (hequals.append hlex)

/-- A constructor; nothing need follow it. -/
theorem lexes_table {s : List Char} {f : Frame} (h : Extends round s .empty f) :
    ∃ ts, Lexes .normal ('{' :: s ++ ['}']) ts .normal ∧
      Yields round ts (.table f.flush.entries) := by
  obtain ⟨ts, hs, hf⟩ := h
  refine ⟨.sym '{' :: ts ++ [.sym '}'], ?_, ?_⟩
  · have hopen : Lexes .normal ['{'] [.sym '{'] .normal := by decide
    have hclose : Lexes .normal ['}'] [.sym '}'] .normal := by decide
    simpa using hopen.append (hs.append hclose)
  · intro globals c
    have hopen : readToken round ⟨globals, .value c⟩ (.sym '{') =
        some ⟨globals, .fieldOrEnd .empty c⟩ := rfl
    rw [List.cons_append, readTokens_cons, hopen, Option.bind_some, readTokens_append, hf,
      Option.bind_some, readTokens_singleton]
    rfl

theorem written_table {s : List Char} {f : Frame} (h : Extends round s .empty f) :
    Written round ('{' :: s ++ ['}']) (.table f.flush.entries) := by
  obtain ⟨ts, hlex, hv⟩ := lexes_table h
  have hcomma : Lexes .normal [','] [.sym ','] .normal := by decide
  exact ⟨ts, hlex.append hcomma, hv⟩

/-! ## 5. Chunks -/

/-- A chunk that is one assignment. -/
theorem readChunk_assignment {x before body after : List Char} {ts : List Token} {v : Value}
    (hx : String.ofList x ∉ reserved) (hbefore : Lexes .normal before [.name x, .sym '='] .normal)
    (hbody : Lexes .normal body ts .normal) (hv : Yields round ts v)
    (hafter : Lexes .normal (after ++ ['\n']) [] .normal) :
    readChunk round (before ++ body ++ after) = some [(x, v)] := by
  have hlex : lex (before ++ body ++ after) = some ([.name x, .sym '='] ++ ts) := by
    have hall := (hbefore.append hbody).append hafter
    rw [List.append_nil, ← List.append_assoc] at hall
    exact lex_eq_some_iff.mpr hall
  have hread := hv [] (.global x)
  simp only [give] at hread
  rw [readChunk, hlex]
  simp [readToken, readStatement, hx, hread]

end

end Lua

end DcsDashboard.Lib
