/-
# Reading a data file line by line

A program that edits a data file by its lines knows each line by itself.  Two things connect the
lines with the file.  What a line has begun and not ended, its end does end, as a comma or a
blank would (`Mode.Ends`, `Mode.EndsLine`); so the tokens of a file are those of its lines,
whichever line ends it uses (`lexes_lines`), and white space at the end of a line may go
(`Lexes.trimEnd`).

And a line of a file that is laid out well is a ROW: blank, a field, the beginning or the end of
a table.  A machine over rows, whose state is the tables that have been opened, reads what the
automaton reads (`readChunk_rows`).  It sets a key once.
-/
import DcsDashboard.Lib.LuaWriting
import DcsDashboard.Lib.RustText

namespace DcsDashboard.Lib.Lua

/-! ## 1. Modes -/

/-- A token has begun that any separator would end. -/
def Mode.Begun : Mode → Prop
  | .name _ | .numeral _ _ | .dot _ | .minus | .bracket _ => True
  | _ => False

/-- A string is being read. -/
def Mode.InString (quote : Char) : Mode → Prop
  | .string q _ | .escape q _ | .escapeNewline q _ _ | .escapeDigits q _ _ _ => q = quote
  | _ => False

/-- A string that is being read began with a quote. -/
def Mode.Proper : Mode → Prop
  | .string quote _ | .escape quote _ | .escapeNewline quote _ _ | .escapeDigits quote _ _ _ =>
    quote = '"' ∨ quote = '\x27'
  | _ => True

theorem Mode.Begun.proper {m : Mode} (hm : m.Begun) : m.Proper := by
  cases m with
  | name _ | numeral _ _ | dot _ | minus | bracket _ => trivial
  | _ => exact hm.elim

theorem Mode.InString.proper_iff {m : Mode} {quote : Char} (hm : m.InString quote) :
    m.Proper ↔ quote = '"' ∨ quote = '\x27' := by
  cases m with
  | string _ _ | escape _ _ | escapeNewline _ _ _ | escapeDigits _ _ _ _ =>
    obtain rfl := hm
    exact Iff.rfl
  | _ => exact hm.elim

theorem proper_lexNormal (c : Char) : (lexNormal c).2.Proper := by
  unfold lexNormal
  split
  · trivial
  · split
    · trivial
    · split
      · trivial
      · split <;> simp [Mode.Proper]

/-- A token that has begun ends or goes on, or it begins a comment or a long bracket. -/
theorem lexStep_begun {m m' : Mode} {c : Char} {ts : List Token}
    (h : lexStep m c = some (ts, m')) (hm : m.Begun) :
    (∃ t, lexAfter t c = (ts, m')) ∨ m'.Begun ∨ (c = '-' ∧ m' = .dashes) ∨
      ∃ level, m' = .long false level [] .opening := by
  cases m with
  | name x =>
    simp only [lexStep, Option.some.injEq] at h
    split at h
    · cases h; exact .inr (.inl trivial)
    · exact .inl ⟨_, h⟩
  | numeral part text =>
    simp only [lexStep] at h
    split at h
    · cases h; exact .inr (.inl trivial)
    · obtain ⟨q, -, h⟩ := Option.map_eq_some_iff.mp h
      exact .inl ⟨_, h⟩
  | dot several =>
    simp only [lexStep, Option.some.injEq] at h
    split at h
    · cases h; exact .inr (.inl trivial)
    · split at h
      · cases h; exact .inr (.inl trivial)
      · exact .inl ⟨_, h⟩
  | minus =>
    simp only [lexStep, Option.some.injEq] at h
    split at h
    · cases h; exact .inr (.inr (.inl ⟨‹_›, rfl⟩))
    · exact .inl ⟨_, h⟩
  | bracket level =>
    simp only [lexStep] at h
    split at h
    · cases h; exact .inr (.inr (.inr ⟨level, rfl⟩))
    · split at h
      · cases h; exact .inr (.inl trivial)
      · split at h
        · exact .inl ⟨_, Option.some.inj h⟩
        · cases h
  | _ => exact hm.elim

theorem lexString_inString {quote c : Char} {bytes : List UInt8} {ts : List Token} {m : Mode}
    (h : lexString quote bytes c = some (ts, m)) :
    (c = quote ∧ ts ≠ [] ∧ m = .normal) ∨ m.InString quote := by
  unfold lexString at h
  split at h
  · cases h; exact .inl ⟨‹_›, by simp, rfl⟩
  · split at h
    · cases h
    · split at h <;> cases h <;> exact .inr rfl

theorem lexEscape_inString (quote : Char) (bytes : List UInt8) (c : Char) :
    (lexEscape quote bytes c).InString quote := by
  unfold lexEscape
  split <;> try rfl
  split
  · rfl
  · split <;> rfl

/-- A string ends at its quote, with a token, or goes on. -/
theorem lexStep_inString {m m' : Mode} {quote c : Char} {ts : List Token}
    (h : lexStep m c = some (ts, m')) (hm : m.InString quote) :
    (c = quote ∧ ts ≠ [] ∧ m' = .normal) ∨ m'.InString quote := by
  cases m with
  | string q bytes =>
    obtain rfl := hm
    exact lexString_inString h
  | escape q bytes =>
    obtain rfl := hm
    simp only [lexStep] at h
    cases h
    exact .inr (lexEscape_inString q bytes c)
  | escapeNewline q bytes first =>
    obtain rfl := hm
    simp only [lexStep] at h
    split at h
    · cases h; exact .inr rfl
    · exact lexString_inString h
  | escapeDigits q bytes value count =>
    obtain rfl := hm
    simp only [lexStep] at h
    split at h
    · cases h; exact .inr rfl
    · split at h
      · exact lexString_inString h
      · cases h
  | _ => exact hm.elim

theorem lexLongBody_long (comment : Bool) (level : Nat) (bytes : List UInt8) (c : Char) :
    ∃ bytes' place, lexLongBody comment level bytes c = .long comment level bytes' place := by
  unfold lexLongBody
  split
  · exact ⟨_, _, rfl⟩
  · split <;> exact ⟨_, _, rfl⟩

/-- A long bracket ends or goes on. -/
theorem lexLong_cases {comment : Bool} {level : Nat} {bytes : List UInt8} {place : LongPlace}
    {c : Char} {ts : List Token} {m : Mode}
    (h : lexLong comment level bytes place c = some (ts, m)) :
    (c = ']' ∧ m = .normal) ∨ ∃ bytes' place', m = .long comment level bytes' place' := by
  have hbody := lexLongBody_long comment level
  unfold lexLong at h
  split at h
  · split at h <;> cases h
    · exact .inr ⟨_, _, rfl⟩
    · exact .inr (hbody bytes c)
  · cases h; exact .inr (hbody bytes c)
  · split at h
    · cases h
    · cases h; exact .inr (hbody bytes c)
  · split at h <;> cases h
    · exact .inr ⟨_, _, rfl⟩
    · exact .inr (hbody bytes c)
  · dsimp only at h
    split at h
    · cases h; exact .inr ⟨_, _, rfl⟩
    · split at h <;> cases h
      · next hc => exact .inl ⟨hc.1, rfl⟩
      · exact .inr (hbody _ c)

theorem Mode.Proper.lexStep {m m' : Mode} {c : Char} {ts : List Token} (hm : m.Proper)
    (h : lexStep m c = some (ts, m')) : m'.Proper := by
  have hnormal := proper_lexNormal c
  have hstring : ∀ quote, m.InString quote → m'.Proper := by
    intro quote hin
    obtain ⟨-, -, rfl⟩ | hin' := lexStep_inString h hin
    · trivial
    · exact hin'.proper_iff.mpr (hin.proper_iff.mp hm)
  cases m with
  | normal =>
    have hmode : (lexNormal c).2 = m' := by rw [Option.some.inj h]
    exact hmode ▸ hnormal
  | name _ | numeral _ _ | dot _ | minus | bracket _ =>
    obtain ⟨t, ht⟩ | hbegun | ⟨-, rfl⟩ | ⟨level, rfl⟩ := lexStep_begun h trivial
    · exact (Prod.mk.inj ht).2 ▸ hnormal
    · exact hbegun.proper
    · trivial
    · trivial
  | dashes | dashesBracket _ | comment =>
    simp only [Lua.lexStep] at h
    cases h
    repeat' split
    all_goals trivial
  | long comment level bytes place =>
    obtain ⟨-, rfl⟩ | ⟨bytes', place', rfl⟩ := lexLong_cases h <;> trivial
  | string quote _ | escape quote _ | escapeNewline quote _ _ | escapeDigits quote _ _ _ =>
    exact hstring quote rfl

theorem Mode.Proper.lexes {m m' : Mode} {s : List Char} {ts : List Token} (hm : m.Proper)
    (h : Lexes m s ts m') : m'.Proper := by
  induction s generalizing m ts with
  | nil =>
    obtain ⟨-, rfl⟩ := lexes_nil.mp h
    exact hm
  | cons c s ih =>
    obtain ⟨ts, m₁, us, hstep, hs, rfl⟩ := lexes_cons.mp h
    exact ih (hm.lexStep hstep) hs

theorem Lexes.proper {m : Mode} {s : List Char} {ts : List Token} (h : Lexes .normal s ts m) :
    m.Proper := by
  have hnormal : Mode.normal.Proper := trivial
  exact hnormal.lexes h

/-! ## 2. What ends at the end of a line -/

/-- Any separator ends what the mode has begun, giving the tokens. -/
inductive Mode.Ends : Mode → List Token → Prop
  | normal : Ends .normal []
  | name (x : List Char) : Ends (.name x) [.name x]
  | numeral {text : List Char} {q : ℚ} (part : NumeralPart) (hq : str2d text = some q) :
      Ends (.numeral part text) [.number q]
  | dot (several : Bool) : Ends (.dot several) [.sym '.']
  | minus : Ends .minus [.sym '-']
  | bracket : Ends (.bracket 0) [.sym '[']

/-- The end of the line ends what the mode has begun. -/
inductive Mode.EndsLine : Mode → List Token → Prop
  | ends {m : Mode} {ts : List Token} (h : m.Ends ts) : EndsLine m ts
  | dashes : EndsLine .dashes []
  | dashesBracket (level : Nat) : EndsLine (.dashesBracket level) []
  | comment : EndsLine .comment []

/-- A character that belongs to no token but itself. -/
def isSeparator (c : Char) : Bool := c = ',' || c = ' ' || isNewline c

section Separator

variable {c : Char} (hc : isSeparator c)

include hc

theorem isNameChar_separator : isNameChar c = false := by
  simp only [isSeparator, isNewline, Bool.or_eq_true, decide_eq_true_eq] at hc
  rcases hc with (rfl | rfl) | (rfl | rfl) <;> decide

theorem separator_ne : c ≠ '.' ∧ c.isDigit = false ∧ c ≠ '-' ∧ c ≠ '[' ∧ c ≠ '=' := by
  simp only [isSeparator, isNewline, Bool.or_eq_true, decide_eq_true_eq] at hc
  rcases hc with (rfl | rfl) | (rfl | rfl) <;> decide

theorem numeralPart_separator (part : NumeralPart) : part.next c = none := by
  simp only [isSeparator, isNewline, Bool.or_eq_true, decide_eq_true_eq] at hc
  rcases hc with (rfl | rfl) | (rfl | rfl) <;> cases part <;> decide

theorem Mode.Ends.lexStep {m : Mode} {ts : List Token} (h : m.Ends ts) :
    lexStep m c = some (ts ++ (lexNormal c).1, (lexNormal c).2) := by
  have hname := isNameChar_separator hc
  have hnot := separator_ne hc
  cases h with
  | normal => simp [Lua.lexStep]
  | name x => simp [Lua.lexStep, lexAfter, hname]
  | numeral part hq => simp [Lua.lexStep, lexAfter, numeralPart_separator hc, hq]
  | dot several => simp [Lua.lexStep, lexAfter, hnot]
  | minus => simp [Lua.lexStep, lexAfter, hnot]
  | bracket => simp [Lua.lexStep, lexAfter, hnot]

/-- What a separator ends. -/
theorem ends_of_begun {m m' : Mode} {ts : List Token} (h : Lua.lexStep m c = some (ts, m'))
    (hm : m.Begun) : ∃ us, m.Ends us ∧ ts = us ++ (lexNormal c).1 := by
  have hname := isNameChar_separator hc
  have hnot := separator_ne hc
  cases m with
  | name x =>
    refine ⟨_, .name x, ?_⟩
    simp only [Lua.lexStep, hname, lexAfter, Option.some.injEq] at h
    exact (Prod.mk.inj h).1.symm
  | numeral part text =>
    simp only [Lua.lexStep, numeralPart_separator hc] at h
    obtain ⟨q, hq, h⟩ := Option.map_eq_some_iff.mp h
    exact ⟨_, .numeral part hq, (Prod.mk.inj h).1.symm⟩
  | dot several =>
    refine ⟨_, .dot several, ?_⟩
    simp only [Lua.lexStep, hnot, lexAfter, Option.some.injEq] at h
    exact (Prod.mk.inj h).1.symm
  | minus =>
    refine ⟨_, .minus, ?_⟩
    simp only [Lua.lexStep, hnot, lexAfter, Option.some.injEq] at h
    exact (Prod.mk.inj h).1.symm
  | bracket level =>
    simp only [Lua.lexStep, hnot, if_false, lexAfter] at h
    split at h
    · next hlevel =>
      subst hlevel
      exact ⟨_, .bracket, (Prod.mk.inj (Option.some.inj h)).1.symm⟩
    · cases h
  | _ => exact hm.elim

end Separator

theorem Mode.EndsLine.lexStep {m : Mode} {ts : List Token} (h : m.EndsLine ts) {c : Char}
    (hc : isNewline c) : lexStep m c = some (ts, .normal) := by
  have hnormal : lexNormal c = ([], .normal) := by
    simp only [isNewline, Bool.or_eq_true, decide_eq_true_eq] at hc
    rcases hc with rfl | rfl <;> decide
  have hne : c ≠ '[' ∧ c ≠ '=' := by
    simp only [isNewline, Bool.or_eq_true, decide_eq_true_eq] at hc
    rcases hc with rfl | rfl <;> decide
  cases h with
  | ends h =>
    have hstep := h.lexStep (c := c) (by simp [isSeparator, hc])
    simpa [hnormal] using hstep
  | dashes => simp [Lua.lexStep, hne, hc]
  | dashesBracket level => simp [Lua.lexStep, hne, hc]
  | comment => simp [Lua.lexStep, hc]

/-- What the end of a line ends. -/
theorem endsLine_of_lexStep {m : Mode} {ts : List Token} (hm : m.Proper)
    (h : lexStep m '\n' = some (ts, .normal)) : m.EndsLine ts := by
  have hfeed : lexNormal '\n' = ([], .normal) := by decide
  cases m with
  | normal =>
    obtain rfl : ts = [] := by simpa [lexStep, hfeed, eq_comm] using h
    exact .ends .normal
  | name _ | numeral _ _ | dot _ | minus | bracket _ =>
    obtain ⟨us, hends, rfl⟩ := ends_of_begun (by decide) h trivial
    rw [hfeed, List.append_nil]
    exact .ends hends
  | dashes =>
    obtain rfl : ts = [] := by simpa [lexStep, isNewline, eq_comm] using h
    exact .dashes
  | dashesBracket level =>
    obtain rfl : ts = [] := by simpa [lexStep, isNewline, eq_comm] using h
    exact .dashesBracket level
  | comment =>
    obtain rfl : ts = [] := by simpa [lexStep, isNewline, eq_comm] using h
    exact .comment
  | long comment level bytes place =>
    obtain ⟨hc, -⟩ | ⟨bytes', place', hlong⟩ := lexLong_cases h
    · exact absurd hc (by decide)
    · cases hlong
  | string quote _ | escape quote _ | escapeNewline quote _ _ | escapeDigits quote _ _ _ =>
    obtain ⟨rfl, -⟩ | hin := lexStep_inString h rfl
    · simp [Mode.Proper] at hm
    · exact hin.elim

/-- What a comma ends. -/
theorem ends_of_lexStep {m : Mode} {ts : List Token} (hm : m.Proper)
    (h : lexStep m ',' = some (ts, .normal)) : ∃ us, m.Ends us ∧ ts = us ++ [.sym ','] := by
  have hcomma : lexNormal ',' = ([.sym ','], .normal) := by decide
  cases m with
  | normal =>
    refine ⟨[], .normal, ?_⟩
    simpa [lexStep, hcomma, eq_comm] using h
  | name _ | numeral _ _ | dot _ | minus | bracket _ =>
    obtain ⟨us, hends, rfl⟩ := ends_of_begun (by decide) h trivial
    exact ⟨us, hends, by rw [hcomma]⟩
  | dashes | dashesBracket _ | comment => simp [lexStep, isNewline] at h
  | long comment level bytes place =>
    obtain ⟨hc, -⟩ | ⟨bytes', place', hlong⟩ := lexLong_cases h
    · exact absurd hc (by decide)
    · cases hlong
  | string quote _ | escape quote _ | escapeNewline quote _ _ | escapeDigits quote _ _ _ =>
    obtain ⟨rfl, -⟩ | hin := lexStep_inString h rfl
    · simp [Mode.Proper] at hm
    · exact hin.elim

/-- Where the end of the line ends nothing, no token has begun. -/
theorem Mode.EndsLine.quiet {m : Mode} (h : m.EndsLine []) :
    ¬m.Begun ∧ (∀ quote, ¬m.InString quote) ∧
      ∀ comment level bytes place, m ≠ .long comment level bytes place := by
  cases h with
  | ends h => cases h; simp [Begun, InString]
  | _ => simp [Begun, InString]

/-- White space that ends nothing leaves a mode that the end of the line still ends. -/
theorem Mode.EndsLine.of_whitespace {m m' : Mode} {c : Char} (hc : isWhitespace c)
    (h : Lua.lexStep m c = some ([], m')) (hm' : m'.EndsLine []) : m.EndsLine [] := by
  obtain ⟨hbegun, hstring, hlong⟩ := hm'.quiet
  cases m with
  | normal => exact .ends .normal
  | dashes => exact .dashes
  | dashesBracket level => exact .dashesBracket level
  | comment => exact .comment
  | name _ | numeral _ _ | dot _ | minus | bracket _ =>
    obtain ⟨t, ht⟩ | hm | ⟨rfl, -⟩ | ⟨level, rfl⟩ := lexStep_begun h trivial
    · exact absurd (Prod.mk.inj ht).1 (by simp)
    · exact absurd hm hbegun
    · exact absurd hc (by decide)
    · exact absurd rfl (hlong _ _ _ _)
  | long comment level bytes place =>
    obtain ⟨rfl, -⟩ | ⟨bytes', place', rfl⟩ := lexLong_cases h
    · exact absurd hc (by decide)
    · exact absurd rfl (hlong _ _ _ _)
  | string quote _ | escape quote _ | escapeNewline quote _ _ | escapeDigits quote _ _ _ =>
    obtain ⟨-, hne, -⟩ | hm := lexStep_inString h rfl
    · exact absurd rfl hne
    · exact absurd hm (hstring quote)

/-! ## 3. Lines -/

theorem Lexes.endsLine_of_whitespace {m m' : Mode} {s : List Char} (hs : ∀ c ∈ s, isWhitespace c)
    (h : Lexes m s [] m') (hm' : m'.EndsLine []) : m.EndsLine [] := by
  induction s generalizing m with
  | nil =>
    obtain ⟨-, rfl⟩ := lexes_nil.mp h
    exact hm'
  | cons c s ih =>
    obtain ⟨ts, m₁, us, hstep, hrest, htokens⟩ := lexes_cons.mp h
    obtain ⟨rfl, rfl⟩ := List.append_eq_nil_iff.mp htokens.symm
    exact (ih (fun d hd => hs d (by simp [hd])) hrest).of_whitespace (hs c (by simp)) hstep

/-- The part of a line before its end. -/
theorem Lexes.line {line : List Char} {ts : List Token}
    (h : Lexes .normal (line ++ ['\n']) ts .normal) :
    ∃ us m vs, Lexes .normal line us m ∧ m.EndsLine vs ∧ ts = us ++ vs := by
  obtain ⟨us, m, vs, hline, hend, rfl⟩ := lexes_append.mp h
  obtain ⟨ws, m', xs, hstep, hrest, rfl⟩ := lexes_cons.mp hend
  obtain ⟨rfl, rfl⟩ := lexes_nil.mp hrest
  exact ⟨us, m, ws, hline, endsLine_of_lexStep hline.proper hstep, by simp⟩

theorem Lexes.endLine {line : List Char} {us vs : List Token} {m : Mode}
    (h : Lexes .normal line us m) (hm : m.EndsLine vs) {c : Char} (hc : isNewline c) :
    Lexes .normal (line ++ [c]) (us ++ vs) .normal := by
  have hend : Lexes m [c] vs .normal := by
    simpa using Lexes.cons (hm.lexStep hc) (lexes_nil.mpr ⟨rfl, rfl⟩)
  exact h.append hend

/-- White space at the end of a line that gives no tokens may go. -/
theorem Lexes.trimEnd {line : List Char} (h : Lexes .normal (line ++ ['\n']) [] .normal) :
    Lexes .normal (trimEnd line ++ ['\n']) [] .normal := by
  obtain ⟨us, m, vs, hline, hm, htokens⟩ := h.line
  obtain ⟨rfl, rfl⟩ := List.append_eq_nil_iff.mp htokens.symm
  obtain ⟨blank, hsplit, hblank⟩ := exists_trimEnd_append line
  rw [hsplit] at hline
  obtain ⟨us, m₁, vs, hfront, hback, htokens⟩ := lexes_append.mp hline
  obtain ⟨rfl, rfl⟩ := List.append_eq_nil_iff.mp htokens.symm
  exact hfront.endLine (hback.endsLine_of_whitespace hblank hm) (by decide)

/-- Either line end. -/
theorem Lexes.dropCarriageReturn {line : List Char} {ts : List Token}
    (h : Lexes .normal (dropCarriageReturn line ++ ['\n']) ts .normal) :
    Lexes .normal (line ++ ['\n']) ts .normal := by
  unfold Lib.dropCarriageReturn at h
  split at h
  · next hlast =>
    obtain ⟨us, m, vs, hline, hm, rfl⟩ := h.line
    have hreturn := hline.endLine hm (c := '\r') (by decide)
    rw [List.dropLast_append_getLast? _ hlast] at hreturn
    have hfeed : Lexes .normal ['\n'] [] .normal := by decide
    simpa using hreturn.append hfeed
  · exact h

/-- **The tokens of a text are those of its lines.** -/
theorem lexes_lines {s : List Char} {tokens : List (List Token)}
    (h : List.Forall₂ (fun line ts => Lexes .normal (line ++ ['\n']) ts .normal) (lines s) tokens) :
    Lexes .normal (s ++ ['\n']) tokens.flatten .normal := by
  suffices ∀ line, List.Forall₂ (fun line ts => Lexes .normal (line ++ ['\n']) ts .normal)
      (linesFrom line s) tokens → Lexes .normal (line ++ s ++ ['\n']) tokens.flatten .normal from
    this [] h
  clear h
  intro line h
  induction s generalizing line tokens with
  | nil =>
    rw [linesFrom] at h
    split at h
    · next hempty =>
      subst hempty
      cases h
      decide
    · cases h with
      | cons h hnil =>
        cases hnil
        simpa using h
  | cons c s ih =>
    rw [linesFrom] at h
    split at h
    · next hc =>
      subst hc
      cases h with
      | cons h hrest =>
        have hall := h.dropCarriageReturn.append (ih [] hrest)
        simpa using hall
    · have hrest := ih _ h
      simpa using hrest

/-- What follows a value may be a comma, a blank or the end of the line. -/
theorem Written.ends {round : ℚ → Double} {text : List Char} {v : Value}
    (h : Written round text v) :
    ∃ us m vs, Lexes .normal text us m ∧ m.Ends vs ∧ Yields round (us ++ vs) v := by
  obtain ⟨ts, hlex, hv⟩ := h
  obtain ⟨us, m, vs, htext, hend, htokens⟩ := lexes_append.mp hlex
  obtain ⟨ws, m', xs, hstep, hrest, rfl⟩ := lexes_cons.mp hend
  obtain ⟨rfl, rfl⟩ := lexes_nil.mp hrest
  obtain ⟨ys, hm, rfl⟩ := ends_of_lexStep htext.proper hstep
  have hts : us ++ ys = ts := by
    have happend : us ++ ys ++ [.sym ','] = ts ++ [.sym ','] := by simpa using htokens.symm
    exact List.append_cancel_right happend
  exact ⟨us, m, ys, htext, hm, hts ▸ hv⟩

theorem Lexes.separate {text : List Char} {us vs : List Token} {m : Mode}
    (h : Lexes .normal text us m) (hm : m.Ends vs) {c : Char} (hc : isSeparator c) :
    Lexes .normal (text ++ [c]) (us ++ (vs ++ (lexNormal c).1)) (lexNormal c).2 := by
  have hend : Lexes m [c] (vs ++ (lexNormal c).1) (lexNormal c).2 := by
    simpa using Lexes.cons (hm.lexStep hc) (lexes_nil.mpr ⟨rfl, rfl⟩)
  exact h.append hend

theorem toNat_of_isNameChar {c : Char} (h : isNameChar c) : 48 ≤ c.toNat ∧ c.toNat < 128 := by
  unfold isNameChar at h
  delta Char.isAlphanum Char.isAlpha Char.isUpper Char.isLower Char.isDigit at h
  simp only [Bool.or_eq_true, Bool.and_eq_true, decide_eq_true_eq, UInt32.le_iff_toNat_le,
    ge_iff_le] at h
  have hnat : c.toNat = c.val.toNat := rfl
  rcases h with h | rfl
  · rcases h with (⟨h1, h2⟩ | ⟨h1, h2⟩) | ⟨h1, h2⟩ <;> simp at h1 h2 <;> omega
  · decide

theorem not_isSpace_of_isNameChar {c : Char} (h : isNameChar c) : isSpace c = false := by
  obtain ⟨h1, h2⟩ := toNat_of_isNameChar h
  by_contra hn
  simp only [isSpace, Bool.not_eq_false, Bool.or_eq_true, Bool.and_eq_true, decide_eq_true_eq] at hn
  rcases hn with rfl | ⟨-, hle⟩
  · exact absurd h1 (by decide)
  · have hnat : c.toNat ≤ 13 := hle
    omega

theorem not_isWhitespace_of_isNameChar {c : Char} (h : isNameChar c) : isWhitespace c = false := by
  obtain ⟨h1, h2⟩ := toNat_of_isNameChar h
  simp only [isWhitespace, Bool.or_eq_false_iff, Bool.and_eq_false_iff, decide_eq_false_iff_not,
    List.mem_cons, List.not_mem_nil, or_false]
  omega

/-- A name, which what follows will end. -/
theorem lexes_name {x : List Char} (hne : x ≠ []) (h : ∀ c ∈ x, isNameChar c)
    (hfirst : ∀ c ∈ x.head?, c.isDigit = false) : Lexes .normal x [] (.name x) := by
  have hrest : ∀ {y s : List Char}, (∀ c ∈ s, isNameChar c) →
      Lexes (.name y) s [] (.name (y ++ s)) := by
    intro y s hs
    induction s generalizing y with
    | nil => simp
    | cons c s ih =>
      have hstep : lexStep (.name y) c = some ([], .name (y ++ [c])) := by
        simp [lexStep, hs c (by simp)]
      have hih : Lexes (.name (y ++ [c])) s [] (.name (y ++ [c] ++ s)) :=
        ih fun d hd => hs d (by simp [hd])
      exact Lexes.skip hstep (by simpa using hih)
  obtain ⟨c, s, rfl⟩ := List.exists_cons_of_ne_nil hne
  have hc : isNameChar c := h c (by simp)
  have hstep : lexStep .normal c = some ([], .name [c]) := by
    simp [lexStep, lexNormal, not_isSpace_of_isNameChar hc, hfirst c (by simp), hc]
  exact Lexes.skip hstep (hrest fun d hd => h d (by simp [hd]))

/-- White space before a symbol gives no tokens. -/
theorem Lexes.takeWhile_isWhitespace {line : List Char} {a : Char} (ha : isWhitespace a = false)
    {ts : List Token} {m : Mode} (h : Lexes .normal line (.sym a :: ts) m) :
    Lexes .normal (line.takeWhile isWhitespace) [] .normal := by
  induction line generalizing ts with
  | nil => simp at h
  | cons c s ih =>
    cases hc : isWhitespace c with
    | false => simp [hc]
    | true =>
      rw [List.takeWhile_cons_of_pos hc]
      obtain ⟨us, m₁, vs, hstep, hrest, htokens⟩ := lexes_cons.mp h
      by_cases hspace : isSpace c
      · have hblank : lexStep .normal c = some ([], .normal) := by
          simp [lexStep, lexNormal, hspace]
        obtain ⟨rfl, rfl⟩ := Prod.mk.inj (Option.some.inj (hblank.symm.trans hstep))
        rw [List.nil_append] at htokens
        exact Lexes.skip hblank (ih (htokens ▸ hrest))
      · -- any other white space is a token of its own
        have hname : isNameChar c = false := by
          by_contra hn
          rw [Bool.not_eq_false] at hn
          simp [not_isWhitespace_of_isNameChar hn] at hc
        have hdigit : c.isDigit = false := by
          by_contra hn
          rw [Bool.not_eq_false] at hn
          simp [isNameChar, Char.isAlphanum, hn] at hname
        have hsym : lexStep .normal c = some ([.sym c], .normal) := by
          simp only [lexStep, lexNormal, Bool.not_eq_true _ ▸ hspace, hdigit, hname, if_false,
            Bool.false_eq_true, Option.some.injEq]
          split
          all_goals first | rfl | exact absurd hc (by decide)
        obtain ⟨rfl, rfl⟩ := Prod.mk.inj (Option.some.inj (hsym.symm.trans hstep))
        obtain rfl : a = c := by simpa using (List.cons.inj htokens).1
        simp [hc] at ha

end DcsDashboard.Lib.Lua
