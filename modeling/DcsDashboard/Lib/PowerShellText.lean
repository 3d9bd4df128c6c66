/-
# PowerShell text

A list of plain commands: bare words, verbatim strings between single quotes, and the symbols that
separate commands and arguments.  `lex` reads such a text, and is `none` where the text is anything
else.  PowerShell takes four curly quotes for single quotes too, and any two of them in a row inside
a string for the second one.

`quoted` doubles the straight quotes only.  What it gives reads back if there is no curly quote
(`readVerbatim_quoted`); and as every quote that a string has was doubled (`lex_solid`), a text in
which something else was quoted does not read as intended.
-/
import Mathlib.Algebra.Ring.Nat
import Mathlib.Data.List.Basic

namespace DcsDashboard.Lib.PowerShell

/-! ## 1. Reading -/

/-- A quote that looks curly. -/
def isCurly (c : Char) : Bool :=
  c = '\u2018' || c = '\u2019' || c = '\u201a' || c = '\u201b'

/-- A single quote. -/
def isQuote (c : Char) : Bool := c = '\'' || isCurly c

/-- The rest of a verbatim string and what is behind it. -/
def readVerbatim : List Char → Option (List Char × List Char)
  | [] => none
  | [c] => if isQuote c then some ([], []) else none
  | c :: d :: rest =>
    if isQuote c then
      if isQuote d then (readVerbatim rest).map fun (s, behind) => (d :: s, behind)
      else some ([], d :: rest)
    else (readVerbatim (d :: rest)).map fun (s, behind) => (c :: s, behind)

/-- How a string compares with the text it was read from: each of its quotes stood there twice. -/
theorem countP_readVerbatim {p : Char → Bool} (hp : ∀ c, isQuote c = true → p c = true)
    {text s behind : List Char} (h : readVerbatim text = some (s, behind)) :
    text.countP p = s.countP p + s.countP isQuote + 1 + behind.countP p := by
  induction text using readVerbatim.induct generalizing s with
  | case1 => simp [readVerbatim] at h
  | case2 c hc =>
    rw [readVerbatim, if_pos hc] at h
    cases h
    simp [hp c hc]
  | case3 c hc => simp [readVerbatim, hc] at h
  | case4 c d rest hc hd ih =>
    rw [readVerbatim, if_pos hc, if_pos hd, Option.map_eq_some_iff] at h
    obtain ⟨⟨s', behind'⟩, hrest, heq⟩ := h
    cases heq
    rw [List.countP_cons_of_pos (hp c hc), List.countP_cons_of_pos (hp d hd), ih hrest,
      List.countP_cons_of_pos (hp d hd), List.countP_cons_of_pos hd]
    omega
  | case5 c d rest hc hd =>
    rw [readVerbatim, if_pos hc, if_neg hd] at h
    cases h
    rw [List.countP_cons_of_pos (hp c hc)]
    simp
    omega
  | case6 c d rest hc ih =>
    rw [readVerbatim, if_neg hc, Option.map_eq_some_iff] at h
    obtain ⟨⟨s', behind'⟩, hrest, heq⟩ := h
    cases heq
    rw [List.countP_cons (l := d :: rest), ih hrest, List.countP_cons, List.countP_cons_of_neg hc]
    omega

theorem length_readVerbatim {text s behind : List Char} (h : readVerbatim text = some (s, behind)) :
    behind.length < text.length := by
  have hcount := countP_readVerbatim (p := fun _ => true) (fun _ _ => rfl) h
  simp only [List.countP_true] at hcount
  omega

/-- Tokens. -/
inductive Token
  | word (s : List Char)
  | verbatim (s : List Char)
  | symbol (c : Char)
  deriving DecidableEq, Repr

def isBlank (c : Char) : Bool := c = ' ' || c = '\t'

def isSymbol (c : Char) : Bool := c = ';' || c = ',' || c = '|'

/-- A character of a plain word. -/
def isWordChar (c : Char) : Bool := c.isAlphanum || c = '-' || c = '_' || c = '.'

/-- The tokens of a text of plain commands. -/
def lex : List Char → Option (List Token)
  | [] => some []
  | c :: rest =>
    if isBlank c then lex rest
    else if isSymbol c then (lex rest).map (.symbol c :: ·)
    else if isQuote c then
      match _ : readVerbatim rest with
      | none => none
      | some (s, behind) => (lex behind).map (.verbatim s :: ·)
    else if isWordChar c then
      -- a quote inside a word goes on with the word
      if (rest.dropWhile isWordChar).head?.any isQuote then none
      else (lex (rest.dropWhile isWordChar)).map (.word (c :: rest.takeWhile isWordChar) :: ·)
    else none
termination_by text => text.length
decreasing_by
  · simp
  · simp
  · have := length_readVerbatim ‹_›
    simp only [List.length_cons]
    omega
  · have := (List.dropWhile_suffix (l := rest) isWordChar).length_le
    simp only [List.length_cons]
    omega

/-! ## 2. Quoting -/

/-- `replace('\'', "''")`. -/
def doubleQuotes (s : List Char) : List Char :=
  s.flatMap fun c => if c = '\'' then ['\'', '\''] else [c]

/-- The text between two straight quotes, those inside doubled. -/
def quoted (s : List Char) : List Char := '\'' :: (doubleQuotes s ++ ['\''])

def NoCurly (s : List Char) : Prop := ∀ c ∈ s, isCurly c = false

instance (s : List Char) : Decidable (NoCurly s) :=
  decidable_of_iff ((s.all fun c => !isCurly c) = true) (by simp [NoCurly])

theorem doubleQuotes_cons_quote (s : List Char) :
    doubleQuotes ('\'' :: s) = '\'' :: '\'' :: doubleQuotes s := rfl

theorem doubleQuotes_cons {c : Char} (h : c ≠ '\'') (s : List Char) :
    doubleQuotes (c :: s) = c :: doubleQuotes s := by
  simp [doubleQuotes, h]

theorem readVerbatim_cons {c : Char} (h : isQuote c = false) {rest : List Char}
    (hne : rest ≠ []) :
    readVerbatim (c :: rest) = (readVerbatim rest).map fun (s, behind) => (c :: s, behind) := by
  obtain ⟨d, rest, rfl⟩ := List.exists_cons_of_ne_nil hne
  simp [readVerbatim, h]

/-- **Quoted text reads back**, where no quote is curly. -/
theorem readVerbatim_quoted {s behind : List Char} (h : NoCurly s)
    (hbehind : behind.head?.any isQuote = false) :
    readVerbatim (doubleQuotes s ++ '\'' :: behind) = some (s, behind) := by
  induction s with
  | nil =>
    cases behind with
    | nil => rfl
    | cons d behind =>
      have hd : isQuote d = false := by simpa using hbehind
      rw [doubleQuotes, List.flatMap_nil, List.nil_append, readVerbatim, if_pos (by decide),
        if_neg (by simp [hd])]
  | cons c s ih =>
    have ih := ih fun d hd => h d (List.mem_cons_of_mem _ hd)
    by_cases hc : c = '\''
    · subst hc
      rw [doubleQuotes_cons_quote, List.cons_append, List.cons_append, readVerbatim,
        if_pos (by decide), if_pos (by decide), ih]
      rfl
    · have hquote : isQuote c = false := by simp [isQuote, hc, h c (by simp)]
      rw [doubleQuotes_cons hc, List.cons_append, readVerbatim_cons hquote (by simp), ih]
      rfl

/-! ## 3. Reading piece by piece -/

theorem lex_nil : lex [] = some [] := by rw [lex]

theorem lex_blank (rest : List Char) : lex (' ' :: rest) = lex rest := by
  rw [lex]
  rfl

theorem lex_symbol {c : Char} (h : isSymbol c = true) (hblank : isBlank c = false)
    (rest : List Char) : lex (c :: rest) = (lex rest).map (.symbol c :: ·) := by
  rw [lex, hblank, h]
  rfl

theorem lex_quoted {s behind : List Char} (h : NoCurly s)
    (hbehind : behind.head?.any isQuote = false) :
    lex (quoted s ++ behind) = (lex behind).map (.verbatim s :: ·) := by
  have hread := readVerbatim_quoted h hbehind
  rw [quoted, List.cons_append, List.append_assoc, List.singleton_append, lex, if_neg (by decide),
    if_neg (by decide), if_pos (by decide)]
  split
  · rename_i hnone
    rw [hread] at hnone
    cases hnone
  · rename_i s' behind' hsome
    rw [hread] at hsome
    cases hsome
    rfl

theorem isBlank_iff {c : Char} : isBlank c = true ↔ c = ' ' ∨ c = '\t' := by
  simp [isBlank]

theorem isSymbol_iff {c : Char} : isSymbol c = true ↔ (c = ';' ∨ c = ',') ∨ c = '|' := by
  simp [isSymbol]

theorem isQuote_iff {c : Char} : isQuote c = true ↔
    c = '\'' ∨ ((c = '\u2018' ∨ c = '\u2019') ∨ c = '\u201a') ∨ c = '\u201b' := by
  simp [isQuote, isCurly]

theorem wordChar_kind {c : Char} (h : isWordChar c = true) :
    isBlank c = false ∧ isSymbol c = false ∧ isQuote c = false := by
  refine ⟨?_, ?_, ?_⟩ <;> refine Bool.eq_false_iff.mpr fun hkind => ?_
  · rcases isBlank_iff.mp hkind with rfl | rfl <;> exact absurd h (by decide)
  · rcases isSymbol_iff.mp hkind with (rfl | rfl) | rfl <;> exact absurd h (by decide)
  · rcases isQuote_iff.mp hkind with rfl | ((rfl | rfl) | rfl) | rfl <;>
      exact absurd h (by decide)

theorem not_blank_of_quote {c : Char} (h : isQuote c = true) : (!isBlank c) = true := by
  rcases isQuote_iff.mp h with rfl | ((rfl | rfl) | rfl) | rfl <;> decide

/-- What may stand behind a word. -/
def endsWord (c : Char) : Bool := isBlank c || isSymbol c

theorem endsWord_kind {c : Char} (h : endsWord c = true) :
    isWordChar c = false ∧ isQuote c = false := by
  rcases Bool.or_eq_true_iff.mp h with h | h
  · rcases isBlank_iff.mp h with rfl | rfl <;> decide
  · rcases isSymbol_iff.mp h with (rfl | rfl) | rfl <;> decide

/-- A word. -/
theorem lex_word {s behind : List Char} (hne : s ≠ []) (h : ∀ c ∈ s, isWordChar c = true)
    (hbehind : behind.head?.all endsWord = true) :
    lex (s ++ behind) = (lex behind).map (.word s :: ·) := by
  obtain ⟨c, s, rfl⟩ := List.exists_cons_of_ne_nil hne
  have hc := h c (by simp)
  have hs : ∀ d ∈ s, isWordChar d = true := fun d hd => h d (List.mem_cons_of_mem _ hd)
  have hfirst : ∀ d, behind.head? = some d → isWordChar d = false ∧ isQuote d = false := by
    intro d hd
    exact endsWord_kind (by simpa [hd] using hbehind)
  have hstop : behind.dropWhile isWordChar = behind ∧ behind.takeWhile isWordChar = [] := by
    cases behind with
    | nil => exact ⟨rfl, rfl⟩
    | cons d behind => simp [(hfirst d rfl).1]
  have hquote : behind.head?.any isQuote = false := by
    cases behind with
    | nil => rfl
    | cons d behind => simpa using (hfirst d rfl).2
  obtain ⟨hblank, hsymbol, hnoquote⟩ := wordChar_kind hc
  rw [List.cons_append, lex, hblank, hsymbol, hnoquote, hc, List.dropWhile_append_of_pos hs,
    List.takeWhile_append_of_pos hs, hstop.1, hstop.2, hquote, List.append_nil]
  rfl

/-! ## 4. Counting -/

/-- How many characters are not blank. -/
def solid (s : List Char) : Nat := s.countP fun c => !isBlank c

/-- How many characters of a text a token takes, blanks aside. -/
def Token.weight : Token → Nat
  | .word s => s.length
  | .verbatim s => solid s + s.countP isQuote + 2
  | .symbol _ => 1

theorem solid_words {s : List Char} (h : ∀ c ∈ s, isWordChar c = true) : solid s = s.length :=
  List.countP_eq_length.mpr fun c hc => by simp [(wordChar_kind (h c hc)).1]

/-- **A text is as long as its tokens.** -/
theorem lex_solid {text : List Char} {tokens : List Token} (h : lex text = some tokens) :
    solid text = (tokens.map Token.weight).sum := by
  induction text using lex.induct generalizing tokens with
  | case1 =>
    rw [lex_nil] at h
    cases h
    rfl
  | case2 c rest hblank ih =>
    rw [lex, if_pos hblank] at h
    rw [solid, List.countP_cons_of_neg (by simp [hblank]), ← solid, ih h]
  | case3 c rest hblank hsymbol ih =>
    rw [lex, if_neg hblank, if_pos hsymbol, Option.map_eq_some_iff] at h
    obtain ⟨tokens, hrest, rfl⟩ := h
    rw [solid, List.countP_cons_of_pos (by simp [hblank]), ← solid, ih hrest]
    simp [Token.weight]
    omega
  | case4 c rest hblank hsymbol hquote hnone =>
    rw [lex, if_neg hblank, if_neg hsymbol, if_pos hquote] at h
    split at h
    · cases h
    · rename_i hsome
      rw [hnone] at hsome
      cases hsome
  | case5 c rest hblank hsymbol hquote s behind hread ih =>
    rw [lex, if_neg hblank, if_neg hsymbol, if_pos hquote] at h
    split at h
    · cases h
    · rename_i s' behind' hsome
      rw [hread] at hsome
      cases hsome
      obtain ⟨tokens, hrest, rfl⟩ := Option.map_eq_some_iff.mp h
      have hcount := countP_readVerbatim (p := fun c => !isBlank c)
        (fun _ => not_blank_of_quote) hread
      have ih := ih hrest
      rw [solid] at ih ⊢
      rw [List.countP_cons_of_pos (by simp [hblank]), hcount, ih, List.map_cons, List.sum_cons,
        Token.weight, solid]
      omega
  | case6 c rest hblank hsymbol hquote hword hinside =>
    rw [lex, if_neg hblank, if_neg hsymbol, if_neg hquote, if_pos hword, if_pos hinside] at h
    cases h
  | case7 c rest hblank hsymbol hquote hword hinside ih =>
    rw [lex, if_neg hblank, if_neg hsymbol, if_neg hquote, if_pos hword, if_neg hinside,
      Option.map_eq_some_iff] at h
    obtain ⟨tokens, hrest, rfl⟩ := h
    have htake : solid (rest.takeWhile isWordChar) = (rest.takeWhile isWordChar).length :=
      solid_words (List.all_eq_true.mp List.all_takeWhile)
    have hsplit : solid rest =
        solid (rest.takeWhile isWordChar) + solid (rest.dropWhile isWordChar) := by
      rw [solid, solid, solid, ← List.countP_append, List.takeWhile_append_dropWhile]
    rw [solid, List.countP_cons_of_pos (by simp [hblank]), ← solid, hsplit, htake, ih hrest,
      List.map_cons, List.sum_cons, Token.weight, List.length_cons]
    omega
  | case8 c rest hblank hsymbol hquote hword =>
    rw [lex, if_neg hblank, if_neg hsymbol, if_neg hquote, if_neg hword] at h
    cases h

/-! ## 5. Spelling -/

/-- A text spells tokens, its strings quoted. -/
inductive Spells : List Char → List Token → Prop
  | nil : Spells [] []
  | blank {text : List Char} {tokens : List Token} (h : Spells text tokens) :
      Spells (' ' :: text) tokens
  | symbol {text : List Char} {tokens : List Token} {c : Char} (hc : isSymbol c = true)
      (h : Spells text tokens) : Spells (c :: text) (.symbol c :: tokens)
  | word {text : List Char} {tokens : List Token} {s : List Char} (hne : s ≠ [])
      (hs : s.all isWordChar = true) (htext : text.head?.all endsWord = true)
      (h : Spells text tokens) : Spells (s ++ text) (.word s :: tokens)
  | verbatim {text : List Char} {tokens : List Token} (s : List Char)
      (htext : text.head?.any isQuote = false) (h : Spells text tokens) :
      Spells (quoted s ++ text) (.verbatim s :: tokens)

/-- The curly quotes in the strings of tokens. -/
def Token.curly : Token → Nat
  | .verbatim s => s.countP isCurly
  | _ => 0

theorem symbol_kind {c : Char} (h : isSymbol c = true) : isBlank c = false := by
  rcases isSymbol_iff.mp h with (rfl | rfl) | rfl <;> rfl

theorem solid_quoted (s : List Char) :
    solid (quoted s) + s.countP isCurly = solid s + s.countP isQuote + 2 := by
  have hinner : solid (doubleQuotes s) + s.countP isCurly = solid s + s.countP isQuote := by
    induction s with
    | nil => rfl
    | cons c s ih =>
      simp only [solid] at ih ⊢
      by_cases hc : c = '\''
      · subst hc
        rw [doubleQuotes_cons_quote, List.countP_cons_of_pos rfl, List.countP_cons_of_pos rfl,
          List.countP_cons_of_neg (by decide), List.countP_cons_of_pos rfl,
          List.countP_cons_of_pos (by decide)]
        omega
      · have hquote : isQuote c = isCurly c := by simp [isQuote, hc]
        rw [doubleQuotes_cons hc, List.countP_cons, List.countP_cons, List.countP_cons,
          List.countP_cons, hquote]
        omega
  rw [solid] at hinner ⊢
  rw [quoted, List.countP_cons_of_pos rfl, List.countP_append, List.countP_cons_of_pos rfl,
    List.countP_nil]
  omega

theorem Spells.solid_eq {text : List Char} {tokens : List Token} (h : Spells text tokens) :
    solid text + (tokens.map Token.curly).sum = (tokens.map Token.weight).sum := by
  induction h with
  | nil => rfl
  | blank h ih =>
    rw [solid, List.countP_cons_of_neg (by decide), ← solid, ih]
  | symbol hc h ih =>
    rw [solid, List.countP_cons_of_pos (by simp [symbol_kind hc]), ← solid]
    simp only [List.map_cons, List.sum_cons, Token.curly, Token.weight]
    omega
  | @word text tokens s hne hs htext h ih =>
    have hlength := solid_words (List.all_eq_true.mp hs)
    rw [solid] at hlength ih ⊢
    rw [List.countP_append, hlength]
    simp only [List.map_cons, List.sum_cons, Token.curly, Token.weight]
    omega
  | @verbatim text tokens s htext h ih =>
    have hquoted := solid_quoted s
    simp only [solid] at hquoted ih ⊢
    rw [List.countP_append]
    simp only [List.map_cons, List.sum_cons, Token.curly, Token.weight, solid]
    omega

/-- **What a text is read as.**  It reads as the tokens that it spells if and only if their strings
have no curly quotes. -/
theorem Spells.lex_iff {text : List Char} {tokens : List Token} (h : Spells text tokens) :
    lex text = some tokens ↔ ∀ s, Token.verbatim s ∈ tokens → NoCurly s := by
  constructor
  · intro hlex s hmem
    have hzero : (tokens.map Token.curly).sum = 0 := by
      have hsolid := lex_solid hlex
      have hspells := h.solid_eq
      omega
    have hcurly : s.countP isCurly = 0 :=
      List.sum_eq_zero_iff_forall_eq_nat.mp hzero _ (List.mem_map.mpr ⟨.verbatim s, hmem, rfl⟩)
    intro c hc
    simpa using List.countP_eq_zero.mp hcurly c hc
  · intro hcurly
    induction h with
    | nil => exact lex_nil
    | blank h ih => rw [lex_blank, ih hcurly]
    | symbol hc h ih =>
      rw [lex_symbol hc (symbol_kind hc), ih fun s hs => hcurly s (List.mem_cons_of_mem _ hs)]
      rfl
    | word hne hs htext h ih =>
      rw [lex_word hne (List.all_eq_true.mp hs) htext,
        ih fun s hs => hcurly s (List.mem_cons_of_mem _ hs)]
      rfl
    | verbatim s htext h ih =>
      rw [lex_quoted (hcurly s (by simp)) htext,
        ih fun s hs => hcurly s (List.mem_cons_of_mem _ hs)]
      rfl

end DcsDashboard.Lib.PowerShell
