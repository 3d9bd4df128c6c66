/-
# Well-nested configuration files

A well-nested configuration file (`WellNested`): blank lines and comments, assignments in one line,
and tables with an opening and a closing line, however deep.  Each line stands with the keys of the
tables around it.

On the lines of such a file the three regular expressions of `update_foothold_config` say what the
lines are: there is one lemma for each kind, `matches_quiet` to `matches_closes`.
-/
import DcsDashboard.Foothold.ConfigEditing
import DcsDashboard.Lib.LuaLines
import DcsDashboard.Lib.TextLines

namespace DcsDashboard.Foothold

open Lib Lua

/-! ## 1. Kinds of lines -/

/-- Blanks, perhaps with a comment. -/
def CommentOrEnd (s : List Char) : Prop :=
  Blank s ∨ ∃ blanks text, Blank blanks ∧ s = blanks ++ '-' :: '-' :: text

/-- A key and how it is written: an identifier, or a string in brackets. -/
inductive KeyText : List Char → List Char → Prop
  | identifier {c : Char} {s : List Char} (hc : (c.isAlpha || c = '_') = true)
      (hs : ∀ d ∈ s, isNameChar d = true) : KeyText (c :: s) (c :: s)
  | bracketed {key : List Char} (hne : key ≠ []) (hquote : '"' ∉ key) (hdot : '.' ∉ key) :
      KeyText key ('[' :: '"' :: (key ++ ['"', ']']))

/-- What a line is; an assignment with its key and its value, a comment behind it included. -/
inductive Kind
  | quiet
  | assign (key value : List Char)
  | opens (key : List Char)
  | closes

/-- What `key =` is followed by at the beginning of a table. -/
def OpensTable (value : List Char) : Prop := ∃ tail, value = '{' :: tail ∧ CommentOrEnd tail

/-- **The lines of a well-nested file.** -/
inductive IsKind : List Char → Kind → Prop
  | blank {line : List Char} (h : Blank line) : IsKind line .quiet
  | comment {indent text : List Char} (hindent : Blank indent) :
      IsKind (indent ++ '-' :: '-' :: text) .quiet
  | assign {indent key text before after value : List Char} (hindent : Blank indent)
      (hkey : KeyText key text) (hbefore : Blank before) (hafter : Blank after)
      (hvalue : ∀ c ∈ value.head?, isWhitespace c = false) (hone : ¬OpensTable value) :
      IsKind (indent ++ (text ++ (before ++ '=' :: (after ++ value)))) (.assign key value)
  | opens {indent key text before after value : List Char} (hindent : Blank indent)
      (hkey : KeyText key text) (hbefore : Blank before) (hafter : Blank after)
      (hopens : OpensTable value) :
      IsKind (indent ++ (text ++ (before ++ '=' :: (after ++ value)))) (.opens key)
  | closes {indent comma tail : List Char} (hindent : Blank indent)
      (hcomma : comma = [] ∨ comma = [','])
      (htail : CommentOrEnd tail) : IsKind (indent ++ '}' :: (comma ++ tail)) .closes

/-- What is documented of `\w`: it has the characters of identifiers, and neither white space nor
the equals sign. -/
structure CharClasses.Documented (C : CharClasses) : Prop where
  name : ∀ c, isNameChar c = true → C.word c = true
  white : ∀ c, isWhitespace c = true → C.word c = false
  equals : C.word '=' = false

section
variable {C : CharClasses} {line : List Char}

/-- White space in front of another character. -/
theorem dropWhile_blank {blanks s : List Char} (hblanks : Blank blanks)
    (hs : ∀ c ∈ s.head?, isWhitespace c = false) : (blanks ++ s).dropWhile isWhitespace = s := by
  rw [hblanks.dropWhile]
  cases s with
  | nil => rfl
  | cons c s => rw [List.dropWhile_cons_of_neg (by simp [hs c rfl])]

theorem dropWhile_eq_nil {s : List Char} (h : Blank s) : s.dropWhile isWhitespace = [] := by
  have hdrop := dropWhile_blank (s := []) h (by simp)
  rwa [List.append_nil] at hdrop

theorem isCommentOrEnd_iff {s : List Char} : isCommentOrEnd s = true ↔ CommentOrEnd s := by
  have hprefix : ∀ s : List Char,
      "--".toList.isPrefixOf s = true ↔ ∃ text, s = '-' :: '-' :: text := by
    intro s
    rw [List.isPrefixOf_iff_prefix]
    exact ⟨fun ⟨t, ht⟩ => ⟨t, ht.symm⟩, fun ⟨t, ht⟩ => ⟨t, ht.symm⟩⟩
  simp only [isCommentOrEnd, Bool.or_eq_true, List.isEmpty_iff, hprefix]
  constructor
  · rintro (hnil | ⟨text, htext⟩)
    · exact .inl fun c hc => List.dropWhile_eq_nil_iff.mp hnil c hc
    · refine .inr ⟨s.takeWhile isWhitespace, text, fun c hc => List.mem_takeWhile_imp hc, ?_⟩
      rw [← htext, List.takeWhile_append_dropWhile]
  · rintro (hblanks | ⟨blanks, text, hblanks, rfl⟩)
    · exact .inl (dropWhile_eq_nil hblanks)
    · exact .inr ⟨text, dropWhile_blank hblanks (by simp; decide)⟩

/-- A key begins with a letter, an underscore or a bracket. -/
theorem KeyText.head {key text : List Char} (h : KeyText key text) :
    ∃ c s, text = c :: s ∧ isWhitespace c = false ∧ c ≠ '}' ∧ c ≠ '-' := by
  cases h with
  | bracketed => exact ⟨'[', _, rfl, by decide, by decide, by decide⟩
  | @identifier c s hc _ =>
    refine ⟨c, s, rfl, ?_⟩
    by_cases hunderscore : c = '_'
    · subst hunderscore
      decide
    · have halpha : c.isAlpha = true := by simpa [hunderscore] using hc
      refine ⟨?_, ?_, ?_⟩
      · exact not_isWhitespace_of_isNameChar (by simp [isNameChar, Char.isAlphanum, halpha])
      · rintro rfl
        exact absurd halpha (by decide)
      · rintro rfl
        exact absurd halpha (by decide)

/-- A key is matched where it ends: at white space or at the equals sign. -/
theorem KeyText.matchKey {key text rest : List Char} (h : KeyText key text) (hC : C.Documented)
    (hrest : ∀ c ∈ rest.head?, isWhitespace c = true ∨ c = '=') :
    Foothold.matchKey C (text ++ rest) = some (key, rest) := by
  cases h with
  | @identifier c s hc hs =>
    have hword : ∀ d ∈ s, C.word d = true := fun d hd => hC.name d (hs d hd)
    have hend : ∀ d ∈ rest.head?, C.word d = false := fun d hd =>
      (hrest d hd).elim (hC.white d) fun heq => heq ▸ hC.equals
    have hne : c ≠ '[' := by
      rintro rfl
      exact absurd hc (by decide)
    have htake : (s ++ rest).takeWhile C.word = s := by
      rw [List.takeWhile_append_of_pos hword]
      cases rest with
      | nil => simp
      | cons d rest => simp [hend d rfl]
    have hdrop : (s ++ rest).dropWhile C.word = rest := by
      rw [List.dropWhile_append_of_pos hword]
      cases rest with
      | nil => simp
      | cons d rest => simp [hend d rfl]
    rw [List.cons_append]
    unfold Foothold.matchKey
    split
    · rename_i heq
      exact absurd (List.cons.inj heq).1 hne
    · rename_i heq
      obtain ⟨rfl, rfl⟩ := List.cons.inj heq
      rw [if_pos hc, htake, hdrop]
    · rename_i heq
      cases heq
  | bracketed hne hquote _ =>
    have hall : ∀ c ∈ key, decide (c ≠ '"') = true := fun c hc => by
      simpa using fun heq : c = '"' => hquote (heq ▸ hc)
    have htake : (key ++ '"' :: ']' :: rest).takeWhile (· ≠ '"') = key := by
      rw [List.takeWhile_append_of_pos hall]
      simp
    have hdrop : (key ++ '"' :: ']' :: rest).dropWhile (· ≠ '"') = '"' :: ']' :: rest := by
      rw [List.dropWhile_append_of_pos hall]
      simp
    have htext : '[' :: '"' :: (key ++ ['"', ']']) ++ rest =
        '[' :: '"' :: (key ++ '"' :: ']' :: rest) := by simp
    rw [htext, Foothold.matchKey]
    simp only [htake, hdrop]

/-- An equals sign after a key. -/
theorem KeyText.reAssignment {key text indent before after value : List Char}
    (h : KeyText key text) (hC : C.Documented) (hindent : Blank indent) (hbefore : Blank before)
    (hafter : Blank after) (hvalue : ∀ c ∈ value.head?, isWhitespace c = false) :
    Foothold.reAssignment C (indent ++ (text ++ (before ++ '=' :: (after ++ value)))) =
      some (key, value) := by
  obtain ⟨c, s, htext, hc, -⟩ := h.head
  have hline : (indent ++ (text ++ (before ++ '=' :: (after ++ value)))).dropWhile isWhitespace =
      text ++ (before ++ '=' :: (after ++ value)) :=
    dropWhile_blank hindent (by simpa [htext] using hc)
  have hrest : ∀ c ∈ (before ++ '=' :: (after ++ value)).head?, isWhitespace c = true ∨ c = '=' := by
    cases before with
    | nil => simp
    | cons d before => simpa using .inl (hbefore d (by simp))
  have hequals : (before ++ '=' :: (after ++ value)).dropWhile isWhitespace =
      '=' :: (after ++ value) := dropWhile_blank hbefore (by simp; decide)
  rw [Foothold.reAssignment, hline, h.matchKey hC hrest, Option.bind_some]
  simp only [hequals, dropWhile_blank hafter hvalue]

theorem KeyText.reTableEnd {key text : List Char} (h : KeyText key text) {indent : List Char}
    (hindent : Blank indent) (rest : List Char) :
    Foothold.reTableEnd (indent ++ (text ++ rest)) = false := by
  obtain ⟨c, s, rfl, hc, hbrace, -⟩ := h.head
  have hline : (indent ++ (c :: s ++ rest)).dropWhile isWhitespace = c :: s ++ rest :=
    dropWhile_blank hindent (by simpa using hc)
  unfold Foothold.reTableEnd
  rw [hline]
  split
  · rename_i heq
    exact absurd (List.cons.inj heq).1 hbrace
  · rename_i heq
    exact absurd (List.cons.inj heq).1 hbrace
  · rfl

theorem matches_quiet (h : IsKind line .quiet) : reTableEnd line = false ∧
    reTableStart C line = none ∧ Foothold.reAssignment C line = none := by
  have hdrop : line.dropWhile isWhitespace = [] ∨
      ∃ text, line.dropWhile isWhitespace = '-' :: '-' :: text := by
    cases h with
    | blank h => exact .inl (dropWhile_eq_nil h)
    | comment hindent => exact .inr ⟨_, dropWhile_blank hindent (by simp; decide)⟩
  have hassign : Foothold.reAssignment C line = none := by
    rcases hdrop with hnil | ⟨text, htext⟩
    · simp [Foothold.reAssignment, hnil, Foothold.matchKey]
    · have hdash : '-'.isAlpha = false := by decide
      have hkey : Foothold.matchKey C ('-' :: '-' :: text) = none := by
        simp [Foothold.matchKey, hdash]
      rw [Foothold.reAssignment, htext, hkey]
      rfl
  refine ⟨?_, by simp [reTableStart, hassign], hassign⟩
  rcases hdrop with hnil | ⟨text, htext⟩
  · simp [reTableEnd, hnil]
  · simp [reTableEnd, htext]

theorem matches_assign {key value : List Char} (hC : C.Documented)
    (h : IsKind line (.assign key value)) : reTableEnd line = false ∧
      reTableStart C line = none ∧ Foothold.reAssignment C line = some (key, value) := by
  cases h with
  | assign hindent hkey hbefore hafter hvalue hone =>
    have hassign := hkey.reAssignment hC hindent hbefore hafter hvalue
    refine ⟨hkey.reTableEnd hindent _, ?_, hassign⟩
    rw [reTableStart, hassign, Option.bind_some]
    dsimp only
    split
    · rename_i tail
      rw [if_neg]
      exact fun htail => hone ⟨tail, rfl, isCommentOrEnd_iff.mp htail⟩
    · rfl

theorem matches_opens {key : List Char} (hC : C.Documented) (h : IsKind line (.opens key)) :
    reTableEnd line = false ∧ reTableStart C line = some key := by
  cases h with
  | opens hindent hkey hbefore hafter hopens =>
    obtain ⟨tail, rfl, htail⟩ := hopens
    have hvalue : ∀ c ∈ ('{' :: tail).head?, isWhitespace c = false := by simp; decide
    have hassign := hkey.reAssignment hC hindent hbefore hafter hvalue
    refine ⟨hkey.reTableEnd hindent _, ?_⟩
    rw [reTableStart, hassign, Option.bind_some]
    simp [isCommentOrEnd_iff.mpr htail]

theorem matches_closes (h : IsKind line .closes) : reTableEnd line = true := by
  cases h with
  | @closes indent comma tail hindent hcomma htail =>
    have htail' := isCommentOrEnd_iff.mpr htail
    have hdrop : (indent ++ '}' :: (comma ++ tail)).dropWhile isWhitespace =
        '}' :: (comma ++ tail) := dropWhile_blank hindent (by simp; decide)
    rw [reTableEnd, hdrop]
    rcases hcomma with rfl | rfl
    · -- a comment or the end is no comma
      have hno : ∀ s, tail ≠ ',' :: s := by
        rintro s rfl
        exact absurd htail' (by simp [isCommentOrEnd, isWhitespace])
      simp only [List.nil_append]
      exact htail'
    · exact htail'

end

/-! ## 2. Well-nested files -/

/-- A line, with the keys of the tables around it; a closing line is in the table it closes. -/
structure Located where
  path : List (List Char)
  line : List Char
  kind : Kind

/-- The keys that lead to what an assignment sets. -/
def Located.assigned (l : Located) : Option (List (List Char)) :=
  match l.kind with
  | .assign key _ => some (l.path ++ [key])
  | .quiet | .opens _ | .closes => none

/-- **A well-nested file**, or the inside of a table. -/
inductive WellNested : List (List Char) → List Located → Prop
  | nil {path : List (List Char)} : WellNested path []
  | quiet {path : List (List Char)} {line : List Char} {ls : List Located}
      (h : IsKind line .quiet) (hls : WellNested path ls) :
      WellNested path (⟨path, line, .quiet⟩ :: ls)
  | assign {path : List (List Char)} {line key value : List Char} {ls : List Located}
      (h : IsKind line (.assign key value)) (hls : WellNested path ls) :
      WellNested path (⟨path, line, .assign key value⟩ :: ls)
  | table {path : List (List Char)} {opening closing key : List Char} {inside ls : List Located}
      (hopens : IsKind opening (.opens key)) (hinside : WellNested (path ++ [key]) inside)
      (hcloses : IsKind closing .closes) (hls : WellNested path ls) :
      WellNested path (⟨path, opening, .opens key⟩ :: (inside ++
        ⟨path ++ [key], closing, .closes⟩ :: ls))

end DcsDashboard.Foothold
