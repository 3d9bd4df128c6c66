/-
# What a rendered deviation says

`deviation_phrase` joins words with spaces, then edits the text of a waveoff: a waveoff without
symbols becomes the bare word, one with symbols gets a colon.  The phrase is compared with what the
deviation holds: the waveoff, each run of equal meanings with its number of calls, the position, and
how strongly it is marked (`Rendered`).

The bare word is where the two part.  `WOIC` is a waveoff in close without a reason; its position is
read, is a word of the phrase, and is overwritten.  Everything else is rendered in full
(`rendered_iff`).
-/
import DcsDashboard.Lso.NotationLossless
import DcsDashboard.Lib.JoinedText
import DcsDashboard.Lib.MaximalRuns

namespace DcsDashboard.Lso

open Lib

/-! ## 1. What a phrase should say -/

/-- The number of calls in words. -/
def countText : ℕ → List Char
  | 2 => "two".toList
  | 3 => "three".toList
  | n => Nat.toDigits 10 n

/-- A meaning, with the number of calls when there is more than one. -/
def runText (run : String × ℕ) : List Char :=
  run.1.toList ++ if run.2 = 1 then [] else " (".toList ++ countText run.2 ++ " calls)".toList

/-- The meanings of the symbols. -/
def Deviation.meanings (d : Deviation) : List String := d.symbols.map (lookup symbolTable)

/-- The meaning of the position. -/
def Deviation.position (d : Deviation) : List (List Char) :=
  (d.suffix.map fun suffix => (lookup suffixTable suffix).toList).toList

/-- What a phrase has to say, in order. -/
def Deviation.pieces (d : Deviation) (runs : List (String × ℕ)) : List (List Char) :=
  (if d.waveoff then ["waveoff".toList] else []) ++ (runs.map runText ++ d.position)

/-- A deviation rendered in full. -/
structure Rendered (d : Deviation) : Prop where
  inOrder : ∃ runs, IsRuns d.meanings runs ∧ InOrder (d.pieces runs) d.phrase
  aLittle : "a little".toList <:+: d.phrase ↔ d.magnitude = .aLittle ∧ d.symbols ≠ []
  gross : "(gross)".toList <:+: d.phrase ↔ d.magnitude = .gross

/-- The deviations `parse_token` can record. -/
def Produced (d : Deviation) : Prop :=
  ∃ token n, parseToken token n = n.record (.deviation d)

/-! ## 2. What is recorded -/

/-- A recorded deviation is a reading of its token. -/
theorem Produced.reads {d : Deviation} (h : Produced d) : ∃ token, Reads token d := by
  obtain ⟨token, n, hparse⟩ := h
  by_cases hne : token = []
  · subst hne
    have hsame : parseToken [] n = n := rfl
    have hlen := congrArg (fun n => n.deviations.length) (hsame.symm.trans hparse)
    simp [Notation.record] at hlen
  · obtain ⟨r, hbecomes, hrecord⟩ := parseToken_record hne
    have hsame := (hrecord n).symm.trans hparse
    cases hbecomes with
    | deviation hreads =>
      rename_i d'
      have hd : d' = d := by simpa [Notation.record] using congrArg Notation.deviations hsame
      exact ⟨token, hd ▸ hreads⟩
    | ballCall => simpa [Notation.record] using congrArg Notation.deviations hsame
    | unknown => simpa [Notation.record] using congrArg Notation.deviations hsame

/-! ## 3. The words of a phrase -/

theorem callsText_eq (calls : List String) :
    callsText calls = runText (calls.headD "", calls.length) := by
  unfold callsText runText
  rcases hlen : calls.length with _ | _ | _ | _ | n <;> simp [countText]

/-- The words of a phrase after the waveoff. -/
def Deviation.details (d : Deviation) : List (List Char) :=
  (if d.magnitude = .aLittle ∧ d.symbols ≠ [] then ["a little".toList] else []) ++
    ((runsOf d.meanings).map runText ++ d.position)

/-- A code of a table has a meaning of the table. -/
theorem lookup_mem {table : List (String × String)} {code : String}
    (h : code ∈ table.map Prod.fst) : ∃ row ∈ table, lookup table code = row.2 := by
  unfold lookup
  induction table with
  | nil => cases h
  | cons row table ih =>
    rw [List.lookup_cons]
    by_cases hcode : code = row.1
    · exact ⟨row, by simp, by simp [hcode]⟩
    · obtain ⟨found, hfound, hlookup⟩ :=
        ih ((List.mem_cons.mp h).resolve_left hcode)
      exact ⟨found, List.mem_cons_of_mem _ hfound, by simpa [beq_false_of_ne hcode] using hlookup⟩

/-- A read position has a meaning. -/
theorem suffix_meaning {suffix : String} (h : suffix ∈ suffixTable.map Prod.fst) :
    lookup suffixTable suffix ≠ "" := by
  have htable : ∀ row ∈ suffixTable, row.2 ≠ "" := by decide +kernel
  obtain ⟨row, hrow, hlookup⟩ := lookup_mem h
  rw [hlookup]
  exact htable row hrow

theorem Reads.words_eq {token : List Char} {d : Deviation} (h : Reads token d) :
    d.words = (if d.waveoff then ["waveoff".toList] else []) ++ d.details := by
  have hruns : (runsOf d.meanings).map runText =
      ((d.symbols.map (lookup symbolTable)).splitBy (· == ·)).map callsText := by
    rw [runsOf, List.map_map]
    exact List.map_congr_left fun calls _ => (callsText_eq calls).symm
  unfold Deviation.words Deviation.details Deviation.position
  rw [hruns]
  cases hsuffix : d.suffix with
  | none => simp only [Option.map_none, Option.toList_none, List.append_assoc]
  | some suffix =>
    have hmeaning := suffix_meaning (h.spells.suffix_mem suffix hsuffix)
    simp only [hmeaning, ne_eq, not_false_eq_true, if_true, Option.map_some, Option.toList_some,
      List.append_assoc]

/-- What a phrase begins with. -/
def Deviation.opening (d : Deviation) : List Char :=
  if d.waveoff then if d.symbols = [] then "waveoff".toList else "waveoff: ".toList else []

/-- A waveoff with a position and no symbols: the bare word is all that is left of it. -/
def Deviation.Bare (d : Deviation) : Prop :=
  d.waveoff = true ∧ d.symbols = [] ∧ d.suffix ≠ none

instance (d : Deviation) : Decidable d.Bare :=
  inferInstanceAs (Decidable (_ ∧ _ ∧ _))

theorem details_eq_nil {d : Deviation} (hsymbols : d.symbols = []) (hsuffix : d.suffix = none) :
    d.details = [] := by
  simp [Deviation.details, Deviation.meanings, Deviation.position, hsymbols, hsuffix, runsOf]

theorem details_ne_nil {d : Deviation} (hne : d.symbols ≠ []) : d.details ≠ [] := by
  have hmeanings : d.meanings ≠ [] := by
    unfold Deviation.meanings
    simpa using hne
  have hruns : runsOf d.meanings ≠ [] := by
    intro hnil
    have hwhole := (isRuns_runsOf d.meanings).whole
    rw [hnil, List.flatMap_nil] at hwhole
    exact hmeanings hwhole.symm
  unfold Deviation.details
  simp only [ne_eq, List.append_eq_nil_iff, List.map_eq_nil_iff, hruns, false_and, and_false,
    not_false_eq_true]

/-- **The phrase**, except of a bare waveoff: the opening and all the words after it. -/
theorem Reads.phrase_eq {token : List Char} {d : Deviation} (h : Reads token d) (hbare : ¬d.Bare) :
    d.phrase = d.opening ++ " ".toList.intercalate d.details ++
      if d.magnitude = .gross then " (gross)".toList else [] := by
  have hbase : (if d.waveoff ∧ d.symbols = [] then "waveoff".toList
      else if d.waveoff then
        replaceFirst "waveoff ".toList "waveoff: ".toList (" ".toList.intercalate d.words)
      else " ".toList.intercalate d.words) = d.opening ++ " ".toList.intercalate d.details := by
    unfold Deviation.opening
    rw [h.words_eq]
    cases hwaveoff : d.waveoff with
    | false => simp
    | true =>
      by_cases hsymbols : d.symbols = []
      · have hsuffix : d.suffix = none := by
          by_contra hsuffix
          exact hbare ⟨hwaveoff, hsymbols, hsuffix⟩
        simp [hsymbols, details_eq_nil hsymbols hsuffix]
      · obtain ⟨first, rest, hdetails⟩ := List.exists_cons_of_ne_nil (details_ne_nil hsymbols)
        have htext : " ".toList.intercalate ("waveoff".toList :: first :: rest) =
            "waveoff ".toList ++ " ".toList.intercalate (first :: rest) := by
          rw [List.intercalate_cons_cons]
          rfl
        simp only [hsymbols, and_false, if_true, if_false, List.singleton_append, hdetails, htext]
        exact replaceFirst_append (by decide) _ _
  unfold Deviation.phrase
  simp only [hbase]
  split
  · rfl
  · rw [List.append_nil]

/-! ## 4. What the words do not say -/

/-- A word is in the text of a run only inside the meaning, the count or `calls`. -/
theorem not_infix_runText {word : List Char} (hspace : ' ' ∉ word) {run : String × ℕ}
    (hmeaning : ¬word <:+: run.1.toList) (hcount : ∀ n, ¬word <:+: '(' :: countText n)
    (hcalls : ¬word <:+: "calls)".toList) : ¬word <:+: runText run := by
  intro h
  unfold runText at h
  split at h
  · exact hmeaning (by simpa using h)
  · have htext : run.1.toList ++ (" (".toList ++ countText run.2 ++ " calls)".toList) =
        run.1.toList ++ ' ' :: (('(' :: countText run.2) ++ ' ' :: "calls)".toList) := by
      simp
    rw [htext] at h
    rcases infix_append_cons hspace h with h | h
    · exact hmeaning h
    · rcases infix_append_cons hspace h with h | h
      · exact hcount _ h
      · exact hcalls h

/-- The counts have no `l` and no `g`. -/
theorem letter_not_mem_count {c : Char} (hc : c = 'l' ∨ c = 'g') (n : ℕ) :
    c ∉ '(' :: countText n := by
  have hdigit : c.isDigit = false := by rcases hc with rfl | rfl <;> decide
  unfold countText
  split
  · rcases hc with rfl | rfl <;> decide
  · rcases hc with rfl | rfl <;> decide
  · intro hmem
    rcases List.mem_cons.mp hmem with rfl | hmem
    · simp at hc
    · rw [Nat.isDigit_of_mem_toDigits (by omega) (by omega) hmem] at hdigit
      cases hdigit

/-- A word that none of the words of a phrase can contain, unless it is said to be a little. -/
structure Foreign (word : List Char) : Prop where
  ne_nil : word ≠ []
  space : ' ' ∉ word
  symbol : ∀ row ∈ symbolTable, ¬word <:+: row.2.toList
  suffix : ∀ row ∈ suffixTable, ¬word <:+: row.2.toList
  count : ∀ n, ¬word <:+: '(' :: countText n
  calls : ¬word <:+: "calls)".toList
  opening : ¬word <:+: "waveoff:".toList

theorem foreign_little : Foreign "little".toList where
  ne_nil := by decide
  space := by decide
  symbol := by decide +kernel
  suffix := by decide +kernel
  count n h := letter_not_mem_count (.inl rfl) n (h.subset (by decide))
  calls := by decide +kernel
  opening := by decide +kernel

theorem foreign_gross : Foreign "(gross)".toList where
  ne_nil := by decide
  space := by decide
  symbol := by decide +kernel
  suffix := by decide +kernel
  count n h := letter_not_mem_count (.inr rfl) n (h.subset (by decide))
  calls := by decide +kernel
  opening := by decide +kernel

/-- It is not in the details of a reading. -/
theorem Reads.not_infix_details {token word : List Char} {d : Deviation} (h : Reads token d)
    (hword : Foreign word)
    (hlittle : d.magnitude = .aLittle ∧ d.symbols ≠ [] → ¬word <:+: "a little".toList) :
    ¬word <:+: " ".toList.intercalate d.details := by
  intro hin
  obtain ⟨w, hw, hin⟩ := infix_intercalate hword.ne_nil hword.space hin
  rcases List.mem_append.mp hw with hw | hw
  · by_cases hsaid : d.magnitude = .aLittle ∧ d.symbols ≠ []
    · rw [if_pos hsaid, List.mem_singleton] at hw
      exact hlittle hsaid (hw ▸ hin)
    · rw [if_neg hsaid] at hw
      cases hw
  · rcases List.mem_append.mp hw with hw | hw
    · obtain ⟨run, hrun, rfl⟩ := List.mem_map.mp hw
      obtain ⟨symbol, hsymbol, hmeaning⟩ :=
        List.mem_map.mp ((isRuns_runsOf d.meanings).mem hrun)
      refine not_infix_runText hword.space ?_ hword.count hword.calls hin
      obtain ⟨row, hrow, hlookup⟩ := lookup_mem (h.spells.symbols symbol hsymbol)
      rw [← hmeaning, hlookup]
      exact hword.symbol row hrow
    · unfold Deviation.position at hw
      cases hsuffix : d.suffix with
      | none => simp [hsuffix] at hw
      | some suffix =>
        obtain rfl : w = (lookup suffixTable suffix).toList := by simpa [hsuffix] using hw
        obtain ⟨row, hrow, hlookup⟩ := lookup_mem (h.spells.suffix_mem suffix hsuffix)
        rw [hlookup] at hin
        exact hword.suffix row hrow hin

/-- Nor in the phrase up to the mark of a gross deviation. -/
theorem Reads.not_infix_base {token word : List Char} {d : Deviation} (h : Reads token d)
    (hbare : ¬d.Bare) (hword : Foreign word)
    (hlittle : d.magnitude = .aLittle ∧ d.symbols ≠ [] → ¬word <:+: "a little".toList) :
    ¬word <:+: d.opening ++ " ".toList.intercalate d.details := by
  have hdetails := h.not_infix_details hword hlittle
  unfold Deviation.opening
  cases hwaveoff : d.waveoff with
  | false => simpa using hdetails
  | true =>
    by_cases hsymbols : d.symbols = []
    · have hsuffix : d.suffix = none := by
        by_contra hsuffix
        exact hbare ⟨hwaveoff, hsymbols, hsuffix⟩
      rw [if_pos rfl, if_pos hsymbols, details_eq_nil hsymbols hsuffix]
      intro hin
      exact hword.opening (hin.trans ⟨[], ":".toList, rfl⟩)
    · rw [if_pos rfl, if_neg hsymbols]
      intro hin
      have hin : word <:+: "waveoff:".toList ++ ' ' :: " ".toList.intercalate d.details := hin
      rcases infix_append_cons hword.space hin with hin | hin
      · exact hword.opening hin
      · exact hdetails hin

/-! ## 5. What the phrase says -/

/-- The pieces are in the phrase, in order. -/
theorem Reads.inOrder {token : List Char} {d : Deviation} (h : Reads token d) (hbare : ¬d.Bare) :
    InOrder (d.pieces (runsOf d.meanings)) d.phrase := by
  have hdetails : InOrder ((runsOf d.meanings).map runText ++ d.position)
      (" ".toList.intercalate d.details) :=
    inOrder_intercalate (List.sublist_append_right _ _)
  rw [h.phrase_eq hbare]
  refine InOrder.append ?_ _
  unfold Deviation.pieces Deviation.opening
  cases d.waveoff with
  | false => exact hdetails
  | true =>
    by_cases hsymbols : d.symbols = []
    · rw [if_pos rfl, if_pos rfl, if_pos hsymbols]
      exact .cons [] "waveoff".toList hdetails
    · rw [if_pos rfl, if_pos rfl, if_neg hsymbols]
      exact .cons [] "waveoff".toList (hdetails.prepend ": ".toList)

/-- "A little" is said exactly of symbols in parentheses. -/
theorem Reads.aLittle_iff {token : List Char} {d : Deviation} (h : Reads token d)
    (hbare : ¬d.Bare) :
    "a little".toList <:+: d.phrase ↔ d.magnitude = .aLittle ∧ d.symbols ≠ [] := by
  rw [h.phrase_eq hbare]
  constructor
  · intro hin
    by_contra hnot
    have hlittle : "little".toList <:+: d.opening ++ " ".toList.intercalate d.details ++
        if d.magnitude = .gross then " (gross)".toList else [] :=
      List.IsInfix.trans ⟨"a ".toList, [], rfl⟩ hin
    have hbase := h.not_infix_base hbare foreign_little fun hsaid => absurd hsaid hnot
    split at hlittle
    · rcases infix_append_cons foreign_little.space hlittle with hlittle | hlittle
      · exact hbase hlittle
      · exact absurd hlittle (by decide +kernel)
    · rw [List.append_nil] at hlittle
      exact hbase hlittle
  · intro hsaid
    have hword : "a little".toList ∈ d.details := by
      unfold Deviation.details
      rw [if_pos hsaid]
      simp
    have hin : InOrder ["a little".toList] (" ".toList.intercalate d.details) :=
      inOrder_intercalate (List.singleton_sublist.mpr hword)
    exact ((hin.prepend _).append _).infix_of_mem (by simp)

/-- "(gross)" is said exactly of gross deviations. -/
theorem Reads.gross_iff {token : List Char} {d : Deviation} (h : Reads token d)
    (hbare : ¬d.Bare) : "(gross)".toList <:+: d.phrase ↔ d.magnitude = .gross := by
  rw [h.phrase_eq hbare]
  constructor
  · intro hin
    by_contra hnot
    rw [if_neg hnot, List.append_nil] at hin
    exact h.not_infix_base hbare foreign_gross (fun _ => by decide +kernel) hin
  · intro hgross
    rw [if_pos hgross]
    exact ⟨d.opening ++ " ".toList.intercalate d.details ++ [' '], [], by simp⟩

/-- A bare waveoff does not say where it was. -/
theorem Reads.bare_not_rendered {token : List Char} {d : Deviation} (h : Reads token d)
    (hbare : d.Bare) : ¬Rendered d := by
  obtain ⟨hwaveoff, hsymbols, hsuffix⟩ := hbare
  obtain ⟨suffix, hsuffix⟩ := Option.ne_none_iff_exists'.mp hsuffix
  rintro ⟨⟨runs, -, horder⟩, -, -⟩
  have hposition : (lookup suffixTable suffix).toList ∈ d.position := by
    rw [Deviation.position, hsuffix, Option.map_some, Option.toList_some, List.mem_singleton]
  have hpiece : (lookup suffixTable suffix).toList ∈ d.pieces runs :=
    List.mem_append_right _ (List.mem_append_right _ hposition)
  have hphrase : d.phrase <:+: "waveoff (gross)".toList := by
    unfold Deviation.phrase
    simp only [hwaveoff, hsymbols, true_and, if_true]
    split
    · exact List.infix_rfl
    · exact ⟨[], " (gross)".toList, rfl⟩
  have htable : ∀ row ∈ suffixTable, ¬row.2.toList <:+: "waveoff (gross)".toList := by
    decide +kernel
  obtain ⟨row, hrow, hlookup⟩ := lookup_mem (h.spells.suffix_mem suffix hsuffix)
  have hin := (horder.infix_of_mem hpiece).trans hphrase
  rw [hlookup] at hin
  exact htable row hrow hin

/-- A waveoff in close without a reason: the position is read and not said. -/
theorem bare_waveoff_in_close :
    Produced ⟨[], .moderate, some "IC", true⟩ ∧ ¬Rendered ⟨[], .moderate, some "IC", true⟩ := by
  have hread : parseToken "WOIC".toList .empty =
      Notation.empty.record (.deviation ⟨[], .moderate, some "IC", true⟩) := by
    decide +kernel
  have hproduced : Produced ⟨[], .moderate, some "IC", true⟩ := ⟨_, _, hread⟩
  obtain ⟨token, hreads⟩ := hproduced.reads
  exact ⟨hproduced, hreads.bare_not_rendered ⟨rfl, rfl, by simp⟩⟩

/-- **A recorded deviation is rendered in full**, except a waveoff with a position and no
symbols. -/
theorem rendered_iff {d : Deviation} (h : Produced d) :
    Rendered d ↔ ¬(d.waveoff = true ∧ d.symbols = [] ∧ d.suffix ≠ none) := by
  obtain ⟨token, hreads⟩ := h.reads
  constructor
  · intro hrendered hbare
    exact hreads.bare_not_rendered hbare hrendered
  · intro hbare
    exact ⟨⟨_, isRuns_runsOf _, hreads.inOrder hbare⟩, hreads.aLittle_iff hbare,
      hreads.gross_iff hbare⟩

/-- A waveoff in close with its reason is rendered in full. -/
theorem rendered_iff_fouledUp : Rendered ⟨["AFU"], .moderate, some "IC", true⟩ :=
  (rendered_iff ⟨"WO(AFU)IC".toList, .empty, by decide +kernel⟩).mpr (by simp)

end DcsDashboard.Lso
