/-
# Saving the settings as they were read

The page posts every key, the ones nobody touched as `get_settings` returned them.  Their texts
then pass through the reader's guess and the writer's print of it.  The texts of the file survive
this exactly when each of them is `Spelled` as its guess is printed, and a key that a section
repeats has the same text every time (`entries_echoed_iff`); `007` or `True` does not.
-/
import DcsDashboard.Srs.ServerCfgSaves

namespace DcsDashboard.Srs

open Lib

section

variable {N : Type*} (T : NumberTexts N)

/-- The object as a client sends it back. -/
def echoed (settings : Settings N) : Settings N := fun name =>
  (settings name).map fun keys key => (keys key).map (echoValue T)

theorem echoed_value (settings : Settings N) (name key : List Char) :
    (echoed T settings).value name key = (settings.value name key).map (echoValue T) := by
  show ((settings name).map _).bind _ = ((settings name).bind _).map _
  cases settings name <;> rfl

/-- The text is spelled as the value it is taken for is printed. -/
def Spelled (text : List Char) : Prop :=
  if eqIgnoreAsciiCase text "true".toList then text = "true".toList
  else if eqIgnoreAsciiCase text "false".toList then text = "false".toList
  else
    match T.parse text with
    | some (some n) => text = T.print (T.echo n)
    | some none => False
    | none => True

/-- The texts of a file that survive. -/
structure Canonical (es : List Entry) : Prop where
  spelled : ∀ e ∈ es, Spelled T e.text
  repeated : ∀ e ∈ es, ∀ f ∈ es, e.heading = f.heading → e.key = f.key → e.text = f.text

/-! ## 1. The text that comes back -/

/-- The text written for a text. -/
def echoText (text : List Char) : List Char := printValue T (echoValue T (typed T text))

theorem echoText_eq_iff (text : List Char) : echoText T text = text ↔ Spelled T text := by
  unfold echoText Spelled typed
  split
  · exact eq_comm
  split
  · exact eq_comm
  cases hparse : T.parse text with
  | none => exact iff_of_true rfl trivial
  | some number =>
    cases number with
    | some n => exact eq_comm
    | none =>
      refine iff_of_false ?_ not_false
      -- no number is written `null`
      intro hnull
      have hprint : "null".toList = text := hnull
      rw [← hprint, T.parse_null] at hparse
      cases hparse

/-- A text without line feeds and brackets fits every line. -/
theorem fits_of_chars {key text : List Char} (h : ∀ c ∈ text, c ≠ '\n' ∧ c ≠ ']') :
    Fits key text := by
  obtain ⟨back, hback, -⟩ := exists_trimEnd_append text
  have hmem : ∀ c ∈ trimEnd text, c ∈ text := by
    intro c hc
    rw [hback]
    exact List.mem_append_left _ hc
  refine ⟨fun hc => (h _ (hmem _ hc)).1 rfl, ?_⟩
  intro hc
  exact (h _ (hmem _ (List.mem_of_getLast? hc.2))).2 rfl

/-- **What comes back fits** the line of every text of the key, and is trimmed. -/
theorem IsEntry.echoText {key text : List Char} (h : IsEntry key text) :
    Fits key (echoText T text) ∧ trim (echoText T text) = echoText T text := by
  have hplain : ∀ word : List Char, (∀ c ∈ word, isWhitespace c = false ∧ c ≠ ']') →
      Fits key word ∧ trim word = word := by
    intro word hword
    refine ⟨fits_of_chars fun c hc => ⟨?_, (hword c hc).2⟩,
      trim_of_no_whitespace fun c hc => (hword c hc).1⟩
    rintro rfl
    exact absurd (hword _ hc).1 (by decide)
  unfold Srs.echoText
  cases htyped : typed T text with
  | bool b =>
    cases b with
    | true => exact hplain "true".toList (by simp [isWhitespace])
    | false => exact hplain "false".toList (by simp [isWhitespace])
  | null => exact hplain "null".toList (by simp [isWhitespace])
  | number n => exact hplain _ (T.print_chars (T.echo n))
  | string s =>
    obtain rfl := eq_of_typed_eq_string T htyped
    have hend : trimEnd text = text := trimEnd_of_trim h.text_trimmed
    refine ⟨⟨?_, ?_⟩, h.text_trimmed⟩
    · show '\n' ∉ trimEnd text
      rw [hend]
      exact h.text_lineFeed
    · show ¬(key.head? = some '[' ∧ (trimEnd text).getLast? = some ']')
      rw [hend]
      exact h.noSection

/-! ## 2. The entries that are written -/

/-- The entry written for an entry whose value fits. -/
def Entry.written (updates : Settings N) (e : Entry) : Entry :=
  match updates.value e.heading e.key with
  | some v => { e with text := trim (printValue T v) }
  | none => e

theorem entriesFrom_rewriteRows {updates : Settings N} {rs : List Row}
    (hrs : Proper rs) {name : List Char}
    (hfit : AllFit T updates (entriesFrom name rs)) :
    entriesFrom name (rewriteRows T updates name rs) =
      (entriesFrom name rs).map (Entry.written T updates) := by
  induction rs generalizing name with
  | nil => rfl
  | cons r rs ih =>
    have htail := ih hrs.tail
      fun e he => hfit e (List.mem_append_right _ he)
    cases r with
    | heading new => exact htail
    | other => exact htail
    | entry key text =>
      have hrow : ∃ new, rewriteRow T updates name (.entry key text) = [.entry key new] ∧
          Entry.written T updates ⟨name, key, text⟩ = ⟨name, key, new⟩ := by
        cases hv : updates.value name key with
        | none => exact ⟨text, rewriteRow_none T hv text, by simp [Entry.written, hv]⟩
        | some v =>
          have hkey : IsKey key := hrs.isEntry.toIsKey
          have hfits : Fits key (printValue T v) :=
            hfit ⟨name, key, text⟩ (List.mem_append_left _ (by simp [Row.entries])) v hv
          refine ⟨trim (printValue T v), ?_, by simp [Entry.written, hv]⟩
          rw [rewriteRow_some T hv, hkey.rows_of_fits hfits]
      obtain ⟨new, hnew, hwritten⟩ := hrow
      rw [rewriteRows, hnew]
      show ⟨name, key, new⟩ :: entriesFrom name _ =
        Entry.written T updates ⟨name, key, text⟩ :: _
      rw [hwritten]
      exact congrArg _ htail

/-- **The entries of the content that is written**, where every value fits. -/
theorem entries_postSettings {updates : Settings N} {content : List Char}
    (hfit : AllFit T updates (entries content)) :
    entries (postSettings T updates content) =
      (entries content).map (Entry.written T updates) := by
  rw [entries, rows_postSettings]
  exact entriesFrom_rewriteRows T (proper_rows content) hfit

/-- What is posted back for an entry: the last text of its key, typed and echoed. -/
theorem echoed_getSettings {content : List Char} {e : Entry} (he : e ∈ entries content) :
    ∃ text, (⟨e.heading, e.key, text⟩ : Entry) ∈ entries content ∧
      (echoed T (getSettings T content)).value e.heading e.key =
        some (echoValue T (typed T text)) := by
  obtain ⟨text, htext⟩ := lastText_of_mem he
  refine ⟨text, mem_of_lastText htext, ?_⟩
  rw [echoed_value, getSettings_value, htext, Option.map_some, Option.map_some]

theorem allFit_echoed (content : List Char) :
    AllFit T (echoed T (getSettings T content)) (entries content) := by
  intro e he v hv
  obtain ⟨text, hmem, hvalue⟩ := echoed_getSettings T he
  rw [hvalue] at hv
  obtain rfl := Option.some.inj hv
  exact ((isEntry_of_mem_entries hmem).echoText T).1

/-- **The texts survive exactly when they are canonical.** -/
theorem entries_echoed_iff (content : List Char) :
    entries (postSettings T (echoed T (getSettings T content)) content) = entries content ↔
      Canonical T (entries content) := by
  -- an entry is left as it is when its text is the echo of the last one of its key
  have hwritten : ∀ e ∈ entries content, ∃ text,
      (⟨e.heading, e.key, text⟩ : Entry) ∈ entries content ∧
        Entry.written T (echoed T (getSettings T content)) e =
          ⟨e.heading, e.key, echoText T text⟩ := by
    intro e he
    obtain ⟨text, hmem, hvalue⟩ := echoed_getSettings T he
    refine ⟨text, hmem, ?_⟩
    rw [Entry.written, hvalue]
    exact congrArg (Entry.mk e.heading e.key) ((isEntry_of_mem_entries hmem).echoText T).2
  have hmap : (entries content).map (Entry.written T (echoed T (getSettings T content))) =
      entries content ↔
        ∀ e ∈ entries content, Entry.written T (echoed T (getSettings T content)) e = e := by
    conv_lhs =>
      rhs
      rw [← List.map_id (entries content)]
    exact List.map_inj_left
  rw [entries_postSettings T (allFit_echoed T content), hmap]
  constructor
  · intro hsame
    have hlast : ∀ e ∈ entries content, ∀ f ∈ entries content, e.heading = f.heading →
        e.key = f.key → e.text = f.text := by
      intro e he f hf hheading hkey
      have hvalue : ∀ g ∈ entries content, ∀ v,
          (echoed T (getSettings T content)).value g.heading g.key = some v →
            g.text = trim (printValue T v) := by
        intro g hg v hv
        have hg' := hsame g hg
        rw [Entry.written, hv] at hg'
        exact (congrArg Entry.text hg').symm
      obtain ⟨text, -, hv⟩ := echoed_getSettings T he
      rw [hvalue e he _ hv, hvalue f hf _ (hheading ▸ hkey ▸ hv)]
    refine ⟨fun e he => ?_, hlast⟩
    obtain ⟨text, hmem, htext⟩ := hwritten e he
    have hecho : e.text = echoText T text := by
      rw [← hsame e he, htext]
    have hsingle : text = e.text := hlast _ hmem e he rfl rfl
    rw [← echoText_eq_iff, ← hsingle, ← hecho, hsingle]
  · rintro ⟨hspelled, hrepeated⟩ e he
    obtain ⟨text, hmem, htext⟩ := hwritten e he
    have hsingle : text = e.text := hrepeated _ hmem e he rfl rfl
    rw [htext, hsingle, (echoText_eq_iff T e.text).mpr (hspelled e he)]

/-! ## 3. A save -/

/-- **A save keeps what it should** exactly when every posted value fits its line and the texts of
the file are canonical. -/
theorem save_keeps_iff (updates : Settings N) (content : List Char) :
    (getSettings T (postSettings T updates content) = overlay T updates (getSettings T content) ∧
      entries (postSettings T (echoed T (getSettings T content)) content) = entries content) ↔
    AllFit T updates (entries content) ∧ Canonical T (entries content) :=
  and_congr (overlay_iff_allFit T updates content) (entries_echoed_iff T content)

end

theorem isWhitespace_of_isDigit {c : Char} (h : c.isDigit = true) :
    isWhitespace c = false ∧ c ≠ ']' := by
  refine ⟨?_, ?_⟩
  · simp only [Char.isDigit, Bool.and_eq_true, decide_eq_true_eq] at h
    have hlow : 48 ≤ c.toNat := UInt32.le_iff_toNat_le.mp h.1
    have hhigh : c.toNat ≤ 57 := UInt32.le_iff_toNat_le.mp h.2
    simp [isWhitespace]
    omega
  · rintro rfl
    exact absurd h (by decide)

theorem printed_digits (n : Nat) :
    ∀ c ∈ Nat.toDigits 10 n, isWhitespace c = false ∧ c ≠ ']' := fun _ hc =>
  isWhitespace_of_isDigit (Nat.isDigit_of_mem_toDigits (by decide) (by decide) hc)

/-- Numbers written in digits. -/
def digitTexts : NumberTexts Nat where
  parse text :=
    if text ≠ [] ∧ text.all Char.isDigit then
      some (some (text.foldl (fun n c => 10 * n + (c.toNat - '0'.toNat)) 0))
    else none
  print n := Nat.toDigits 10 n
  echo n := n
  parse_nil := rfl
  parse_null := by decide
  parse_chars := by
    intro text hparse c hc
    have hdigits : text ≠ [] ∧ text.all Char.isDigit = true := by
      by_contra hno
      exact hparse (if_neg hno)
    have hdigit : c.isDigit = true := List.all_eq_true.mp hdigits.2 c hc
    refine ⟨?_, ?_, ?_⟩ <;> rintro rfl <;> exact absurd hdigit (by decide)
  print_chars := printed_digits

/-- A password of digits is a number on its way, and loses its zeros. -/
theorem password_loses_zeros :
    ¬∀ (updates : Settings Nat) (content : List Char),
      getSettings digitTexts (postSettings digitTexts updates content) =
          overlay digitTexts updates (getSettings digitTexts content) ∧
        entries (postSettings digitTexts (echoed digitTexts (getSettings digitTexts content))
          content) = entries content := by
  intro h
  have hsame := (h (fun _ => none)
    "[General Settings]\nEXTERNAL_AWACS_MODE_BLUE_PASSWORD=007".toList).2
  revert hsame
  decide +kernel

end DcsDashboard.Srs
