/-
# What a save does to the object that is read

A save rewrites the lines of the posted keys and the next reader reads the file again.  Where
every posted value `Fits` its line, the object read after the save is the one read before it with
the posted values in place, as the reader types them (`getSettings_postSettings`): reader and
writer run in lockstep over the rows.

A value that does not fit breaks this always, however many others do.  A value that runs over a
line feed, or makes a section of its line, cannot be read back from any line.  A value behind a
line feed puts a line of its own into the file, which may move every following entry to another
section: after the last such entry that is rewritten in the section it was read in, nothing writes
its key again.
-/
import DcsDashboard.Srs.ServerCfgRows

namespace DcsDashboard.Srs

open Lib

section

variable {N : Type*} (T : NumberTexts N)

/-! ## 1. Typed texts -/

/-- A text with a character that no boolean and no number has is a string. -/
theorem typed_of_mem {text : List Char} {c : Char} (hmem : c ∈ text)
    (hc : c = '\n' ∨ c = '=' ∨ c = ']') : typed T text = .string text := by
  have hword : ∀ word : List Char, c.toLower ∉ word.map Char.toLower →
      eqIgnoreAsciiCase text word = false := by
    intro word hword
    rw [eqIgnoreAsciiCase, decide_eq_false_iff_not]
    intro heq
    exact hword (heq ▸ List.mem_map_of_mem hmem)
  have htrue : eqIgnoreAsciiCase text "true".toList = false :=
    hword _ (by rcases hc with rfl | rfl | rfl <;> decide)
  have hfalse : eqIgnoreAsciiCase text "false".toList = false :=
    hword _ (by rcases hc with rfl | rfl | rfl <;> decide)
  have hparse : T.parse text = none := by
    by_contra hne
    have hchars := T.parse_chars text hne c hmem
    rcases hc with rfl | rfl | rfl
    · exact hchars.1 rfl
    · exact hchars.2.1 rfl
    · exact hchars.2.2 rfl
  rw [typed, htrue, hfalse, hparse]
  rfl

theorem typed_nil : typed T [] = .string [] := by
  have htrue : eqIgnoreAsciiCase [] "true".toList = false := by decide
  have hfalse : eqIgnoreAsciiCase [] "false".toList = false := by decide
  rw [typed, htrue, hfalse, T.parse_nil]
  rfl

/-- A string is the text it was read from. -/
theorem eq_of_typed_eq_string {text s : List Char} (h : typed T text = .string s) : text = s := by
  unfold typed at h
  split at h
  · cases h
  · split at h
    · cases h
    · split at h
      · cases h
      · cases h
      · exact CfgValue.string.inj h

/-! ## 2. The object -/

variable {T}

theorem Settings.value_addSection (settings : Settings N) (name name' key : List Char) :
    (settings.addSection name).value name' key = settings.value name' key := by
  unfold addSection value
  split
  · rfl
  next hnone =>
  by_cases hname : name' = name
  · subst hname
    have hempty : settings name' = none := by simpa using hnone
    simp [hempty]
  · rw [Function.update_of_ne hname]

theorem Settings.addSection_self (settings : Settings N) (name : List Char) :
    ∃ keys, settings.addSection name name = some keys := by
  unfold addSection
  split
  · next h => exact Option.isSome_iff_exists.mp h
  · exact ⟨_, Function.update_self name _ settings⟩

theorem Settings.value_insert_self (settings : Settings N) (name key : List Char)
    (v : CfgValue N) : (settings.insert name key v).value name key = some v := by
  obtain ⟨keys, hkeys⟩ := settings.addSection_self name
  simp [Settings.insert, Settings.value, hkeys]

theorem Settings.value_insert_of_ne (settings : Settings N) {name key name' key' : List Char}
    (v : CfgValue N) (h : ¬(name' = name ∧ key' = key)) :
    (settings.insert name key v).value name' key' = settings.value name' key' := by
  rw [← settings.value_addSection name name' key']
  obtain ⟨keys, hkeys⟩ := settings.addSection_self name
  unfold Settings.insert Settings.value
  by_cases hname : name' = name
  · subst hname
    have hkey : key' ≠ key := fun heq => h ⟨rfl, heq⟩
    simp [hkeys, Function.update_of_ne hkey]
  · rw [Function.update_of_ne hname]

variable (T)

/-- The value of a key after a save, from its value before. -/
def saved (updates : Settings N) (name key : List Char) (old : CfgValue N) : CfgValue N :=
  match updates.value name key with
  | some value => typed T (trim (printValue T value))
  | none => old

/-- The object with the posted values of the keys it has. -/
def overlay (updates settings : Settings N) : Settings N := fun name =>
  (settings name).map fun keys key => (keys key).map (saved T updates name key)

theorem overlay_value (updates settings : Settings N) (name key : List Char) :
    (overlay T updates settings).value name key =
      (settings.value name key).map (saved T updates name key) := by
  show ((settings name).map _).bind _ = ((settings name).bind _).map _
  cases settings name <;> rfl

theorem overlay_addSection (updates settings : Settings N) (name : List Char) :
    overlay T updates (settings.addSection name) =
      (overlay T updates settings).addSection name := by
  unfold Settings.addSection
  by_cases h : (settings name).isSome = true
  · have hover : (overlay T updates settings name).isSome = true := by simp [overlay, h]
    rw [if_pos h, if_pos hover]
  · have hover : ¬ (overlay T updates settings name).isSome = true := by simp [overlay, h]
    rw [if_neg h, if_neg hover]
    funext name'
    by_cases hname : name' = name
    · subst hname
      simp [overlay]
    · simp [overlay, Function.update_of_ne hname]

theorem overlay_insert (updates settings : Settings N) (name key : List Char) (v : CfgValue N) :
    overlay T updates (settings.insert name key v) =
      (overlay T updates settings).insert name key (saved T updates name key v) := by
  unfold Settings.insert
  rw [← overlay_addSection]
  dsimp only
  funext name'
  by_cases hname : name' = name
  · subst hname
    unfold overlay
    rw [Function.update_self, Function.update_self, Option.map_map, Option.map_map]
    congr 1
    funext keys key'
    by_cases hkey : key' = key
    · subst hkey
      simp
    · simp [Function.update_of_ne hkey]
  · unfold overlay
    rw [Function.update_of_ne hname, Function.update_of_ne hname]

/-! ## 3. Values that fit -/

/-- Every posted value fits the lines it is printed on. -/
def AllFit (updates : Settings N) (es : List Entry) : Prop :=
  ∀ e ∈ es, ∀ v, updates.value e.heading e.key = some v → Fits e.key (printValue T v)

/-- One row: reading what is written of it is reading it and then overlaying. -/
theorem foldl_rewriteRow {updates : Settings N} {name : List Char} {r : Row}
    (hr : Proper [r]) (hfit : AllFit T updates (r.entries name)) (settings : Settings N) :
    (rewriteRow T updates name r).foldl (applyRow T) (name, overlay T updates settings) =
      (r.nextSection name, overlay T updates (applyRow T (name, settings) r).2) := by
  cases r with
  | heading new =>
    show (new, (overlay T updates settings).addSection new) = (new, _)
    rw [← overlay_addSection]
    rfl
  | other => rfl
  | entry key text =>
    show _ = (name, overlay T updates (settings.insert name key (typed T text)))
    rw [overlay_insert, saved]
    cases hv : updates.value name key with
    | none =>
      rw [rewriteRow_none T hv]
      rfl
    | some v =>
      have hkey : IsKey key := hr.isEntry.toIsKey
      have hfits : Fits key (printValue T v) := hfit ⟨name, key, text⟩ (by simp [Row.entries]) v hv
      rw [rewriteRow_some T hv, hkey.rows_of_fits hfits]
      rfl

/-- All rows, in lockstep. -/
theorem foldl_rewriteRows {updates : Settings N} {rs : List Row}
    (hrs : Proper rs) {name : List Char}
    (hfit : AllFit T updates (entriesFrom name rs)) (settings : Settings N) :
    ((rewriteRows T updates name rs).foldl (applyRow T) (name, overlay T updates settings)).2 =
      overlay T updates (rs.foldl (applyRow T) (name, settings)).2 := by
  induction rs generalizing name settings with
  | nil => rfl
  | cons r rs ih =>
    have hhead : AllFit T updates (r.entries name) :=
      fun e he => hfit e (List.mem_append_left _ he)
    have htail : AllFit T updates (entriesFrom (r.nextSection name) rs) :=
      fun e he => hfit e (List.mem_append_right _ he)
    have hstep : applyRow T (name, settings) r =
        (r.nextSection name, (applyRow T (name, settings) r).2) := by
      rw [← applyRow_fst T (name, settings) r]
    rw [rewriteRows, List.foldl_append,
      foldl_rewriteRow T hrs.head hhead,
      ih hrs.tail htail, List.foldl_cons, ← hstep]

/-- **A save whose values all fit** reads back as the overlay. -/
theorem getSettings_postSettings {updates : Settings N} {content : List Char}
    (hfit : AllFit T updates (entries content)) :
    getSettings T (postSettings T updates content) =
      overlay T updates (getSettings T content) := by
  rw [getSettings_eq_fold, getSettings_eq_fold, rows_postSettings]
  exact foldl_rewriteRows T (proper_rows content) hfit fun _ => none

/-! ## 4. The last text of a key -/

/-- The last text of a key among entries. -/
def lastText (name key : List Char) (es : List Entry) : Option (List Char) :=
  ((es.filter fun e => e.heading = name ∧ e.key = key).getLast?).map Entry.text

theorem lastText_append (name key : List Char) (es fs : List Entry) :
    lastText name key (es ++ fs) = (lastText name key fs).or (lastText name key es) := by
  rw [lastText, List.filter_append, List.getLast?_append, Option.map_or]
  rfl

theorem mem_of_lastText {name key text : List Char} {es : List Entry}
    (h : lastText name key es = some text) : ⟨name, key, text⟩ ∈ es := by
  obtain ⟨e, he, rfl⟩ := Option.map_eq_some_iff.mp h
  obtain ⟨hmem, hkey⟩ := List.mem_filter.mp (List.mem_of_getLast? he)
  obtain ⟨rfl, rfl⟩ : e.heading = name ∧ e.key = key := by simpa using hkey
  exact hmem

theorem lastText_of_mem {e : Entry} {es : List Entry} (h : e ∈ es) :
    ∃ text, lastText e.heading e.key es = some text := by
  have hmem : e ∈ es.filter fun f => f.heading = e.heading ∧ f.key = e.key :=
    List.mem_filter.mpr ⟨h, by simp⟩
  obtain ⟨last, hlast⟩ := Option.isSome_iff_exists.mp
    (List.getLast?_isSome.mpr (List.ne_nil_of_mem hmem))
  exact ⟨last.text, by rw [lastText, hlast, Option.map_some]⟩

/-- One row sets the key of its entry, and nothing else. -/
theorem applyRow_value (state : List Char × Settings N) (r : Row) (name key : List Char) :
    (applyRow T state r).2.value name key =
      ((lastText name key (r.entries state.1)).map (typed T)).or (state.2.value name key) := by
  cases r with
  | heading new => exact state.2.value_addSection new name key
  | other => rfl
  | entry k text =>
    by_cases h : name = state.1 ∧ key = k
    · obtain ⟨rfl, rfl⟩ := h
      have htext : lastText state.1 key (Row.entries state.1 (.entry key text)) = some text := by
        simp [lastText, Row.entries]
      rw [htext]
      exact state.2.value_insert_self _ _ _
    · have htext : lastText name key (Row.entries state.1 (.entry k text)) = none := by
        have hne : ¬(state.1 = name ∧ k = key) := fun heq => h ⟨heq.1.symm, heq.2.symm⟩
        rw [lastText, Row.entries, List.filter_cons_of_neg (by simpa using hne)]
        rfl
      rw [htext]
      exact state.2.value_insert_of_ne _ h

theorem foldl_applyRow_value (rs : List Row) (state : List Char × Settings N)
    (name key : List Char) :
    (rs.foldl (applyRow T) state).2.value name key =
      ((lastText name key (entriesFrom state.1 rs)).map (typed T)).or
        (state.2.value name key) := by
  induction rs generalizing state with
  | nil => rfl
  | cons r rs ih =>
    rw [List.foldl_cons, ih, applyRow_value, entriesFrom, lastText_append, applyRow_fst,
      Option.map_or, Option.or_assoc]

/-- **The reader gives a key the value of its last text.** -/
theorem getSettings_value (content name key : List Char) :
    (getSettings T content).value name key =
      (lastText name key (entries content)).map (typed T) := by
  rw [getSettings_eq_fold, foldl_applyRow_value]
  exact Option.or_none

/-! ## 5. Values that do not fit -/

theorem not_fits_cases {key text : List Char} (h : ¬Fits key text) :
    ('\n' ∈ trim text ∨ key.head? = some '[' ∧ (trim text).getLast? = some ']') ∨
      '\n' ∈ trimEnd text ∧ '\n' ∉ trim text := by
  by_cases hline : '\n' ∈ trim text
  · exact .inl (.inl hline)
  by_cases hfeed : '\n' ∈ trimEnd text
  · exact .inr ⟨hfeed, hline⟩
  left
  right
  obtain ⟨hkey, hlast⟩ : key.head? = some '[' ∧ (trimEnd text).getLast? = some ']' := by
    by_contra hno
    exact h ⟨hfeed, hno⟩
  obtain ⟨front, hfront, -, hnil⟩ := exists_trimEnd_eq text
  refine ⟨hkey, ?_⟩
  rw [hfront, List.getLast?_append] at hlast
  cases htrim : (trim text).getLast? with
  | none =>
    have hempty : trim text = [] := List.getLast?_eq_none_iff.mp htrim
    simp [hempty, hnil hempty] at hlast
  | some c => rwa [htrim, Option.some_or] at hlast

/-- Where the save reads back as the overlay, some line has a text with the posted value. -/
theorem exists_text_of_overlay {updates : Settings N} {content : List Char}
    (hmap : getSettings T (postSettings T updates content) =
      overlay T updates (getSettings T content)) {e : Entry} (he : e ∈ entries content)
    {v : CfgValue N} (hv : updates.value e.heading e.key = some v) :
    (getSettings T (postSettings T updates content)).value e.heading e.key =
      some (typed T (trim (printValue T v))) ∧
    ∃ text, IsEntry e.key text ∧ typed T text = typed T (trim (printValue T v)) := by
  obtain ⟨old, hold⟩ := lastText_of_mem he
  have hvalue : (getSettings T (postSettings T updates content)).value e.heading e.key =
      some (typed T (trim (printValue T v))) := by
    rw [hmap, overlay_value, getSettings_value, hold, Option.map_some, Option.map_some, saved, hv]
  refine ⟨hvalue, ?_⟩
  rw [getSettings_value] at hvalue
  obtain ⟨text, htext, htyped⟩ := Option.map_eq_some_iff.mp hvalue
  exact ⟨text, isEntry_of_mem_entries (mem_of_lastText htext), htyped⟩

/-- What does not fit, and is read back, stands behind a line feed. -/
theorem broken_of_overlay {updates : Settings N} {content : List Char}
    (hmap : getSettings T (postSettings T updates content) =
      overlay T updates (getSettings T content)) {e : Entry} (he : e ∈ entries content)
    {v : CfgValue N} (hv : updates.value e.heading e.key = some v)
    (hunfit : ¬Fits e.key (printValue T v)) :
    '\n' ∈ trimEnd (printValue T v) ∧ '\n' ∉ trim (printValue T v) := by
  obtain ⟨-, text, hentry, htyped⟩ := exists_text_of_overlay T hmap he hv
  -- the value is a string that no entry of the key has as its text
  rcases not_fits_cases hunfit with (hline | ⟨hkey, hlast⟩) | hbroken
  · rw [typed_of_mem T hline (.inl rfl)] at htyped
    rw [← eq_of_typed_eq_string T htyped] at hline
    exact absurd hline hentry.text_lineFeed
  · rw [typed_of_mem T (List.mem_of_getLast? hlast) (.inr (.inr rfl))] at htyped
    rw [← eq_of_typed_eq_string T htyped] at hlast
    exact absurd ⟨hkey, hlast⟩ hentry.noSection
  · exact hbroken

/-! ## 6. Values behind a line feed

Such a value puts a line of its own into the file.  Where that line is a section, the entries
after it are read in another section than they were rewritten in, up to the next section of the
old file. -/

/-- Every posted value that does not fit stands behind a line feed. -/
def AllBroken (updates : Settings N) (es : List Entry) : Prop :=
  ∀ e ∈ es, ∀ v, updates.value e.heading e.key = some v → ¬Fits e.key (printValue T v) →
    '\n' ∈ trimEnd (printValue T v) ∧ '\n' ∉ trim (printValue T v)

/-- The section after rows. -/
def sectionAfter (current : List Char) (rs : List Row) : List Char :=
  rs.foldl Row.nextSection current

theorem foldl_applyRow_fst (rs : List Row) (state : List Char × Settings N) :
    (rs.foldl (applyRow T) state).1 = sectionAfter state.1 rs := by
  induction rs generalizing state with
  | nil => rfl
  | cons r rs ih =>
    rw [List.foldl_cons, ih, applyRow_fst]
    rfl

theorem foldl_applyRow_eq (rs : List Row) (current : List Char) (settings : Settings N) :
    rs.foldl (applyRow T) (current, settings) =
      (sectionAfter current rs, (rs.foldl (applyRow T) (current, settings)).2) := by
  rw [← foldl_applyRow_fst T rs (current, settings)]

/-- Some value that does not fit is printed where the writer's section and the section the line
is read in are the same. -/
def Breaks (updates : Settings N) : List Char → List Char → List Row → Prop
  | _, _, [] => False
  | name, current, r :: rs =>
    (current = name ∧ ¬AllFit T updates (r.entries name)) ∨
      Breaks updates (r.nextSection name) (sectionAfter current (rewriteRow T updates name r)) rs

/-- A value behind a line feed: what is written of its entry. -/
theorem rewriteRow_broken {updates : Settings N} {name key : List Char} {v : CfgValue N}
    (hkey : IsKey key) (hv : updates.value name key = some v)
    (hbroken : '\n' ∈ trimEnd (printValue T v) ∧ '\n' ∉ trim (printValue T v))
    (text : List Char) :
    rewriteRow T updates name (.entry key text) =
      [.entry key [], rowOf (trim (printValue T v))] := by
  rw [rewriteRow_some T hv]
  exact (hkey.rows_of_broken hbroken.1 hbroken.2).2

/-- Rows that are read in another section leave the keys of a section alone. -/
theorem applyRow_value_of_ne (state : List Char × Settings N) {name : List Char}
    (h : state.1 ≠ name) (r : Row) (key : List Char) :
    (applyRow T state r).2.value name key = state.2.value name key := by
  cases r with
  | heading new => exact state.2.value_addSection new name key
  | other => rfl
  | entry k text => exact state.2.value_insert_of_ne _ fun heq => h heq.1.symm

/-- **One row without a break** leaves the key of an unfit value alone, and the two sections stay
the same unless the writer's is still that of the key. -/
theorem rewriteRow_keeps {updates : Settings N} {e : Entry} {v : CfgValue N}
    (hv : updates.value e.heading e.key = some v) (hunfit : ¬Fits e.key (printValue T v))
    {name current : List Char} {r : Row} (hr : Proper [r])
    (hbroken : AllBroken T updates (r.entries name))
    (hat : current = name ∨ name = e.heading)
    (hno : ¬(current = name ∧ ¬AllFit T updates (r.entries name))) (settings : Settings N) :
    ((rewriteRow T updates name r).foldl (applyRow T) (current, settings)).2.value e.heading e.key =
        settings.value e.heading e.key ∧
      (sectionAfter current (rewriteRow T updates name r) = r.nextSection name ∨
        r.nextSection name = e.heading) := by
  cases r with
  | heading new => exact ⟨settings.value_addSection _ _ _, .inl rfl⟩
  | other => exact ⟨rfl, hat⟩
  | entry key text =>
    have hkey : IsKey key := hr.isEntry.toIsKey
    -- an entry that is written on one line is not one of the key
    have hone : ∀ t, (∀ w, updates.value name key = some w → Fits key (printValue T w)) →
        (settings.insert current key (typed T t)).value e.heading e.key =
          settings.value e.heading e.key := by
      intro t hfits
      refine settings.value_insert_of_ne _ ?_
      rintro ⟨hheading, rfl⟩
      have hname : name = e.heading := by
        rcases hat with rfl | h
        · exact hheading.symm
        · exact h
      exact hunfit (hfits v (hname ▸ hv))
    cases hw : updates.value name key with
    | none =>
      rw [rewriteRow_none T hw]
      exact ⟨hone text (by simp [hw]), hat⟩
    | some w =>
      by_cases hfit : Fits key (printValue T w)
      · rw [rewriteRow_some T hw, hkey.rows_of_fits hfit]
        exact ⟨hone _ (by simp [hw, hfit]), hat⟩
      · -- the two sections differ, so the writer is still in that of the key
        have hne : current ≠ name := by
          intro heq
          refine hno ⟨heq, fun hall => hfit ?_⟩
          exact hall ⟨name, key, text⟩ (by simp [Row.entries]) w hw
        have hname : name = e.heading := hat.resolve_left hne
        have hcurrent : current ≠ e.heading := hname ▸ hne
        have hrow := rewriteRow_broken T hkey hw
          (hbroken ⟨name, key, text⟩ (by simp [Row.entries]) w hw hfit) text
        refine ⟨?_, .inr hname⟩
        have hempty := applyRow_value_of_ne T (current, settings) hcurrent
          (.entry key []) e.key
        have hrest := applyRow_value_of_ne T
          (applyRow T (current, settings) (.entry key [])) hcurrent
          (rowOf (trim (printValue T w))) e.key
        rw [hrow, List.foldl_cons, List.foldl_cons, List.foldl_nil, hrest, hempty]

/-- **Rows without a break** leave the key of an unfit value alone. -/
theorem rewriteRows_keeps {updates : Settings N} {e : Entry} {v : CfgValue N}
    (hv : updates.value e.heading e.key = some v) (hunfit : ¬Fits e.key (printValue T v))
    {rs : List Row} (hrs : Proper rs)
    {name current : List Char} (hbroken : AllBroken T updates (entriesFrom name rs))
    (hat : current = name ∨ name = e.heading) (hno : ¬Breaks T updates name current rs)
    (settings : Settings N) :
    ((rewriteRows T updates name rs).foldl (applyRow T) (current, settings)).2.value
      e.heading e.key = settings.value e.heading e.key := by
  induction rs generalizing name current settings with
  | nil => rfl
  | cons r rs ih =>
    obtain ⟨hhere, hthere⟩ := not_or.mp hno
    obtain ⟨hvalue, hnext⟩ := rewriteRow_keeps T hv hunfit
      hrs.head (fun f hf => hbroken f (List.mem_append_left _ hf)) hat hhere settings
    rw [rewriteRows, List.foldl_append, foldl_applyRow_eq T (rewriteRow T updates name r),
      ih hrs.tail (fun f hf => hbroken f (List.mem_append_right _ hf)) hnext hthere, hvalue]

/-- A value that does not fit breaks somewhere: up to the first one the two sections agree. -/
theorem breaks_of_not_allFit {updates : Settings N} {rs : List Row}
    (hrs : Proper rs) {name : List Char}
    (h : ¬AllFit T updates (entriesFrom name rs)) : Breaks T updates name name rs := by
  induction rs generalizing name with
  | nil => exact absurd (fun e he => by cases he) h
  | cons r rs ih =>
    by_cases hhead : AllFit T updates (r.entries name)
    · right
      have hrow := foldl_rewriteRow T hrs.head hhead
        fun _ => none
      have hnext : sectionAfter name (rewriteRow T updates name r) = r.nextSection name := by
        rw [← foldl_applyRow_fst T _ (name, overlay T updates fun _ => none), hrow]
      rw [hnext]
      refine ih hrs.tail fun htail => h ?_
      intro e he
      exact (List.mem_append.mp he).elim (hhead e) (htail e)
    · exact .inl ⟨rfl, hhead⟩

/-- The line of a broken value either sets the key again or leaves it empty. -/
theorem exists_value_after_break (current key line : List Char) (settings : Settings N) :
    ∃ text, (([.entry key [], rowOf line].foldl (applyRow T) (current, settings)).2.value
        current key = some (typed T text)) ∧
      (text = [] ∨ rowOf line = .entry key text) := by
  rw [List.foldl_cons, List.foldl_cons, List.foldl_nil, applyRow_value]
  have hempty : (applyRow T (current, settings) (.entry key [])).2.value current key =
      some (typed T []) := settings.value_insert_self _ _ _
  cases htext : lastText current key ((rowOf line).entries current) with
  | none => exact ⟨[], by simp [applyRow_fst, Row.nextSection, htext, hempty], .inl rfl⟩
  | some last =>
    refine ⟨last, by simp [applyRow_fst, Row.nextSection, htext], .inr ?_⟩
    have hmem := mem_of_lastText htext
    cases hline : rowOf line with
    | heading new => simp [hline, Row.entries] at hmem
    | other => simp [hline, Row.entries] at hmem
    | entry k t =>
      rw [hline] at hmem
      obtain ⟨-, rfl, rfl⟩ := Entry.mk.inj (List.mem_singleton.mp hmem)
      rfl

/-- **After the last break** the key of its value has the empty text, or the end of the value. -/
theorem exists_last_break {updates : Settings N} {rs : List Row}
    (hrs : Proper rs) {name current : List Char}
    (hbroken : AllBroken T updates (entriesFrom name rs))
    (h : Breaks T updates name current rs) (settings : Settings N) :
    ∃ e ∈ entriesFrom name rs, ∃ v, updates.value e.heading e.key = some v ∧
      ¬Fits e.key (printValue T v) ∧ ∃ text,
        ((rewriteRows T updates name rs).foldl (applyRow T) (current, settings)).2.value
          e.heading e.key = some (typed T text) ∧
        (text = [] ∨ rowOf (trim (printValue T v)) = .entry e.key text) := by
  induction rs generalizing name current settings with
  | nil => exact h.elim
  | cons r rs ih =>
    have htail : AllBroken T updates (entriesFrom (r.nextSection name) rs) :=
      fun f hf => hbroken f (List.mem_append_right _ hf)
    by_cases hlater : Breaks T updates (r.nextSection name)
        (sectionAfter current (rewriteRow T updates name r)) rs
    · obtain ⟨e, he, hlast⟩ := ih hrs.tail htail hlater
        ((rewriteRow T updates name r).foldl (applyRow T) (current, settings)).2
      refine ⟨e, List.mem_append_right _ he, ?_⟩
      rw [rewriteRows, List.foldl_append, foldl_applyRow_eq T (rewriteRow T updates name r)]
      exact hlast
    · -- the last break: the rest leaves the key alone
      obtain ⟨rfl, hunfit⟩ := h.resolve_right hlater
      simp only [AllFit, not_forall] at hunfit
      obtain ⟨e, he, v, hv, hunfit⟩ := hunfit
      refine ⟨e, List.mem_append_left _ he, v, hv, hunfit, ?_⟩
      cases r with
      | heading new => cases he
      | other => cases he
      | entry key text =>
        obtain rfl := List.mem_singleton.mp he
        have hkey : IsKey key := hrs.isEntry.toIsKey
        have hrow := rewriteRow_broken T hkey hv
          (hbroken _ (List.mem_append_left _ he) v hv hunfit) text
        rw [rewriteRows, List.foldl_append, foldl_applyRow_eq T (rewriteRow T updates current _),
          rewriteRows_keeps T hv hunfit hrs.tail htail (.inr rfl) hlater, hrow]
        exact exists_value_after_break T current key _ settings

/-! ## 7. Read after write -/

/-- The text of an entry is shorter than its line, which has an `=`. -/
theorem equals_mem_of_rowOf {line key text : List Char} (h : rowOf line = .entry key text) :
    '=' ∈ line ∧ text.length < line.length := by
  obtain ⟨-, -, k, v, rfl, -, -, rfl⟩ := entry_cases h
  obtain ⟨front, back, hv, -, -⟩ := exists_trim_append v
  have hlen : (trim v).length ≤ v.length := by
    conv_rhs => rw [hv]
    simp only [List.length_append]
    omega
  refine ⟨by simp, ?_⟩
  rw [List.length_append, List.length_cons]
  omega

/-- **Only values that fit are read back**: a save that reads back as the overlay has no other. -/
theorem allFit_of_overlay {updates : Settings N} {content : List Char}
    (hmap : getSettings T (postSettings T updates content) =
      overlay T updates (getSettings T content)) : AllFit T updates (entries content) := by
  by_contra hunfit
  have hrs : Proper (rows content) := proper_rows content
  have hbroken : AllBroken T updates (entries content) :=
    fun e he v hv hnot => broken_of_overlay T hmap he hv hnot
  obtain ⟨e, he, v, hv, hnot, text, hvalue, htext⟩ := exists_last_break T hrs hbroken
    (breaks_of_not_allFit T hrs hunfit) fun _ => none
  obtain ⟨hposted, -⟩ := exists_text_of_overlay T hmap he hv
  rw [getSettings_eq_fold, rows_postSettings, hvalue] at hposted
  have htyped : typed T text = typed T (trim (printValue T v)) := Option.some.inj hposted
  have hkey : IsKey e.key := (isEntry_of_mem_entries he).toIsKey
  obtain ⟨hfeed, hline⟩ := hbroken e he v hv hnot
  rcases htext with rfl | hrow
  · rw [typed_nil] at htyped
    exact (hkey.rows_of_broken hfeed hline).1 (eq_of_typed_eq_string T htyped.symm)
  · obtain ⟨hequals, hshort⟩ := equals_mem_of_rowOf hrow
    rw [typed_of_mem T hequals (.inr (.inl rfl))] at htyped
    rw [← eq_of_typed_eq_string T htyped] at hshort
    omega

/-- **A save reads back as the overlay exactly when every posted value fits.** -/
theorem overlay_iff_allFit (updates : Settings N) (content : List Char) :
    getSettings T (postSettings T updates content) = overlay T updates (getSettings T content) ↔
      AllFit T updates (entries content) :=
  ⟨allFit_of_overlay T, getSettings_postSettings T⟩

end

end DcsDashboard.Srs
