/-
# Only the addressed lines are edited

`update_foothold_config` keeps a path of its own, which it pushes and pops by what three regular
expressions say of a line.  On a well-nested file it is the keys of the tables around every line,
and the edit is what it should be, line by line (`WellNested.runsWell`).

What is written is seen as the lines of the file, so a value with a line feed is more than the line
it replaces.  The edit changes the lines it addresses and no other exactly when no string with a
line feed is for a name that the file assigns (`updateFootholdConfig_addressed`); a file without
lines gets an empty one.
-/
import DcsDashboard.Foothold.ConfigReadAfterWrite
import DcsDashboard.Foothold.NestedLines

namespace DcsDashboard.Foothold

open Lib Lua

/-! ## 1. What an edit makes of the lines -/

section
variable (C : CharClasses)

/-- What is left to do after some lines. -/
def stateAfter (st : EditState) (ls : List (List Char)) : EditState :=
  ls.foldl (fun st line => (editLine C st line).1) st

/-- The path before each line. -/
def trackedPaths : EditState → List (List Char) → List (List (List Char))
  | _, [] => []
  | st, line :: ls => st.path :: trackedPaths (editLine C st line).1 ls

variable (updates : List (List Char × List Char))

/-- A line is the first that assigns a name with an update. -/
def Addressed (done : List Located) (l : Located) (value text : List Char) : Prop :=
  ∃ key, l.kind = .assign key value ∧ (joinPath (l.path ++ [key]), text) ∈ updates ∧
    ∀ m ∈ done, m.assigned ≠ some (l.path ++ [key])

/-- An update names a key of the table, and no line was addressed by it. -/
def IsNewEntry (done : List Located) (l : Located) (key text : List Char) : Prop :=
  (joinPath (l.path ++ [key]), text) ∈ updates ∧ text ≠ deleteMark ∧ '.' ∉ key ∧
    ∀ m ∈ done, m.assigned ≠ some (l.path ++ [key])

/-- **What an edit makes of a line**, after those that are done: the lines in its place.  A value
that is taken away leaves an empty line or none. -/
inductive EditedTo (done : List Located) (l : Located) : List (List Char) → Prop
  | kept (hkind : l.kind ≠ .closes) (h : ∀ value text, ¬Addressed updates done l value text) :
      EditedTo done l [l.line]
  | rewritten {value text : List Char} (h : Addressed updates done l value text)
      (htext : text ≠ deleteMark) : EditedTo done l [rewriteLine l.line value text]
  | blanked {value : List Char} (h : Addressed updates done l value deleteMark) :
      EditedTo done l [[]]
  | removed {value : List Char} (h : Addressed updates done l value deleteMark) :
      EditedTo done l []
  | closing {entries : List (List Char × List Char)} (hkind : l.kind = .closes)
      (hnodup : entries.Nodup)
      (hentries : ∀ key text, (key, text) ∈ entries ↔ IsNewEntry updates done l key text) :
      EditedTo done l ((entries.flatMap fun e =>
        (newRow C (l.line.takeWhile isWhitespace) e.1 e.2).splitOn '\n') ++ [l.line])

/-- What an edit makes of some lines, one after the other. -/
inductive EditedLines : List Located → List Located → List (List (List Char)) → Prop
  | nil {done : List Located} : EditedLines done [] []
  | cons {done ls : List Located} {l : Located} {b : List (List Char)}
      {bs : List (List (List Char))} (h : EditedTo C updates done l b)
      (hls : EditedLines (done ++ [l]) ls bs) : EditedLines done (l :: ls) (b :: bs)

end

/-- The lines of a file that ends with a line feed. -/
def physicalLines (text : List Char) : List (List Char) := (text.splitOn '\n').dropLast

theorem lineFeed_notMem_of_mem_physicalLines {text line : List Char}
    (h : line ∈ physicalLines text) : '\n' ∉ line :=
  lineFeed_notMem_of_mem_splitOn (List.dropLast_subset _ h)

/-- **The edit touches only the addressed lines**: the tracked path is the keys of the tables around
each line, and the lines of the file are what the edit is to make of each line, one after the
other. -/
def OnlyAddressed (C : CharClasses) (F : NumberFormat) (updates : List (List Char × Json))
    (content : List Char) (ls : List Located) : Prop :=
  trackedPaths C ⟨[], strUpdates F updates⟩ (lines content) = ls.map Located.path ∧
    ∃ blocks, EditedLines C (strUpdates F updates) [] ls blocks ∧
      physicalLines (updateFootholdConfig C F updates content) = blocks.flatten

section
variable {C : CharClasses} {updates : List (List Char × List Char)} {keepsBlank : Bool}

theorem EditedLines.append {done ls ls' : List Located} {bs bs' : List (List (List Char))}
    (h : EditedLines C updates done ls bs) (h' : EditedLines C updates (done ++ ls) ls' bs') :
    EditedLines C updates done (ls ++ ls') (bs ++ bs') := by
  induction h with
  | nil => simpa using h'
  | cons hl _ ih => exact .cons hl (ih (by simpa using h'))

/-- What becomes of one of the lines. -/
theorem EditedLines.mem {before after : List Located} {l : Located} :
    ∀ {done : List Located} {bs : List (List (List Char))},
      EditedLines C updates done (before ++ l :: after) bs →
      ∃ b ∈ bs, EditedTo C updates (done ++ before) l b := by
  induction before with
  | nil =>
    intro done bs h
    cases h with
    | cons hl _ => exact ⟨_, List.mem_cons_self, by simpa using hl⟩
  | cons m before ih =>
    intro done bs h
    cases h with
    | cons _ hls =>
      obtain ⟨b, hb, hedited⟩ := ih hls
      exact ⟨b, List.mem_cons_of_mem _ hb, by simpa using hedited⟩

theorem editLines_append (st : EditState) (ls ls' : List (List Char)) :
    editLines C st (ls ++ ls') = editLines C st ls ++ editLines C (stateAfter C st ls) ls' := by
  induction ls generalizing st with
  | nil => rfl
  | cons line ls ih => simp [editLines, stateAfter, ih]

theorem trackedPaths_append (st : EditState) (ls ls' : List (List Char)) :
    trackedPaths C st (ls ++ ls') =
      trackedPaths C st ls ++ trackedPaths C (stateAfter C st ls) ls' := by
  induction ls generalizing st with
  | nil => rfl
  | cons line ls ih => simp [trackedPaths, stateAfter, ih]

/-! ## 2. One line -/

theorem editLine_quiet {line : List Char} (h : IsKind line .quiet) (st : EditState) :
    editLine C st line = (st, line) := by
  obtain ⟨hend, hstart, hassign⟩ := matches_quiet (C := C) h
  simp [editLine, hend, hstart, hassign]

theorem editLine_opens {line key : List Char} (hC : C.Documented) (h : IsKind line (.opens key))
    (st : EditState) : editLine C st line = ({ st with path := st.path ++ [key] }, line) := by
  obtain ⟨hend, hstart⟩ := matches_opens hC h
  simp [editLine, hend, hstart]

theorem joinLines_concat {rows : List (List Char)} (h : rows ≠ []) (line : List Char) :
    joinLines (rows ++ [line]) = joinLines rows ++ '\n' :: line := by
  unfold joinLines
  induction rows with
  | nil => exact absurd rfl h
  | cons row rows ih =>
    by_cases hrows : rows = []
    · simp [hrows]
    · rw [List.cons_append, List.intercalate_cons_of_ne_nil (by simp),
        List.intercalate_cons_of_ne_nil hrows, ih hrows]
      simp

theorem editLine_closes {line : List Char} (h : IsKind line .closes) {st : EditState}
    (hne : st.path ≠ []) : editLine C st line =
      ({ st with path := st.path.dropLast },
        joinLines (toInsert C st.path st.updates line ++ [line])) := by
  rw [editLine, if_pos (matches_closes h), if_neg hne]
  dsimp only
  split
  · rename_i hnil
    rw [hnil]
    simp [joinLines]
  · rename_i hrows
    rw [joinLines_concat hrows]

/-- The keys of a path have no dots in them. -/
def DotFree (path : List (List Char)) : Prop := ∀ key ∈ path, '.' ∉ key

theorem DotFree.append {path : List (List Char)} (h : DotFree path) {key : List Char}
    (hkey : '.' ∉ key) : DotFree (path ++ [key]) := by
  intro k hk
  rcases List.mem_append.mp hk with hk | hk
  · exact h k hk
  · rwa [List.mem_singleton.mp hk]

/-- **Dotted names are not confused.** -/
theorem joinPath_inj {p q : List (List Char)} (hp : DotFree p) (hq : DotFree q) (hne : p ≠ [])
    (hne' : q ≠ []) (h : joinPath p = joinPath q) : p = q := by
  have hsplit := congrArg (List.splitOn '.') h
  unfold joinPath at hsplit
  rwa [List.splitOn_intercalate '.' hp hne, List.splitOn_intercalate '.' hq hne'] at hsplit

theorem KeyText.dotFree {key text : List Char} (h : KeyText key text) : '.' ∉ key := by
  cases h with
  | bracketed _ _ hdot => exact hdot
  | identifier hc hs =>
    intro hdot
    rcases List.mem_cons.mp hdot with rfl | hdot
    · exact absurd hc (by decide)
    · exact absurd (hs '.' hdot) (by decide)

theorem dotFree_of_assign {line key value : List Char} (h : IsKind line (.assign key value)) :
    '.' ∉ key := by
  cases h with
  | assign _ hkey => exact hkey.dotFree

theorem dotFree_of_opens {line key : List Char} (h : IsKind line (.opens key)) : '.' ∉ key := by
  cases h with
  | opens _ hkey => exact hkey.dotFree

/-- What the lines that are done assign. -/
def AssignsDotFree (done : List Located) : Prop := ∀ m ∈ done, ∀ p ∈ m.assigned, p ≠ [] ∧ DotFree p

/-- The updates that no line was addressed by. -/
def pendingAfter (updates : List (List Char × List Char)) (done : List Located) :
    List (List Char × List Char) :=
  updates.filter fun u => decide (∀ m ∈ done, m.assigned.map joinPath ≠ some u.1)

theorem mem_pendingAfter {done : List Located} {path : List (List Char)} {key text : List Char}
    (hdone : AssignsDotFree done) (hpath : DotFree path) (hkey : '.' ∉ key) :
    (joinPath (path ++ [key]), text) ∈ pendingAfter updates done ↔
      (joinPath (path ++ [key]), text) ∈ updates ∧ ∀ m ∈ done, m.assigned ≠ some (path ++ [key]) := by
  simp only [pendingAfter, List.mem_filter, decide_eq_true_eq]
  refine and_congr_right fun _ => forall₂_congr fun m hm => not_congr ?_
  constructor
  · intro h
    obtain ⟨p, hp, hjoin⟩ := Option.map_eq_some_iff.mp h
    obtain ⟨hne, hfree⟩ := hdone m hm p hp
    rw [hp, joinPath_inj hfree (hpath.append hkey) hne (by simp) hjoin]
  · intro h
    rw [h]
    rfl

theorem pendingAfter_concat (done : List Located) (l : Located) :
    pendingAfter updates (done ++ [l]) =
      (pendingAfter updates done).filter fun u => decide (l.assigned.map joinPath ≠ some u.1) := by
  rw [pendingAfter, pendingAfter, List.filter_filter]
  refine List.filter_congr fun u _ => Bool.eq_iff_iff.mpr ?_
  simp only [decide_eq_true_eq, Bool.and_eq_true, List.forall_mem_append, List.forall_mem_singleton]
  exact and_comm

/-- A line that assigns nothing leaves the updates as they are. -/
theorem pendingAfter_of_none {done : List Located} {l : Located} (h : l.assigned = none) :
    pendingAfter updates (done ++ [l]) = pendingAfter updates done := by
  rw [pendingAfter_concat, h]
  simp

/-- The lines for what is left of a line: none if it is empty, unless the file had an empty line. -/
def lineBlock (keepsBlank : Bool) (line : List Char) : List (List Char) :=
  if line ≠ [] ∨ keepsBlank = true then line.splitOn '\n' else []

theorem lineBlock_eq_singleton {line : List Char} (hline : '\n' ∉ line)
    (hkeeps : line ≠ [] ∨ keepsBlank = true) : lineBlock keepsBlank line = [line] := by
  rw [lineBlock, if_pos hkeeps, List.splitOn_eq_singleton hline]

theorem rewriteLine_ne_nil {line pre value text : List Char} {c : Char}
    (hc : isWhitespace c = false) (hmem : c ∈ pre) (hline : line = pre ++ value) :
    rewriteLine line value text ≠ [] := by
  intro hnil
  unfold rewriteLine trimEnd at hnil
  dsimp only at hnil
  have hall := List.rdropWhile_eq_nil_iff.mp hnil
  have hwhite := hall c (by simp [hline, hmem])
  rw [hc] at hwhite
  cases hwhite

/-- What is written for a value is behind the equals sign. -/
theorem rewriteLine_assign {line key value text : List Char}
    (h : IsKind line (.assign key value)) : rewriteLine line value text ≠ [] := by
  cases h with
  | @assign indent _ keyText before after =>
    have hequals : '=' ∈ indent ++ (keyText ++ (before ++ '=' :: after)) := by simp
    exact rewriteLine_ne_nil (by decide) hequals (by simp)

/-- A value without a line feed is written on one line. -/
theorem lineFeed_notMem_rewriteLine {line key value text : List Char}
    (h : IsKind line (.assign key value)) (hline : '\n' ∉ line) (htext : '\n' ∉ text) :
    '\n' ∉ rewriteLine line value text := by
  have hvalue : '\n' ∉ value := by
    cases h with
    | assign => exact fun hmem => hline (by simp [hmem])
  have hcomment : '\n' ∉ commentOf value := by
    unfold commentOf
    cases hfind : findText "--".toList value with
    | none => simp
    | some found =>
      obtain ⟨before, after⟩ := found
      intro hmem
      exact hvalue ((findText_spec hfind).1 ▸ List.mem_append_right _ hmem)
  have htake : '\n' ∉ line.take (line.length - value.length) :=
    fun hmem => hline (List.mem_of_mem_take hmem)
  unfold rewriteLine
  intro hmem
  have hall := (List.rdropWhile_prefix isWhitespace _).subset hmem
  simp only [List.mem_append, List.mem_cons, htake, htext, hcomment] at hall
  rcases hall with ((hall | hall) | hall) | hall
  · exact hall
  · exact hall
  · split at hall
    · exact absurd hall (by decide)
    · cases hall
  · exact absurd hall (by decide)

/-- A value with a line feed is not. -/
theorem lineFeed_mem_rewriteLine {text : List Char} (hends : EndsWell text) (htext : '\n' ∈ text)
    (line value : List Char) : '\n' ∈ rewriteLine line value text := by
  obtain ⟨front, c, rfl, hc, -⟩ := hends
  have hfront : '\n' ∈ front := by
    rcases List.mem_append.mp htext with hmem | hmem
    · exact hmem
    · rw [← List.mem_singleton.mp hmem] at hc
      exact absurd hc (by decide)
  obtain ⟨before, tail, hline⟩ : ∃ before tail,
      rewriteLine line value (front ++ [c]) = trimEnd (before ++ front ++ c :: tail) :=
    ⟨line.take (line.length - value.length), (if (trimEnd value).getLast? = some ',' ∧
      (front ++ [c]).getLast? ≠ some ',' then [','] else []) ++ ' ' :: commentOf value, by
      simp only [rewriteLine, List.append_assoc, List.cons_append, List.nil_append]⟩
  rw [hline, trimEnd_append hc]
  simp [hfront]

/-- The pending updates for the name of an assignment are those it is addressed by. -/
theorem mem_pendingAfter_iff_addressed {done : List Located} {path : List (List Char)}
    {line key value text : List Char} (hpath : DotFree path) (hkey : '.' ∉ key)
    (hdone : AssignsDotFree done) :
    (joinPath (path ++ [key]), text) ∈ pendingAfter updates done ↔
      Addressed updates done ⟨path, line, .assign key value⟩ value text := by
  rw [mem_pendingAfter hdone hpath hkey]
  constructor
  · rintro ⟨hmem, hfirst⟩
    exact ⟨key, rfl, hmem, hfirst⟩
  · rintro ⟨key', hkind, hmem, hfirst⟩
    obtain ⟨rfl, -⟩ := Kind.assign.inj hkind
    exact ⟨hmem, hfirst⟩

/-- After an assignment no update for its name is pending. -/
theorem pendingAfter_assign (done : List Located) (path : List (List Char))
    (line key value : List Char) :
    pendingAfter updates (done ++ [⟨path, line, .assign key value⟩]) =
      (pendingAfter updates done).filter (·.1 ≠ joinPath (path ++ [key])) := by
  rw [pendingAfter_concat]
  refine List.filter_congr ?_
  intro u _
  simp [Located.assigned, eq_comm]

/-- **An assignment.**  Its line is addressed if a pending update has its name. -/
theorem editLine_assign {done : List Located} {path : List (List Char)} {line key value : List Char}
    (hC : C.Documented) (h : IsKind line (.assign key value)) (hpath : DotFree path)
    (hdone : AssignsDotFree done) :
    (editLine C ⟨path, pendingAfter updates done⟩ line).1 =
        ⟨path, pendingAfter updates (done ++ [⟨path, line, .assign key value⟩])⟩ ∧
      ('\n' ∉ line → (∀ text, (joinPath (path ++ [key]), text) ∈ updates → '\n' ∉ text) →
        EditedTo C updates done ⟨path, line, .assign key value⟩
          (lineBlock keepsBlank (editLine C ⟨path, pendingAfter updates done⟩ line).2)) := by
  obtain ⟨hend, hstart, hassign⟩ := matches_assign hC h
  have hline : line ≠ [] := by
    rintro rfl
    cases hassign
  have hmem (text : List Char) := @mem_pendingAfter_iff_addressed updates done path line key value
    text hpath (dotFree_of_assign h) hdone
  rw [pendingAfter_assign]
  simp only [editLine, hend, hstart, hassign, Bool.false_eq_true, if_false]
  cases hlookup : (pendingAfter updates done).lookup (joinPath (path ++ [key])) with
  | none =>
    have hnone : ∀ u ∈ pendingAfter updates done, u.1 ≠ joinPath (path ++ [key]) := fun u hu heq =>
      lookup_eq_none_iff_notMem.mp hlookup (List.mem_map.mpr ⟨u, hu, heq⟩)
    refine ⟨?_, ?_⟩
    · rw [List.filter_eq_self.mpr fun u hu => by simpa using hnone u hu]
    · intro hfeed _
      rw [lineBlock_eq_singleton hfeed (.inl hline)]
      refine .kept (by simp) ?_
      intro value' text haddressed
      obtain ⟨_, hkind, -⟩ := id haddressed
      obtain ⟨-, rfl⟩ := Kind.assign.inj hkind
      exact hnone _ ((hmem text).mpr haddressed) rfl
  | some text =>
    have haddressed := (hmem text).mp (mem_of_lookup hlookup)
    refine ⟨rfl, ?_⟩
    intro hfeed hplain
    have htext : '\n' ∉ text := by
      obtain ⟨_, hkind, hmem, -⟩ := id haddressed
      obtain ⟨rfl, -⟩ := Kind.assign.inj hkind
      exact hplain text hmem
    dsimp only
    split
    · rename_i hmark
      subst hmark
      cases keepsBlank with
      | true => exact .blanked haddressed
      | false => exact .removed haddressed
    · rename_i hmark
      rw [lineBlock_eq_singleton (lineFeed_notMem_rewriteLine h hfeed htext)
        (.inl (rewriteLine_assign h))]
      exact .rewritten haddressed hmark

/-- Lines joined with line feeds, as lines. -/
theorem splitOn_joinLines {ls : List (List Char)} (h : ls ≠ []) :
    (joinLines ls).splitOn '\n' = ls.flatMap (·.splitOn '\n') := by
  unfold joinLines
  induction ls with
  | nil => exact absurd rfl h
  | cons l ls ih =>
    by_cases hls : ls = []
    · simp [hls]
    · rw [List.intercalate_cons_of_ne_nil hls, List.append_assoc, List.singleton_append,
        List.splitOn_append_cons_self, ih hls, List.flatMap_cons]

/-- The keys and texts of the rows that go before the end of a table. -/
def newEntries (path : List (List Char)) (pending : List (List Char × List Char)) :
    List (List Char × List Char) :=
  pending.filterMap fun u =>
    if u.2 = deleteMark then none else (localKey (joinPath path) u.1).map fun key => (key, u.2)

theorem toInsert_eq (path : List (List Char)) (pending : List (List Char × List Char))
    (line : List Char) : toInsert C path pending line =
      (newEntries path pending).map fun e =>
        newRow C (line.takeWhile isWhitespace) e.1 e.2 := by
  rw [toInsert, newEntries, List.map_filterMap]
  refine List.filterMap_congr ?_
  intro u _
  by_cases hmark : u.2 = deleteMark
  · simp [hmark]
  · simp [hmark, Function.comp_def]

theorem mem_newEntries {path : List (List Char)} {pending : List (List Char × List Char)}
    {key text : List Char} : (key, text) ∈ newEntries path pending ↔
      (joinPath path ++ '.' :: key, text) ∈ pending ∧ text ≠ deleteMark ∧ '.' ∉ key := by
  simp only [newEntries, List.mem_filterMap, Prod.exists, Option.ite_none_left_eq_some,
    Option.map_eq_some_iff, localKey_eq_some, Prod.mk.injEq]
  constructor
  · rintro ⟨name, text, hmem, hmark, key, ⟨rfl, hdot⟩, rfl, rfl⟩
    exact ⟨hmem, hmark, hdot⟩
  · rintro ⟨hmem, hmark, hdot⟩
    exact ⟨_, text, hmem, hmark, key, ⟨rfl, hdot⟩, rfl, rfl⟩

/-- Different names in a table have different keys. -/
theorem nodup_newEntries (path : List (List Char)) {pending : List (List Char × List Char)}
    (h : (pending.map Prod.fst).Nodup) : (newEntries path pending).Nodup := by
  refine List.Nodup.filterMap ?_ (List.Nodup.of_map _ h)
  rintro ⟨name, text⟩ ⟨name', text'⟩ ⟨key, w⟩ he he'
  simp only [Option.mem_def, Option.ite_none_left_eq_some, Option.map_eq_some_iff,
    localKey_eq_some, Prod.mk.injEq] at he he'
  obtain ⟨-, _, ⟨rfl, -⟩, rfl, rfl⟩ := he
  obtain ⟨-, _, ⟨rfl, -⟩, rfl, rfl⟩ := he'
  rfl

/-- **The end of a table.**  The rows are those for the pending updates that name its keys. -/
theorem editLine_end {done : List Located} {path : List (List Char)} {key line : List Char}
    (h : IsKind line .closes) (hpath : DotFree (path ++ [key])) (hdone : AssignsDotFree done) :
    (editLine C ⟨path ++ [key], pendingAfter updates done⟩ line).1 =
        ⟨path, pendingAfter updates (done ++ [⟨path ++ [key], line, .closes⟩])⟩ ∧
      ('\n' ∉ line → (updates.map Prod.fst).Nodup →
        EditedTo C updates done ⟨path ++ [key], line, .closes⟩
          (lineBlock keepsBlank
            (editLine C ⟨path ++ [key], pendingAfter updates done⟩ line).2)) := by
  have hline : line ≠ [] := by
    rintro rfl
    exact absurd (matches_closes h) (by decide)
  rw [editLine_closes h (by simp)]
  refine ⟨by rw [pendingAfter_of_none rfl, List.dropLast_concat], ?_⟩
  intro hfeed hnodup
  dsimp only
  have hjoined : joinLines (toInsert C (path ++ [key]) (pendingAfter updates done) line ++ [line]) ≠
      [] := by
    by_cases hrows : toInsert C (path ++ [key]) (pendingAfter updates done) line = []
    · simpa [hrows, joinLines] using hline
    · simp [joinLines_concat hrows]
  rw [lineBlock, if_pos (.inl hjoined), splitOn_joinLines (by simp), List.flatMap_append,
    List.flatMap_singleton, List.splitOn_eq_singleton hfeed, toInsert_eq, List.flatMap_map]
  refine .closing rfl (nodup_newEntries _ ?_) ?_
  · exact ((List.filter_sublist (l := updates)).map Prod.fst).nodup hnodup
  · intro key' text
    rw [mem_newEntries]
    constructor
    · rintro ⟨hmem, hmark, hdot⟩
      rw [← joinPath_append (by simp)] at hmem
      obtain ⟨hupdate, hfirst⟩ := (mem_pendingAfter hdone hpath hdot).mp hmem
      exact ⟨hupdate, hmark, hdot, hfirst⟩
    · rintro ⟨hupdate, hmark, hdot, hfirst⟩
      have hmem := (mem_pendingAfter hdone hpath hdot).mpr ⟨hupdate, hfirst⟩
      rw [joinPath_append (by simp)] at hmem
      exact ⟨hmem, hmark, hdot⟩

/-! ## 3. The whole file -/

/-- What keeps an edit to one line for each line: names have one update, and none of what is written
on a line has a line feed. -/
structure OnOneLine (updates : List (List Char × List Char)) (keepsBlank : Bool)
    (ls : List Located) : Prop where
  nodup : (updates.map Prod.fst).Nodup
  lines : ∀ l ∈ ls, '\n' ∉ l.line
  blank : ∀ l ∈ ls, l.line = [] → keepsBlank = true
  texts : ∀ l ∈ ls, ∀ p ∈ l.assigned, ∀ text, (joinPath p, text) ∈ updates → '\n' ∉ text

theorem OnOneLine.mono {ls ls' : List Located} (h : OnOneLine updates keepsBlank ls)
    (hsub : ls' ⊆ ls) : OnOneLine updates keepsBlank ls' :=
  ⟨h.nodup, fun l hl => h.lines l (hsub hl), fun l hl => h.blank l (hsub hl),
    fun l hl => h.texts l (hsub hl)⟩

/-- What happens on lines that lead from one path to another, after those that are done. -/
structure RunsWell (C : CharClasses) (updates : List (List Char × List Char)) (keepsBlank : Bool)
    (path path' : List (List Char)) (done ls : List Located) : Prop where
  tracked : trackedPaths C ⟨path, pendingAfter updates done⟩ (ls.map Located.line) =
    ls.map Located.path
  after : stateAfter C ⟨path, pendingAfter updates done⟩ (ls.map Located.line) =
    ⟨path', pendingAfter updates (done ++ ls)⟩
  edited : OnOneLine updates keepsBlank ls → EditedLines C updates done ls
    ((editLines C ⟨path, pendingAfter updates done⟩ (ls.map Located.line)).map
      (lineBlock keepsBlank))
  dotFree : AssignsDotFree (done ++ ls)

section
variable {path path' path'' : List (List Char)} {done ls ls' : List Located} {l : Located}

theorem RunsWell.nil (h : AssignsDotFree done) : RunsWell C updates keepsBlank path path done [] :=
  ⟨rfl, by simp [stateAfter], fun _ => .nil, by simpa using h⟩

/-- One line. -/
theorem RunsWell.line (hl : (editLine C ⟨l.path, pendingAfter updates done⟩ l.line).1 =
      ⟨path, pendingAfter updates (done ++ [l])⟩)
    (hedited : OnOneLine updates keepsBlank [l] → EditedTo C updates done l
      (lineBlock keepsBlank (editLine C ⟨l.path, pendingAfter updates done⟩ l.line).2))
    (hdone : AssignsDotFree (done ++ [l])) :
    RunsWell C updates keepsBlank l.path path done [l] :=
  ⟨rfl, hl, fun h => .cons (hedited h) .nil, hdone⟩

theorem RunsWell.append (h : RunsWell C updates keepsBlank path path' done ls)
    (h' : RunsWell C updates keepsBlank path' path'' (done ++ ls) ls') :
    RunsWell C updates keepsBlank path path'' done (ls ++ ls') where
  tracked := by
    rw [List.map_append, trackedPaths_append, h.tracked, h.after, h'.tracked, List.map_append]
  after := by
    have hafter := h.after
    have hafter' := h'.after
    unfold stateAfter at hafter hafter' ⊢
    rw [List.map_append, List.foldl_append, hafter, hafter', List.append_assoc]
  edited hone := by
    rw [List.map_append, editLines_append, h.after, List.map_append]
    exact (h.edited (hone.mono (List.subset_append_left _ _))).append
      (h'.edited (hone.mono (List.subset_append_right _ _)))
  dotFree := by
    rw [← List.append_assoc]
    exact h'.dotFree

theorem AssignsDotFree.concat (h : AssignsDotFree done)
    (hl : ∀ p ∈ l.assigned, p ≠ [] ∧ DotFree p) : AssignsDotFree (done ++ [l]) := by
  intro m hm
  rcases List.mem_append.mp hm with hm | hm
  · exact h m hm
  · rwa [List.mem_singleton.mp hm]

theorem AssignsDotFree.concat_none (h : AssignsDotFree done) (hl : l.assigned = none) :
    AssignsDotFree (done ++ [l]) := h.concat (by simp [hl])

theorem runsWell_quiet {line : List Char} (hline : IsKind line .quiet)
    (hdone : AssignsDotFree done) :
    RunsWell C updates keepsBlank path path done [⟨path, line, .quiet⟩] := by
  refine RunsWell.line (l := ⟨path, line, .quiet⟩) ?_ (fun hone => ?_) (hdone.concat_none rfl)
  · rw [editLine_quiet hline, pendingAfter_of_none rfl]
  · have hkept : line ≠ [] ∨ keepsBlank = true := by
      by_cases hnil : line = []
      · exact .inr (hone.blank _ List.mem_cons_self hnil)
      · exact .inl hnil
    rw [editLine_quiet hline, lineBlock_eq_singleton (hone.lines _ List.mem_cons_self) hkept]
    exact .kept (by simp) (by rintro value text ⟨key, hkind, -⟩; cases hkind)

theorem runsWell_assign {line key value : List Char} (hC : C.Documented)
    (hline : IsKind line (.assign key value)) (hpath : DotFree path) (hdone : AssignsDotFree done) :
    RunsWell C updates keepsBlank path path done [⟨path, line, .assign key value⟩] := by
  have hstep := @editLine_assign C updates keepsBlank done path line key value hC hline hpath hdone
  refine RunsWell.line (l := ⟨path, line, .assign key value⟩) hstep.1 (fun hone => ?_)
    (hdone.concat ?_)
  · exact hstep.2 (hone.lines _ List.mem_cons_self)
      (hone.texts _ List.mem_cons_self (path ++ [key]) rfl)
  · simpa [Located.assigned] using hpath.append (dotFree_of_assign hline)

theorem runsWell_opens {line key : List Char} (hC : C.Documented)
    (hline : IsKind line (.opens key)) (hdone : AssignsDotFree done) :
    RunsWell C updates keepsBlank path (path ++ [key]) done [⟨path, line, .opens key⟩] := by
  have hne : line ≠ [] := by
    rintro rfl
    obtain ⟨-, hstart⟩ := matches_opens hC hline
    cases hstart
  refine RunsWell.line (l := ⟨path, line, .opens key⟩) ?_ (fun hone => ?_) (hdone.concat_none rfl)
  · rw [editLine_opens hC hline, pendingAfter_of_none rfl]
  · rw [editLine_opens hC hline, lineBlock_eq_singleton (hone.lines _ List.mem_cons_self) (.inl hne)]
    exact .kept (by simp) (by rintro value text ⟨key, hkind, -⟩; cases hkind)

theorem runsWell_closes {line key : List Char} (hline : IsKind line .closes)
    (hpath : DotFree (path ++ [key])) (hdone : AssignsDotFree done) :
    RunsWell C updates keepsBlank (path ++ [key]) path done
      [⟨path ++ [key], line, .closes⟩] := by
  have hstep := @editLine_end C updates keepsBlank done path key line hline hpath hdone
  exact RunsWell.line (l := ⟨path ++ [key], line, .closes⟩) hstep.1
    (fun hone => hstep.2 (hone.lines _ List.mem_cons_self) hone.nodup) (hdone.concat_none rfl)

/-- **The path is the tables around a line**, and the edit is what it should be, line by line. -/
theorem WellNested.runsWell (hC : C.Documented) (h : WellNested path ls) :
    ∀ {done : List Located}, DotFree path → AssignsDotFree done →
      RunsWell C updates keepsBlank path path done ls := by
  induction h with
  | nil => exact fun _ hdone => .nil hdone
  | @quiet path line ls hline _ ih =>
    intro done hpath hdone
    have hquiet : RunsWell C updates keepsBlank path path done [⟨path, line, .quiet⟩] :=
      runsWell_quiet hline hdone
    exact hquiet.append (ih hpath hquiet.dotFree)
  | @assign path line key value ls hline _ ih =>
    intro done hpath hdone
    have hassign : RunsWell C updates keepsBlank path path done
        [⟨path, line, .assign key value⟩] := runsWell_assign hC hline hpath hdone
    exact hassign.append (ih hpath hassign.dotFree)
  | @table path opening closing key inside ls hopens _ hcloses _ ihinside ih =>
    intro done hpath hdone
    have hpath' := hpath.append (dotFree_of_opens hopens)
    have hopening : RunsWell C updates keepsBlank path (path ++ [key]) done
        [⟨path, opening, .opens key⟩] := runsWell_opens hC hopens hdone
    have hinside := hopening.append (ihinside hpath' hopening.dotFree)
    have hclosing := hinside.append (runsWell_closes hcloses hpath' hinside.dotFree)
    have hall := hclosing.append (ih hpath hclosing.dotFree)
    simpa using hall

end

/-! ## 4. The updates as they come -/

section
variable {F : NumberFormat}

/-- A number in JSON is written without white space. -/
def SerializesPlainly (F : NumberFormat) : Prop := ∀ n, ∀ c ∈ F.serialize n, isWhitespace c = false

theorem mem_strUpdates {updates : List (List Char × Json)} {name text : List Char} :
    (name, text) ∈ strUpdates F updates ↔ ∃ v, (name, v) ∈ updates ∧ valueText F v = some text := by
  simp only [strUpdates, List.mem_filterMap, Prod.exists, Option.map_eq_some_iff, Prod.mk.injEq]
  constructor
  · rintro ⟨name, v, hmem, text, htext, rfl, rfl⟩
    exact ⟨v, hmem, htext⟩
  · rintro ⟨v, hmem, htext⟩
    exact ⟨name, v, hmem, text, htext, rfl, rfl⟩

theorem nodup_strUpdates {updates : List (List Char × Json)} (h : (updates.map Prod.fst).Nodup) :
    ((strUpdates F updates).map Prod.fst).Nodup := by
  have hsub : ((strUpdates F updates).map Prod.fst).Sublist (updates.map Prod.fst) := by
    induction updates with
    | nil => exact List.Sublist.refl _
    | cons u updates ih =>
      obtain ⟨name, v⟩ := u
      have ih := ih (List.nodup_cons.mp h).2
      cases htext : valueText F v with
      | none => simpa [strUpdates, htext] using ih.cons name
      | some text => simpa [strUpdates, htext] using ih.cons_cons name
  exact hsub.nodup h

/-- What is written for a string ends with a quote or a brace. -/
theorem endsWell_valueText {s : String} {text : List Char}
    (h : valueText F (.str s) = some text) : EndsWell text := by
  simp only [valueText, Option.some.injEq] at h
  subst h
  split
  · rename_i hliteral
    simp only [isLiteral, Bool.and_eq_true, decide_eq_true_eq] at hliteral
    obtain ⟨front, hfront⟩ := List.getLast?_eq_some_iff.mp hliteral.2
    exact ⟨front, '\x7d', hfront, by decide, by decide⟩
  · exact ⟨_, '"', rfl, by decide, by decide⟩

/-- **Only strings put line feeds into the file.** -/
theorem lineFeed_mem_valueText (hF : SerializesPlainly F) {v : Json} {text : List Char}
    (h : valueText F v = some text) : '\n' ∈ text ↔ ∃ s, v = .str s ∧ '\n' ∈ s.toList := by
  cases v with
  | null =>
    cases h
    exact iff_of_false (by decide) (by rintro ⟨s, hs, -⟩; cases hs)
  | bool b =>
    cases h
    refine iff_of_false ?_ (by rintro ⟨s, hs, -⟩; cases hs)
    cases b <;> decide
  | num n =>
    cases h
    refine iff_of_false (fun hmem => ?_) (by rintro ⟨s, hs, -⟩; cases hs)
    exact absurd (hF n '\n' hmem) (by decide)
  | arr _ => cases h
  | obj _ => cases h
  | str s =>
    have hsame : '\n' ∈ text ↔ '\n' ∈ s.toList := by
      simp only [valueText, Option.some.injEq] at h
      subst h
      split
      · exact Iff.rfl
      · have hescaped : ∀ c : Char,
            '\n' ∈ (if c = '"' then ['\\', '"'] else [c]) ↔ '\n' = c := by
          intro c
          split
          · rename_i hquote
            subst hquote
            decide
          · exact List.mem_singleton
        simp only [List.mem_append, List.mem_cons, List.mem_flatMap, hescaped]
        simp
    rw [hsame]
    exact ⟨fun hmem => ⟨s, rfl, hmem⟩, by rintro ⟨s', hs, hmem⟩; cases hs; exact hmem⟩

/-! ## 5. When only the addressed lines are edited -/

variable {updates : List (List Char × Json)} {content : List Char} {ls : List Located}

/-- The lines of what is written line by line. -/
theorem physicalLines_flatMap (final : List (List Char)) :
    physicalLines (final.flatMap (· ++ ['\n'])) = final.flatMap (·.splitOn '\n') := by
  induction final with
  | nil => rfl
  | cons l final ih =>
    rw [List.flatMap_cons, List.flatMap_cons, ← ih, List.append_assoc, List.singleton_append,
      physicalLines, physicalLines, List.splitOn_append_cons_self,
      List.dropLast_append_of_ne_nil (List.splitOn_ne_nil '\n' _)]

/-- The lines of the file after an edit: an edit that leaves none leaves an empty one. -/
theorem physicalLines_update : physicalLines (updateFootholdConfig C F updates content) =
    let blocks := (editLines C ⟨[], strUpdates F updates⟩ (lines content)).map
      (lineBlock (decide ([] ∈ lines content)))
    if blocks.flatten = [] then [[]] else blocks.flatten := by
  have hblocks : ∀ ls : List (List Char), (ls.map (lineBlock (decide ([] ∈ lines content)))).flatten =
      (ls.filter fun l => l ≠ [] ∨ [] ∈ lines content).flatMap (·.splitOn '\n') := by
    intro ls
    induction ls with
    | nil => rfl
    | cons l ls ih =>
      by_cases hl : l ≠ [] ∨ [] ∈ lines content
      · rw [List.map_cons, List.flatten_cons, ih, List.filter_cons_of_pos (by simpa using hl),
          List.flatMap_cons, lineBlock, if_pos (by simpa using hl)]
      · rw [List.map_cons, List.flatten_cons, ih, List.filter_cons_of_neg (by simpa using hl),
          lineBlock, if_neg (by simpa using hl), List.nil_append]
  simp only [hblocks, updateFootholdConfig]
  generalize (editLines C ⟨[], strUpdates F updates⟩ (lines content)).filter
    (fun l => decide (l ≠ [] ∨ [] ∈ lines content)) = final
  cases final with
  | nil => rfl
  | cons l final =>
    rw [joinLines_append_lineFeed (List.cons_ne_nil _ _), physicalLines_flatMap, if_neg]
    rw [List.flatMap_cons]
    exact fun hnil => List.splitOn_ne_nil '\n' l (List.append_eq_nil_iff.mp hnil).1

/-- A line that goes may as well be left empty. -/
theorem EditedTo.blank {updates : List (List Char × List Char)} {done : List Located} {l : Located}
    (h : EditedTo C updates done l []) : EditedTo C updates done l [[]] := by
  generalize hb : ([] : List (List Char)) = b at h
  cases h with
  | removed h => exact .blanked h
  | kept => cases hb
  | rewritten => cases hb
  | blanked => cases hb
  | closing => simp at hb

/-- **The edit of a file with lines**, none of them for a string with a line feed. -/
theorem onlyAddressed_of_oneLine (hC : C.Documented) (hnested : WellNested [] ls)
    (hlines : lines content = ls.map Located.line) (hne : ls ≠ [])
    (hone : OnOneLine (strUpdates F updates) (decide ([] ∈ lines content)) ls) :
    OnlyAddressed C F updates content ls := by
  have hrun : RunsWell C (strUpdates F updates) (decide ([] ∈ lines content)) [] [] [] ls :=
    hnested.runsWell hC (by simp [DotFree]) (by simp [AssignsDotFree])
  have hstart : pendingAfter (strUpdates F updates) [] = strUpdates F updates := by
    simp [pendingAfter]
  have htracked := hrun.tracked
  have hedited := hrun.edited hone
  rw [hstart, ← hlines] at htracked hedited
  refine ⟨htracked, ?_⟩
  rw [physicalLines_update]
  generalize (editLines C ⟨[], strUpdates F updates⟩ (lines content)).map
    (lineBlock (decide ([] ∈ lines content))) = blocks at hedited
  by_cases hflat : blocks.flatten = []
  · -- every line went, and the first is left empty instead
    cases hedited with
    | nil => exact absurd rfl hne
    | @cons _ _ l b bs hl hls =>
      have hb : b = [] := by simpa using List.flatten_eq_nil_iff.mp hflat b List.mem_cons_self
      subst hb
      refine ⟨_, .cons hl.blank hls, ?_⟩
      rw [List.flatten_cons, List.nil_append] at hflat
      simp [hflat]
  · exact ⟨blocks, hedited, if_neg hflat⟩

/-- What an edit makes of the first line that assigns a name is one line, which a string with a line
feed cannot be. -/
theorem OnlyAddressed.lineFeed_notMem (h : OnlyAddressed C F updates content ls)
    (hF : SerializesPlainly F) (hupdates : (updates.map Prod.fst).Nodup) {l : Located} (hl : l ∈ ls)
    {p : List (List Char)} (hp : l.assigned = some p) {s : String}
    (hs : (joinPath p, Json.str s) ∈ updates) : '\n' ∉ s.toList := by
  intro hfeed
  obtain ⟨-, blocks, hedited, hphysical⟩ := h
  -- the first line that assigns the name
  obtain ⟨m, hfind⟩ : ∃ m, ls.find? (fun m => decide (m.assigned = some p)) = some m := by
    rw [← Option.isSome_iff_exists, List.find?_isSome]
    exact ⟨l, hl, by simpa using hp⟩
  obtain ⟨hm, before, after, rfl, hbefore⟩ := List.find?_eq_some_iff_append.mp hfind
  have hm : m.assigned = some p := by simpa using hm
  have hbefore : ∀ m ∈ before, m.assigned ≠ some p := by simpa using hbefore
  obtain ⟨b, hb, hedited⟩ := hedited.mem
  rw [List.nil_append] at hedited
  -- it is addressed, by the text for the string
  obtain ⟨text, htext⟩ : ∃ text, valueText F (.str s) = some text := ⟨_, rfl⟩
  have htextfeed : '\n' ∈ text := (lineFeed_mem_valueText hF htext).mpr ⟨s, rfl, hfeed⟩
  have hupdate : (joinPath p, text) ∈ strUpdates F updates := mem_strUpdates.mpr ⟨_, hs, htext⟩
  obtain ⟨key, value, hkind, rfl⟩ : ∃ key value, m.kind = .assign key value ∧
      p = m.path ++ [key] := by
    unfold Located.assigned at hm
    split at hm
    · rename_i key value hkind
      exact ⟨key, value, hkind, (Option.some.inj hm).symm⟩
    all_goals cases hm
  have hunique : ∀ {value' text'}, Addressed (strUpdates F updates) before m value' text' →
      text' = text := by
    rintro value' text' ⟨key', hkind', hmem, -⟩
    obtain ⟨rfl, -⟩ := Kind.assign.inj (hkind.symm.trans hkind')
    exact List.inj_on_of_nodup_map (nodup_strUpdates hupdates) hmem hupdate rfl |> Prod.mk.inj |>.2
  have hmark : text ≠ deleteMark := by
    rintro rfl
    exact absurd htextfeed (by decide)
  cases hedited with
  | kept _ hnot => exact hnot value text ⟨key, hkind, hupdate, hbefore⟩
  | @rewritten value' text' haddressed _ =>
    rw [hunique haddressed] at hb
    have hline := lineFeed_mem_rewriteLine (endsWell_valueText htext) htextfeed m.line value'
    have hwritten : rewriteLine m.line value' text ∈
        physicalLines (updateFootholdConfig C F updates content) := by
      rw [hphysical]
      exact List.mem_flatten.mpr ⟨_, hb, List.mem_singleton_self _⟩
    exact lineFeed_notMem_of_mem_physicalLines hwritten hline
  | blanked haddressed => exact hmark (hunique haddressed).symm
  | removed haddressed => exact hmark (hunique haddressed).symm
  | closing hcloses =>
    rw [hkind] at hcloses
    cases hcloses

/-- A file without lines gets one. -/
theorem OnlyAddressed.ne_nil (h : OnlyAddressed C F updates content ls)
    (hlines : lines content = ls.map Located.line) : ls ≠ [] := by
  rintro rfl
  obtain ⟨-, blocks, hedited, hphysical⟩ := h
  cases hedited
  rw [physicalLines_update, hlines] at hphysical
  cases hphysical

end

end

/-- **When only the addressed lines are edited.**  On a well-nested file the edit touches only the
addressed lines exactly when the file has a line and no string with a line feed is for a name that
the file assigns. -/
theorem updateFootholdConfig_addressed {C : CharClasses} (hC : C.Documented) {F : NumberFormat}
    (hF : SerializesPlainly F) {updates : List (List Char × Json)}
    (hupdates : (updates.map Prod.fst).Nodup) {content : List Char} {ls : List Located}
    (hnested : WellNested [] ls) (hlines : lines content = ls.map Located.line) :
    OnlyAddressed C F updates content ls ↔
      ls ≠ [] ∧ ∀ l ∈ ls, ∀ p ∈ l.assigned, ∀ s, (joinPath p, Json.str s) ∈ updates →
        '\n' ∉ s.toList := by
  constructor
  · intro h
    exact ⟨h.ne_nil hlines, fun l hl p hp s hs => h.lineFeed_notMem hF hupdates hl hp hs⟩
  · rintro ⟨hne, hplain⟩
    refine onlyAddressed_of_oneLine hC hnested hlines hne ⟨nodup_strUpdates hupdates, ?_, ?_, ?_⟩
    · intro l hl
      refine lineFeed_notMem_of_mem_lines (s := content) ?_
      rw [hlines]
      exact List.mem_map_of_mem hl
    · intro l hl hnil
      rw [hlines]
      simpa using ⟨l, hl, hnil⟩
    · intro l hl p hp text hmem hfeed
      obtain ⟨v, hv, htext⟩ := mem_strUpdates.mp hmem
      obtain ⟨s, rfl, hs⟩ := (lineFeed_mem_valueText hF htext).mp hfeed
      exact hplain l hl p hp s hv hs

theorem asciiClasses_documented : asciiClasses.Documented where
  name _ h := h
  white c h := by
    by_contra hname
    have hname : isNameChar c = true := by simpa [asciiClasses] using hname
    rw [not_isWhitespace_of_isNameChar hname] at h
    cases h
  equals := by decide

theorem integers_serializesPlainly : SerializesPlainly integers := by
  intro n c hc
  have hdigits : ∀ m : Nat, ∀ d ∈ Nat.toDigits 10 m, isWhitespace d = false := by
    intro m d hd
    have hdigit := Nat.isDigit_of_mem_toDigits (by decide) (by decide) hd
    exact not_isWhitespace_of_isNameChar (by simp [isNameChar, Char.isAlphanum, hdigit])
  have hc : c ∈ intText ⌊n⌋ := hc
  unfold intText at hc
  split at hc
  · rcases List.mem_cons.mp hc with rfl | hc
    · decide
    · exact hdigits _ c hc
  · exact hdigits _ c hc

/-! ## 6. A file with two speeds -/

theorem keyText_letter {c : Char} (h : c.isAlpha = true) : KeyText [c] [c] :=
  .identifier (by simp [h]) (by simp)

/-- One key in a table and outside of it. -/
def twoSpeeds : List Located :=
  [⟨[], "A = \x7b".toList, .opens ['A']⟩,
    ⟨[['A']], "  x = 1,".toList, .assign ['x'] "1,".toList⟩,
    ⟨[['A']], "\x7d,".toList, .closes⟩,
    ⟨[], [], .quiet⟩,
    ⟨[], "x = 2".toList, .assign ['x'] ['2']⟩]

theorem twoSpeeds_wellNested : WellNested [] twoSpeeds := by
  have hA : IsKind "A = \x7b".toList (.opens ['A']) :=
    @IsKind.opens [] _ _ [' '] [' '] ['\x7b'] (by simp [Blank]) (keyText_letter (by decide))
      (by simp [Blank]; decide) (by simp [Blank]; decide) ⟨[], rfl, .inl (by simp [Blank])⟩
  have hinner : IsKind "  x = 1,".toList (.assign ['x'] "1,".toList) :=
    @IsKind.assign [' ', ' '] _ _ [' '] [' '] "1,".toList (by simp [Blank]; decide)
      (keyText_letter (by decide)) (by simp [Blank]; decide) (by simp [Blank]; decide)
      (by simp; decide) (by rintro ⟨tail, htail, -⟩; simp at htail)
  have hend : IsKind "\x7d,".toList .closes :=
    @IsKind.closes [] [','] [] (by simp [Blank]) (.inr rfl) (.inl (by simp [Blank]))
  have houter : IsKind "x = 2".toList (.assign ['x'] ['2']) :=
    @IsKind.assign [] _ _ [' '] [' '] ['2'] (by simp [Blank])
      (keyText_letter (by decide)) (by simp [Blank]; decide) (by simp [Blank]; decide)
      (by simp; decide) (by rintro ⟨tail, htail, -⟩; simp at htail)
  exact @WellNested.table [] _ _ _ _ _ hA (.assign hinner .nil) hend
    (.quiet (.blank (by simp [Blank] : Blank [])) (.assign houter .nil))

/-- The text of the file. -/
def twoSpeedsText : List Char := "A = \x7b\n  x = 1,\n\x7d,\n\nx = 2".toList

theorem lines_twoSpeeds : lines twoSpeedsText = twoSpeeds.map Located.line := by decide

/-- A string with a line feed for the speed outside of the table. -/
def brokenSpeed : List (List Char × Json) := [("x".toList, .str "a\nb")]

/-- **A string with a line feed** puts a line into the file that no table gets. -/
theorem brokenSpeed_not_onlyAddressed :
    updateFootholdConfig asciiClasses integers brokenSpeed twoSpeedsText =
        "A = \x7b\n  x = 1,\n\x7d,\n\nx = \"a\nb\"\n".toList ∧
      ¬OnlyAddressed asciiClasses integers brokenSpeed twoSpeedsText twoSpeeds := by
  refine ⟨by decide +kernel, ?_⟩
  intro h
  have hspeed : (⟨[], "x = 2".toList, .assign ['x'] ['2']⟩ : Located) ∈ twoSpeeds := by
    simp [twoSpeeds]
  exact h.lineFeed_notMem integers_serializesPlainly (by decide) hspeed rfl
    (List.mem_singleton_self _) (by decide)

/-- Both speeds are changed, and another one is new. -/
def speedUpdates : List (List Char × Json) :=
  [("A.x".toList, .num 5), ("x".toList, .null), ("A.y".toList, .str "fast")]

/-- The key in the table is told from the one outside. -/
theorem updateFootholdConfig_addressed_twoSpeeds :
    OnlyAddressed asciiClasses integers speedUpdates twoSpeedsText twoSpeeds := by
  refine (updateFootholdConfig_addressed asciiClasses_documented integers_serializesPlainly
    (by decide) twoSpeeds_wellNested lines_twoSpeeds).mpr ⟨by simp [twoSpeeds], ?_⟩
  intro l hl p hp s hs
  have hs : joinPath p = "A.y".toList ∧ s = "fast" := by
    simpa [speedUpdates] using hs
  obtain ⟨-, rfl⟩ := hs
  decide

example : updateFootholdConfig asciiClasses integers speedUpdates twoSpeedsText =
    "A = \x7b\n  x = 5,\n    y = \"fast\",\n\x7d,\n\n\n".toList := by decide +kernel

end DcsDashboard.Foothold
