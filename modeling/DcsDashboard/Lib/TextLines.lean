/-
# The content of a text, line by line

Many configuration readers look at each line of a file without the white space around it, and
skip what is blank.  What such a reader sees of a text is its CONTENT: the lines between line
feeds, trimmed, without the blank ones.  Carriage returns, indentation and a final line feed leave
no trace in it, and the content of lines joined again is that of the lines one after the other.
-/
import DcsDashboard.Lib.RustText
import Mathlib.Data.List.Basic

namespace DcsDashboard.Lib

/-! ## 1. Trimming -/

/-- All characters are white space. -/
def Blank (s : List Char) : Prop := ∀ c ∈ s, isWhitespace c = true

theorem Blank.dropWhile {s : List Char} (h : Blank s) (t : List Char) :
    (s ++ t).dropWhile isWhitespace = t.dropWhile isWhitespace := by
  induction s with
  | nil => rfl
  | cons c s ih =>
    have hc : isWhitespace c = true := h c (by simp)
    rw [List.cons_append, List.dropWhile_cons, if_pos hc]
    exact ih fun d hd => h d (by simp [hd])

/-- White space in front is trimmed off. -/
theorem trim_blank_append {s : List Char} (h : Blank s) (t : List Char) :
    trim (s ++ t) = trim t := by
  rw [trim, trim, h.dropWhile]

theorem trim_eq_trimEnd (s : List Char) : trim s = trimEnd (s.dropWhile isWhitespace) := rfl

/-- White space at the end is trimmed off. -/
theorem trimEnd_append_blank (s : List Char) {t : List Char} (h : Blank t) :
    trimEnd (s ++ t) = trimEnd s := by
  have hreverse : Blank t.reverse := fun c hc => h c (List.mem_reverse.mp hc)
  rw [trimEnd, trimEnd, List.rdropWhile, List.rdropWhile, List.reverse_append,
    hreverse.dropWhile]

theorem trim_append_blank (s : List Char) {t : List Char} (h : Blank t) :
    trim (s ++ t) = trim s := by
  by_cases hs : Blank s
  · have hst : Blank (s ++ t) := fun c hc => (List.mem_append.mp hc).elim (hs c) (h c)
    rw [← List.append_nil (s ++ t), trim_blank_append hst, ← List.append_nil s,
      trim_blank_append hs]
  · have hne : s.dropWhile isWhitespace ≠ [] := by
      intro hnil
      exact hs fun c hc => (List.dropWhile_eq_nil_iff.mp hnil) c hc
    have hdrop : (s ++ t).dropWhile isWhitespace = s.dropWhile isWhitespace ++ t := by
      rw [List.dropWhile_append]
      simp [hne]
    rw [trim_eq_trimEnd, trim_eq_trimEnd, hdrop, trimEnd_append_blank _ h]

/-- What trimming takes away, on either side. -/
theorem exists_trim_append (s : List Char) :
    ∃ front back, s = front ++ trim s ++ back ∧ Blank front ∧ Blank back := by
  obtain ⟨back, hback, hblank⟩ := exists_trimEnd_append (s.dropWhile isWhitespace)
  refine ⟨s.takeWhile isWhitespace, back, ?_, fun c hc => List.mem_takeWhile_imp hc, hblank⟩
  rw [List.append_assoc, trim_eq_trimEnd, ← hback, List.takeWhile_append_dropWhile]

/-- A text that neither begins nor ends with white space is left as it is. -/
theorem trim_eq_self {s : List Char} (hhead : ∀ c, s.head? = some c → isWhitespace c = false)
    (hlast : ∀ c, s.getLast? = some c → isWhitespace c = false) : trim s = s := by
  have hdrop : s.dropWhile isWhitespace = s := by
    cases s with
    | nil => rfl
    | cons c s => rw [List.dropWhile_cons, if_neg (by simp [hhead c rfl])]
  rw [trim_eq_trimEnd, hdrop]
  rcases List.eq_nil_or_concat s with rfl | ⟨front, c, rfl⟩
  · rfl
  · have hc : isWhitespace c = false := hlast c (by simp)
    rw [List.concat_eq_append, trimEnd, List.rdropWhile_concat_neg _ _ _ (by simp [hc])]

theorem isWhitespace_head_trim {s : List Char} {c : Char} (h : (trim s).head? = some c) :
    isWhitespace c = false := by
  obtain ⟨back, hback, -⟩ := exists_trimEnd_append (s.dropWhile isWhitespace)
  have hhead : (s.dropWhile isWhitespace).head? = some c := by
    rw [hback, List.head?_append, ← trim_eq_trimEnd, h, Option.some_or]
  have hnot := List.head?_dropWhile_not isWhitespace s
  rwa [hhead] at hnot

theorem isWhitespace_last_trim {s : List Char} {c : Char} (h : (trim s).getLast? = some c) :
    isWhitespace c = false := by
  have hne : trim s ≠ [] := by
    rintro hnil
    simp [hnil] at h
  have hlast : (trim s).getLast hne = c := by
    simpa [List.getLast?_eq_some_getLast hne] using h
  have := List.rdropWhile_last_not isWhitespace (s.dropWhile isWhitespace) hne
  have hneg : ¬ isWhitespace c = true := by rwa [← hlast]
  simpa using hneg

theorem trim_trim (s : List Char) : trim (trim s) = trim s :=
  trim_eq_self (fun _ => isWhitespace_head_trim) fun _ => isWhitespace_last_trim

/-- What `trim_end` leaves is what `trim` leaves, with white space in front. -/
theorem exists_trimEnd_eq (s : List Char) :
    ∃ front, trimEnd s = front ++ trim s ∧ Blank front ∧ (trim s = [] → front = []) := by
  obtain ⟨front, back, hs, hfront, hback⟩ := exists_trim_append s
  have htrimEnd : trimEnd s = trimEnd (front ++ trim s) := by
    conv_lhs => rw [hs]
    exact trimEnd_append_blank _ hback
  rcases List.eq_nil_or_concat (trim s) with hnil | ⟨init, c, hlast⟩
  · refine ⟨[], ?_, by simp [Blank], fun _ => rfl⟩
    have happ := trimEnd_append_blank [] hfront
    rw [htrimEnd, hnil, List.append_nil]
    simpa [trimEnd] using happ
  · refine ⟨front, ?_, hfront, fun hnil => by simp [hnil] at hlast⟩
    have hc : isWhitespace c = false := isWhitespace_last_trim (s := s) (by simp [hlast])
    rw [htrimEnd, hlast, List.concat_eq_append, ← List.append_assoc, trimEnd_append hc]
    simp [trimEnd, hc]

/-- A first character that is not white space stays the first. -/
theorem head?_trim {s : List Char} {c : Char} (h : s.head? = some c)
    (hc : isWhitespace c = false) : (trim s).head? = some c := by
  obtain ⟨front, back, hs, hfront, hback⟩ := exists_trim_append s
  have hne : ∀ w : List Char, Blank w → w.head? ≠ some c := by
    intro w hw hhead
    have hmem : c ∈ w := List.mem_of_mem_head? hhead
    simp [hw c hmem] at hc
  rw [hs, List.append_assoc, List.head?_append, List.head?_append] at h
  cases hf : front.head? with
  | some d =>
    rw [hf, Option.some_or] at h
    exact absurd (h ▸ hf) (hne front hfront)
  | none =>
    rw [hf, Option.none_or] at h
    cases ht : (trim s).head? with
    | some d => rwa [ht, Option.some_or] at h
    | none =>
      rw [ht, Option.none_or] at h
      exact absurd h (hne back hback)

/-- A last character that is not white space stays the last. -/
theorem getLast?_trim {s : List Char} {c : Char} (h : s.getLast? = some c)
    (hc : isWhitespace c = false) : (trim s).getLast? = some c := by
  obtain ⟨front, back, hs, hfront, hback⟩ := exists_trim_append s
  have hne : ∀ w : List Char, Blank w → w.getLast? ≠ some c := by
    intro w hw hlast
    have hmem : c ∈ w := List.mem_of_getLast? hlast
    simp [hw c hmem] at hc
  rw [hs, List.getLast?_append, List.getLast?_append] at h
  cases hb : back.getLast? with
  | some d =>
    rw [hb, Option.some_or] at h
    exact absurd (h ▸ hb) (hne back hback)
  | none =>
    rw [hb, Option.none_or] at h
    cases ht : (trim s).getLast? with
    | some d => rwa [ht, Option.some_or] at h
    | none =>
      rw [ht, Option.none_or] at h
      exact absurd h (hne front hfront)

theorem trim_of_no_whitespace {s : List Char} (h : ∀ c ∈ s, isWhitespace c = false) : trim s = s :=
  trim_eq_self (fun c hc => h c (List.mem_of_mem_head? hc)) fun c hc =>
    h c (List.mem_of_getLast? hc)

theorem trimEnd_trimEnd (s : List Char) : trimEnd (trimEnd s) = trimEnd s :=
  List.rdropWhile_idempotent _ s

theorem trimEnd_of_trim {s : List Char} (h : trim s = s) : trimEnd s = s := by
  rw [← h, trim_eq_trimEnd, trimEnd_trimEnd]

theorem mem_of_mem_trim {s : List Char} {c : Char} (h : c ∈ trim s) : c ∈ s := by
  obtain ⟨front, back, hs, -, -⟩ := exists_trim_append s
  rw [hs]
  simp [h]

/-! ## 2. The content -/

/-- The trimmed lines of a text that are not blank. -/
def contentLines (s : List Char) : List (List Char) :=
  ((s.splitOn '\n').map trim).filter (· ≠ [])

theorem contentLines_append_lineFeed (s t : List Char) :
    contentLines (s ++ '\n' :: t) = contentLines s ++ contentLines t := by
  rw [contentLines, List.splitOn_append_cons_self, List.map_append, List.filter_append]
  rfl

/-- The content of one line. -/
theorem contentLines_of_notMem {s : List Char} (h : '\n' ∉ s) :
    contentLines s = [trim s].filter (· ≠ []) := by
  rw [contentLines, List.splitOn_eq_singleton h]
  rfl

theorem contentLines_nil : contentLines [] = [] := by
  rw [contentLines_of_notMem (by simp)]
  rfl

theorem contentLines_lineFeed_cons (s : List Char) : contentLines ('\n' :: s) = contentLines s := by
  have happ := contentLines_append_lineFeed [] s
  simpa [contentLines_nil] using happ

/-- White space in front, line feeds included, leaves no trace. -/
theorem contentLines_blank_append {w : List Char} (hw : Blank w) (s : List Char) :
    contentLines (w ++ s) = contentLines s := by
  induction w with
  | nil => rfl
  | cons c w ih =>
    have hrest : contentLines (w ++ s) = contentLines s := ih fun d hd => hw d (by simp [hd])
    have hc : Blank [c] := fun d hd => hw d (by simp_all)
    by_cases hfeed : c = '\n'
    · rw [hfeed, List.cons_append, contentLines_lineFeed_cons, hrest]
    · rw [← hrest, List.cons_append, contentLines, contentLines,
        List.splitOn_cons_eq_if_modifyHead, if_neg (by simpa using hfeed)]
      obtain ⟨line, lines, hlines⟩ :=
        List.exists_cons_of_ne_nil (List.splitOn_ne_nil '\n' (w ++ s))
      have htrim : trim (c :: line) = trim line := trim_blank_append hc line
      rw [hlines, List.modifyHead_cons, List.map_cons, List.map_cons, htrim]

theorem contentLines_blank {w : List Char} (hw : Blank w) : contentLines w = [] := by
  have happ := contentLines_blank_append hw []
  rwa [List.append_nil, contentLines_nil] at happ

/-- White space at the end, line feeds included, leaves no trace. -/
theorem contentLines_append_blank (s : List Char) {w : List Char} (hw : Blank w) :
    contentLines (s ++ w) = contentLines s := by
  by_cases hs : '\n' ∈ s
  · -- the lines after the first: by induction on the length
    obtain ⟨line, rest, rfl, -⟩ := List.eq_append_cons_of_mem hs
    rw [List.append_assoc, List.cons_append, contentLines_append_lineFeed,
      contentLines_append_lineFeed, contentLines_append_blank rest hw]
  · by_cases hfeed : '\n' ∈ w
    · obtain ⟨front, back, rfl, hfront⟩ := List.eq_append_cons_of_mem hfeed
      have hblank : Blank front := fun c hc => hw c (by simp [hc])
      have hback : Blank back := fun c hc => hw c (by simp [hc])
      rw [← List.append_assoc, contentLines_append_lineFeed, contentLines_blank hback,
        List.append_nil, contentLines_of_notMem (by simp [hs, hfront]),
        contentLines_of_notMem hs, trim_append_blank s hblank]
    · rw [contentLines_of_notMem (by simp [hs, hfeed]), contentLines_of_notMem hs,
        trim_append_blank s hw]
termination_by s.length
decreasing_by
  have hs : s = line ++ '\n' :: rest := by assumption
  rw [hs, List.length_append, List.length_cons]
  omega

theorem lineFeed_notMem_of_mem_splitOn {s line : List Char} (h : line ∈ s.splitOn '\n') :
    '\n' ∉ line := by
  induction s generalizing line with
  | nil =>
    obtain rfl : line = [] := by simpa using h
    simp
  | cons c s ih =>
    rw [List.splitOn_cons_eq_if_modifyHead] at h
    by_cases hc : c = '\n'
    · rw [if_pos (by simp [hc])] at h
      rcases List.mem_cons.mp h with rfl | h
      · simp
      · exact ih h
    · rw [if_neg (by simp [hc])] at h
      obtain ⟨first, rest, hsplit⟩ := List.exists_cons_of_ne_nil (List.splitOn_ne_nil '\n' s)
      rw [hsplit, List.modifyHead_cons] at h
      rcases List.mem_cons.mp h with rfl | h
      · have hmem : first ∈ s.splitOn '\n' := by
          rw [hsplit]
          simp
        simp [ih hmem, Ne.symm hc]
      · exact ih (by rw [hsplit]; simp [h])

/-- Every line of the content is one trimmed line. -/
theorem mem_contentLines {s line : List Char} (h : line ∈ contentLines s) :
    '\n' ∉ line ∧ trim line = line ∧ line ≠ [] := by
  obtain ⟨hmem, hne⟩ := List.mem_filter.mp h
  obtain ⟨raw, hraw, rfl⟩ := List.mem_map.mp hmem
  refine ⟨?_, trim_trim raw, by simpa using hne⟩
  intro hfeed
  obtain ⟨front, back, hsplit, -, -⟩ := exists_trim_append raw
  have hin : '\n' ∈ raw := by
    rw [hsplit]
    simp [hfeed]
  exact lineFeed_notMem_of_mem_splitOn hraw hin

/-! ## 3. The lines of a file -/

theorem trim_dropCarriageReturn (line : List Char) :
    trim (dropCarriageReturn line) = trim line := by
  unfold dropCarriageReturn
  split
  · next h =>
    obtain ⟨front, rfl⟩ := List.getLast?_eq_some_iff.mp h
    rw [List.dropLast_concat]
    exact (trim_append_blank front (by simp [Blank, isWhitespace])).symm
  · rfl

theorem lineFeed_notMem_of_mem_lines {s l : List Char} (h : l ∈ lines s) : '\n' ∉ l := by
  have hfrom : ∀ (s line : List Char), '\n' ∉ line → l ∈ linesFrom line s → '\n' ∉ l := by
    intro s
    induction s with
    | nil =>
      intro line hline hl
      rw [linesFrom] at hl
      split at hl
      · cases hl
      · rwa [List.mem_singleton.mp hl]
    | cons c s ih =>
      intro line hline hl
      rw [linesFrom] at hl
      by_cases hc : c = '\n'
      · rw [if_pos hc] at hl
        rcases List.mem_cons.mp hl with rfl | hl
        · unfold dropCarriageReturn
          split
          · exact fun hmem => hline (List.dropLast_subset _ hmem)
          · exact hline
        · exact ih [] (by simp) hl
      · rw [if_neg hc] at hl
        exact ih _ (by simp [hline, Ne.symm hc]) hl
  exact hfrom s [] (by simp) h

/-- **What `lines` sees is the content.** -/
theorem contentLines_eq_lines (s : List Char) :
    ((lines s).map trim).filter (· ≠ []) = contentLines s := by
  have hfrom : ∀ (s line : List Char), '\n' ∉ line →
      ((linesFrom line s).map trim).filter (· ≠ []) = contentLines (line ++ s) := by
    intro s
    induction s with
    | nil =>
      intro line hline
      rw [List.append_nil, contentLines_of_notMem hline, linesFrom]
      split
      · next h =>
        subst h
        rfl
      · rfl
    | cons c s ih =>
      intro line hline
      rw [linesFrom]
      by_cases hc : c = '\n'
      · have hrest := ih [] (by simp)
        rw [if_pos hc, hc, contentLines_append_lineFeed, List.map_cons, trim_dropCarriageReturn,
          contentLines_of_notMem hline, ← List.singleton_append, List.filter_append, hrest]
        rfl
      · rw [if_neg hc, ih _ (by simp [hline, Ne.symm hc])]
        simp
  exact hfrom s [] (by simp)

/-- **The content of joined lines.** -/
theorem contentLines_intercalate (ls : List (List Char)) :
    contentLines (['\r', '\n'].intercalate ls) = ls.flatMap contentLines := by
  induction ls with
  | nil => exact contentLines_nil
  | cons l ls ih =>
    by_cases hls : ls = []
    · subst hls
      simp
    · have hblank : Blank ['\r'] := by simp [Blank, isWhitespace]
      have hsplit : l ++ ['\r', '\n'] ++ ['\r', '\n'].intercalate ls =
          (l ++ ['\r']) ++ '\n' :: ['\r', '\n'].intercalate ls := by simp
      rw [List.intercalate_cons_of_ne_nil hls, hsplit, contentLines_append_lineFeed,
        contentLines_append_blank l hblank, ih, List.flatMap_cons]

end DcsDashboard.Lib
