/-
# Texts as Rust handles them

The operations of `str` that the server uses on the files it edits, on lists of characters.
-/
import Mathlib.Data.List.DropRight

namespace DcsDashboard.Lib

/-- `char::is_whitespace`. -/
def isWhitespace (c : Char) : Bool :=
  let n := c.toNat
  (9 ≤ n && n ≤ 13) || (0x2000 ≤ n && n ≤ 0x200a) ||
    n ∈ [0x20, 0x85, 0xa0, 0x1680, 0x2028, 0x2029, 0x202f, 0x205f, 0x3000]

/-- Texts are compared character by character. -/
instance lawfulBEqText : LawfulBEq (List Char) := inferInstance

/-- `str::trim`. -/
def trim (s : List Char) : List Char :=
  ((s.dropWhile isWhitespace).reverse.dropWhile isWhitespace).reverse

/-- `str::trim_end`. -/
def trimEnd (s : List Char) : List Char := s.rdropWhile isWhitespace

/-- `str::trim_start`. -/
def trimStart (s : List Char) : List Char := s.dropWhile isWhitespace

/-- `str::trim_matches` of one character. -/
def trimMatches (c : Char) (s : List Char) : List Char := (s.dropWhile (· = c)).rdropWhile (· = c)

/-- `str::split_whitespace`. -/
def splitWhitespace (s : List Char) : List (List Char) :=
  (s.splitOnP isWhitespace).filter (· ≠ [])

/-- `str::split_once` at a character. -/
def splitOnce (c : Char) (s : List Char) : Option (List Char × List Char) :=
  match s.dropWhile (· ≠ c) with
  | [] => none
  | _ :: rest => some (s.takeWhile (· ≠ c), rest)

/-- What `takeWhile (· ≠ c)` asks of a text without `c`. -/
theorem decide_ne_of_notMem {c : Char} {s : List Char} (h : c ∉ s) :
    ∀ d ∈ s, decide (d ≠ c) = true := by
  intro d hd
  have hne : d ≠ c := by
    rintro rfl
    exact h hd
  simpa using hne

theorem splitOnce_append {c : Char} {k : List Char} (h : c ∉ k) (v : List Char) :
    splitOnce c (k ++ c :: v) = some (k, v) := by
  unfold splitOnce
  rw [List.dropWhile_append_of_pos (decide_ne_of_notMem h),
    List.takeWhile_append_of_pos (decide_ne_of_notMem h)]
  simp

theorem eq_append_of_splitOnce {c : Char} {s k v : List Char} (h : splitOnce c s = some (k, v)) :
    s = k ++ c :: v ∧ c ∉ k := by
  unfold splitOnce at h
  cases hdrop : s.dropWhile (· ≠ c) with
  | nil =>
    rw [hdrop] at h
    cases h
  | cons d rest =>
    rw [hdrop] at h
    obtain ⟨rfl, rfl⟩ : s.takeWhile (· ≠ c) = k ∧ rest = v := by simpa using h
    have hd : d = c := by
      have hhead := List.head?_dropWhile_not (fun x => decide (x ≠ c)) s
      rw [hdrop] at hhead
      simpa using hhead
    refine ⟨?_, ?_⟩
    · have happ := List.takeWhile_append_dropWhile (p := fun x => decide (x ≠ c)) (l := s)
      rw [hdrop, hd] at happ
      exact happ.symm
    · intro hc
      simpa using List.mem_takeWhile_imp hc

/-- `str::eq_ignore_ascii_case`. -/
def eqIgnoreAsciiCase (s t : List Char) : Bool := s.map Char.toLower = t.map Char.toLower

/-- `str::parse::<u8>` of digits. -/
def parseU8 (digits : List Char) : Option UInt8 :=
  let value := digits.foldl (fun n c => 10 * n + (c.toNat - '0'.toNat)) 0
  if digits ≠ [] ∧ value < 256 then some (UInt8.ofNat value) else none

/-- `str::find`: the text before the first occurrence, and the text from there on. -/
def findText (pattern : List Char) : List Char → Option (List Char × List Char)
  | [] => if pattern = [] then some ([], []) else none
  | c :: s =>
    if pattern.isPrefixOf (c :: s) then some ([], c :: s)
    else (findText pattern s).map fun (before, rest) => (c :: before, rest)

theorem findText_spec {pattern s before rest : List Char}
    (h : findText pattern s = some (before, rest)) : s = before ++ rest ∧ pattern <+: rest := by
  induction s generalizing before with
  | nil =>
    by_cases hp : pattern = []
    · simp only [findText, hp, if_true, Option.some.injEq, Prod.mk.injEq] at h
      obtain ⟨rfl, rfl⟩ := h
      simp [hp]
    · simp [findText, hp] at h
  | cons c s ih =>
    by_cases hp : pattern.isPrefixOf (c :: s)
    · simp only [findText, hp, if_true, Option.some.injEq, Prod.mk.injEq] at h
      obtain ⟨rfl, rfl⟩ := h
      exact ⟨rfl, List.isPrefixOf_iff_prefix.mp hp⟩
    · simp only [findText, hp, if_false, Bool.false_eq_true, Option.map_eq_some_iff,
        Prod.mk.injEq] at h
      obtain ⟨⟨before', rest'⟩, hs, rfl, rfl⟩ := h
      obtain ⟨rfl, hprefix⟩ := ih hs
      exact ⟨rfl, hprefix⟩

/-- `str::replacen` with a count of one. -/
def replaceFirst (pattern new s : List Char) : List Char :=
  match findText pattern s with
  | some (before, rest) => before ++ new ++ rest.drop pattern.length
  | none => s

/-- A text that begins with the pattern is changed there. -/
theorem replaceFirst_append {pattern : List Char} (hne : pattern ≠ []) (new rest : List Char) :
    replaceFirst pattern new (pattern ++ rest) = new ++ rest := by
  have hfind : findText pattern (pattern ++ rest) = some ([], pattern ++ rest) := by
    obtain ⟨c, p, rfl⟩ := List.exists_cons_of_ne_nil hne
    have hprefix : (c :: p).isPrefixOf (c :: (p ++ rest)) = true :=
      List.isPrefixOf_iff_prefix.mpr (List.prefix_append (c :: p) rest)
    rw [List.cons_append, findText, if_pos hprefix]
  unfold replaceFirst
  rw [hfind]
  simp only [List.nil_append, List.drop_left]

/-- What is dropped at the end of two texts, put together. -/
theorem rdropWhile_append {α : Type*} (p : α → Bool) (s t : List α) :
    (s ++ t).rdropWhile p = if t.rdropWhile p = [] then s.rdropWhile p else s ++ t.rdropWhile p := by
  simp only [List.rdropWhile, List.reverse_append, List.dropWhile_append, List.isEmpty_iff,
    List.reverse_eq_nil_iff]
  split
  · rfl
  · simp

/-- What `trim_end` takes away is white space. -/
theorem exists_trimEnd_append (s : List Char) :
    ∃ blank, s = trimEnd s ++ blank ∧ ∀ c ∈ blank, isWhitespace c :=
  ⟨s.rtakeWhile isWhitespace, (List.rdropWhile_append_rtakeWhile ..).symm,
    fun _ hc => List.mem_rtakeWhile_imp hc⟩

/-- Up to a character that is not white space, `trim_end` takes nothing away. -/
theorem trimEnd_append {s : List Char} {c : Char} (hc : isWhitespace c = false) (t : List Char) :
    trimEnd (s ++ c :: t) = s ++ trimEnd (c :: t) := by
  unfold trimEnd
  induction t using List.reverseRecOn with
  | nil =>
    have hneg : ¬isWhitespace c = true := by simp [hc]
    rw [List.rdropWhile_concat_neg _ _ _ hneg, ← List.nil_append [c],
      List.rdropWhile_concat_neg _ _ _ hneg]
  | append_singleton t x ih =>
    have hleft : s ++ c :: (t ++ [x]) = s ++ c :: t ++ [x] := by simp
    have hright : c :: (t ++ [x]) = c :: t ++ [x] := by simp
    rw [hleft, hright]
    by_cases hx : isWhitespace x
    · rw [List.rdropWhile_concat_pos _ _ _ hx, List.rdropWhile_concat_pos _ _ _ hx, ih]
    · rw [List.rdropWhile_concat_neg _ _ _ hx, List.rdropWhile_concat_neg _ _ _ hx,
        List.append_assoc]

/-- A line feed goes, and one carriage return before it. -/
def dropCarriageReturn (line : List Char) : List Char :=
  if line.getLast? = some '\r' then line.dropLast else line

/-- The lines of a text, the first of which has begun already. -/
def linesFrom (line : List Char) : List Char → List (List Char)
  | [] => if line = [] then [] else [line]
  | c :: s =>
    if c = '\n' then dropCarriageReturn line :: linesFrom [] s else linesFrom (line ++ [c]) s

/-- `str::lines`. -/
def lines (s : List Char) : List (List Char) := linesFrom [] s

/-- `lines.join("\n")`. -/
def joinLines (ls : List (List Char)) : List Char := ['\n'].intercalate ls

theorem joinLines_append_lineFeed {ls : List (List Char)} (h : ls ≠ []) :
    joinLines ls ++ ['\n'] = ls.flatMap (· ++ ['\n']) := by
  unfold joinLines
  induction ls with
  | nil => exact absurd rfl h
  | cons l ls ih =>
    by_cases hls : ls = []
    · simp [hls]
    · rw [List.intercalate_cons_of_ne_nil hls, List.append_assoc, ih hls]
      simp

example : lines "a\r\nb\n\nc\r".toList = ["a", "b", "", "c\r"].map String.toList := by decide

/-- `str::cmp`: texts are compared character by character. -/
def textLe : List Char → List Char → Bool
  | [], _ => true
  | _ :: _, [] => false
  | c :: s, d :: t => decide (c.toNat < d.toNat) || (decide (c.toNat = d.toNat) && textLe s t)

theorem textLe_total (s t : List Char) : (textLe s t || textLe t s) = true := by
  induction s generalizing t with
  | nil => simp [textLe]
  | cons c s ih =>
    cases t with
    | nil => simp [textLe]
    | cons d t =>
      have hrest := ih t
      simp only [textLe, Bool.or_eq_true, Bool.and_eq_true, decide_eq_true_eq] at hrest ⊢
      rcases Nat.lt_trichotomy c.toNat d.toNat with h | h | h
      · exact .inl (.inl h)
      · exact hrest.imp (fun hst => .inr ⟨h, hst⟩) fun hts => .inr ⟨h.symm, hts⟩
      · exact .inr (.inl h)

theorem textLe_trans {s t u : List Char} (hst : textLe s t = true) (htu : textLe t u = true) :
    textLe s u = true := by
  induction s generalizing t u with
  | nil => rfl
  | cons c s ih =>
    cases t with
    | nil => cases hst
    | cons d t =>
      cases u with
      | nil => cases htu
      | cons e u =>
        simp only [textLe, Bool.or_eq_true, Bool.and_eq_true, decide_eq_true_eq] at hst htu ⊢
        rcases hst with hlt | ⟨heq, hst⟩
        · exact .inl (by omega)
        · rcases htu with hlt' | ⟨heq', htu⟩
          · exact .inl (by omega)
          · exact .inr ⟨heq.trans heq', ih hst htu⟩

end DcsDashboard.Lib
