/-
# Texts by byte offsets

Rust addresses a `str` by bytes: `find` gives the offset in bytes, and a slice panics unless its
ends are character boundaries of the text and in order.  Here a slice that panics is `none`.  An
offset can be sliced at exactly when it is the length in bytes of a beginning of the text
(`sliceFrom_eq_some`, `slice_eq_some`).
-/
import DcsDashboard.Lib.RustText
import Mathlib.Data.List.Basic

namespace DcsDashboard.Lib

/-! ## 1. Lengths and slices -/

/-- `str::len`. -/
def byteLength : List Char → Nat
  | [] => 0
  | c :: s => c.utf8Size + byteLength s

@[simp] theorem byteLength_nil : byteLength [] = 0 := rfl

@[simp] theorem byteLength_cons (c : Char) (s : List Char) :
    byteLength (c :: s) = c.utf8Size + byteLength s := rfl

@[simp] theorem byteLength_append (s t : List Char) :
    byteLength (s ++ t) = byteLength s + byteLength t := by
  induction s with
  | nil => simp
  | cons c s ih => rw [List.cons_append, byteLength_cons, byteLength_cons, ih, Nat.add_assoc]

/-- A text of characters of one byte. -/
theorem byteLength_eq_length {s : List Char} (h : ∀ c ∈ s, c.utf8Size = 1) :
    byteLength s = s.length := by
  induction s with
  | nil => rfl
  | cons c s ih =>
    rw [byteLength_cons, h c (by simp), ih fun d hd => h d (List.mem_cons_of_mem c hd),
      List.length_cons, Nat.add_comm]

theorem byteLength_eq_zero {s : List Char} : byteLength s = 0 ↔ s = [] := by
  cases s with
  | nil => simp
  | cons c s =>
    have hpos := Char.utf8Size_pos c
    simp only [byteLength_cons, reduceCtorEq, iff_false]
    omega

/-- `&s[start..]`. -/
def sliceFrom : List Char → Nat → Option (List Char)
  | s, 0 => some s
  | [], _ + 1 => none
  | c :: s, n + 1 => if c.utf8Size ≤ n + 1 then sliceFrom s (n + 1 - c.utf8Size) else none

/-- `&s[..stop]`. -/
def sliceTo : List Char → Nat → Option (List Char)
  | _, 0 => some []
  | [], _ + 1 => none
  | c :: s, n + 1 =>
    if c.utf8Size ≤ n + 1 then (sliceTo s (n + 1 - c.utf8Size)).map (c :: ·) else none

/-- `&s[start..stop]`. -/
def slice (s : List Char) (start stop : Nat) : Option (List Char) :=
  if start ≤ stop then (sliceFrom s start).bind fun rest => sliceTo rest (stop - start) else none

theorem sliceFrom_byteLength (x rest : List Char) :
    sliceFrom (x ++ rest) (byteLength x) = some rest := by
  induction x with
  | nil => cases rest <;> rfl
  | cons c x ih =>
    obtain ⟨n, hn⟩ : ∃ n, byteLength (c :: x) = n + 1 := by
      have hpos := Char.utf8Size_pos c
      exact Nat.exists_eq_add_one.mpr (by simp; omega)
    have hsize : c.utf8Size + byteLength x = n + 1 := hn
    rw [hn, List.cons_append, sliceFrom, if_pos (by omega),
      show n + 1 - c.utf8Size = byteLength x by omega, ih]

theorem sliceTo_byteLength (x rest : List Char) :
    sliceTo (x ++ rest) (byteLength x) = some x := by
  induction x with
  | nil => cases rest <;> rfl
  | cons c x ih =>
    obtain ⟨n, hn⟩ : ∃ n, byteLength (c :: x) = n + 1 := by
      have hpos := Char.utf8Size_pos c
      exact Nat.exists_eq_add_one.mpr (by simp; omega)
    have hsize : c.utf8Size + byteLength x = n + 1 := hn
    rw [hn, List.cons_append, sliceTo, if_pos (by omega),
      show n + 1 - c.utf8Size = byteLength x by omega, ih]
    rfl

/-- A slice from an offset is what follows a beginning of that length. -/
theorem sliceFrom_eq_some {s rest : List Char} {start : Nat} :
    sliceFrom s start = some rest ↔ ∃ x, s = x ++ rest ∧ byteLength x = start := by
  constructor
  · intro h
    induction s generalizing start with
    | nil =>
      cases start with
      | zero => exact ⟨[], by simpa [sliceFrom] using h, rfl⟩
      | succ n => simp [sliceFrom] at h
    | cons c s ih =>
      cases start with
      | zero => exact ⟨[], by simpa [sliceFrom] using h, rfl⟩
      | succ n =>
        rw [sliceFrom] at h
        split at h
        · rename_i hle
          obtain ⟨x, rfl, hx⟩ := ih h
          exact ⟨c :: x, rfl, by rw [byteLength_cons, hx]; omega⟩
        · cases h
  · rintro ⟨x, rfl, rfl⟩
    exact sliceFrom_byteLength x rest

theorem sliceTo_eq_some {s x : List Char} {stop : Nat} :
    sliceTo s stop = some x ↔ ∃ rest, s = x ++ rest ∧ byteLength x = stop := by
  constructor
  · intro h
    induction s generalizing stop x with
    | nil =>
      cases stop with
      | zero =>
        obtain rfl : [] = x := by simpa [sliceTo] using h
        exact ⟨[], rfl, rfl⟩
      | succ n => simp [sliceTo] at h
    | cons c s ih =>
      cases stop with
      | zero =>
        obtain rfl : [] = x := by simpa [sliceTo] using h
        exact ⟨c :: s, rfl, rfl⟩
      | succ n =>
        rw [sliceTo] at h
        split at h
        · rename_i hle
          obtain ⟨y, hy, rfl⟩ := Option.map_eq_some_iff.mp h
          obtain ⟨rest, rfl, hlength⟩ := ih hy
          exact ⟨rest, rfl, by rw [byteLength_cons, hlength]; omega⟩
        · cases h
  · rintro ⟨rest, rfl, rfl⟩
    exact sliceTo_byteLength x rest

/-- A slice between two offsets is the piece between two beginnings of these lengths. -/
theorem slice_eq_some {s y : List Char} {start stop : Nat} :
    slice s start stop = some y ↔
      ∃ x rest, s = x ++ (y ++ rest) ∧ byteLength x = start ∧ byteLength x + byteLength y = stop := by
  unfold slice
  constructor
  · intro h
    split at h
    · rename_i hle
      obtain ⟨tail, htail, hy⟩ := Option.bind_eq_some_iff.mp h
      obtain ⟨x, rfl, hx⟩ := sliceFrom_eq_some.mp htail
      obtain ⟨rest, rfl, hlength⟩ := sliceTo_eq_some.mp hy
      exact ⟨x, rest, rfl, hx, by omega⟩
    · cases h
  · rintro ⟨x, rest, rfl, rfl, rfl⟩
    rw [if_pos (by omega), sliceFrom_byteLength, Option.bind_some, Nat.add_sub_cancel_left,
      sliceTo_byteLength]

/-- Of two beginnings of a text the shorter one begins the other. -/
theorem append_of_byteLength_le {x y rest rest' : List Char} (h : x ++ rest = y ++ rest')
    (hle : byteLength x ≤ byteLength y) : ∃ z, y = x ++ z ∧ rest = z ++ rest' := by
  rcases List.append_eq_append_iff.mp h with ⟨z, hy, hrest⟩ | ⟨z, hx, hrest⟩
  · exact ⟨z, hy, hrest⟩
  · have hz : z = [] := by
      rw [hx, byteLength_append] at hle
      exact byteLength_eq_zero.mp (by omega)
    subst hz
    exact ⟨[], by simpa using hx.symm, by simpa using hrest.symm⟩

/-! ## 2. Searching -/

/-- `str::find` of a character. -/
def findChar (c : Char) (s : List Char) : Option Nat :=
  (splitOnce c s).map fun parts => byteLength parts.1

/-- `str::find` of a text. -/
def find (pattern s : List Char) : Option Nat :=
  (findText pattern s).map fun parts => byteLength parts.1

theorem findChar_append {c : Char} {x : List Char} (h : c ∉ x) (rest : List Char) :
    findChar c (x ++ c :: rest) = some (byteLength x) := by
  rw [findChar, splitOnce_append h, Option.map_some]

theorem findChar_eq_some {c : Char} {s : List Char} {n : Nat} (h : findChar c s = some n) :
    ∃ x rest, s = x ++ c :: rest ∧ c ∉ x ∧ byteLength x = n := by
  obtain ⟨⟨x, rest⟩, hsplit, rfl⟩ := Option.map_eq_some_iff.mp h
  obtain ⟨hs, hx⟩ := eq_append_of_splitOnce hsplit
  exact ⟨x, rest, hs, hx, rfl⟩

theorem findChar_eq_none {c : Char} {s : List Char} : findChar c s = none ↔ c ∉ s := by
  rw [findChar, Option.map_eq_none_iff]
  constructor
  · intro h hc
    obtain ⟨x, rest, rfl, hx⟩ := List.eq_append_cons_of_mem hc
    rw [splitOnce_append hx] at h
    cases h
  · intro h
    by_contra hsome
    obtain ⟨⟨x, rest⟩, hsplit⟩ := Option.ne_none_iff_exists'.mp hsome
    rw [(eq_append_of_splitOnce hsplit).1] at h
    exact h (by simp)

theorem find_eq_some {pattern s : List Char} {n : Nat} (h : find pattern s = some n) :
    ∃ x rest, s = x ++ rest ∧ pattern <+: rest ∧ byteLength x = n := by
  obtain ⟨⟨x, rest⟩, hfind, rfl⟩ := Option.map_eq_some_iff.mp h
  obtain ⟨hs, hrest⟩ := findText_spec hfind
  exact ⟨x, rest, hs, hrest, rfl⟩

/-- A text that begins with the pattern. -/
theorem findText_of_isPrefix {pattern s : List Char} (hne : pattern ≠ []) (h : pattern <+: s) :
    findText pattern s = some ([], s) := by
  cases s with
  | nil => exact absurd (List.prefix_nil.mp h) hne
  | cons c s => rw [findText, if_pos (List.isPrefixOf_iff_prefix.mpr h)]

theorem findText_cons {pattern s : List Char} {c : Char} (h : ¬ pattern <+: c :: s) :
    findText pattern (c :: s) = (findText pattern s).map fun parts => (c :: parts.1, parts.2) := by
  rw [findText, if_neg fun hp => h (List.isPrefixOf_iff_prefix.mp hp)]

/-- The pattern does not begin in the first piece. -/
theorem findText_append {pattern w : List Char} (s : List Char)
    (h : ∀ y, y ≠ [] → y <:+ w → ¬ pattern <+: y ++ s) :
    findText pattern (w ++ s) = (findText pattern s).map fun parts => (w ++ parts.1, parts.2) := by
  induction w with
  | nil => simp
  | cons c w ih =>
    have hhead : ¬ pattern <+: c :: (w ++ s) := h (c :: w) (by simp) (List.suffix_refl _)
    have hrest := ih fun y hne hy => h y hne (hy.trans (List.suffix_cons c w))
    rw [List.cons_append, findText_cons hhead, hrest, Option.map_map]
    rfl

end DcsDashboard.Lib
