/-
# Every way to cut a text

`segmentations` recurses on what is left after each symbol that begins the text.  A symbol is not
empty, so the text gets shorter and the recursion ends (`segmentationsWithin_eq`); different symbols
begin different lists, so no list is produced twice (`nodup_segmentations`).  It produces exactly
the lists of symbols that spell the text, each once (`segmentations_exact`).
-/
import DcsDashboard.Lso.NotationLossless

namespace DcsDashboard.Lso

/-! ## 1. The recursion ends -/

/-- One round of the loop over the symbols: `out` with the cuts that begin with one more symbol,
given the cuts of what is left after it. -/
def pushCuts (cuts : List Char → Option (List (List String))) (s : List Char)
    (out : List (List String)) (symbol : String) : Option (List (List String)) :=
  match s.dropPrefix? symbol.toList with
  | some rest => (cuts rest).map fun tails => out ++ tails.map (symbol :: ·)
  | none => some out

/-- `segmentations` with calls nested at most so deep; `none` when that is not enough. -/
def segmentationsWithin (symbols : List String) : Nat → List Char → Option (List (List String))
  | _, [] => some [[]]
  | 0, _ :: _ => none
  | depth + 1, c :: s =>
    symbols.foldlM (pushCuts (segmentationsWithin symbols depth) (c :: s)) []

section

variable {symbols : List String} {depth : Nat} {s rest : List Char}

/-- The loop, where every call of it returns. -/
theorem foldlM_pushCuts {cuts : List Char → Option (List (List String))}
    {cuts' : List Char → List (List String)} (out : List (List String))
    (h : ∀ symbol ∈ symbols, ∀ rest, s.dropPrefix? symbol.toList = some rest →
      cuts rest = some (cuts' rest)) :
    symbols.foldlM (pushCuts cuts s) out = some (out ++ symbols.flatMap fun symbol =>
      match s.dropPrefix? symbol.toList with
      | some rest => (cuts' rest).map (symbol :: ·)
      | none => []) := by
  induction symbols generalizing out with
  | nil => simp
  | cons symbol symbols ih =>
    have hsymbols := fun out => ih out fun x hx => h x (List.mem_cons_of_mem _ hx)
    cases hdrop : s.dropPrefix? symbol.toList with
    | none => simp [pushCuts, hdrop, hsymbols]
    | some rest => simp [pushCuts, hdrop, h symbol (by simp) rest hdrop, hsymbols]

/-- **The recursion ends**: calls nested as deep as the text is long are enough. -/
theorem segmentationsWithin_eq (hne : ∀ x ∈ symbols, x ≠ "") (h : s.length ≤ depth) :
    segmentationsWithin symbols depth s = some (segmentations symbols depth s) := by
  induction depth generalizing s with
  | zero =>
    obtain rfl : s = [] := List.length_eq_zero_iff.mp (Nat.le_zero.mp h)
    rfl
  | succ depth ih =>
    cases s with
    | nil => rfl
    | cons c s =>
      have hcalls : ∀ symbol ∈ symbols, ∀ rest, (c :: s).dropPrefix? symbol.toList = some rest →
          segmentationsWithin symbols depth rest = some (segmentations symbols depth rest) := by
        intro symbol hsymbol rest hdrop
        have hlt := length_lt_of_symbol (hne symbol hsymbol) (dropPrefix?_eq_some.mp hdrop)
        exact ih (by omega)
      rw [segmentationsWithin, foldlM_pushCuts [] hcalls]
      rfl

/-- More depth changes nothing. -/
theorem segmentations_of_length_le (hne : ∀ x ∈ symbols, x ≠ "") (h : s.length ≤ depth) :
    segmentations symbols depth s = segmentations symbols s.length s := by
  induction hn : s.length using Nat.strong_induction_on generalizing s depth with
  | _ n ih =>
    subst hn
    cases s with
    | nil => cases depth <;> rfl
    | cons c s =>
      obtain ⟨depth, rfl⟩ := Nat.exists_eq_succ_of_ne_zero (by simp at h; omega : depth ≠ 0)
      rw [List.length_cons, segmentations, segmentations]
      refine List.flatMap_congr ?_
      intro symbol hsymbol
      cases hdrop : (c :: s).dropPrefix? symbol.toList with
      | none => rfl
      | some rest =>
        have hlt := length_lt_of_symbol (hne symbol hsymbol) (dropPrefix?_eq_some.mp hdrop)
        simp only [List.length_cons] at hlt h
        have hdepth := ih rest.length (by simpa using hlt) (by omega : rest.length ≤ depth) rfl
        have hlength := ih rest.length (by simpa using hlt) (by omega : rest.length ≤ s.length) rfl
        simp only [hdepth, hlength]

/-! ## 2. No cut is produced twice -/

/-- **No list is produced twice**: those that begin with different symbols are different. -/
theorem nodup_segmentations (hdistinct : symbols.Nodup) (depth : Nat) (s : List Char) :
    (segmentations symbols depth s).Nodup := by
  induction depth generalizing s with
  | zero => cases s <;> simp [segmentations]
  | succ depth ih =>
    cases s with
    | nil => simp [segmentations]
    | cons c s =>
      rw [segmentations, List.nodup_flatMap]
      refine ⟨?_, ?_⟩
      · intro symbol _
        cases (c :: s).dropPrefix? symbol.toList with
        | none => exact List.nodup_nil
        | some rest => exact (ih rest).map (List.cons_injective)
      · refine hdistinct.imp ?_
        intro x y hxy reading hx hy
        obtain ⟨_, _, -, -, rfl⟩ := mem_cuts_iff.mp hx
        obtain ⟨_, _, -, -, heq⟩ := mem_cuts_iff.mp hy
        exact hxy (List.cons.inj heq).1

end

/-- **Exactly the ways to cut a text.**  For distinct symbols that are not empty the recursion
ends, and it produces every list of symbols that spells the text once, and nothing else; the empty
text has the empty list only. -/
theorem segmentations_exact {symbols : List String} (hdistinct : symbols.Nodup)
    (hne : ∀ x ∈ symbols, x ≠ "") (s : List Char) :
    (∀ depth, s.length ≤ depth →
      segmentationsWithin symbols depth s = some (segmentations symbols s.length s)) ∧
    (∀ reading, (segmentations symbols s.length s).count reading =
      if (∀ x ∈ reading, x ∈ symbols) ∧ reading.flatMap String.toList = s then 1 else 0) ∧
    (s = [] → segmentations symbols s.length s = [[]]) := by
  refine ⟨?_, ?_, ?_⟩
  · intro depth hdepth
    rw [segmentationsWithin_eq hne hdepth, segmentations_of_length_le hne hdepth]
  · intro reading
    split
    · rename_i hspells
      exact List.count_eq_one_of_mem (nodup_segmentations hdistinct _ _)
        ((mem_segmentations_iff hne le_rfl).mpr hspells)
    · rename_i hspells
      exact List.count_eq_zero.mpr fun hmem => hspells ((mem_segmentations_iff hne le_rfl).mp hmem)
  · rintro rfl
    rfl

/-- `LUL` and `LU` overlap: `LULU` is cut in two ways. -/
theorem segmentations_exact_overlap :
    (∀ depth, 4 ≤ depth → segmentationsWithin ["LUL", "LU", "U"] depth "LULU".toList =
      some [["LUL", "U"], ["LU", "LU"]]) ∧
    (segmentations ["LUL", "LU", "U"] 4 "LULU".toList).count ["LU", "LU"] = 1 := by
  have h := @segmentations_exact ["LUL", "LU", "U"] (by decide) (by decide) "LULU".toList
  exact ⟨h.1, (h.2.1 ["LU", "LU"]).trans (by decide)⟩

end DcsDashboard.Lso
