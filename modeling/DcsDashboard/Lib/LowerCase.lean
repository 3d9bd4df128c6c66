/-
# Lower case

`str::to_lowercase` replaces every character by its lower-case form in Unicode, which may be
several characters and may have another length in bytes; the form of a capital sigma depends on
where it stands.  The tables are a parameter (`LowerCase`), with what Unicode says of the
characters that meet ASCII: only the dotted capital I and the Kelvin sign have ASCII characters in
their lower-case form.

A text in lower-case ASCII is therefore found in the lower-case form of another one exactly where
that one has it up to the case of its letters (`find_toLowercase`).
-/
import DcsDashboard.Lib.ByteOffsets
import Mathlib.Data.List.Infix

namespace DcsDashboard.Lib

/-- What `str::to_lowercase` uses of Unicode: the form of a character, and whether a capital sigma
between two texts ends a word. -/
structure LowerCase where
  form : Char → List Char
  finalSigma : List Char → List Char → Bool
  form_ascii : ∀ c, c.toNat < 128 → form c = [c.toLower]
  form_dottedI : form '\u0130' = ['i', '\u0307']
  form_kelvin : form '\u212a' = ['k']
  form_other : ∀ c, 128 ≤ c.toNat → c ≠ '\u0130' → c ≠ '\u212a' →
    form c ≠ [] ∧ ∀ d ∈ form c, 128 ≤ d.toNat

namespace LowerCase

variable (T : LowerCase)

/-- The form of a character between two texts. -/
def formAt (before : List Char) (c : Char) (after : List Char) : List Char :=
  if c = '\u03a3' then [if T.finalSigma before after then '\u03c2' else '\u03c3'] else T.form c

def toLowercaseFrom : List Char → List Char → List Char
  | _, [] => []
  | before, c :: s => T.formAt before c s ++ toLowercaseFrom (before ++ [c]) s

/-- `str::to_lowercase`. -/
def toLowercase (s : List Char) : List Char := T.toLowercaseFrom [] s

variable {T}

theorem formAt_ascii {c : Char} (hc : c.toNat < 128) (before after : List Char) :
    T.formAt before c after = [c.toLower] := by
  have hsigma : c ≠ '\u03a3' := by
    rintro rfl
    exact absurd hc (by decide)
  rw [formAt, if_neg hsigma, T.form_ascii c hc]

/-- The forms of the characters beyond ASCII. -/
theorem formAt_beyond {c : Char} (hc : 128 ≤ c.toNat) (before after : List Char) :
    T.formAt before c after = ['i', '\u0307'] ∨ T.formAt before c after = ['k'] ∨
      T.formAt before c after ≠ [] ∧ ∀ d ∈ T.formAt before c after, 128 ≤ d.toNat := by
  unfold formAt
  by_cases hsigma : c = '\u03a3'
  · rw [if_pos hsigma]
    refine .inr (.inr ⟨by simp, ?_⟩)
    intro d hd
    rw [List.mem_singleton.mp hd]
    split
    · decide
    · decide
  · rw [if_neg hsigma]
    by_cases hdotted : c = '\u0130'
    · exact .inl (by rw [hdotted, T.form_dottedI])
    · by_cases hkelvin : c = '\u212a'
      · exact .inr (.inl (by rw [hkelvin, T.form_kelvin]))
      · exact .inr (.inr (T.form_other c hc hdotted hkelvin))

theorem toLower_beyond {c : Char} (hc : 128 ≤ c.toNat) : c.toLower = c := by
  have hupper : ¬ (c.val ≥ 'A'.val ∧ c.val ≤ 'Z'.val) := by
    rintro ⟨-, hle⟩
    rw [UInt32.le_iff_toNat_le] at hle
    have hval : c.toNat = c.val.toNat := rfl
    have hz : 'Z'.val.toNat = 90 := rfl
    omega
  exact dif_neg hupper

/-! ## Searching a text in lower case -/

/-- A text in which only the characters of ASCII can result from lower-casing: it has no `k`, and
no `i` at its end. -/
structure Searchable (pattern : List Char) : Prop where
  ascii : ∀ d ∈ pattern, d.toNat < 128 ∧ d ≠ 'k'
  last : pattern.getLast? ≠ some 'i'

theorem Searchable.tail {d : Char} {pattern : List Char} (h : Searchable (d :: pattern)) :
    Searchable pattern := by
  refine ⟨fun e he => h.ascii e (List.mem_cons_of_mem d he), fun hlast => h.last ?_⟩
  rw [List.getLast?_cons, hlast]
  rfl

/-- Where a text begins with the pattern in lower case. -/
theorem Searchable.isPrefix_iff {pattern : List Char} (h : Searchable pattern)
    (before s : List Char) :
    pattern <+: T.toLowercaseFrom before s ↔ pattern <+: s.map Char.toLower := by
  induction pattern generalizing before s with
  | nil => simp
  | cons d pattern ih =>
    cases s with
    | nil => simp [toLowercaseFrom]
    | cons c s =>
      rw [toLowercaseFrom, List.map_cons]
      by_cases hc : c.toNat < 128
      · rw [formAt_ascii hc, List.singleton_append, List.cons_prefix_cons, List.cons_prefix_cons,
          ih h.tail]
      · -- no character beyond ASCII is the first of an occurrence, on either side
        have hbeyond : 128 ≤ c.toNat := Nat.le_of_not_lt hc
        obtain ⟨hd, hk⟩ := h.ascii d (by simp)
        have hright : ¬ d :: pattern <+: c.toLower :: s.map Char.toLower := by
          rw [toLower_beyond hbeyond, List.cons_prefix_cons]
          rintro ⟨rfl, -⟩
          omega
        refine iff_of_false ?_ hright
        rcases formAt_beyond (T := T) hbeyond before s with hform | hform | ⟨hne, hform⟩
        · rw [hform, List.cons_append, List.cons_prefix_cons]
          rintro ⟨rfl, hrest⟩
          cases pattern with
          | nil => exact h.last rfl
          | cons e pattern =>
            obtain ⟨rfl, -⟩ := List.cons_prefix_cons.mp hrest
            exact absurd (h.ascii '\u0307' (by simp)).1 (by decide)
        · rw [hform, List.cons_append, List.cons_prefix_cons]
          rintro ⟨rfl, -⟩
          exact hk rfl
        · obtain ⟨e, es, hes⟩ := List.exists_cons_of_ne_nil hne
          rw [hes] at hform ⊢
          rw [List.cons_append, List.cons_prefix_cons]
          rintro ⟨rfl, -⟩
          have := hform d (by simp)
          omega

/-- No occurrence begins inside the form of a character. -/
theorem Searchable.not_isPrefix {pattern : List Char} (h : Searchable pattern)
    (hne : pattern ≠ []) {before s : List Char} {c : Char}
    (hhead : ¬ pattern <+: (c :: s).map Char.toLower) {y : List Char} (hy : y ≠ [])
    (hsuffix : y <:+ T.formAt before c s) :
    ¬ pattern <+: y ++ T.toLowercaseFrom (before ++ [c]) s := by
  intro hp
  by_cases hfull : y = T.formAt before c s
  · rw [hfull] at hp
    exact hhead ((h.isPrefix_iff before (c :: s)).mp hp)
  · obtain ⟨d, pattern, rfl⟩ := List.exists_cons_of_ne_nil hne
    obtain ⟨e, y, rfl⟩ := List.exists_cons_of_ne_nil hy
    obtain ⟨rfl, -⟩ := List.cons_prefix_cons.mp hp
    have hd := (h.ascii d (by simp)).1
    obtain ⟨front, hfront⟩ := hsuffix
    have hfrontNe : front ≠ [] := by
      rintro rfl
      exact hfull hfront
    by_cases hc : c.toNat < 128
    · rw [formAt_ascii hc] at hfront
      obtain ⟨f, front, rfl⟩ := List.exists_cons_of_ne_nil hfrontNe
      simp at hfront
    · rcases formAt_beyond (T := T) (Nat.le_of_not_lt hc) before s with hform | hform | ⟨-, hform⟩
      · obtain ⟨f, front, rfl⟩ := List.exists_cons_of_ne_nil hfrontNe
        have hmem : d ∈ ['\u0307'] := by
          have htail := (List.cons.inj (hfront.trans hform)).2
          rw [← htail]
          simp
        rw [List.mem_singleton.mp hmem] at hd
        exact absurd hd (by decide)
      · obtain ⟨f, front, rfl⟩ := List.exists_cons_of_ne_nil hfrontNe
        rw [hform] at hfront
        simp at hfront
      · have := hform d (by rw [← hfront]; simp)
        omega

/-- The length of a form does not depend on where the character stands. -/
theorem byteLength_formAt (before before' : List Char) (c : Char) (after after' : List Char) :
    byteLength (T.formAt before c after) = byteLength (T.formAt before' c after') := by
  unfold formAt
  have hsigma : ∀ final : Bool, byteLength [if final then '\u03c2' else '\u03c3'] = 2 := by decide
  split
  · rw [hsigma, hsigma]
  · rfl

/-- **Searching in lower case**: the offset is the length of the lower-case form of what stands
before the occurrence. -/
theorem Searchable.find {pattern : List Char} (h : Searchable pattern) (hne : pattern ≠ [])
    (before before' s : List Char) :
    Lib.find pattern (T.toLowercaseFrom before s) =
      (findText pattern (s.map Char.toLower)).map fun parts =>
        byteLength (T.toLowercaseFrom before' (s.take parts.1.length)) := by
  unfold Lib.find
  induction s generalizing before before' with
  | nil => simp [toLowercaseFrom, findText, hne]
  | cons c s ih =>
    by_cases hhead : pattern <+: (c :: s).map Char.toLower
    · rw [findText_of_isPrefix hne ((h.isPrefix_iff before (c :: s)).mpr hhead),
        findText_of_isPrefix hne hhead]
      rfl
    · have hskip := findText_append (T.toLowercaseFrom (before ++ [c]) s)
        (fun y hy hsuffix => h.not_isPrefix hne hhead hy hsuffix)
      have hih := ih (before ++ [c]) (before' ++ [c])
      rw [toLowercaseFrom, hskip, List.map_cons, findText_cons hhead, Option.map_map,
        Option.map_map]
      cases hlower : findText pattern (T.toLowercaseFrom (before ++ [c]) s) with
      | none =>
        rw [hlower] at hih
        rw [Option.map_none] at hih ⊢
        rw [Option.map_eq_none_iff.mp hih.symm]
        rfl
      | some parts =>
        rw [hlower, Option.map_some, eq_comm, Option.map_eq_some_iff] at hih
        obtain ⟨parts', hparts', hlength⟩ := hih
        rw [hparts', Option.map_some, Option.map_some]
        simp only [Function.comp_apply, List.length_cons, List.take_succ_cons, toLowercaseFrom,
          byteLength_append, ← hlength,
          byteLength_formAt before before' c s (s.take parts'.1.length)]

/-- **A text in lower-case ASCII is found** where the searched text has it in any case. -/
theorem find_toLowercase {pattern : List Char} (h : Searchable pattern) (hne : pattern ≠ [])
    (s : List Char) :
    Lib.find pattern (T.toLowercase s) =
      (findText pattern (s.map Char.toLower)).map fun parts =>
        byteLength (T.toLowercase (s.take parts.1.length)) :=
  h.find hne [] [] s

end LowerCase

end DcsDashboard.Lib
