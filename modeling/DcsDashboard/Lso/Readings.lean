/-
# The best reading of a token

What is left of a token can often be read in several ways: `LOBC` is "low at the ball call", and
`LO`, `B`, `C` spell it as well.  `parse_token` sorts all the readings, with a suffix before
without and few symbols before many, and takes the first.

The readings are stated here without the search (`Reading`): symbols of the glossary and a suffix
that spell the core.  A token becomes a deviation exactly when it has a reading, is kept verbatim
when it has none, and what is recorded is the best of its readings (`parseToken_best`).
-/
import DcsDashboard.Lso.NotationLossless

namespace DcsDashboard.Lso

open Lib

/-! ## 1. Readings and their order -/

/-- The readings of a token: symbols, at least one or, after a waveoff call, none before a suffix,
and a suffix, that spell the core. -/
structure Reading (token : List Char) (suffix : Option String) (symbols : List String) : Prop where
  spells : Spells (markings token).core suffix symbols
  said : symbols ≠ [] ∨ ((markings token).waveoff = true ∧ suffix ≠ none)

/-- What `parse_token` looks through are the readings. -/
theorem mem_candidates_iff_reading {token : List Char} (hcore : (markings token).core ≠ [])
    {suffix : Option String} {symbols : List String} :
    (suffix, symbols) ∈ candidates (markings token).waveoff (markings token).core ↔
      Reading token suffix symbols := by
  rw [mem_candidates_iff]
  constructor
  · rintro ⟨hspells, hsaid⟩
    refine ⟨hspells, ?_⟩
    cases suffix with
    | none =>
      left
      rintro rfl
      exact hcore (by simpa using hspells.text.symm)
    | some suffix =>
      rcases hsaid (by simp) with hne | hwaveoff
      · exact .inl hne
      · exact .inr ⟨hwaveoff, by simp⟩
  · rintro ⟨hspells, hsaid⟩
    refine ⟨hspells, ?_⟩
    intro _
    rcases hsaid with hne | hwaveoff
    · exact .inl hne
    · exact .inr hwaveoff.1

/-! ## 2. What is recorded -/

/-- The best reading of a token, with what the token is marked with. -/
structure Best (token : List Char) (d : Deviation) : Prop where
  waveoff : d.waveoff = (markings token).waveoff
  magnitude : d.magnitude = (markings token).magnitude
  reading : Reading token d.suffix d.symbols
  suffix : ∀ suffix symbols, Reading token (some suffix) symbols → d.suffix ≠ none
  fewest : ∀ suffix symbols, Reading token suffix symbols →
    suffix.isSome = d.suffix.isSome → d.symbols.length ≤ symbols.length

/-- A token whose core is not empty becomes its best reading, or is kept when it has none. -/
theorem parseToken_cases {token : List Char} (hball : token ≠ "[BC]".toList)
    (hcore : (markings token).core ≠ []) :
    (∃ d, Best token d ∧ ∀ n, parseToken token n = n.record (.deviation d)) ∨
      (¬∃ suffix symbols, Reading token suffix symbols) ∧
        ∀ n, parseToken token n = n.record (.unknown token) := by
  rcases parseToken_core hball hcore with ⟨⟨suffix, reading⟩, hmem, hleast, hparse⟩ | ⟨hnone, hparse⟩
  · left
    have hbetter : ∀ suffix' symbols, Reading token suffix' symbols →
        betterReading (suffix, reading) (suffix', symbols) = true := fun _ _ h =>
      hleast _ ((mem_candidates_iff_reading hcore).mpr h)
    refine ⟨⟨reading, (markings token).magnitude, suffix, (markings token).waveoff⟩,
      ⟨rfl, rfl, (mem_candidates_iff_reading hcore).mp hmem, ?_, ?_⟩, hparse⟩
    · intro suffix' symbols h
      exact Option.isSome_iff_ne_none.mp ((betterReading_iff.mp (hbetter _ _ h)).1 rfl)
    · intro suffix' symbols h hsame
      exact (betterReading_iff.mp (hbetter _ _ h)).2 hsame.symm
  · right
    refine ⟨?_, hparse⟩
    rintro ⟨suffix, symbols, hreading⟩
    have hmem := (mem_candidates_iff_reading hcore).mpr hreading
    rw [hnone] at hmem
    cases hmem

/-- A token is recorded as one thing. -/
theorem record_injective {r r' : Record} (h : ∀ n : Notation, n.record r = n.record r') :
    r = r' := by
  have hempty := h .empty
  cases r <;> cases r' <;> simp [Notation.record, Notation.empty] at hempty ⊢ <;> assumption

/-- **Reading a token is sound, complete and minimal.**  A deviation is recorded exactly when the
token has a reading, the token is kept verbatim otherwise, and the deviation is the best reading. -/
theorem parseToken_best {token : List Char} (hball : token ≠ "[BC]".toList)
    (hcore : (markings token).core ≠ []) :
    ((∃ d, ∀ n, parseToken token n = n.record (.deviation d)) ↔
        ∃ suffix symbols, Reading token suffix symbols) ∧
      ((¬∃ suffix symbols, Reading token suffix symbols) →
        ∀ n, parseToken token n = n.record (.unknown token)) ∧
      ∀ d, (∀ n, parseToken token n = n.record (.deviation d)) → Best token d := by
  rcases parseToken_cases hball hcore with ⟨d, hbest, hparse⟩ | ⟨hnone, hparse⟩
  · have hreading : ∃ suffix symbols, Reading token suffix symbols := ⟨_, _, hbest.reading⟩
    refine ⟨⟨fun _ => hreading, fun _ => ⟨d, hparse⟩⟩, fun hnone => absurd hreading hnone, ?_⟩
    intro d' hparse'
    have hsame := record_injective fun n => (hparse n).symm.trans (hparse' n)
    cases hsame
    exact hbest
  · have hunknown : ∀ d, ¬∀ n, parseToken token n = n.record (.deviation d) := by
      intro d hparse'
      have hsame := record_injective fun n => (hparse n).symm.trans (hparse' n)
      cases hsame
    refine ⟨iff_of_false ?_ hnone, fun _ => hparse, fun d hd => absurd hd (hunknown d)⟩
    rintro ⟨d, hd⟩
    exact hunknown d hd

/-- Low at the ball call: one symbol and the suffix, not the three symbols. -/
theorem parseToken_best_lobc :
    "LOBC".toList ≠ "[BC]".toList ∧ (markings "LOBC".toList).core ≠ [] ∧
      Reading "LOBC".toList none ["LO", "B", "C"] ∧
      Best "LOBC".toList ⟨["LO"], .moderate, some "BC", false⟩ := by
  have hball : "LOBC".toList ≠ "[BC]".toList := by decide +kernel
  have hcore : (markings "LOBC".toList).core ≠ [] := by decide +kernel
  have hmarks : markings "LOBC".toList = ⟨false, .moderate, "LOBC".toList⟩ := by decide +kernel
  have hbest : ((candidates false "LOBC".toList).insertionSort fun a b => betterReading a b).head? =
      some (some "BC", ["LO"]) := by
    decide +kernel
  refine ⟨hball, hcore, ?_, (parseToken_best hball hcore).2.2 _ ?_⟩
  · rw [← mem_candidates_iff_reading hcore, hmarks]
    decide +kernel
  · intro n
    simp only [parseToken, if_neg hball, hmarks, hbest]
    rfl

end DcsDashboard.Lso
