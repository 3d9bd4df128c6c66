/-
# LSO comments lose nothing

What `parse` records of a comment corresponds, one to one and in order, to the tokens of its body,
and the English line lists exactly what is recorded (`comment_lossless`).  A token becomes one of
its readings with the glossary (`Reads`), or sets the ball call, or is kept verbatim when it has no
reading; a `WIRE#` item is the wire or is kept.  A grade label that is not one of NATOPS is kept
too, in front of everything the body leaves unread.
-/
import DcsDashboard.Lso.Notation

namespace DcsDashboard.Lso

open Lib

/-! ## 1. Readings -/

section

variable {symbols reading : List String} {symbol : String} {n : ℕ} {s rest : List Char}

theorem dropPrefix?_eq_some :
    s.dropPrefix? symbol.toList = some rest ↔ s = symbol.toList ++ rest := by
  constructor
  · intro h
    obtain ⟨p, hsplit, hp⟩ := List.dropPrefix?_eq_some_iff.mp h
    obtain rfl : p = symbol.toList := by simpa using hp
    exact hsplit
  · rintro rfl
    exact List.dropPrefix?_append_of_beq _ (by simp)

/-- What is left after a symbol is shorter. -/
theorem length_lt_of_symbol (hne : symbol ≠ "") (h : s = symbol.toList ++ rest) :
    rest.length < s.length := by
  have hpos : 0 < symbol.toList.length := List.length_pos_iff.mpr (by simpa using hne)
  rw [h, List.length_append]
  omega

/-- The cuts that begin with a symbol. -/
theorem mem_cuts_iff :
    reading ∈ (match s.dropPrefix? symbol.toList with
      | some rest => (segmentations symbols n rest).map (symbol :: ·)
      | none => []) ↔
    ∃ rest tail, s = symbol.toList ++ rest ∧ tail ∈ segmentations symbols n rest ∧
      reading = symbol :: tail := by
  cases hdrop : s.dropPrefix? symbol.toList with
  | none =>
    refine iff_of_false (by simp) ?_
    rintro ⟨rest, _, hsplit, -⟩
    rw [dropPrefix?_eq_some.mpr hsplit] at hdrop
    cases hdrop
  | some rest =>
    have hsplit := dropPrefix?_eq_some.mp hdrop
    constructor
    · intro hmem
      obtain ⟨tail, htail, rfl⟩ := List.mem_map.mp hmem
      exact ⟨rest, tail, hsplit, htail, rfl⟩
    · rintro ⟨rest', tail, hsplit', htail, rfl⟩
      obtain rfl : rest = rest' := List.append_cancel_left (hsplit.symm.trans hsplit')
      exact List.mem_map_of_mem htail

/-- Only the empty list spells the empty text. -/
theorem mem_nil_iff (hne : ∀ s ∈ symbols, s ≠ "") :
    reading ∈ [([] : List String)] ↔
      (∀ x ∈ reading, x ∈ symbols) ∧ reading.flatMap String.toList = [] := by
  cases reading with
  | nil => simp
  | cons x xs =>
    refine iff_of_false (by simp) ?_
    rintro ⟨hmem, hspell⟩
    have hx : x.toList = [] := (List.append_eq_nil_iff.mp hspell).1
    exact hne x (hmem x (by simp)) (by simpa using hx)

/-- **The ways to cut a text** are the lists of symbols that spell it. -/
theorem mem_segmentations_iff (hne : ∀ s ∈ symbols, s ≠ "") (hn : s.length ≤ n) :
    reading ∈ segmentations symbols n s ↔
      (∀ x ∈ reading, x ∈ symbols) ∧ reading.flatMap String.toList = s := by
  induction n generalizing s reading with
  | zero =>
    obtain rfl : s = [] := List.length_eq_zero_iff.mp (Nat.le_zero.mp hn)
    simpa [segmentations] using mem_nil_iff hne
  | succ n ih =>
    cases s with
    | nil => simpa [segmentations] using mem_nil_iff hne
    | cons c s =>
      have hlength : ∀ {symbol : String} {rest : List Char}, symbol ∈ symbols →
          c :: s = symbol.toList ++ rest → rest.length ≤ n := by
        intro symbol rest hsymbol hsplit
        exact Nat.le_of_lt_succ ((length_lt_of_symbol (hne symbol hsymbol) hsplit).trans_le hn)
      rw [segmentations, List.mem_flatMap]
      constructor
      · rintro ⟨symbol, hsymbol, hmem⟩
        obtain ⟨rest, tail, hsplit, htail, rfl⟩ := mem_cuts_iff.mp hmem
        obtain ⟨hsymbols, hspell⟩ := (ih (hlength hsymbol hsplit)).mp htail
        exact ⟨List.forall_mem_cons.mpr ⟨hsymbol, hsymbols⟩,
          by rw [List.flatMap_cons, hspell, hsplit]⟩
      · rintro ⟨hsymbols, hspell⟩
        cases reading with
        | nil => cases hspell
        | cons symbol tail =>
          obtain ⟨hsymbol, htail⟩ := List.forall_mem_cons.mp hsymbols
          rw [List.flatMap_cons] at hspell
          exact ⟨symbol, hsymbol, mem_cuts_iff.mpr ⟨_, tail, hspell.symm,
            (ih (hlength hsymbol hspell.symm)).mpr ⟨htail, rfl⟩, rfl⟩⟩

end

theorem mem_symbolsLongestFirst {s : String} :
    s ∈ symbolsLongestFirst ↔ s ∈ symbolTable.map Prod.fst := by
  simp [symbolsLongestFirst, List.mem_insertionSort]

theorem symbol_ne_empty : ∀ s ∈ symbolsLongestFirst, s ≠ "" := by
  have htable : ∀ s ∈ symbolTable.map Prod.fst, s ≠ "" := by decide +kernel
  intro s hs
  exact htable s (mem_symbolsLongestFirst.mp hs)

/-- A spelled core: symbols of the glossary, then the suffix. -/
structure Spells (core : List Char) (suffix : Option String) (reading : List String) : Prop where
  symbols : ∀ s ∈ reading, s ∈ symbolTable.map Prod.fst
  suffix_mem : ∀ s, suffix = some s → s ∈ suffixTable.map Prod.fst
  text : reading.flatMap String.toList ++ (suffix.getD "").toList = core

/-- A whole text is spelled without a suffix when it is one of its segmentations. -/
theorem spells_none_iff {core : List Char} {reading : List String} :
    Spells core none reading ↔
      reading ∈ segmentations symbolsLongestFirst core.length core := by
  rw [mem_segmentations_iff symbol_ne_empty le_rfl]
  constructor
  · intro h
    exact ⟨fun s hs => mem_symbolsLongestFirst.mpr (h.symbols s hs), by simpa using h.text⟩
  · rintro ⟨hsymbols, htext⟩
    exact ⟨fun s hs => mem_symbolsLongestFirst.mp (hsymbols s hs), nofun, by simpa using htext⟩

/-- With a suffix, when the text before it is spelled. -/
theorem spells_some_iff {core : List Char} {suffix : String} {reading : List String} :
    Spells core (some suffix) reading ↔ suffix ∈ suffixTable.map Prod.fst ∧
      ∃ head, core.dropSuffix? suffix.toList = some head ∧
        reading ∈ segmentations symbolsLongestFirst head.length head := by
  constructor
  · intro h
    have hhead : Spells (reading.flatMap String.toList) none reading :=
      ⟨h.symbols, nofun, by simp⟩
    refine ⟨h.suffix_mem suffix rfl, _, ?_, spells_none_iff.mp hhead⟩
    exact List.dropSuffix?_eq_some_iff.mpr ⟨suffix.toList, by simpa using h.text.symm, by simp⟩
  · rintro ⟨hsuffix, head, hdrop, hmem⟩
    obtain ⟨s, hcore, hs⟩ := List.dropSuffix?_eq_some_iff.mp hdrop
    obtain rfl : s = suffix.toList := by simpa using hs
    have hhead := spells_none_iff.mpr hmem
    refine ⟨hhead.symbols, ?_, ?_⟩
    · rintro s ⟨⟩
      exact hsuffix
    · have htext : reading.flatMap String.toList = head := by simpa using hhead.text
      rw [htext, hcore]
      simp

/-- **The candidates** are the spellings, those of a suffix alone only after a waveoff call. -/
theorem mem_candidates_iff {waveoff : Bool} {core : List Char} {suffix : Option String}
    {reading : List String} :
    (suffix, reading) ∈ candidates waveoff core ↔
      Spells core suffix reading ∧ (suffix ≠ none → reading ≠ [] ∨ waveoff = true) := by
  unfold candidates
  rw [List.mem_append, List.mem_flatMap]
  cases suffix with
  | none =>
    rw [spells_none_iff]
    constructor
    · rintro (⟨row, -, hmem⟩ | hmem)
      · cases hdrop : core.dropSuffix? row.1.toList <;> simp [hdrop] at hmem
      · exact ⟨by simpa using hmem, fun h => absurd rfl h⟩
    · rintro ⟨hmem, -⟩
      exact .inr (by simpa using hmem)
  | some suffix =>
    rw [spells_some_iff]
    constructor
    · rintro (⟨⟨suffix', meaning⟩, hrow, hmem⟩ | hmem)
      · cases hdrop : core.dropSuffix? suffix'.toList with
        | none => simp [hdrop] at hmem
        | some head =>
          simp only [hdrop, List.mem_map, List.mem_filter, Prod.mk.injEq, Option.some.injEq] at hmem
          obtain ⟨r, ⟨hreading, hsaid⟩, rfl, rfl⟩ := hmem
          exact ⟨⟨List.mem_map.mpr ⟨_, hrow, rfl⟩, head, hdrop, hreading⟩,
            fun _ => by simpa using hsaid⟩
      · simp at hmem
    · rintro ⟨⟨hsuffix, head, hdrop, hreading⟩, hsaid⟩
      obtain ⟨row, hrow, rfl⟩ := List.mem_map.mp hsuffix
      refine .inl ⟨row, hrow, ?_⟩
      simp only [hdrop, List.mem_map, List.mem_filter]
      exact ⟨reading, ⟨hreading, by simpa using hsaid (by simp)⟩, rfl⟩

/-- A suffix before none, then few symbols before many. -/
theorem betterReading_iff {a b : Option String × List String} :
    betterReading a b = true ↔
      (b.1.isSome = true → a.1.isSome = true) ∧
        (a.1.isSome = b.1.isSome → a.2.length ≤ b.2.length) := by
  unfold betterReading
  cases a.1 <;> cases b.1 <;> simp

instance betterReading_total :
    Std.Total fun a b : Option String × List String => betterReading a b = true where
  total a b := by
    simp only [betterReading_iff]
    rcases Nat.le_total a.2.length b.2.length with h | h <;>
      cases a.1 <;> cases b.1 <;> simp [h]

instance betterReading_trans :
    IsTrans (Option String × List String) fun a b => betterReading a b = true where
  trans a b c := by
    simp only [betterReading_iff]
    rintro ⟨hab, hab'⟩ ⟨hbc, hbc'⟩
    refine ⟨fun h => hab (hbc h), ?_⟩
    intro h
    have hb : b.1.isSome = c.1.isSome := by
      cases hc : c.1.isSome with
      | true => exact hbc hc
      | false =>
        rw [hc] at h
        cases hb : b.1.isSome with
        | false => rfl
        | true => exact absurd (hab hb) (by simp [h])
    exact (hab' (h.trans hb.symm)).trans (hbc' hb)

/-- The first of the sorted candidates is at least as good as any. -/
theorem best_candidate {readings : List (Option String × List String)}
    {best : Option String × List String}
    (h : (readings.insertionSort fun a b => betterReading a b).head? = some best) :
    best ∈ readings ∧ ∀ other ∈ readings, betterReading best other = true := by
  have hsorted := List.pairwise_insertionSort (fun a b => betterReading a b = true) readings
  obtain ⟨rest, hrest⟩ := List.head?_eq_some_iff.mp h
  rw [hrest, List.pairwise_cons] at hsorted
  have hmem : ∀ other, other ∈ readings ↔ other ∈ best :: rest := by
    intro other
    rw [← hrest, List.mem_insertionSort]
  refine ⟨(hmem best).mpr (by simp), ?_⟩
  intro other hother
  rcases List.mem_cons.mp ((hmem other).mp hother) with rfl | hother
  · exact betterReading_iff.mpr ⟨id, fun _ => le_rfl⟩
  · exact hsorted.1 other hother

/-- **A reading of a token**: its markings, and symbols and a suffix that spell what is left; a
suffix alone says something only of a waveoff. -/
structure Reads (token : List Char) (d : Deviation) : Prop where
  waveoff : d.waveoff = (markings token).waveoff
  magnitude : d.magnitude = (markings token).magnitude
  spells : Spells (markings token).core d.suffix d.symbols
  said : d.symbols ≠ [] ∨ d.waveoff = true

/-! ## 2. What a token becomes -/

/-- One thing `parse` records. -/
inductive Record
  | deviation (d : Deviation)
  | ballCall
  | unknown (text : List Char)
  | wire (number : UInt8)
  deriving DecidableEq

/-- A notation with one more thing recorded. -/
def Notation.record (n : Notation) : Record → Notation
  | .deviation d => { n with deviations := n.deviations ++ [d] }
  | .ballCall => { n with ballCall := true }
  | .unknown text => { n with unknown := n.unknown ++ [text] }
  | .wire number => { n with wire := some number }

/-- What a token may become. -/
inductive Becomes (token : List Char) : Record → Prop
  | deviation {d : Deviation} : Reads token d → Becomes token (.deviation d)
  | ballCall : token = "[BC]".toList → Becomes token .ballCall
  | unknown : (∀ d, ¬ Reads token d) → Becomes token (.unknown token)

/-- A token that is more than its markings becomes the best of its candidates, or is kept when it
has none. -/
theorem parseToken_core {token : List Char} (hball : token ≠ "[BC]".toList)
    (hcore : (markings token).core ≠ []) :
    (∃ best ∈ candidates (markings token).waveoff (markings token).core,
      (∀ other ∈ candidates (markings token).waveoff (markings token).core,
        betterReading best other = true) ∧
      ∀ n, parseToken token n = n.record
        (.deviation ⟨best.2, (markings token).magnitude, best.1, (markings token).waveoff⟩)) ∨
    candidates (markings token).waveoff (markings token).core = [] ∧
      ∀ n, parseToken token n = n.record (.unknown token) := by
  cases hbest : ((candidates (markings token).waveoff (markings token).core).insertionSort
      fun a b => betterReading a b).head? with
  | none =>
    refine .inr ⟨?_, ?_⟩
    · have hlength := List.length_insertionSort (fun a b => betterReading a b)
        (candidates (markings token).waveoff (markings token).core)
      rw [List.head?_eq_none_iff.mp hbest] at hlength
      exact List.length_eq_zero_iff.mp hlength.symm
    · intro n
      simp only [parseToken, if_neg hball, if_neg hcore, hbest]
      rfl
  | some best =>
    obtain ⟨hmem, hleast⟩ := best_candidate hbest
    refine .inl ⟨best, hmem, hleast, ?_⟩
    intro n
    simp only [parseToken, if_neg hball, if_neg hcore, hbest]
    rfl

/-- **A token is recorded once**, as one of its readings, as the ball call or verbatim. -/
theorem parseToken_record {token : List Char} (hne : token ≠ []) :
    ∃ r, Becomes token r ∧ ∀ n, parseToken token n = n.record r := by
  by_cases hball : token = "[BC]".toList
  · exact ⟨.ballCall, .ballCall hball, fun n => by rw [parseToken, if_pos hball]; rfl⟩
  · by_cases hcore : (markings token).core = []
    · cases hwaveoff : (markings token).waveoff with
      | true =>
        refine ⟨.deviation ⟨[], (markings token).magnitude, none, true⟩, .deviation ?_, ?_⟩
        · exact ⟨hwaveoff.symm, rfl, ⟨by simp, nofun, by simp [hcore]⟩, .inr rfl⟩
        · intro n
          simp only [parseToken, if_neg hball, hcore, if_true, hwaveoff]
          rfl
      | false =>
        refine ⟨.unknown token, .unknown ?_, ?_⟩
        · intro d hd
          have hsymbols : d.symbols ≠ [] := hd.said.resolve_right (by simp [hd.waveoff, hwaveoff])
          have htext := hd.spells.text
          rw [hcore] at htext
          obtain ⟨symbol, hsymbol⟩ := List.exists_mem_of_ne_nil _ hsymbols
          have hempty : symbol.toList = [] :=
            List.flatMap_eq_nil_iff.mp (List.append_eq_nil_iff.mp htext).1 symbol hsymbol
          exact symbol_ne_empty symbol
            (mem_symbolsLongestFirst.mpr (hd.spells.symbols symbol hsymbol)) (by simpa using hempty)
        · intro n
          simp only [parseToken, if_neg hball, hcore, if_true, hwaveoff, Bool.false_eq_true,
            if_false, if_pos hne]
          rfl
    · rcases parseToken_core hball hcore with ⟨⟨suffix, reading⟩, hmem, -, hparse⟩ | ⟨hnone, hparse⟩
      · obtain ⟨hspells, hsaid⟩ := mem_candidates_iff.mp hmem
        refine ⟨_, .deviation ⟨rfl, rfl, hspells, ?_⟩, hparse⟩
        cases suffix with
        | some suffix => exact hsaid (by simp)
        | none =>
          left
          rintro rfl
          exact hcore (by simpa using hspells.text.symm)
      · refine ⟨.unknown token, .unknown fun d hd => ?_, hparse⟩
        have hmem : (d.suffix, d.symbols) ∈
            candidates (markings token).waveoff (markings token).core :=
          mem_candidates_iff.mpr ⟨hd.spells, fun _ => by rw [← hd.waveoff]; exact hd.said⟩
        rw [hnone] at hmem
        cases hmem

/-! ## 3. What an item becomes -/

/-- An item of a body: a token, or what follows `WIRE#`, in the same token or in the next. -/
inductive Item
  | token (text : List Char)
  | wire (number : List Char)

/-- The items of a body. -/
def items : List (List Char) → List Item
  | [] => []
  | token :: tokens =>
    match token.dropPrefix? "WIRE#".toList with
    | none => .token token :: items tokens
    | some [] =>
      match tokens with
      | [] => [.wire []]
      | number :: tokens => .wire number :: items tokens
    | some after => .wire after :: items tokens

/-- What an item may become: a token one record; a `WIRE#` item the wire, followed by what the text
glued to its number becomes, or an unknown entry. -/
inductive ItemBecomes : Item → List Record → Prop
  | token {text : List Char} {r : Record} : Becomes text r → ItemBecomes (.token text) [r]
  | wire {number : List Char} {wire : UInt8} :
      wireNumber number = some (wire, []) → ItemBecomes (.wire number) [.wire wire]
  | glued {number tail : List Char} {wire : UInt8} {r : Record} :
      wireNumber number = some (wire, tail) → tail ≠ [] → Becomes tail r →
      ItemBecomes (.wire number) [.wire wire, r]
  | kept {number : List Char} :
      wireNumber number = none → ItemBecomes (.wire number) [.unknown ("WIRE# ".toList ++ number)]

/-- A `WIRE#` item is recorded once. -/
theorem parseWire_record (number : List Char) :
    ∃ rs, ItemBecomes (.wire number) rs ∧
      ∀ n, parseWire number n = rs.foldl Notation.record n := by
  cases hnumber : wireNumber number with
  | none => exact ⟨_, .kept hnumber, fun n => by simp [parseWire, hnumber, Notation.record]⟩
  | some found =>
    obtain ⟨wire, tail⟩ := found
    by_cases htail : tail = []
    · subst htail
      exact ⟨_, .wire hnumber, fun n => by simp [parseWire, hnumber, Notation.record]⟩
    · obtain ⟨r, hr, hparse⟩ := parseToken_record htail
      exact ⟨_, .glued hnumber htail hr, fun n => by
        simp [parseWire, hnumber, htail, hparse, Notation.record]⟩

/-- **The loop** records every item, in order. -/
theorem parseBody_record {tokens : List (List Char)} (hne : ∀ token ∈ tokens, token ≠ []) :
    ∃ rs, List.Forall₂ ItemBecomes (items tokens) rs ∧
      ∀ n, parseBody tokens n = rs.flatten.foldl Notation.record n := by
  fun_induction items tokens with
  | case1 => exact ⟨[], .nil, fun n => rfl⟩
  | case2 token tokens hdrop ih =>
    obtain ⟨r, hr, hparse⟩ := parseToken_record (hne token (by simp))
    obtain ⟨rs, hrs, hrun⟩ := ih fun t ht => hne t (by simp [ht])
    refine ⟨[r] :: rs, .cons (.token hr) hrs, ?_⟩
    intro n
    rw [parseBody.eq_def]
    simp only [hdrop, hparse, hrun, List.flatten_cons, List.singleton_append, List.foldl_cons]
  | case3 token hdrop =>
    obtain ⟨r, hr, hparse⟩ := parseWire_record []
    refine ⟨[r], .cons hr .nil, ?_⟩
    intro n
    rw [parseBody.eq_def]
    simp only [hdrop, hparse, List.flatten_singleton]
  | case4 token hdrop number tokens ih =>
    obtain ⟨r, hr, hparse⟩ := parseWire_record number
    obtain ⟨rs, hrs, hrun⟩ := ih fun t ht => hne t (by simp [ht])
    refine ⟨r :: rs, .cons hr hrs, ?_⟩
    intro n
    rw [parseBody.eq_def]
    simp only [hdrop, hparse, hrun, List.flatten_cons, List.foldl_append]
  | case5 token tokens after hafter hdrop ih =>
    obtain ⟨r, hr, hparse⟩ := parseWire_record after
    obtain ⟨rs, hrs, hrun⟩ := ih fun t ht => hne t (by simp [ht])
    refine ⟨r :: rs, .cons hr hrs, ?_⟩
    intro n
    rw [parseBody.eq_def]
    simp only [hdrop, hparse, hrun, List.flatten_cons, List.foldl_append]

/-! ## 4. What is recorded -/

/-- The deviation of a record. -/
def Record.deviation? : Record → Option Deviation
  | .deviation d => some d
  | _ => none

/-- The wire of a record. -/
def Record.wire? : Record → Option UInt8
  | .wire number => some number
  | _ => none

/-- The unread text of a record. -/
def Record.unknown? : Record → Option (List Char)
  | .unknown text => some text
  | _ => none

theorem foldl_record (rs : List Record) (n : Notation) :
    rs.foldl Notation.record n =
      { n with
        deviations := n.deviations ++ rs.filterMap Record.deviation?
        ballCall := n.ballCall || decide (.ballCall ∈ rs)
        unknown := n.unknown ++ rs.filterMap Record.unknown?
        wire := (rs.filterMap Record.wire?).getLast?.or n.wire } := by
  induction rs generalizing n with
  | nil => simp
  | cons r rs ih =>
    rw [List.foldl_cons, ih]
    have hlast : ∀ number : UInt8, (rs.filterMap Record.wire?).getLast?.or (some number) =
        (number :: rs.filterMap Record.wire?).getLast?.or n.wire := by
      intro number
      rw [List.getLast?_cons]
      cases (rs.filterMap Record.wire?).getLast? <;> rfl
    cases r <;>
      simp only [Notation.record, List.filterMap_cons, Record.deviation?, Record.unknown?,
        Record.wire?, hlast, List.append_assoc, List.singleton_append, List.mem_cons, reduceCtorEq,
        false_or, true_or, decide_true, Bool.or_true, Bool.true_or]

/-- The number of `WIRE#` tokens of a body. -/
def wireTokens (tokens : List (List Char)) : List (List Char) :=
  tokens.filter fun token => "WIRE#".toList.isPrefixOf token

/-- An item that is not a `WIRE#` item records no wire, and no item records two. -/
theorem ItemBecomes.wires {item : Item} {rs : List Record} (h : ItemBecomes item rs) :
    (rs.filterMap Record.wire?).length ≤
      match item with
      | .token _ => 0
      | .wire _ => 1 := by
  cases h with
  | token hr => cases hr <;> simp [List.filterMap_cons, Record.wire?]
  | wire _ => simp [Record.wire?]
  | glued _ _ hr => cases hr <;> simp [List.filterMap_cons, Record.wire?]
  | kept _ => simp [List.filterMap_cons, Record.wire?]

/-- No more wires are recorded than the body has `WIRE#` tokens. -/
theorem wires_le {tokens : List (List Char)} {rs : List (List Record)}
    (h : List.Forall₂ ItemBecomes (items tokens) rs) :
    (rs.flatten.filterMap Record.wire?).length ≤ (wireTokens tokens).length := by
  have hmono : ∀ (token : List Char) (tokens : List (List Char)),
      (wireTokens tokens).length ≤ (wireTokens (token :: tokens)).length := fun token tokens =>
    ((List.sublist_cons_self token tokens).filter _).length_le
  have hwire : ∀ {token after : List Char} (tokens : List (List Char)),
      token.dropPrefix? "WIRE#".toList = some after →
      (wireTokens (token :: tokens)).length = (wireTokens tokens).length + 1 := by
    intro token after tokens hdrop
    obtain ⟨p, rfl, hp⟩ := List.dropPrefix?_eq_some_iff.mp hdrop
    obtain rfl : p = "WIRE#".toList := by simpa using hp
    have hprefix : "WIRE#".toList.isPrefixOf ("WIRE#".toList ++ after) = true :=
      List.isPrefixOf_iff_prefix.mpr (List.prefix_append _ _)
    simp only [wireTokens, List.filter_cons, hprefix, if_true, List.length_cons]
  fun_induction items tokens generalizing rs with
  | case1 =>
    cases h
    simp
  | case2 token tokens hdrop ih =>
    cases h with
    | cons hr hrs =>
      have hr := hr.wires
      have hrs := ih hrs
      have := hmono token tokens
      simp only [List.flatten_cons, List.filterMap_append, List.length_append] at hr ⊢
      omega
  | case3 token hdrop =>
    cases h with
    | cons hr hrs =>
      cases hrs
      have hr := hr.wires
      have := hwire [] hdrop
      simp only [List.flatten_singleton] at hr ⊢
      omega
  | case4 token hdrop number tokens ih =>
    cases h with
    | cons hr hrs =>
      have hr := hr.wires
      have hrs := ih hrs
      have := hwire (number :: tokens) hdrop
      have := hmono number tokens
      simp only [List.flatten_cons, List.filterMap_append, List.length_append] at hr ⊢
      omega
  | case5 token tokens after hafter hdrop ih =>
    cases h with
    | cons hr hrs =>
      have hr := hr.wires
      have hrs := ih hrs
      have := hwire tokens hdrop
      simp only [List.flatten_cons, List.filterMap_append, List.length_append] at hr ⊢
      omega

/-! ## 5. The comment -/

/-- The tokens of a comment's body. -/
def bodyTokens (comment : List Char) : List (List Char) := splitWhitespace (splitGrade comment).2

/-- What is kept of a grade label: one that is not of NATOPS. -/
def unknownGrade : Option (List Char) → List (List Char)
  | none => []
  | some label =>
    if label ≠ [] ∧ ∀ row ∈ gradeTable, row.1.toList ≠ label then ["GRADE:".toList ++ label] else []

/-- **Nothing is lost.**  The records correspond to the items of the body; the notation holds them
in order, after what is kept of the grade label; and the English line lists them. -/
structure Lossless (comment : List Char) (kept : List (List Char)) (rs : List (List Record)) :
    Prop where
  tokens : List.Forall₂ ItemBecomes (items (bodyTokens comment)) rs
  deviations : (parse comment).deviations = rs.flatten.filterMap Record.deviation?
  wire : (parse comment).wire.toList = rs.flatten.filterMap Record.wire?
  ballCall : (parse comment).ballCall = true ↔ .ballCall ∈ rs.flatten
  unknown : (parse comment).unknown = kept ++ rs.flatten.filterMap Record.unknown?
  english : toEnglish comment = capitalise (", ".toList.intercalate
    ((rs.flatten.filterMap Record.deviation?).map Deviation.phrase ++
      (rs.flatten.filterMap Record.wire?).map
        (fun wire => "wire ".toList ++ Nat.toDigits 10 wire.toNat) ++
      (if .ballCall ∈ rs.flatten then ["ball call".toList] else []) ++
      let unread := kept ++ rs.flatten.filterMap Record.unknown?
      if unread = [] then [] else ["not understood: ".toList ++ " ".toList.intercalate unread]))

/-- What `parse` knows after the grade label. -/
theorem recordGrade_empty (label : Option (List Char)) :
    ∃ grade, recordGrade label .empty =
        { Notation.empty with grade := grade, unknown := unknownGrade label } ∧
      (grade = some "NC" → label = some "NC".toList) := by
  cases label with
  | none => exact ⟨none, rfl, nofun⟩
  | some label =>
    cases hfind : gradeTable.find? fun row => row.1.toList = label with
    | some row =>
      have hrow : row ∈ gradeTable := List.mem_of_find?_eq_some hfind
      have hlabel : row.1.toList = label := by simpa using List.find?_some hfind
      have hkept : unknownGrade (some label) = [] := if_neg fun h => h.2 row hrow hlabel
      refine ⟨some row.1, ?_, ?_⟩
      · simp [recordGrade, hfind, hkept, Notation.empty]
      · intro h
        have hnc : row.1 = "NC" := by simpa using h
        rw [← hlabel, hnc]
    | none =>
      have hnone : ∀ row ∈ gradeTable, row.1.toList ≠ label := by
        simpa using List.find?_eq_none.mp hfind
      refine ⟨none, ?_, nofun⟩
      by_cases hlabel : label = []
      · have hkept : unknownGrade (some label) = [] := if_neg fun h => h.1 hlabel
        have hempty : ¬ label ≠ [] := not_not.mpr hlabel
        simp only [recordGrade, hfind, hkept, Notation.empty, if_neg hempty]
      · have hkept : unknownGrade (some label) = ["GRADE:".toList ++ label] :=
          if_pos ⟨hlabel, hnone⟩
        simp only [recordGrade, hfind, hkept, Notation.empty, if_pos hlabel, List.nil_append]

/-- **Nothing is lost** of a comment that is not a no count and has at most one `WIRE#` token. -/
theorem comment_lossless {comment : List Char}
    (hgrade : (splitGrade comment).1 ≠ some "NC".toList)
    (hwire : (wireTokens (bodyTokens comment)).length ≤ 1) :
    ∃ rs, Lossless comment (unknownGrade (splitGrade comment).1) rs := by
  obtain ⟨grade, hrecorded, hnc⟩ := recordGrade_empty (splitGrade comment).1
  have hne : ∀ token ∈ bodyTokens comment, token ≠ [] := fun token h => by
    simpa using (List.mem_filter.mp h).2
  obtain ⟨rs, hrs, hrun⟩ := parseBody_record hne
  have hparse : parse comment =
      rs.flatten.foldl Notation.record (recordGrade (splitGrade comment).1 .empty) := by
    have hgrade' : ¬ grade = some "NC" := fun h => hgrade (hnc h)
    have hbody : parse comment =
        parseBody (bodyTokens comment) (recordGrade (splitGrade comment).1 .empty) := by
      simp only [parse, hrecorded, if_neg hgrade', bodyTokens]
    rw [hbody, hrun]
  rw [foldl_record, hrecorded] at hparse
  -- at most one wire is recorded, so the last one is all of them
  have hone : (rs.flatten.filterMap Record.wire?).getLast?.toList =
      rs.flatten.filterMap Record.wire? := by
    have hle := (wires_le hrs).trans hwire
    match hwires : rs.flatten.filterMap Record.wire?, hle with
    | [], _ => rfl
    | [wire], _ => rfl
  refine ⟨rs, hrs, ?_, ?_, ?_, ?_, ?_⟩
  · simp [hparse, Notation.empty]
  · simpa [hparse, Notation.empty] using hone
  · simp [hparse, Notation.empty]
  · simp [hparse, Notation.empty]
  · rw [toEnglish, hparse]
    simp only [Notation.english, Notation.phrases, Notation.empty, List.nil_append, Option.or_none,
      Bool.false_or, decide_eq_true_eq]
    rw [← hone]
    cases (rs.flatten.filterMap Record.wire?).getLast? <;> rfl

/-- A comment with a wire, a ball call glued to it and a token that is not of the glossary. -/
theorem comment_lossless_wireAndBallCall :
    ∃ rs, Lossless "LSO: GRADE:_OK_ : _QQQX_ LOAR WIRE# 3[BC]".toList [] rs := by
  have hkept : unknownGrade
      (splitGrade "LSO: GRADE:_OK_ : _QQQX_ LOAR WIRE# 3[BC]".toList).1 = [] := by
    decide +kernel
  rw [← hkept]
  exact comment_lossless (by decide +kernel) (by decide +kernel)

/-- **A label that is not of NATOPS** is recorded although no token of the body stands for it. -/
theorem unknown_grade_recorded :
    (splitGrade "LSO: GRADE:QQQ".toList).1 ≠ some "NC".toList ∧
      (wireTokens (bodyTokens "LSO: GRADE:QQQ".toList)).length ≤ 1 ∧
      ¬ ∃ rs, Lossless "LSO: GRADE:QQQ".toList [] rs := by
  refine ⟨by decide +kernel, by decide +kernel, ?_⟩
  rintro ⟨rs, h⟩
  have hbody : items (bodyTokens "LSO: GRADE:QQQ".toList) = [] := by
    have htokens : bodyTokens "LSO: GRADE:QQQ".toList = [] := by decide +kernel
    rw [htokens, items]
  have hrs : rs = [] := by
    have hitems := h.tokens
    rw [hbody] at hitems
    cases hitems
    rfl
  have hunknown : (parse "LSO: GRADE:QQQ".toList).unknown = ["GRADE:QQQ".toList] := by
    decide +kernel
  have hnone := h.unknown
  rw [hunknown, hrs] at hnone
  cases hnone

end DcsDashboard.Lso
