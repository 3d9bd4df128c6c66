/-
# Replacing one field of a data file

A program that edits a data file in place replaces the text of one field and leaves the rest.
Read after the replacement, the rest of the file goes through the same states as before, with
the one value changed wherever the table is held (`Patched`): in the constructor while it is
being read, and in the global once it is complete.  This holds as long as the rest neither
assigns that global again nor sets that field again (`keeps`).

A second section is about what is replaced: without a brace in it, a row of tokens stays inside
the constructor it begins in, so the first closing brace closes it (`field_closed`).
-/
import DcsDashboard.Lib.LuaData

namespace DcsDashboard.Lib.Lua

/-! ## 1. Tables that differ in one entry -/

/-- The table with another value under a key it has. -/
def Entries.patch (key : Key) (v : Value) (es : Entries) : Entries :=
  es.map fun e => if e.1 = key then (e.1, v) else e

/-- The key is in the table. -/
def Entries.Has (key : Key) (es : Entries) : Prop := key ∈ es.map Prod.fst

section
variable {key k : Key} {v w : Value} {es : Entries}

theorem Entries.patch_set_of_ne (hk : k ≠ key) :
    Entries.patch key v (es.set k w) = Entries.set (Entries.patch key v es) k w := by
  have hfilter : Entries.patch key v (es.filter (·.1 ≠ k)) =
      (Entries.patch key v es).filter (·.1 ≠ k) := by
    simp only [Entries.patch, List.filter_map]
    congr 1
    refine List.filter_congr ?_
    intro e _
    simp only [Function.comp_apply]
    split <;> rfl
  have happend : ∀ u, Entries.patch key v (es.filter (·.1 ≠ k) ++ [(k, u)]) =
      (Entries.patch key v es).filter (·.1 ≠ k) ++ [(k, u)] := by
    intro u
    rw [← hfilter]
    simp [Entries.patch, hk]
  cases w with
  | nil => exact hfilter
  | _ => exact happend _

theorem Entries.set_eq (hv : v ≠ .nil) : es.set key v = es.filter (·.1 ≠ key) ++ [(key, v)] := by
  cases v with
  | nil => exact absurd rfl hv
  | _ => rfl

/-- Setting the key itself. -/
theorem Entries.patch_set_self (hw : w ≠ .nil) (hv : v ≠ .nil) :
    Entries.patch key v (es.set key w) = es.set key v := by
  have hfilter : Entries.patch key v (es.filter (·.1 ≠ key)) = es.filter (·.1 ≠ key) := by
    refine (List.map_congr_left fun e he => ?_).trans (List.map_id _)
    have hne : e.1 ≠ key := by simpa using (List.mem_filter.mp he).2
    simp [hne]
  rw [Entries.set_eq hw, Entries.set_eq hv, Entries.patch, List.map_append, ← Entries.patch,
    hfilter]
  simp

theorem Entries.Has.set_of_ne (h : Entries.Has key es) (hk : k ≠ key) :
    Entries.Has key (es.set k w) := by
  obtain ⟨e, he, rfl⟩ := List.mem_map.mp h
  have hmem : e ∈ es.filter (·.1 ≠ k) := List.mem_filter.mpr ⟨he, by simpa using hk.symm⟩
  refine List.mem_map.mpr ⟨e, ?_, rfl⟩
  cases w with
  | nil => exact hmem
  | _ => exact List.mem_append_left _ hmem

theorem Entries.has_set_self (hv : v ≠ .nil) : Entries.Has key (es.set key v) := by
  rw [Entries.set_eq hv]
  simp [Entries.Has]

end

/-! ## 2. Readers that differ in one entry -/

/-- The context of what is expected, inside a value. -/
def Expecting.context : Expecting → Option Context
  | .statement | .statementOrSemicolon | .equals _ => none
  | .value c | .fieldOrEnd _ c | .keyEnd _ _ c | .keyEquals _ _ c | .separatorOrEnd _ c => some c

/-- The global a value goes into. -/
def Context.target : Context → List Char
  | .global y => y
  | .entry _ _ c | .item _ c | .key _ c | .negation c => c.target

section
variable (x : List Char) (key : List UInt8) (v : Value)

/-- A constructor that has the field, and the same with the other value. -/
structure PatchedFrame (f f' : Frame) : Prop where
  eq : f' = { f with entries := Entries.patch (.string key) v f.entries }
  has : Entries.Has (.string key) f.entries

/-- Globals whose table `x` has the field, and the same with the other value. -/
def PatchedGlobals (g g' : List (List Char × Value)) : Prop :=
  ∃ es, g.lookup x = some (.table es) ∧ Entries.Has (.string key) es ∧
    g'.lookup x = some (.table (Entries.patch (.string key) v es))

/-- Inside the constructor that is assigned to `x`, and the same with the other value. -/
inductive Inside : Context → Context → Prop
  | entry {k : Value} {f f' : Frame} (hf : PatchedFrame key v f f') (hk : k ≠ .string key) :
      Inside (.entry k f (.global x)) (.entry k f' (.global x))
  | item {f f' : Frame} (hf : PatchedFrame key v f f') :
      Inside (.item f (.global x)) (.item f' (.global x))
  | bracket {f f' : Frame} (hf : PatchedFrame key v f f') :
      Inside (.key f (.global x)) (.key f' (.global x))
  | nestedEntry {k : Value} {f : Frame} {c c' : Context} (h : Inside c c') :
      Inside (.entry k f c) (.entry k f c')
  | nestedItem {f : Frame} {c c' : Context} (h : Inside c c') : Inside (.item f c) (.item f c')
  | nestedBracket {f : Frame} {c c' : Context} (h : Inside c c') : Inside (.key f c) (.key f c')
  | negation {c c' : Context} (h : Inside c c') : Inside (.negation c) (.negation c')

/-- Globals and a context that differ in the one entry: in the context, or in the globals. -/
inductive PatchedContext : List (List Char × Value) → Context →
    List (List Char × Value) → Context → Prop
  | inside {g c c'} (h : Inside x key v c c') : PatchedContext g c g c'
  | outside {g g' c} (hg : PatchedGlobals x key v g g') (hc : c.target ≠ x) :
      PatchedContext g c g' c

/-- The same for a constructor that is being read. -/
inductive PatchedField : List (List Char × Value) → Frame → Context →
    List (List Char × Value) → Frame → Context → Prop
  | here {g f f'} (hf : PatchedFrame key v f f') : PatchedField g f (.global x) g f' (.global x)
  | nested {g g' f c c'} (h : PatchedContext x key v g c g' c') : PatchedField g f c g' f c'

/-- **Two readers that differ in one entry**: of the constructor that is being read, or, once it
is complete, of the table that the global holds. -/
inductive Patched : Reader → Reader → Prop
  | statement {g g' e} (hg : PatchedGlobals x key v g g') (he : e.context = none) :
      Patched ⟨g, e⟩ ⟨g', e⟩
  | value {g g' c c'} (h : PatchedContext x key v g c g' c') :
      Patched ⟨g, .value c⟩ ⟨g', .value c'⟩
  | fieldOrEnd {g g' f f' c c'} (h : PatchedField x key v g f c g' f' c') :
      Patched ⟨g, .fieldOrEnd f c⟩ ⟨g', .fieldOrEnd f' c'⟩
  | separatorOrEnd {g g' f f' c c'} (h : PatchedField x key v g f c g' f' c') :
      Patched ⟨g, .separatorOrEnd f c⟩ ⟨g', .separatorOrEnd f' c'⟩
  | keyEnd {g g' k f f' c c'} (h : PatchedField x key v g f c g' f' c') :
      Patched ⟨g, .keyEnd k f c⟩ ⟨g', .keyEnd k f' c'⟩
  | keyEquals {g g' k f f' c c'} (h : PatchedField x key v g f c g' f' c') :
      Patched ⟨g, .keyEquals k f c⟩ ⟨g', .keyEquals k f' c'⟩

end

section
variable {round : ℚ → Double} {x : List Char} {key : List UInt8} {v : Value}

/-- The reader is about to read a value for the global or for the field. -/
def Rewrites (x : List Char) (key : List UInt8) (r : Reader) : Bool :=
  match r.expecting with
  | .value (.global y) => y = x
  | .value (.entry (.string k) _ (.global y)) => k = key && y = x
  | _ => false

theorem PatchedFrame.set {f f' f₁ : Frame} {k w : Value} (h : PatchedFrame key v f f')
    (hk : k ≠ .string key) (hf : f.set k w = some f₁) :
    ∃ f₁', f'.set k w = some f₁' ∧ PatchedFrame key v f₁ f₁' := by
  obtain ⟨rfl, has⟩ := h
  have hset : ∀ k' : Key, k' ≠ .string key → PatchedFrame key v
      { f with entries := f.entries.set k' w }
      { f with entries := Entries.set (Entries.patch (.string key) v f.entries) k' w } :=
    fun k' hk' => ⟨by simp [Entries.patch_set_of_ne hk'], has.set_of_ne hk'⟩
  cases k with
  | nil => cases hf
  | bool b =>
    obtain rfl := Option.some.inj hf
    exact ⟨_, rfl, hset _ (by simp)⟩
  | number n =>
    cases n with
    | nan => cases hf
    | _ =>
      obtain rfl := Option.some.inj hf
      exact ⟨_, rfl, hset _ (by simp)⟩
  | string bytes =>
    obtain rfl := Option.some.inj hf
    exact ⟨_, rfl, hset _ (by simpa using hk)⟩
  | table _ =>
    obtain rfl := Option.some.inj hf
    exact ⟨_, rfl, rfl, has⟩

theorem PatchedFrame.push {f f' : Frame} (h : PatchedFrame key v f f') (w : Value) :
    PatchedFrame key v { f with pending := f.pending ++ [w] }
      { f' with pending := f'.pending ++ [w] } := by
  obtain ⟨rfl, has⟩ := h
  exact ⟨rfl, has⟩

theorem PatchedFrame.flush {f f' : Frame} (h : PatchedFrame key v f f') :
    PatchedFrame key v f.flush f'.flush := by
  obtain ⟨rfl, has⟩ := h
  have hfold : ∀ place : Entries → Value × Nat → Entries,
      (∀ es item, place es item = es.set (.index (f.stored + item.2 + 1)) item.1) →
      ∀ (items : List (Value × Nat)) (es : Entries), Entries.Has (.string key) es →
        Entries.Has (.string key) (items.foldl place es) ∧
        items.foldl place (Entries.patch (.string key) v es) =
          Entries.patch (.string key) v (items.foldl place es) := by
    intro place hplace items
    induction items with
    | nil => exact fun es h => ⟨h, rfl⟩
    | cons item items ih =>
      intro es h
      have hne : Key.index (f.stored + item.2 + 1) ≠ .string key := by simp [Key.index]
      obtain ⟨h1, h2⟩ := ih (es.set (.index (f.stored + item.2 + 1)) item.1) (h.set_of_ne hne)
      rw [Entries.patch_set_of_ne hne] at h2
      rw [List.foldl_cons, List.foldl_cons, hplace, hplace]
      exact ⟨h1, h2⟩
  have hpatched := hfold _ (fun _ _ => rfl) f.pending.zipIdx f.entries has
  exact ⟨by simpa [Frame.flush] using hpatched.2, hpatched.1⟩

theorem PatchedFrame.beforeField {f f' : Frame} (h : PatchedFrame key v f f') :
    PatchedFrame key v f.beforeField f'.beforeField := by
  have hflush := h.flush
  obtain ⟨rfl, has⟩ := h
  unfold Frame.beforeField
  split
  · exact hflush
  · exact ⟨rfl, has⟩

/-! ## 3. One token -/

variable {g g' : List (List Char × Value)} {f f' : Frame} {c c' : Context} {k w : Value}
  {r s : Reader} {t : Token}

theorem PatchedField.beforeField (h : PatchedField x key v g f c g' f' c') :
    PatchedField x key v g f.beforeField c g' f'.beforeField c' := by
  cases h with
  | here hf => exact .here hf.beforeField
  | nested h => exact .nested h

theorem PatchedField.item (h : PatchedField x key v g f c g' f' c') :
    PatchedContext x key v g (.item f c) g' (.item f' c') := by
  cases h with
  | here hf => exact .inside (.item hf)
  | nested h =>
    cases h with
    | inside h => exact .inside (.nestedItem h)
    | outside hg hc => exact .outside hg hc

theorem PatchedField.bracket (h : PatchedField x key v g f c g' f' c') :
    PatchedContext x key v g (.key f c) g' (.key f' c') := by
  cases h with
  | here hf => exact .inside (.bracket hf)
  | nested h =>
    cases h with
    | inside h => exact .inside (.nestedBracket h)
    | outside hg hc => exact .outside hg hc

theorem PatchedField.entry (h : PatchedField x key v g f c g' f' c')
    (hk : Rewrites x key ⟨g, .value (.entry k f c)⟩ = false) :
    PatchedContext x key v g (.entry k f c) g' (.entry k f' c') := by
  cases h with
  | here hf =>
    refine .inside (.entry hf ?_)
    rintro rfl
    simp [Rewrites] at hk
  | nested h =>
    cases h with
    | inside h => exact .inside (.nestedEntry h)
    | outside hg hc => exact .outside hg hc

theorem PatchedContext.negation (h : PatchedContext x key v g c g' c') :
    PatchedContext x key v g (.negation c) g' (.negation c') := by
  cases h with
  | inside h => exact .inside (.negation h)
  | outside hg hc => exact .outside hg hc

/-- A value is handed over inside the constructor. -/
theorem Inside.give (h : Inside x key v c c') (hr : give round g c w = some r) :
    ∃ s, give round g c' w = some s ∧ Patched x key v r s := by
  induction h generalizing w with
  | entry hf hk =>
    obtain ⟨f₁, hset, rfl⟩ := Option.map_eq_some_iff.mp hr
    obtain ⟨f₁', hset', hf'⟩ := hf.set hk hset
    exact ⟨_, by simp [Lua.give, hset'], .separatorOrEnd (.here hf')⟩
  | item hf =>
    obtain rfl := Option.some.inj hr
    exact ⟨_, rfl, .separatorOrEnd (.here (hf.push w))⟩
  | bracket hf =>
    obtain rfl := Option.some.inj hr
    exact ⟨_, rfl, .keyEnd (.here hf)⟩
  | nestedEntry h =>
    obtain ⟨f₁, hset, rfl⟩ := Option.map_eq_some_iff.mp hr
    exact ⟨_, by simp [Lua.give, hset], .separatorOrEnd (.nested (.inside h))⟩
  | nestedItem h =>
    obtain rfl := Option.some.inj hr
    exact ⟨_, rfl, .separatorOrEnd (.nested (.inside h))⟩
  | nestedBracket h =>
    obtain rfl := Option.some.inj hr
    exact ⟨_, rfl, .keyEnd (.nested (.inside h))⟩
  | negation h ih =>
    obtain ⟨u, hu, hr⟩ := Option.bind_eq_some_iff.mp hr
    obtain ⟨s, hs, hrs⟩ := ih hr
    exact ⟨s, by simp [Lua.give, hu, hs], hrs⟩

theorem PatchedGlobals.cons (hg : PatchedGlobals x key v g g') {y : List Char} (hy : y ≠ x)
    (w : Value) : PatchedGlobals x key v ((y, w) :: g) ((y, w) :: g') := by
  obtain ⟨es, h1, h2, h3⟩ := hg
  have hbeq : (x == y) = false := by simpa using hy.symm
  exact ⟨es, by simpa [List.lookup_cons, hbeq] using h1, h2,
    by simpa [List.lookup_cons, hbeq] using h3⟩

/-- A value is handed over. -/
theorem PatchedContext.give (h : PatchedContext x key v g c g' c')
    (hr : give round g c w = some r) :
    ∃ s, give round g' c' w = some s ∧ Patched x key v r s := by
  cases h with
  | inside h => exact h.give hr
  | outside hg hc =>
    induction c generalizing w with
    | global y =>
      obtain rfl := Option.some.inj hr
      exact ⟨_, rfl, .statement (hg.cons hc w) rfl⟩
    | entry k f c _ =>
      obtain ⟨f₁, hset, rfl⟩ := Option.map_eq_some_iff.mp hr
      exact ⟨_, by simp [Lua.give, hset], .separatorOrEnd (.nested (.outside hg hc))⟩
    | item f c _ =>
      obtain rfl := Option.some.inj hr
      exact ⟨_, rfl, .separatorOrEnd (.nested (.outside hg hc))⟩
    | key f c _ =>
      obtain rfl := Option.some.inj hr
      exact ⟨_, rfl, .keyEnd (.nested (.outside hg hc))⟩
    | negation c ih =>
      obtain ⟨u, hu, hr⟩ := Option.bind_eq_some_iff.mp hr
      obtain ⟨s, hs, hrs⟩ := ih hr hc
      exact ⟨s, by simp [Lua.give, hu, hs], hrs⟩

/-- A constructor ends. -/
theorem PatchedField.closeTable (h : PatchedField x key v g f c g' f' c')
    (hr : closeTable round g f c = some r) :
    ∃ s, closeTable round g' f' c' = some s ∧ Patched x key v r s := by
  cases h with
  | here hf =>
    obtain rfl := Option.some.inj hr
    obtain ⟨heq, has⟩ := hf.flush
    have hentries : f'.flush.entries = Entries.patch (.string key) v f.flush.entries := by
      rw [heq]
    exact ⟨_, rfl, .statement ⟨f.flush.entries, by simp, has, by simp [hentries]⟩ rfl⟩
  | nested h => exact h.give hr

/-- The first token of a value. -/
theorem PatchedContext.readValue (h : PatchedContext x key v g c g' c')
    (hr : readValue round g c t = some r) :
    ∃ s, readValue round g' c' t = some s ∧ Patched x key v r s := by
  cases t with
  | number q => exact h.give hr
  | string bytes => exact h.give hr
  | name y =>
    simp only [Lua.readValue] at hr ⊢
    split at hr
    · next hy => simpa [hy] using h.give hr
    · split at hr
      · next hy => simpa [hy] using h.give hr
      · split at hr
        · next hy => simpa [hy] using h.give hr
        · cases hr
  | sym a =>
    simp only [Lua.readValue] at hr ⊢
    split at hr
    · next ha =>
      obtain rfl := Option.some.inj hr
      exact ⟨_, if_pos ha, .fieldOrEnd (.nested h)⟩
    · next ha =>
      split at hr
      · next hb =>
        obtain rfl := Option.some.inj hr
        exact ⟨_, (if_neg ha).trans (if_pos hb), .value h.negation⟩
      · cases hr

/-- The first token of a field. -/
theorem PatchedField.readField (h : PatchedField x key v g f c g' f' c')
    (hr : readField round g f c t = some r) :
    ∃ s, readField round g' f' c' t = some s ∧ Patched x key v r s := by
  unfold Lua.readField at hr ⊢
  split at hr
  · obtain rfl := Option.some.inj hr
    exact ⟨_, rfl, .value h.bracket⟩
  · split at hr
    · next hy =>
      obtain ⟨s, hs, hrs⟩ := h.item.readValue hr
      exact ⟨s, by simpa [hy] using hs, hrs⟩
    · next hy =>
      obtain rfl := Option.some.inj hr
      exact ⟨_, by simp [hy], .keyEquals h⟩
  · exact h.item.readValue hr

/-- **One token keeps two readers in step.** -/
theorem Patched.readToken (h : Patched x key v r s) {r' : Reader}
    (hr : readToken round r t = some r') (hkeep : Rewrites x key r' = false) :
    ∃ s', readToken round s t = some s' ∧ Patched x key v r' s' := by
  have hstatement : ∀ {g g' : List (List Char × Value)}, PatchedGlobals x key v g g' →
      readStatement g t = some r' → ∃ s', readStatement g' t = some s' ∧ Patched x key v r' s' := by
    intro g g' hg hr
    unfold readStatement at hr ⊢
    split at hr
    · split at hr
      · cases hr
      · next hy =>
        obtain rfl := Option.some.inj hr
        exact ⟨_, by simp [hy], .statement hg rfl⟩
    · cases hr
  cases h with
  | @statement g g' e hg he =>
    cases e with
    | statement => exact hstatement hg hr
    | statementOrSemicolon =>
      simp only [Lua.readToken] at hr ⊢
      split at hr
      · next ht =>
        obtain rfl := Option.some.inj hr
        exact ⟨_, if_pos ht, .statement hg rfl⟩
      · next ht =>
        rw [if_neg ht]
        exact hstatement hg hr
    | equals y =>
      simp only [Lua.readToken] at hr ⊢
      split at hr
      · next ht =>
        obtain rfl := Option.some.inj hr
        have hy : y ≠ x := by simpa [Rewrites] using hkeep
        exact ⟨_, if_pos ht, .value (.outside hg hy)⟩
      · cases hr
    | _ => cases he
  | value h => exact h.readValue hr
  | fieldOrEnd h =>
    simp only [Lua.readToken] at hr ⊢
    split at hr
    · next ht =>
      rw [if_pos ht]
      exact h.closeTable hr
    · next ht =>
      rw [if_neg ht]
      exact h.beforeField.readField hr
  | separatorOrEnd h =>
    simp only [Lua.readToken] at hr ⊢
    split at hr
    · next ht =>
      rw [if_pos ht]
      exact h.closeTable hr
    · next ht =>
      split at hr
      · next hsep =>
        obtain rfl := Option.some.inj hr
        exact ⟨_, (if_neg ht).trans (if_pos hsep), .fieldOrEnd h⟩
      · cases hr
  | keyEnd h =>
    simp only [Lua.readToken] at hr ⊢
    split at hr
    · next ht =>
      obtain rfl := Option.some.inj hr
      exact ⟨_, if_pos ht, .keyEquals h⟩
    · cases hr
  | keyEquals h =>
    simp only [Lua.readToken] at hr ⊢
    split at hr
    · next ht =>
      obtain rfl := Option.some.inj hr
      exact ⟨_, if_pos ht, .value (h.entry hkeep)⟩
    · cases hr

/-! ## 4. A row of tokens -/

/-- The tokens neither assign the global again nor set the field again. -/
def keeps (round : ℚ → Double) (x : List Char) (key : List UInt8) : Reader → List Token → Bool
  | _, [] => true
  | r, t :: ts =>
    match readToken round r t with
    | some r' => !Rewrites x key r' && keeps round x key r' ts
    | none => false

/-- **The rest of the file keeps two readers in step.** -/
theorem Patched.readTokens {ts : List Token} (h : Patched x key v r s) {r' : Reader}
    (hkeep : keeps round x key r ts) (hr : readTokens round r ts = some r') :
    ∃ s', readTokens round s ts = some s' ∧ Patched x key v r' s' := by
  induction ts generalizing r s with
  | nil =>
    obtain rfl := Option.some.inj hr
    exact ⟨s, rfl, h⟩
  | cons t ts ih =>
    obtain ⟨r₁, hr₁, hr⟩ := Option.bind_eq_some_iff.mp hr
    simp only [keeps, hr₁, Bool.and_eq_true, Bool.not_eq_true'] at hkeep
    obtain ⟨s₁, hs₁, h₁⟩ := h.readToken hr₁ hkeep.1
    obtain ⟨s', hs', h'⟩ := ih h₁ hkeep.2 hr
    exact ⟨s', by simp [hs₁, hs'], h'⟩

/-! ## 5. A constructor without braces in it -/

/-- A value that is read for a field of a constructor for `c`. -/
inductive Operand (c : Context) : Context → Prop
  | item (f : Frame) : Operand c (.item f c)
  | entry (k : Value) (f : Frame) : Operand c (.entry k f c)
  | key (f : Frame) : Operand c (.key f c)
  | negation {c' : Context} (h : Operand c c') : Operand c (.negation c')

/-- The reader is in a constructor for `c`, and not in one inside it. -/
inductive Within (g : List (List Char × Value)) (c : Context) : Reader → Prop
  | fieldOrEnd (f : Frame) : Within g c ⟨g, .fieldOrEnd f c⟩
  | separatorOrEnd (f : Frame) : Within g c ⟨g, .separatorOrEnd f c⟩
  | keyEnd (k : Value) (f : Frame) : Within g c ⟨g, .keyEnd k f c⟩
  | keyEquals (k : Value) (f : Frame) : Within g c ⟨g, .keyEquals k f c⟩
  | value {c' : Context} (h : Operand c c') : Within g c ⟨g, .value c'⟩

theorem Operand.give (h : Operand c c') (hr : give round g c' w = some r) : Within g c r := by
  induction h generalizing w with
  | item f =>
    obtain rfl := Option.some.inj hr
    exact .separatorOrEnd _
  | entry k f =>
    obtain ⟨f₁, -, rfl⟩ := Option.map_eq_some_iff.mp hr
    exact .separatorOrEnd _
  | key f =>
    obtain rfl := Option.some.inj hr
    exact .keyEnd _ _
  | negation h ih =>
    obtain ⟨u, -, hr⟩ := Option.bind_eq_some_iff.mp hr
    exact ih hr

theorem Operand.readValue (h : Operand c c') (ht : t ≠ .sym '{')
    (hr : readValue round g c' t = some r) : Within g c r := by
  cases t with
  | number q => exact h.give hr
  | string bytes => exact h.give hr
  | name y =>
    simp only [Lua.readValue] at hr
    split at hr
    · exact h.give hr
    · split at hr
      · exact h.give hr
      · split at hr
        · exact h.give hr
        · cases hr
  | sym a =>
    simp only [Lua.readValue] at hr
    split at hr
    · next ha => exact absurd (congrArg Token.sym ha) ht
    · split at hr
      · obtain rfl := Option.some.inj hr
        exact .value (.negation h)
      · cases hr

/-- A token that is no brace does not leave the constructor. -/
theorem Within.readToken (h : Within g c r) (hopen : t ≠ .sym '{') (hclose : t ≠ .sym '}')
    {r' : Reader} (hr : readToken round r t = some r') : Within g c r' := by
  cases h with
  | fieldOrEnd f =>
    simp only [Lua.readToken, if_neg hclose] at hr
    unfold Lua.readField at hr
    split at hr
    · obtain rfl := Option.some.inj hr
      exact .value (.key _)
    · split at hr
      · exact (Operand.item _).readValue (by simp) hr
      · obtain rfl := Option.some.inj hr
        exact .keyEquals _ _
    · exact (Operand.item _).readValue hopen hr
  | separatorOrEnd f =>
    simp only [Lua.readToken, if_neg hclose] at hr
    split at hr
    · obtain rfl := Option.some.inj hr
      exact .fieldOrEnd _
    · cases hr
  | keyEnd k f =>
    simp only [Lua.readToken] at hr
    split at hr
    · obtain rfl := Option.some.inj hr
      exact .keyEquals _ _
    · cases hr
  | keyEquals k f =>
    simp only [Lua.readToken] at hr
    split at hr
    · obtain rfl := Option.some.inj hr
      exact .value (.entry _ _)
    · cases hr
  | value h => exact h.readValue hopen hr

theorem Within.readTokens {ts : List Token} (h : Within g c r)
    (hts : ∀ t ∈ ts, t ≠ .sym '{' ∧ t ≠ .sym '}') {r' : Reader}
    (hr : readTokens round r ts = some r') : Within g c r' := by
  induction ts generalizing r with
  | nil =>
    obtain rfl := Option.some.inj hr
    exact h
  | cons t ts ih =>
    obtain ⟨r₁, hr₁, hr⟩ := Option.bind_eq_some_iff.mp hr
    have ht := hts t (by simp)
    exact ih (h.readToken ht.1 ht.2 hr₁) (fun u hu => hts u (by simp [hu])) hr

/-- A closing brace ends the constructor. -/
theorem Within.close (h : Within g c r) {r' : Reader}
    (hr : Lua.readToken round r (.sym '}') = some r') :
    ∃ f, closeTable round g f c = some r' := by
  cases h with
  | fieldOrEnd f => exact ⟨f, hr⟩
  | separatorOrEnd f => exact ⟨f, hr⟩
  | keyEnd k f => cases hr
  | keyEquals k f => cases hr
  | value h => cases hr

/-- **The first closing brace closes it.**  A field whose key is a string and whose value is a
constructor without braces in it. -/
theorem field_closed {f : Frame} {inner : List Token}
    (hinner : ∀ t ∈ inner, t ≠ .sym '{' ∧ t ≠ .sym '}')
    (hr : readTokens round ⟨g, .fieldOrEnd f c⟩
      ([.sym '[', .string key, .sym ']', .sym '=', .sym '{'] ++ inner ++ [.sym '}']) = some r) :
    ∃ es, r = ⟨g, .separatorOrEnd { f.beforeField with
      entries := f.beforeField.entries.set (.string key) (.table es) } c⟩ := by
  rw [readTokens_append] at hr
  obtain ⟨r₁, hr₁, hlast⟩ := Option.bind_eq_some_iff.mp hr
  rw [readTokens_append] at hr₁
  obtain ⟨r₂, hr₂, hmiddle⟩ := Option.bind_eq_some_iff.mp hr₁
  have hopen : readTokens round ⟨g, .fieldOrEnd f c⟩
      [.sym '[', .string key, .sym ']', .sym '=', .sym '{'] =
        some ⟨g, .fieldOrEnd .empty (.entry (.string key) f.beforeField c)⟩ := rfl
  obtain rfl := Option.some.inj (hopen.symm.trans hr₂)
  have hwithin := (Within.fieldOrEnd (g := g) (c := .entry (.string key) f.beforeField c)
    .empty).readTokens hinner hmiddle
  rw [readTokens_singleton] at hlast
  obtain ⟨f₁, hf₁⟩ := hwithin.close hlast
  obtain rfl := Option.some.inj hf₁
  exact ⟨_, rfl⟩

end

end DcsDashboard.Lib.Lua
