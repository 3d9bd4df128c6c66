/-
# Joined texts

A text made by joining words with a separator, or by putting one piece after another: which pieces
it contains in which order, and which words it cannot contain.
-/
import Mathlib.Data.List.Infix

namespace DcsDashboard.Lib

variable {α : Type*}

/-! ## 1. Pieces in order -/

/-- The pieces occur in the text one after another. -/
inductive InOrder : List (List α) → List α → Prop
  | nil (text : List α) : InOrder [] text
  | cons (before piece : List α) {pieces : List (List α)} {text : List α} :
      InOrder pieces text → InOrder (piece :: pieces) (before ++ (piece ++ text))

/-- More text in front does no harm. -/
theorem InOrder.prepend {pieces : List (List α)} {text : List α} (h : InOrder pieces text)
    (front : List α) : InOrder pieces (front ++ text) := by
  cases h with
  | nil => exact .nil _
  | cons before piece h =>
    rw [← List.append_assoc]
    exact .cons _ piece h

/-- Nor does more text at the end. -/
theorem InOrder.append {pieces : List (List α)} {text : List α} (h : InOrder pieces text)
    (back : List α) : InOrder pieces (text ++ back) := by
  induction h with
  | nil => exact .nil _
  | cons before piece h ih =>
    rw [List.append_assoc, List.append_assoc]
    exact .cons before piece ih

/-- Each piece is in the text. -/
theorem InOrder.infix_of_mem {pieces : List (List α)} {text piece : List α}
    (h : InOrder pieces text) (hpiece : piece ∈ pieces) : piece <:+: text := by
  induction h with
  | nil => cases hpiece
  | cons before first h ih =>
    rcases List.mem_cons.mp hpiece with rfl | hpiece
    · exact ⟨before, _, by rw [List.append_assoc]⟩
    · exact (ih hpiece).trans ((List.suffix_append _ _).isInfix.trans
        (List.suffix_append _ _).isInfix)

/-- What is in a joined text. -/
theorem mem_intercalate {words : List (List α)} {sep x : α} (h : x ∈ [sep].intercalate words) :
    x = sep ∨ ∃ word ∈ words, x ∈ word := by
  induction words with
  | nil => simp at h
  | cons word words ih =>
    cases words with
    | nil => exact .inr ⟨word, by simp, by simpa using h⟩
    | cons next words =>
      rw [List.intercalate_cons_cons, List.append_assoc, List.singleton_append, List.mem_append,
        List.mem_cons] at h
      rcases h with h | h | h
      · exact .inr ⟨word, by simp, h⟩
      · exact .inl h
      · obtain hsep | ⟨w, hw, hx⟩ := ih h
        · exact .inl hsep
        · exact .inr ⟨w, List.mem_cons_of_mem _ hw, hx⟩

/-- Some of the words of a joined text, in their order. -/
theorem inOrder_intercalate {sep : List α} {pieces words : List (List α)}
    (h : pieces.Sublist words) : InOrder pieces (sep.intercalate words) := by
  induction h with
  | slnil => exact .nil _
  | @cons pieces words word h ih =>
    cases words with
    | nil =>
      rw [List.sublist_nil.mp h]
      exact .nil _
    | cons next words =>
      rw [List.intercalate_cons_cons, List.append_assoc]
      exact (ih.prepend sep).prepend word
  | @cons_cons pieces words word h ih =>
    cases words with
    | nil =>
      rw [List.sublist_nil.mp h, List.intercalate_singleton]
      simpa using InOrder.cons [] word (.nil [])
    | cons next words =>
      rw [List.intercalate_cons_cons, List.append_assoc]
      exact .cons [] word (ih.prepend sep)

/-! ## 2. Words without the separator -/

/-- A word without the separator lies on one side of it. -/
theorem infix_append_cons {word a b : List α} {sep : α} (hsep : sep ∉ word)
    (h : word <:+: a ++ sep :: b) : word <:+: a ∨ word <:+: b := by
  obtain ⟨front, back, h⟩ := h
  rw [List.append_assoc] at h
  rcases List.append_eq_append_iff.mp h with ⟨a', rfl, h'⟩ | ⟨c, rfl, h'⟩
  · rcases List.append_eq_append_iff.mp h' with ⟨c, rfl, -⟩ | ⟨c, rfl, h''⟩
    · exact .inl ⟨front, c, by rw [List.append_assoc]⟩
    · cases c with
      | nil => exact .inl ⟨front, [], by simp⟩
      | cons x c =>
        obtain ⟨rfl, -⟩ := List.cons.inj h''
        exact absurd (by simp) hsep
  · cases c with
    | nil =>
      cases word with
      | nil => exact .inl (List.nil_infix)
      | cons x word =>
        obtain ⟨rfl, -⟩ := List.cons.inj h'
        exact absurd (by simp) hsep
    | cons x c =>
      obtain ⟨-, rfl⟩ := List.cons.inj h'
      exact .inr ⟨c, back, List.append_assoc c word back⟩

/-- A joined text contains such a word only inside one of its words. -/
theorem infix_intercalate {word : List α} {sep : α} (hne : word ≠ []) (hsep : sep ∉ word)
    {words : List (List α)} (h : word <:+: [sep].intercalate words) : ∃ w ∈ words, word <:+: w := by
  induction words with
  | nil => exact absurd (List.infix_nil.mp h) hne
  | cons first words ih =>
    cases words with
    | nil => exact ⟨first, by simp, by simpa using h⟩
    | cons next words =>
      rw [List.intercalate_cons_cons, List.append_assoc, List.singleton_append] at h
      rcases infix_append_cons hsep h with h | h
      · exact ⟨first, by simp, h⟩
      · obtain ⟨w, hw, hword⟩ := ih h
        exact ⟨w, List.mem_cons_of_mem _ hw, hword⟩

/-! ## 3. Split texts -/

/-- The parts of a split text are pieces of it, and the first one is its beginning. -/
theorem splitOnP_pieces (p : α → Bool) (s : List α) :
    (∀ part ∈ s.splitOnP p, part <:+: s) ∧ ∀ part ∈ (s.splitOnP p).head?, part <+: s := by
  induction s with
  | nil => simp [List.splitOnP_nil]
  | cons c s ih =>
    obtain ⟨first, rest, hsplit⟩ := List.exists_cons_of_ne_nil (List.splitOnP_ne_nil p s)
    obtain ⟨hpieces, hfirst⟩ := ih
    rw [hsplit] at hpieces hfirst
    have hbegins : first <+: s := hfirst first rfl
    have hlater : ∀ part ∈ first :: rest, part <:+: c :: s := fun part hpart =>
      (hpieces part hpart).trans (List.suffix_cons c s).isInfix
    rw [List.splitOnP_cons_eq_if_modifyHead, hsplit]
    split
    · refine ⟨?_, ?_⟩
      · intro part hpart
        rcases List.mem_cons.mp hpart with rfl | hpart
        · exact List.nil_infix
        · exact hlater part hpart
      · intro part hpart
        obtain rfl : [] = part := Option.mem_some_iff.mp hpart
        exact List.nil_prefix
    · have hhead : c :: first <+: c :: s := List.cons_prefix_cons.mpr ⟨rfl, hbegins⟩
      rw [List.modifyHead_cons]
      refine ⟨?_, ?_⟩
      · intro part hpart
        rcases List.mem_cons.mp hpart with rfl | hpart
        · exact hhead.isInfix
        · exact hlater part (List.mem_cons_of_mem first hpart)
      · intro part hpart
        obtain rfl : c :: first = part := Option.mem_some_iff.mp hpart
        exact hhead

theorem infix_of_mem_splitOnP {p : α → Bool} {s part : List α} (h : part ∈ s.splitOnP p) :
    part <:+: s :=
  (splitOnP_pieces p s).1 part h

/-- Two joined texts with the separator between them. -/
theorem intercalate_append {words words' : List (List α)} (sep : α) (hne : words ≠ [])
    (hne' : words' ≠ []) :
    [sep].intercalate (words ++ words') =
      [sep].intercalate words ++ sep :: [sep].intercalate words' := by
  induction words with
  | nil => exact absurd rfl hne
  | cons first words ih =>
    cases words with
    | nil =>
      rw [List.singleton_append, List.intercalate_cons_of_ne_nil hne', List.intercalate_singleton,
        List.append_assoc, List.singleton_append]
    | cons next words =>
      have hrest := ih (List.cons_ne_nil next words)
      rw [List.cons_append] at hrest
      rw [List.cons_append, List.cons_append, List.intercalate_cons_cons,
        List.intercalate_cons_cons, hrest]
      simp only [List.append_assoc]

end DcsDashboard.Lib
