/-
# Moving one item of a list

An item is taken out and put back at another place (`moved`).  Where only some of the items are
shown, moving one of them to the place of another that is shown means to put it beside that one
in the whole list: after it on the way down, before it on the way up.  What is shown then moves as
if there was nothing else, and what is not shown keeps its order (`movedShown_down`,
`movedShown_up`).
-/
import Mathlib.Data.List.InsertIdx

namespace DcsDashboard.Lib

variable {α β : Type*}

/-- The item at `i` taken out and put back at `j`. -/
def moved (l : List α) (i j : Nat) : List α :=
  match l[i]? with
  | some x => (l.eraseIdx i).insertIdx j x
  | none => l

theorem moved_eq {l : List α} {i : Nat} {x : α} (h : l[i]? = some x) (j : Nat) :
    moved l i j = (l.eraseIdx i).insertIdx j x := by
  simp only [moved, h]

/-- An item put back where it was. -/
theorem moved_self (l : List α) (i : Nat) : moved l i i = l := by
  cases hx : l[i]? with
  | none => simp only [moved, hx]
  | some x =>
    obtain ⟨hlen, rfl⟩ := List.getElem?_eq_some_iff.mp hx
    rw [moved_eq hx, List.insertIdx_eraseIdx_getElem hlen]

theorem moved_map (f : α → β) (l : List α) (i j : Nat) :
    (moved l i j).map f = moved (l.map f) i j := by
  cases hx : l[i]? with
  | none => simp [moved, hx]
  | some x => simp [moved, hx, List.map_insertIdx, List.eraseIdx_map]

theorem mem_of_mem_moved {l : List α} {i j : Nat} {x : α} (h : x ∈ moved l i j) : x ∈ l := by
  cases hy : l[i]? with
  | none =>
    simp only [moved, hy] at h
    exact h
  | some y =>
    rw [moved_eq hy] at h
    rcases List.mem_cons.mp (List.insertIdx_subset_cons j y _ h) with rfl | hx
    · exact List.mem_of_getElem? hy
    · exact List.mem_of_mem_eraseIdx hx

theorem map_some_filterMap {f : α → Option β} {l : List α} (h : ∀ x ∈ l, (f x).isSome) :
    (l.filterMap f).map some = l.map f := by
  induction l with
  | nil => rfl
  | cons x l ih =>
    obtain ⟨y, hy⟩ := Option.isSome_iff_exists.mp (h x (by simp))
    simp [hy, ih fun z hz => h z (List.mem_cons_of_mem x hz)]

/-- What the items stand for moves with them. -/
theorem moved_filterMap {f : α → Option β} {l : List α} (h : ∀ x ∈ l, (f x).isSome) (i j : Nat) :
    (moved l i j).filterMap f = moved (l.filterMap f) i j := by
  refine (List.map_inj_right fun _ _ => Option.some.inj).mp ?_
  rw [map_some_filterMap fun x hx => h x (mem_of_mem_moved hx), moved_map, moved_map,
    map_some_filterMap h]

/-! ## 1. Two items of a list -/

theorem exists_split_one {l : List α} {i : Nat} {x : α} (h : l[i]? = some x) :
    ∃ a b, l = a ++ x :: b ∧ a.length = i := by
  obtain ⟨hlen, rfl⟩ := List.getElem?_eq_some_iff.mp h
  refine ⟨l.take i, l.drop (i + 1), by simp, ?_⟩
  rw [List.length_take]
  omega

/-- Two items split a list in three. -/
theorem exists_split {l : List α} {i j : Nat} {x y : α} (hij : i < j) (hi : l[i]? = some x)
    (hj : l[j]? = some y) :
    ∃ a b c, l = a ++ x :: (b ++ y :: c) ∧ i = a.length ∧ j = a.length + 1 + b.length := by
  obtain ⟨a, rest, rfl, rfl⟩ := exists_split_one hi
  obtain ⟨k, rfl⟩ : ∃ k, j = a.length + 1 + k := ⟨j - (a.length + 1), by omega⟩
  have hrest : rest[k]? = some y := by
    rw [List.getElem?_append_right (by omega)] at hj
    have hk : a.length + 1 + k - a.length = k + 1 := by omega
    rwa [hk, List.getElem?_cons_succ] at hj
  obtain ⟨b, c, rfl, rfl⟩ := exists_split_one hrest
  exact ⟨a, b, c, rfl, rfl, rfl⟩

theorem eraseIdx_at_split (a b : List α) (x : α) : (a ++ x :: b).eraseIdx a.length = a ++ b := by
  rw [List.eraseIdx_append_of_length_le (Nat.le_refl _)]
  simp

theorem insertIdx_at_split (a b : List α) (x : α) : (a ++ b).insertIdx a.length x = a ++ x :: b := by
  induction a with
  | nil => rfl
  | cons c a ih => simpa using ih

/-- On the way down the item ends up after the other one. -/
theorem moved_down (a b c : List α) (x y : α) :
    moved (a ++ x :: (b ++ y :: c)) a.length (a.length + 1 + b.length) =
      a ++ (b ++ y :: x :: c) := by
  have hget : (a ++ x :: (b ++ y :: c))[a.length]? = some x := by simp
  have hassoc : a ++ (b ++ y :: c) = (a ++ b ++ [y]) ++ c := by simp
  have hlen : a.length + 1 + b.length = (a ++ b ++ [y]).length := by
    simp only [List.length_append, List.length_singleton]
    omega
  rw [moved_eq hget, eraseIdx_at_split, hassoc, hlen, insertIdx_at_split]
  simp

/-- On the way up it ends up before the other one. -/
theorem moved_up (a b c : List α) (x y : α) :
    moved (a ++ y :: (b ++ x :: c)) (a.length + 1 + b.length) a.length =
      a ++ x :: y :: (b ++ c) := by
  have hassoc : a ++ y :: (b ++ x :: c) = (a ++ y :: b) ++ x :: c := by simp
  have hlen : a.length + 1 + b.length = (a ++ y :: b).length := by
    simp only [List.length_append, List.length_cons]
    omega
  have hget : ((a ++ y :: b) ++ x :: c)[(a ++ y :: b).length]? = some x := by simp
  rw [hassoc, hlen, moved_eq hget, eraseIdx_at_split, List.append_assoc, insertIdx_at_split]
  simp

/-! ## 2. Slots -/

/-- The item ends up just before what was at a slot, counted with the item still in its place; a
slot past the item is one too many.  At the slot of nothing it ends up last. -/
theorem moved_slot {l : List α} {i s : Nat} {x : α} (h : l[i]? = some x) (hs : s ≤ l.length)
    (hbefore : s ≠ i) (hafter : s ≠ i + 1) :
    ∃ a b, moved l i (if i < s then s - 1 else s) = a ++ x :: b ∧ b.head? = l[s]? := by
  have hi : i < l.length := (List.getElem?_eq_some_iff.mp h).1
  rcases Nat.lt_or_ge i s with his | hsi
  · -- down: the item that is passed last is the one before the slot
    obtain ⟨y, hy⟩ : ∃ y, l[s - 1]? = some y := ⟨l[s - 1], by simp⟩
    obtain ⟨a, b, c, rfl, rfl, hj⟩ := exists_split (by omega) h hy
    refine ⟨a ++ b ++ [y], c, ?_, ?_⟩
    · rw [if_pos his, hj, moved_down]
      simp
    · have hsplit : a ++ x :: (b ++ y :: c) = (a ++ x :: (b ++ [y])) ++ c := by simp
      have hslot : s = (a ++ x :: (b ++ [y])).length := by
        simp only [List.length_append, List.length_cons, List.length_nil]
        omega
      rw [hsplit, hslot, List.getElem?_append_right (Nat.le_refl _), Nat.sub_self,
        List.head?_eq_getElem?]
  · obtain ⟨y, hy⟩ : ∃ y, l[s]? = some y := ⟨l[s], by simp⟩
    obtain ⟨a, b, c, rfl, rfl, rfl⟩ := exists_split (by omega) hy h
    refine ⟨a, y :: (b ++ c), ?_, by rw [hy]; rfl⟩
    rw [if_neg (by omega), moved_up]

/-! ## 3. Where only some items are shown -/

/-- One of the items that are shown has moved from `i` to `j` of them. -/
structure MovedShown (p : α → Bool) (l l' : List α) (i j : Nat) : Prop where
  perm : l'.Perm l
  shown : l'.filter p = moved (l.filter p) i j
  others : l'.filter (fun x => !p x) = l.filter fun x => !p x

section
variable {p : α → Bool} {l : List α} {i j : Nat} {x y : α}

/-- Two items that are shown, in the whole list. -/
theorem exists_split_of_filter (hij : i < j) (hi : (l.filter p)[i]? = some x)
    (hj : (l.filter p)[j]? = some y) :
    ∃ a b c, l = a ++ x :: (b ++ y :: c) ∧ p x = true ∧ p y = true ∧
      i = (a.filter p).length ∧ j = (a.filter p).length + 1 + (b.filter p).length := by
  obtain ⟨a', b', c', hfilter, rfl, rfl⟩ := exists_split hij hi hj
  obtain ⟨a, rest, rfl, rfl, hrest⟩ := List.filter_eq_append_iff.mp hfilter
  obtain ⟨d, rest', rfl, hd, hx, hrest'⟩ := List.filter_eq_cons_iff.mp hrest
  obtain ⟨b, last, rfl, rfl, hlast⟩ := List.filter_eq_append_iff.mp hrest'
  obtain ⟨e, c, rfl, he, hy, -⟩ := List.filter_eq_cons_iff.mp hlast
  have hd' : d.filter p = [] := List.filter_eq_nil_iff.mpr hd
  have he' : e.filter p = [] := List.filter_eq_nil_iff.mpr he
  exact ⟨a ++ d, b ++ e, c, by simp, hx, hy, by simp [hd'], by simp [hd', he']⟩

/-- **Down**: put after the other item. -/
theorem movedShown_down (a b c : List α) (hx : p x = true) (hy : p y = true) :
    MovedShown p (a ++ x :: (b ++ y :: c)) (a ++ (b ++ y :: x :: c)) (a.filter p).length
      ((a.filter p).length + 1 + (b.filter p).length) where
  perm := by
    refine List.Perm.append_left a ?_
    have hassoc : b ++ y :: x :: c = (b ++ [y]) ++ x :: c := by simp
    have hassoc' : x :: (b ++ y :: c) = x :: ((b ++ [y]) ++ c) := by simp
    rw [hassoc, hassoc']
    exact List.perm_middle
  shown := by
    simp only [List.filter_append, List.filter_cons, hx, hy, if_true]
    rw [moved_down]
  others := by simp [hx, hy]

/-- **Up**: put before the other item. -/
theorem movedShown_up (a b c : List α) (hx : p x = true) (hy : p y = true) :
    MovedShown p (a ++ y :: (b ++ x :: c)) (a ++ x :: y :: (b ++ c))
      ((a.filter p).length + 1 + (b.filter p).length) (a.filter p).length where
  perm := by
    refine List.Perm.append_left a ?_
    show (x :: ((y :: b) ++ c)).Perm ((y :: b) ++ x :: c)
    exact List.perm_middle.symm
  shown := by
    simp only [List.filter_append, List.filter_cons, hx, hy, if_true]
    rw [moved_up]
  others := by simp [hx, hy]

end

end DcsDashboard.Lib
