/-
# The newest entries of a log

`newest k l` is what a bounded log that has been appended the list `l` still holds: its last
`k` entries.  A reader that has kept everything it was served holds a suffix of it; the lemmas
here say how that suffix grows when both the log and the reader grow.
-/
import Mathlib.Data.List.Infix

namespace DcsDashboard.Lib

variable {α β : Type*}

/-- The last `k` entries. -/
def newest (k : Nat) (l : List α) : List α := l.drop (l.length - k)

/-- Drops entries from the front while there are more than `k`. -/
def dropOldest (k : Nat) : List α → List α
  | [] => []
  | x :: xs => if k < (x :: xs).length then dropOldest k xs else x :: xs

/-- Dropping the oldest one by one keeps the newest. -/
theorem dropOldest_eq_newest (k : Nat) (l : List α) : dropOldest k l = newest k l := by
  induction l with
  | nil => simp [dropOldest, newest]
  | cons x xs ih =>
    unfold dropOldest newest
    split
    · rename_i h
      have hlen : (x :: xs).length - k = (xs.length - k) + 1 := by
        simp only [List.length_cons] at h ⊢; omega
      rw [ih, newest, hlen, List.drop_succ_cons]
    · rename_i h
      rw [Nat.sub_eq_zero_of_le (by omega), List.drop_zero]

@[simp] theorem newest_nil (k : Nat) : newest k ([] : List α) = [] := by simp [newest]

@[simp] theorem length_newest (k : Nat) (l : List α) :
    (newest k l).length = min k l.length := by
  simp only [newest, List.length_drop]; omega

theorem newest_suffix (k : Nat) (l : List α) : newest k l <:+ l := List.drop_suffix _ _

theorem newest_of_length_le {k : Nat} {l : List α} (h : l.length ≤ k) : newest k l = l := by
  rw [newest, Nat.sub_eq_zero_of_le h, List.drop_zero]

theorem map_newest (f : α → β) (k : Nat) (l : List α) :
    (newest k l).map f = newest k (l.map f) := by
  simp [newest, List.map_drop]

/-- A short suffix of a list is a suffix of its newest entries. -/
theorem suffix_newest {k : Nat} {s l : List α} (h : s <:+ l) (hk : s.length ≤ k) :
    s <:+ newest k l := by
  obtain ⟨t, rfl⟩ := h
  have hle : (t ++ s).length - k ≤ t.length := by simp only [List.length_append]; omega
  rw [newest, List.drop_append_of_le_length hle]
  exact List.suffix_append _ _

/-- Keeping the newest of a log that grows needs only the newest of what it was. -/
theorem newest_append_newest (k : Nat) (l m : List α) :
    newest k (newest k l ++ m) = newest k (l ++ m) := by
  rcases Nat.le_total l.length k with h | h
  · rw [newest_of_length_le h]
  · have hlen : (newest k l).length = k := by simp [h]
    have hsplit : (newest k l ++ m).length - k = m.length := by
      rw [List.length_append, hlen]; omega
    rw [newest, hsplit, newest, newest]
    have hidx : (l ++ m).length - k = (l.length - k) + m.length := by
      rw [List.length_append]; omega
    rw [hidx, ← List.drop_drop, List.drop_append_of_le_length (Nat.sub_le _ _)]

/-- The newest entries of a log, of which `n` had been read: what had been read is among the
newest of the part read, and the rest follows it. -/
theorem newest_eq_read_append {k n : Nat} {l : List α} (hn : n ≤ l.length) :
    newest k l = (l.take n).drop (l.length - k) ++ l.drop (max (l.length - k) n) := by
  conv_lhs => rw [newest, ← List.take_append_drop n l]
  have hlen : (l.take n ++ l.drop n).length = l.length := by rw [List.take_append_drop]
  rw [hlen, List.drop_append, List.drop_drop, List.length_take, Nat.min_eq_left hn]
  congr 2
  omega

/-- What had been read and is still held is a suffix of the newest of what had been read. -/
theorem read_suffix_newest {k n : Nat} {l : List α} (hn : n ≤ l.length) :
    (l.take n).drop (l.length - k) <:+ newest k (l.take n) := by
  have hle : (l.take n).length - k ≤ l.length - k := by rw [List.length_take]; omega
  rw [newest, ← Nat.sub_add_cancel hle, Nat.add_comm, ← List.drop_drop]
  exact List.drop_suffix _ _

end DcsDashboard.Lib
