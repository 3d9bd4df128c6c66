/-
# A store that keeps the first spelling

Values are stored under names of which only a key is compared.  What is put under a name replaces
the value that was there, and leaves the name spelled as it was when it came first.

What is found under a name is the value put there last (`stored_puts`), and what is put under other
names does not touch it (`stored_puts_of_ne`).
-/
import Mathlib.Data.List.Nodup

namespace DcsDashboard.Lib.SpelledStore

variable {α β κ : Type*} [DecidableEq κ] (key : α → κ)

/-- What is stored under a name, with the name as it is spelled. -/
def stored (store : List (α × β)) (a : α) : Option (α × β) :=
  store.find? fun entry => key entry.1 = key a

def put (store : List (α × β)) (a : α) (b : β) : List (α × β) :=
  if (stored key store a).isSome then
    store.map fun entry => if key entry.1 = key a then (entry.1, b) else entry
  else store ++ [(a, b)]

/-- One after the other. -/
def puts (store : List (α × β)) (entries : List (α × β)) : List (α × β) :=
  entries.foldl (fun store entry => put key store entry.1 entry.2) store

variable {key} {store : List (α × β)} {a a' : α} {b : β}

theorem key_of_stored {entry : α × β} (h : stored key store a = some entry) :
    key entry.1 = key a := by
  simpa using List.find?_some h

theorem puts_append (store entries more : List (α × β)) :
    puts key store (entries ++ more) = puts key (puts key store entries) more :=
  List.foldl_append

/-- What was put under a name is found there. -/
theorem stored_put (h : key a' = key a) :
    ∃ spelled, stored key (put key store a b) a' = some (spelled, b) := by
  unfold put
  split
  · next hold =>
    obtain ⟨entry, hentry⟩ := Option.isSome_iff_exists.mp hold
    refine ⟨entry.1, ?_⟩
    rw [stored, List.find?_map]
    have hsame : ((fun e : α × β => decide (key e.1 = key a')) ∘
        fun e => if key e.1 = key a then (e.1, b) else e) = fun e => decide (key e.1 = key a) := by
      funext e
      by_cases he : key e.1 = key a
      · simp [he, h]
      · simp [he, h]
    rw [hsame]
    change Option.map _ (stored key store a) = _
    rw [hentry, Option.map_some, if_pos (key_of_stored hentry)]
  · next hnew =>
    refine ⟨a, ?_⟩
    have hnone : store.find? (fun entry => decide (key entry.1 = key a')) = none := by
      rw [h]
      exact Option.not_isSome_iff_eq_none.mp hnew
    rw [stored, List.find?_append, hnone]
    simp [h]

/-- What is put under another name. -/
theorem stored_put_of_ne (h : key a' ≠ key a) :
    stored key (put key store a b) a' = stored key store a' := by
  unfold put
  split
  · rw [stored, List.find?_map]
    have hsame : ((fun e : α × β => decide (key e.1 = key a')) ∘
        fun e => if key e.1 = key a then (e.1, b) else e) = fun e => decide (key e.1 = key a') := by
      funext e
      by_cases he : key e.1 = key a
      · simp [he]
      · simp [he]
    rw [hsame]
    change Option.map _ (stored key store a') = _
    cases hentry : stored key store a' with
    | none => rfl
    | some entry =>
      have hne : key entry.1 ≠ key a := by
        rw [key_of_stored hentry]
        exact h
      rw [Option.map_some, if_neg hne]
  · have hlast : [(a, b)].find? (fun entry => decide (key entry.1 = key a')) = none := by
      simp [h.symm]
    rw [stored, List.find?_append, hlast, Option.or_none]
    rfl

/-- **Names that are not written to keep what they have.** -/
theorem stored_puts_of_ne {entries : List (α × β)} (h : ∀ entry ∈ entries, key entry.1 ≠ key a) :
    stored key (puts key store entries) a = stored key store a := by
  induction entries generalizing store with
  | nil => rfl
  | cons entry entries ih =>
    have hrest : stored key (puts key (put key store entry.1 entry.2) entries) a =
        stored key (put key store entry.1 entry.2) a :=
      ih fun e he => h e (List.mem_cons_of_mem entry he)
    rw [puts, List.foldl_cons]
    exact hrest.trans (stored_put_of_ne (h entry List.mem_cons_self).symm)

/-- **The value put last is the one found.** -/
theorem stored_puts {entries : List (α × β)} (h : ∀ entry ∈ entries, key entry.1 ≠ key a) (b : β) :
    ∃ spelled, key spelled = key a ∧
      stored key (puts key (put key store a b) entries) a = some (spelled, b) := by
  obtain ⟨spelled, hspelled⟩ : ∃ spelled, stored key (put key store a b) a = some (spelled, b) :=
    stored_put rfl
  exact ⟨spelled, key_of_stored hspelled, (stored_puts_of_ne h).trans hspelled⟩

/-- What is in a store of different names is found. -/
theorem stored_of_mem (h : (store.map fun entry => key entry.1).Nodup) {entry : α × β}
    (hentry : entry ∈ store) : stored key store entry.1 = some entry := by
  obtain ⟨before, after, rfl⟩ := List.append_of_mem hentry
  rw [List.map_append, List.map_cons, List.nodup_append] at h
  have hbefore : before.find? (fun e => decide (key e.1 = key entry.1)) = none := by
    rw [List.find?_eq_none]
    intro e he heq
    exact h.2.2 _ (List.mem_map_of_mem he) _ List.mem_cons_self (of_decide_eq_true heq)
  rw [stored, List.find?_append, hbefore, List.find?_cons_of_pos (by simp)]
  rfl

end DcsDashboard.Lib.SpelledStore
