/-
# Maps in the order of their keys

A B-tree map is iterated in the order of its keys, whatever order they were inserted in.  It is
given here by the list of its members in that order: `insertKey` keeps the order, and two such lists
in which every key has the same value are equal (`KeyOrdered.ext`).
-/
import DcsDashboard.Lib.Json
import Mathlib.Order.Lattice
import Mathlib.Data.List.Nodup
import Mathlib.Data.List.Perm.Basic
import Mathlib.Data.List.Lookmap

namespace DcsDashboard.Lib

variable {κ β : Type*} [LinearOrder κ] [BEq κ] [LawfulBEq κ]

/-! ## 1. Insertion -/

omit [BEq κ] [LawfulBEq κ] in
/-- `map.insert(key, value)`: the value of a key that is there is replaced. -/
def insertKey (key : κ) (value : β) : List (κ × β) → List (κ × β)
  | [] => [(key, value)]
  | (k, v) :: map =>
    if key < k then (key, value) :: (k, v) :: map
    else if key = k then (key, value) :: map
    else (k, v) :: insertKey key value map

omit [BEq κ] [LawfulBEq κ] in
/-- The map with some members, inserted one after the other. -/
def ofMembers (members : List (κ × β)) : List (κ × β) :=
  members.foldl (fun map e => insertKey e.1 e.2 map) []

theorem lookup_insertKey_self (key : κ) (value : β) (map : List (κ × β)) :
    (insertKey key value map).lookup key = some value := by
  induction map with
  | nil => simp [insertKey]
  | cons e map ih =>
    obtain ⟨k, v⟩ := e
    rw [insertKey]
    split
    · simp
    · split
      · simp
      · rename_i hne
        have hbeq : (key == k) = false := by simpa using hne
        rw [List.lookup_cons, hbeq]
        exact ih

theorem lookup_insertKey_of_ne {key k : κ} (hne : k ≠ key) (value : β) (map : List (κ × β)) :
    (insertKey key value map).lookup k = map.lookup k := by
  have hbeq : (k == key) = false := by simpa using hne
  induction map with
  | nil => simp [insertKey, List.lookup_cons, hbeq]
  | cons e map ih =>
    obtain ⟨j, v⟩ := e
    rw [insertKey]
    split
    · rw [List.lookup_cons, hbeq]
    · split
      · rename_i heq
        subst heq
        rw [List.lookup_cons, List.lookup_cons, hbeq]
      · rw [List.lookup_cons, List.lookup_cons, ih]

/-! ## 2. The order -/

omit [BEq κ] [LawfulBEq κ]

/-- The members stand in the order of their keys. -/
def KeyOrdered (map : List (κ × β)) : Prop := map.Pairwise fun e e' => e.1 < e'.1

theorem mem_insertKey {key : κ} {value : β} {map : List (κ × β)} {e : κ × β}
    (h : e ∈ insertKey key value map) : e = (key, value) ∨ e ∈ map := by
  induction map with
  | nil => simpa [insertKey] using h
  | cons e' map ih =>
    obtain ⟨k, v⟩ := e'
    rw [insertKey] at h
    split at h
    · exact List.mem_cons.mp h
    · split at h
      · rcases List.mem_cons.mp h with h | h
        · exact .inl h
        · exact .inr (List.mem_cons_of_mem _ h)
      · rcases List.mem_cons.mp h with rfl | h
        · exact .inr List.mem_cons_self
        · exact (ih h).imp_right (List.mem_cons_of_mem _)

/-- **Insertion keeps the order.** -/
theorem KeyOrdered.insertKey {map : List (κ × β)} (h : KeyOrdered map) (key : κ) (value : β) :
    KeyOrdered (insertKey key value map) := by
  induction map with
  | nil => exact List.pairwise_singleton _ _
  | cons e map ih =>
    obtain ⟨k, v⟩ := e
    obtain ⟨hk, hmap⟩ := List.pairwise_cons.mp h
    rw [Lib.insertKey]
    split
    · rename_i hlt
      refine List.pairwise_cons.mpr ⟨?_, h⟩
      intro e he
      rcases List.mem_cons.mp he with rfl | he
      · exact hlt
      · exact lt_trans hlt (hk e he)
    · split
      · rename_i heq
        subst heq
        exact List.pairwise_cons.mpr ⟨hk, hmap⟩
      · rename_i hge hne
        refine List.pairwise_cons.mpr ⟨?_, ih hmap⟩
        intro e he
        rcases mem_insertKey he with rfl | he
        · exact lt_of_le_of_ne (not_lt.mp hge) (Ne.symm hne)
        · exact hk e he

theorem keyOrdered_ofMembers (members : List (κ × β)) : KeyOrdered (ofMembers members) := by
  have hfold : ∀ map : List (κ × β), KeyOrdered map →
      KeyOrdered (members.foldl (fun map e => insertKey e.1 e.2 map) map) := by
    induction members with
    | nil => exact fun map h => h
    | cons e members ih => exact fun map h => ih _ (h.insertKey e.1 e.2)
  exact hfold [] List.Pairwise.nil

/-- No key stands twice. -/
theorem KeyOrdered.nodup_keys {map : List (κ × β)} (h : KeyOrdered map) :
    (map.map Prod.fst).Nodup := by
  refine List.pairwise_map.mpr (List.Pairwise.imp ?_ h)
  intro e e' hlt
  exact ne_of_lt hlt

variable [BEq κ] [LawfulBEq κ]

omit [LinearOrder κ] in
/-- What a key is looked up as, when no key stands twice. -/
theorem mem_iff_lookup {members : List (κ × β)} (h : (members.map Prod.fst).Nodup) {key : κ}
    {value : β} : (key, value) ∈ members ↔ members.lookup key = some value := by
  induction members with
  | nil => simp
  | cons e members ih =>
    obtain ⟨k, v⟩ := e
    obtain ⟨hk, hmembers⟩ := List.nodup_cons.mp h
    by_cases heq : key = k
    · subst heq
      have hnone : (key, value) ∉ members := fun hmem =>
        hk (List.mem_map.mpr ⟨(key, value), hmem, rfl⟩)
      simp [hnone, eq_comm]
    · have hbeq : (key == k) = false := by simpa using heq
      simp [List.lookup_cons, hbeq, heq, ih hmembers]

/-- **Two maps with the same values are equal.** -/
theorem KeyOrdered.ext {map map' : List (κ × β)} (h : KeyOrdered map) (h' : KeyOrdered map')
    (hlookup : ∀ key, map.lookup key = map'.lookup key) : map = map' := by
  have hperm : map.Perm map' := by
    refine (List.perm_ext_iff_of_nodup h.nodup_keys.of_map h'.nodup_keys.of_map).mpr ?_
    intro e
    rw [mem_iff_lookup h.nodup_keys, mem_iff_lookup h'.nodup_keys, hlookup]
  refine hperm.eq_of_pairwise ?_ h h'
  intro e e' _ _ hlt hgt
  exact absurd (lt_trans hlt hgt) (lt_irrefl _)

/-! ## 3. Members -/

/-- Members with different keys are looked up as in the list. -/
theorem lookup_ofMembers {members : List (κ × β)} (h : (members.map Prod.fst).Nodup) (key : κ) :
    (ofMembers members).lookup key = members.lookup key := by
  have hfold : ∀ map : List (κ × β),
      (members.foldl (fun map e => insertKey e.1 e.2 map) map).lookup key =
        (members.lookup key).or (map.lookup key) := by
    induction members with
    | nil => simp
    | cons e members ih =>
      obtain ⟨k, v⟩ := e
      intro map
      obtain ⟨hk, hmembers⟩ := List.nodup_cons.mp h
      rw [List.foldl_cons, ih hmembers]
      by_cases heq : key = k
      · subst heq
        simp [lookup_eq_none_iff_notMem.mpr hk, lookup_insertKey_self]
      · have hbeq : (key == k) = false := by simpa using heq
        rw [lookup_insertKey_of_ne heq, List.lookup_cons, hbeq]
  rw [ofMembers, hfold, List.lookup_nil, Option.or_none]

/-- **The members of a map** are those it is made of. -/
theorem mem_ofMembers {members : List (κ × β)} (h : (members.map Prod.fst).Nodup) {e : κ × β} :
    e ∈ ofMembers members ↔ e ∈ members := by
  rw [mem_iff_lookup (keyOrdered_ofMembers members).nodup_keys, lookup_ofMembers h,
    mem_iff_lookup h]

theorem lookup_ofMembers_eq_none {members : List (κ × β)} {key : κ}
    (h : (members.map Prod.fst).Nodup) (hkey : key ∉ members.map Prod.fst) :
    (ofMembers members).lookup key = none := by
  rw [lookup_ofMembers h]
  exact lookup_eq_none_iff_notMem.mpr hkey

section

variable {before after : List (κ × β)} {key : κ} {value : β}
  (h : ((before ++ (key, value) :: after).map Prod.fst).Nodup)

include h

theorem lookup_ofMembers_at :
    (ofMembers (before ++ (key, value) :: after)).lookup key = some value := by
  have hbefore : before.lookup key = none := by
    refine lookup_eq_none_iff_notMem.mpr ?_
    intro hmem
    rw [List.map_append, List.map_cons] at h
    exact (List.nodup_cons.mp (List.nodup_middle.mp h)).1 (List.mem_append_left _ hmem)
  rw [lookup_ofMembers h, List.lookup_append, hbefore]
  simp

/-- **A member's value is replaced.** -/
theorem insertKey_ofMembers (value' : β) :
    insertKey key value' (ofMembers (before ++ (key, value) :: after)) =
      ofMembers (before ++ (key, value') :: after) := by
  have h' : ((before ++ (key, value') :: after).map Prod.fst).Nodup := by simpa using h
  refine ((keyOrdered_ofMembers _).insertKey key value').ext (keyOrdered_ofMembers _) ?_
  intro k
  by_cases heq : k = key
  · subst heq
    rw [lookup_insertKey_self, lookup_ofMembers_at h']
  · have hbeq : (k == key) = false := by simpa using heq
    rw [lookup_insertKey_of_ne heq, lookup_ofMembers h, lookup_ofMembers h', List.lookup_append,
      List.lookup_append, List.lookup_cons, List.lookup_cons, hbeq]

end

end DcsDashboard.Lib
