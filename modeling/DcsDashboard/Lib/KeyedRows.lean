/-
# Rows with keys, collected in a hash map

A table whose rows have distinct keys has at most one row for a key (`rowAt`), whatever the order
of its rows.  Collecting rows in a hash map combines each row with what the map has for its key
already, and changes nothing else (`lookup_foldl_alter`).

The values of a map come in an arbitrary order.  Where each value names its key, they have
distinct names, and any two lists of such values with the same names are permutations of each
other (`perm_of_entries`).
-/
import Mathlib.Data.List.AList

namespace DcsDashboard.Lib

variable {ρ κ β : Type*} [DecidableEq κ]

/-! ## 1. Rows -/

/-- The row with a key. -/
def rowAt (key : ρ → κ) (rows : List ρ) (k : κ) : Option ρ := rows.find? (key · = k)

section
variable {key : ρ → κ} {rows rows' : List ρ} {k : κ} {r : ρ}

theorem rowAt_eq_none : rowAt key rows k = none ↔ ∀ r ∈ rows, key r ≠ k := by
  simp [rowAt]

theorem mem_of_rowAt (h : rowAt key rows k = some r) : r ∈ rows ∧ key r = k :=
  ⟨List.mem_of_find?_eq_some h, by simpa using List.find?_some h⟩

theorem rowAt_cons (r : ρ) (rows : List ρ) :
    rowAt key (r :: rows) k = if key r = k then some r else rowAt key rows k := by
  by_cases hk : key r = k <;> simp [rowAt, hk]

/-- Where the keys are distinct, a row is the only one with its key. -/
theorem rowAt_eq_some (hdistinct : (rows.map key).Nodup) :
    rowAt key rows k = some r ↔ r ∈ rows ∧ key r = k := by
  refine ⟨mem_of_rowAt, ?_⟩
  rintro ⟨hr, rfl⟩
  induction rows with
  | nil => cases hr
  | cons x rows ih =>
    obtain ⟨hx, hrows⟩ := List.nodup_cons.mp hdistinct
    rw [rowAt_cons]
    rcases List.mem_cons.mp hr with rfl | hr
    · rw [if_pos rfl]
    · have hne : key x ≠ key r := fun heq => hx (heq ▸ List.mem_map_of_mem hr)
      rw [if_neg hne, ih hrows hr]

/-- The order of the rows does not matter. -/
theorem rowAt_perm (hdistinct : (rows.map key).Nodup) (hperm : rows.Perm rows') :
    rowAt key rows k = rowAt key rows' k := by
  have hdistinct' : (rows'.map key).Nodup := (hperm.map key).nodup_iff.mp hdistinct
  ext r
  rw [rowAt_eq_some hdistinct, rowAt_eq_some hdistinct', hperm.mem_iff]

end

/-! ## 2. Hash maps -/

/-- `std::collections::HashMap`. -/
abbrev HashMap (κ β : Type*) := AList fun _ : κ => β

namespace HashMap

/-- What is stored for a key is computed from what was stored. -/
def alter (m : HashMap κ β) (k : κ) (f : Option β → β) : HashMap κ β := m.insert k (f (m.lookup k))

theorem lookup_alter (m : HashMap κ β) (k k' : κ) (f : Option β → β) :
    (m.alter k f).lookup k' = if k = k' then some (f (m.lookup k')) else m.lookup k' := by
  unfold alter
  split
  · rename_i h
    rw [h, AList.lookup_insert]
  · rename_i h
    exact AList.lookup_insert_ne (Ne.symm h)

/-- The values, in some order. -/
def values (m : HashMap κ β) : List β := m.entries.map Sigma.snd

theorem mem_values {m : HashMap κ β} {b : β} : b ∈ m.values ↔ ∃ k, m.lookup k = some b := by
  constructor
  · intro h
    obtain ⟨⟨k, b'⟩, hmem, rfl⟩ := List.mem_map.mp h
    exact ⟨k, AList.mem_lookup_iff.mpr hmem⟩
  · rintro ⟨k, hk⟩
    exact List.mem_map.mpr ⟨⟨k, b⟩, AList.mem_lookup_iff.mp hk, rfl⟩

/-- Each value names its key. -/
def Named (name : β → κ) (m : HashMap κ β) : Prop := ∀ k b, m.lookup k = some b → name b = k

section
variable {m : HashMap κ β} {name : β → κ}

theorem Named.map_values (h : Named name m) : m.values.map name = m.keys := by
  unfold values AList.keys List.keys
  rw [List.map_map]
  refine List.map_congr_left ?_
  intro e he
  exact h e.1 e.2 (AList.mem_lookup_iff.mpr he)

theorem Named.nodup (h : Named name m) : (m.values.map name).Nodup :=
  h.map_values ▸ m.keys_nodup

theorem Named.mem_names (h : Named name m) {k : κ} :
    k ∈ m.values.map name ↔ (m.lookup k).isSome := by
  rw [h.map_values, ← AList.mem_keys, AList.lookup_isSome]

theorem Named.alter (h : Named name m) {k : κ} {f : Option β → β}
    (hf : ∀ o, (∀ b, o = some b → name b = k) → name (f o) = k) : Named name (m.alter k f) := by
  intro k' b hb
  rw [lookup_alter] at hb
  split at hb
  · rename_i hk
    subst hk
    rw [← Option.some.inj hb]
    exact hf _ fun b hb => h k b hb
  · exact h k' b hb

end

/-- **Collecting rows.**  The value for a key is computed from its row, if it has one, and from
what was there before. -/
theorem lookup_foldl_alter {key : ρ → κ} {rows : List ρ} (hdistinct : (rows.map key).Nodup)
    (f : ρ → Option β → β) (m : HashMap κ β) (k : κ) :
    (rows.foldl (fun m r => m.alter (key r) (f r)) m).lookup k =
      ((rowAt key rows k).map fun r => f r (m.lookup k)).or (m.lookup k) := by
  induction rows generalizing m with
  | nil => simp [rowAt]
  | cons r rows ih =>
    obtain ⟨hr, hrows⟩ := List.nodup_cons.mp hdistinct
    rw [List.foldl_cons, ih hrows, lookup_alter, rowAt_cons]
    by_cases hk : key r = k
    · -- no later row has this key
      have hnone : rowAt key rows k = none :=
        rowAt_eq_none.mpr fun x hx hxk => hr (hk ▸ hxk ▸ List.mem_map_of_mem hx)
      simp [hk, hnone]
    · simp [hk]

theorem named_foldl_alter {key : ρ → κ} {name : β → κ} {f : ρ → Option β → β}
    (hf : ∀ r o, (∀ b, o = some b → name b = key r) → name (f r o) = key r) (rows : List ρ)
    {m : HashMap κ β} (h : Named name m) :
    Named name (rows.foldl (fun m r => m.alter (key r) (f r)) m) := by
  induction rows generalizing m with
  | nil => exact h
  | cons r rows ih => exact ih (h.alter (hf r))

end HashMap

omit [DecidableEq κ] in
/-- **Entries with the same names** are the same entries. -/
theorem perm_of_entries {name : β → κ} {entry : κ → β} {l l' : List β}
    (hl : (l.map name).Nodup) (hl' : (l'.map name).Nodup)
    (hnames : ∀ k, k ∈ l.map name ↔ k ∈ l'.map name) (hentry : ∀ b ∈ l, b = entry (name b))
    (hentry' : ∀ b ∈ l', b = entry (name b)) : l.Perm l' := by
  have hmap : ∀ {l : List β}, (∀ b ∈ l, b = entry (name b)) → (l.map name).map entry = l := by
    intro l h
    rw [List.map_map]
    conv_rhs => rw [← List.map_id l]
    exact List.map_congr_left fun b hb => (h b hb).symm
  have hperm := ((List.perm_ext_iff_of_nodup hl hl').mpr hnames).map entry
  rwa [hmap hentry, hmap hentry'] at hperm

end DcsDashboard.Lib
