/-
# Grouping in order of first occurrence

A list of rows grouped by a key: the keys in the order in which they first occur, and for each
the rows that have it, in their order.  The lemmas say how the grouping grows with a row, which
is what a loop that keeps one entry per key and an index of the keys does.
-/
import Mathlib.Data.List.Nodup
import Mathlib.Data.List.Perm.Lattice
import Mathlib.Data.List.Induction
import Mathlib.Data.Set.Function

namespace DcsDashboard.Lib

/-! ## 1. First occurrences -/

section
variable {κ : Type*} [BEq κ] [LawfulBEq κ]

theorem eraseDups_concat (l : List κ) (k : κ) :
    (l ++ [k]).eraseDups = if k ∈ l then l.eraseDups else l.eraseDups ++ [k] := by
  rw [List.eraseDups_append]
  by_cases hk : k ∈ l
  · simp [List.removeAll, hk]
  · simp [List.removeAll, hk, List.eraseDups_cons]

theorem nodup_eraseDups (l : List κ) : l.eraseDups.Nodup := by
  induction l using List.reverseRecOn with
  | nil => simp
  | append_singleton l k ih =>
    rw [eraseDups_concat]
    split
    · exact ih
    · rename_i hk
      refine List.nodup_append.mpr ⟨ih, List.nodup_singleton k, ?_⟩
      intro a ha b hb
      rw [List.mem_singleton.mp hb]
      rintro rfl
      exact hk (List.mem_eraseDups.mp ha)

/-- Where no key occurs twice all of them are first occurrences. -/
theorem eraseDups_of_nodup {l : List κ} (h : l.Nodup) : l.eraseDups = l := by
  induction l using List.reverseRecOn with
  | nil => rfl
  | append_singleton l k ih =>
    obtain ⟨hl, -, hk⟩ := List.nodup_append.mp h
    have hfresh : k ∉ l := fun hmem => hk k hmem k (List.mem_singleton_self k) rfl
    rw [eraseDups_concat, if_neg hfresh, ih hl]

end

variable {α β κ κ' : Type*} [DecidableEq κ] [DecidableEq κ']

/-- Renaming injectively commutes with keeping the first occurrences. -/
theorem eraseDups_map {f : κ → κ'} {l : List κ} (h : Set.InjOn f {k | k ∈ l}) :
    (l.map f).eraseDups = l.eraseDups.map f := by
  induction l using List.reverseRecOn with
  | nil => rfl
  | append_singleton l k ih =>
    have hl : Set.InjOn f {k | k ∈ l} := h.mono fun x hx => by
      simpa using .inl hx
    have hmem : f k ∈ l.map f ↔ k ∈ l := by
      constructor
      · intro hf
        obtain ⟨x, hx, heq⟩ := List.mem_map.mp hf
        have hxk : x = k := h (by simp [hx]) (by simp) heq
        exact hxk ▸ hx
      · exact List.mem_map_of_mem
    rw [List.map_append, List.map_singleton, eraseDups_concat, eraseDups_concat, ih hl]
    by_cases hk : k ∈ l
    · rw [if_pos (hmem.mpr hk), if_pos hk]
    · rw [if_neg fun hf => hk (hmem.mp hf), if_neg hk, List.map_append, List.map_singleton]

/-! ## 2. Groups -/

/-- The keys, in order of first occurrence. -/
def keysOf (key : α → κ) (rows : List α) : List κ := (rows.map key).eraseDups

/-- The rows that have a key. -/
def groupOf (key : α → κ) (rows : List α) (k : κ) : List α := rows.filter fun r => key r = k

/-- The groups of rows with one key, in order of first occurrence. -/
def groups (key : α → κ) (rows : List α) : List (List α) :=
  (keysOf key rows).map (groupOf key rows)

variable {key : α → κ} {rows : List α}

@[simp] theorem mem_keysOf {k : κ} : k ∈ keysOf key rows ↔ ∃ r ∈ rows, key r = k := by
  simp [keysOf, List.mem_eraseDups]

theorem nodup_keysOf : (keysOf key rows).Nodup := nodup_eraseDups _

@[simp] theorem mem_groupOf {k : κ} {r : α} : r ∈ groupOf key rows k ↔ r ∈ rows ∧ key r = k := by
  simp [groupOf]

theorem keysOf_concat (r : α) :
    keysOf key (rows ++ [r]) =
      if key r ∈ keysOf key rows then keysOf key rows else keysOf key rows ++ [key r] := by
  simp only [keysOf, List.map_append, List.map_singleton, eraseDups_concat, List.mem_eraseDups]

theorem groupOf_concat (r : α) (k : κ) :
    groupOf key (rows ++ [r]) k = groupOf key rows k ++ if key r = k then [r] else [] := by
  by_cases hk : key r = k <;> simp [groupOf, hk]

theorem groupOf_ne_nil {k : κ} (h : k ∈ keysOf key rows) : groupOf key rows k ≠ [] := by
  obtain ⟨r, hr, hk⟩ := mem_keysOf.mp h
  exact List.ne_nil_of_mem (mem_groupOf.mpr ⟨hr, hk⟩)

theorem groupOf_eq_nil {k : κ} (h : k ∉ keysOf key rows) : groupOf key rows k = [] :=
  List.filter_eq_nil_iff.mpr fun r hr hk => h (mem_keysOf.mpr ⟨r, hr, by simpa using hk⟩)

theorem mem_groups {g : List α} :
    g ∈ groups key rows ↔ ∃ r ∈ rows, g = groupOf key rows (key r) := by
  constructor
  · intro hg
    obtain ⟨k, hk, rfl⟩ := List.mem_map.mp hg
    obtain ⟨r, hr, rfl⟩ := mem_keysOf.mp hk
    exact ⟨r, hr, rfl⟩
  · rintro ⟨r, hr, rfl⟩
    exact List.mem_map_of_mem (mem_keysOf.mpr ⟨r, hr, rfl⟩)

/-- Two rows are in one group exactly when their keys agree. -/
theorem mem_group_iff {g : List α} (hg : g ∈ groups key rows) {r r' : α} (hr : r ∈ g)
    (hr' : r' ∈ rows) : r' ∈ g ↔ key r' = key r := by
  obtain ⟨s, -, rfl⟩ := mem_groups.mp hg
  have hkey : key r = key s := (mem_groupOf.mp hr).2
  rw [mem_groupOf, hkey]
  exact and_iff_right hr'

theorem flatten_groupOf_perm (key : α → κ) (rows : List α) {ks : List κ} (h : ks.Nodup) :
    ((ks.map (groupOf key rows)).flatten).Perm (rows.filter fun r => key r ∈ ks) := by
  induction ks with
  | nil => simp
  | cons k ks ih =>
    obtain ⟨hk, hks⟩ := List.nodup_cons.mp h
    have hthose : (rows.filter fun r => key r ∈ k :: ks).filter (fun r => key r = k) =
        groupOf key rows k := by
      rw [List.filter_filter, groupOf]
      exact List.filter_congr fun r _ => by by_cases hr : key r = k <;> simp [hr]
    have hothers : (rows.filter fun r => key r ∈ k :: ks).filter (fun r => !decide (key r = k)) =
        rows.filter fun r => key r ∈ ks := by
      rw [List.filter_filter]
      refine List.filter_congr ?_
      intro r _
      by_cases hr : key r = k
      · simp [hr, hk]
      · simp [hr]
    rw [List.map_cons, List.flatten_cons]
    refine ((ih hks).append_left _).trans ?_
    rw [← hthose, ← hothers]
    exact List.filter_append_perm _ _

/-- **The groups are the rows,** each in one of them. -/
theorem groups_flatten_perm : (groups key rows).flatten.Perm rows := by
  have h := flatten_groupOf_perm key rows (nodup_keysOf : (keysOf key rows).Nodup)
  have hall : (rows.filter fun r => key r ∈ keysOf key rows) = rows :=
    List.filter_eq_self.mpr fun r hr => decide_eq_true (mem_keysOf.mpr ⟨r, hr, rfl⟩)
  rwa [hall] at h

/-- The first row of `g` stands before every row of `g'`. -/
def Precedes (rows g g' : List α) : Prop :=
  ∃ before first after, rows = before ++ first :: after ∧ g.head? = some first ∧
    (∀ r ∈ before, r ∉ g) ∧ ∀ r ∈ before ++ [first], r ∉ g'

theorem Precedes.concat {k k' : κ} (h : Precedes rows (groupOf key rows k) (groupOf key rows k'))
    (r : α) : Precedes (rows ++ [r]) (groupOf key (rows ++ [r]) k)
      (groupOf key (rows ++ [r]) k') := by
  obtain ⟨before, first, after, hrows, hhead, hg, hg'⟩ := h
  have hin : ∀ x ∈ before ++ [first], x ∈ rows := by
    intro x hx
    rw [hrows]
    simp only [List.mem_append, List.mem_cons, List.not_mem_nil, or_false] at hx ⊢
    tauto
  have hsame : ∀ x ∈ rows, ∀ j, x ∈ groupOf key (rows ++ [r]) j → x ∈ groupOf key rows j :=
    fun x hx j hj => mem_groupOf.mpr ⟨hx, (mem_groupOf.mp hj).2⟩
  refine ⟨before, first, after ++ [r], by simp [hrows], ?_, ?_, ?_⟩
  · rw [groupOf_concat, List.head?_append, hhead, Option.some_or]
  · exact fun x hx hmem => hg x hx (hsame x (hin x (by simp [hx])) k hmem)
  · exact fun x hx hmem => hg' x hx (hsame x (hin x hx) k' hmem)

/-- A group stands before one that begins with the next row. -/
theorem precedes_of_new {k : κ} (hk : k ∈ keysOf key rows) {r : α}
    (hr : key r ∉ keysOf key rows) :
    Precedes (rows ++ [r]) (groupOf key (rows ++ [r]) k) (groupOf key (rows ++ [r]) (key r)) := by
  obtain ⟨first, rest, hgroup⟩ := List.exists_cons_of_ne_nil (groupOf_ne_nil hk)
  have hfirst : (groupOf key rows k).head? = some first := by rw [hgroup, List.head?_cons]
  have hfind : rows.find? (fun r => decide (key r = k)) = some first := by
    rw [← List.head?_filter]; exact hfirst
  obtain ⟨hkey, before, after, hrows, hbefore⟩ := List.find?_eq_some_iff_append.mp hfind
  have hin : ∀ x ∈ before ++ [first], x ∈ rows := by
    intro x hx
    rw [hrows]
    simp only [List.mem_append, List.mem_cons, List.not_mem_nil, or_false] at hx ⊢
    tauto
  refine ⟨before, first, after ++ [r], by simp [hrows], ?_, ?_, ?_⟩
  · rw [groupOf_concat, List.head?_append, hfirst, Option.some_or]
  · intro x hx hmem
    have hne := hbefore x hx
    simp [(mem_groupOf.mp hmem).2] at hne
  · exact fun x hx hmem => hr (mem_keysOf.mpr ⟨x, hin x hx, (mem_groupOf.mp hmem).2⟩)

/-- **The groups are ordered by their first row.** -/
theorem groups_pairwise : (groups key rows).Pairwise (Precedes rows) := by
  unfold groups
  rw [List.pairwise_map]
  induction rows using List.reverseRecOn with
  | nil => simp [keysOf]
  | append_singleton rows r ih =>
    have hold : (keysOf key rows).Pairwise fun k k' => Precedes (rows ++ [r])
        (groupOf key (rows ++ [r]) k) (groupOf key (rows ++ [r]) k') :=
      ih.imp fun h => h.concat r
    rw [keysOf_concat]
    split
    · exact hold
    · rename_i hr
      refine List.pairwise_append.mpr ⟨hold, List.pairwise_singleton _ _, ?_⟩
      intro k hk k' hk'
      rw [List.mem_singleton.mp hk']
      exact precedes_of_new hk hr

/-! ## 3. One entry per key -/

/-- Changing the entry of one key, in the list of the entries of all keys. -/
theorem modify_map_idxOf {ks : List κ} (h : ks.Nodup) {k : κ} (hk : k ∈ ks) (entry : κ → β)
    (f : β → β) :
    (ks.map entry).modify (ks.idxOf k) f =
      ks.map fun j => if j = k then f (entry j) else entry j := by
  induction ks with
  | nil => simp at hk
  | cons j ks ih =>
    obtain ⟨hj, hks⟩ := List.nodup_cons.mp h
    by_cases hjk : j = k
    · subst hjk
      have hothers : ks.map entry = ks.map fun i => if i = j then f (entry i) else entry i :=
        List.map_congr_left fun i hi => by
          have hij : i ≠ j := fun heq => hj (heq ▸ hi)
          rw [if_neg hij]
      simp [← hothers]
    · have hmem : k ∈ ks := by simpa [Ne.symm hjk] using hk
      rw [List.idxOf_cons_ne _ hjk, List.map_cons, List.modify_succ_cons, ih hks hmem,
        List.map_cons, if_neg hjk]

/-- Changing the last entry. -/
theorem modify_concat_length (l : List β) (x : β) (f : β → β) :
    (l ++ [x]).modify l.length f = l ++ [f x] := by
  induction l with
  | nil => rfl
  | cons y l ih => rw [List.cons_append, List.length_cons, List.modify_succ_cons, ih]; rfl

end DcsDashboard.Lib
