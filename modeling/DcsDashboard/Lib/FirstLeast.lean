/-
# The first of the least

A loop that keeps the best item so far, and replaces it only by a strictly better one, ends with
the first of the least items: whatever comes before it is greater, and nothing after it is less.
`FirstLeast` says this of an item and where it stands in the list, and grows with the list the way
the loop does.
-/
import Mathlib.Order.Lattice
import Mathlib.Data.List.Basic

namespace DcsDashboard.Lib

variable {α β : Type*} [LinearOrder β] {f : α → β} {pre post : List α} {x : α}

/-- `x`, after `pre` and before `post`, is the first of the least by `f`. -/
structure FirstLeast (f : α → β) (pre : List α) (x : α) (post : List α) : Prop where
  before : ∀ y ∈ pre, f x < f y
  after : ∀ y ∈ post, f x ≤ f y

theorem FirstLeast.single (f : α → β) (x : α) : FirstLeast f [] x [] := ⟨by simp, by simp⟩

/-- It is least. -/
theorem FirstLeast.le (h : FirstLeast f pre x post) {y : α} (hy : y ∈ pre ++ x :: post) :
    f x ≤ f y := by
  rcases List.mem_append.mp hy with hpre | hpost
  · exact (h.before y hpre).le
  · rcases List.mem_cons.mp hpost with rfl | hpost
    · exact le_rfl
    · exact h.after y hpost

/-- One more item that is not less. -/
theorem FirstLeast.keep (h : FirstLeast f pre x post) {y : α} (hy : f x ≤ f y) :
    FirstLeast f pre x (post ++ [y]) where
  before := h.before
  after z hz := by
    rcases List.mem_append.mp hz with hz | hz
    · exact h.after z hz
    · rwa [List.mem_singleton.mp hz]

/-- One more item that is less. -/
theorem FirstLeast.replace (h : FirstLeast f pre x post) {y : α} (hy : f y < f x) :
    FirstLeast f (pre ++ x :: post) y [] where
  before _ hz := hy.trans_le (h.le hz)
  after := by simp

/-- It stays so under a map that the measure factors through. -/
theorem FirstLeast.of_map {γ : Type*} {g : γ → α} {pre post : List γ} {x : γ}
    (h : FirstLeast (fun c => f (g c)) pre x post) :
    FirstLeast f (pre.map g) (g x) (post.map g) where
  before y hy := by
    obtain ⟨z, hz, rfl⟩ := List.mem_map.mp hy
    exact h.before z hz
  after y hy := by
    obtain ⟨z, hz, rfl⟩ := List.mem_map.mp hy
    exact h.after z hz

/-- In a list of groups it stands in the first group that has one of the least. -/
theorem FirstLeast.exists_group {γ : Type*} {g : γ → List α} {groups : List γ}
    (h : FirstLeast f pre x post) (hgroups : groups.flatMap g = pre ++ x :: post) :
    ∃ before a after, groups = before ++ a :: after ∧ x ∈ g a ∧
      ∀ b ∈ before, ∀ y ∈ g b, f x < f y := by
  induction groups generalizing pre with
  | nil => simp at hgroups
  | cons a groups ih =>
    rw [List.flatMap_cons, List.append_eq_append_iff] at hgroups
    rcases hgroups with ⟨rest, rfl, hrest⟩ | ⟨rest, ha, hrest⟩
    · -- it stands in a later group, and the whole of this one comes before it
      obtain ⟨before, a', after, rfl, hx, hbefore⟩ :=
        ih ⟨fun y hy => h.before y (List.mem_append_right _ hy), h.after⟩ hrest
      refine ⟨a :: before, a', after, rfl, hx, ?_⟩
      intro b hb y hy
      rcases List.mem_cons.mp hb with rfl | hb
      · exact h.before y (List.mem_append_left _ hy)
      · exact hbefore b hb y hy
    · cases rest with
      | nil =>
        have hfirst : FirstLeast f [] x post := ⟨by simp, h.after⟩
        obtain ⟨before, a', after, rfl, hx, hbefore⟩ := ih hfirst hrest.symm
        refine ⟨a :: before, a', after, rfl, hx, ?_⟩
        intro b hb y hy
        rcases List.mem_cons.mp hb with rfl | hb
        · exact h.before y (by simpa [ha] using hy)
        · exact hbefore b hb y hy
      | cons z rest =>
        obtain ⟨rfl, -⟩ := List.cons.inj hrest
        exact ⟨[], a, groups, rfl, by simp [ha], by simp⟩

end DcsDashboard.Lib
