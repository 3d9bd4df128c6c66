/-
# Maximal runs

A list is cut, in one way only, into runs of equal items with different neighbours.  `IsRuns` says
that a list of items with counts is that cut; `runsOf` computes it, and is what a loop computes that
counts on while the next item is the same.
-/
import Mathlib.Data.List.SplitBy

namespace DcsDashboard.Lib

variable {α : Type*}

/-- The maximal runs of a list: each item with how often it comes in a row. -/
structure IsRuns (xs : List α) (runs : List (α × ℕ)) : Prop where
  whole : runs.flatMap (fun run => List.replicate run.2 run.1) = xs
  positive : ∀ run ∈ runs, 0 < run.2
  maximal : runs.IsChain fun run next => run.1 ≠ next.1

/-- A run is of an item of the list. -/
theorem IsRuns.mem {xs : List α} {runs : List (α × ℕ)} (h : IsRuns xs runs) {run : α × ℕ}
    (hrun : run ∈ runs) : run.1 ∈ xs := by
  have hpos : run.2 ≠ 0 := Nat.pos_iff_ne_zero.mp (h.positive run hrun)
  rw [← h.whole]
  exact List.mem_flatMap.mpr ⟨run, hrun, List.mem_replicate.mpr ⟨hpos, rfl⟩⟩

section

variable [DecidableEq α] [Inhabited α]

/-- The runs of a list, counted. -/
def runsOf (xs : List α) : List (α × ℕ) :=
  (xs.splitBy (· == ·)).map fun run => (run.headD default, run.length)

/-- A part of the cut holds one item only. -/
theorem eq_replicate_of_mem_splitBy {xs run : List α} (h : run ∈ xs.splitBy (· == ·)) :
    run = List.replicate run.length (run.headD default) := by
  have hchain : run.IsChain (· = ·) := by
    simpa using List.isChain_of_mem_splitBy h
  clear h
  cases run with
  | nil => rfl
  | cons x run =>
    refine List.eq_replicate_iff.mpr ⟨rfl, ?_⟩
    intro y hy
    have hpair := List.isChain_iff_pairwise.mp hchain
    rcases List.mem_cons.mp hy with rfl | hy
    · rfl
    · exact ((List.pairwise_cons.mp hpair).1 y hy).symm

/-- **The counted runs** are the maximal runs. -/
theorem isRuns_runsOf (xs : List α) : IsRuns xs (runsOf xs) where
  whole := by
    have hparts : ∀ run ∈ xs.splitBy (· == ·),
        List.replicate run.length (run.headD default) = run :=
      fun run hrun => (eq_replicate_of_mem_splitBy hrun).symm
    rw [runsOf, List.flatMap_map, List.flatMap_def, List.map_congr_left hparts, List.map_id',
      List.flatten_splitBy]
  positive := by
    intro run hrun
    obtain ⟨part, hpart, rfl⟩ := List.mem_map.mp hrun
    exact List.length_pos_iff.mpr (List.ne_nil_of_mem_splitBy hpart)
  maximal := by
    rw [runsOf, List.isChain_map]
    have hparts := List.isChain_getLast_head_splitBy (· == ·) xs
    refine List.IsChain.imp_of_mem_imp ?_ hparts
    rintro part next hpart - ⟨hne, hne', hdiffer⟩ heq
    obtain ⟨x, rest, rfl⟩ := List.exists_cons_of_ne_nil hne
    obtain ⟨y, rest', rfl⟩ := List.exists_cons_of_ne_nil hne'
    -- the last item of a part is its first
    have hlast : (x :: rest).getLast hne = x :=
      (List.eq_replicate_iff.mp (eq_replicate_of_mem_splitBy hpart)).2 _ (List.getLast_mem hne)
    rw [hlast] at hdiffer
    simp_all

end

end DcsDashboard.Lib
