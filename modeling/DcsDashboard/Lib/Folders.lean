/-
# Folders

A collection of paths is browsed a folder at a time.  A path is a list of names, and the folder it
lies in is all of them but the last.  From a folder one goes to the root, up to a folder on the way
to it, or down to one that is shown: one with a path below it.

The folders reached from the root are the root and every one with a path below it
(`reaches_iff`), so that no way leads to an empty folder.  A path below a folder lies in it or below
one of the folders shown there, which is the only one (`below_cases`, `shown_unique`).
-/
import Mathlib.Data.List.Induction
import Mathlib.Logic.Relation

namespace DcsDashboard.Lib.Folders

open Relation

variable {κ : Type*} {paths : Set (List κ)} {folder : List κ} {name : κ}

/-- A path lies somewhere below the folder. -/
def Below (paths : Set (List κ)) (folder : List κ) : Prop :=
  ∃ rest, rest ≠ [] ∧ folder ++ rest ∈ paths

/-- The folder shows a folder of that name. -/
def Shows (paths : Set (List κ)) (folder : List κ) (name : κ) : Prop :=
  ∃ rest, rest ≠ [] ∧ folder ++ name :: rest ∈ paths

/-- One step of a walk over the folders. -/
inductive Step (paths : Set (List κ)) : List κ → List κ → Prop
  | root (folder : List κ) : Step paths folder []
  | up (folder : List κ) (n : ℕ) : Step paths folder (folder.take n)
  | down {folder : List κ} {name : κ} :
      Shows paths folder name → Step paths folder (folder ++ [name])

theorem shows_iff : Shows paths folder name ↔ Below paths (folder ++ [name]) := by
  unfold Shows Below
  simp only [List.append_assoc, List.singleton_append]

theorem Below.of_prefix {folder' : List κ} (h : Below paths folder')
    (hfolder : folder <+: folder') : Below paths folder := by
  obtain ⟨between, rfl⟩ := hfolder
  obtain ⟨rest, hrest, hmem⟩ := h
  refine ⟨between ++ rest, ?_, ?_⟩
  · intro hnil
    exact hrest (List.append_eq_nil_iff.mp hnil).2
  · rwa [← List.append_assoc]

/-- A step leads to the root or to a folder with a path below it. -/
theorem Step.below {folder' : List κ} (h : Step paths folder folder')
    (hfolder : folder = [] ∨ Below paths folder) : folder' = [] ∨ Below paths folder' := by
  cases h with
  | root => exact .inl rfl
  | up n =>
    rcases hfolder with rfl | hbelow
    · exact .inl List.take_nil
    · exact .inr (hbelow.of_prefix (List.take_prefix n folder))
  | down hshows => exact .inr (shows_iff.mp hshows)

/-- Every folder with a path below it is reached from the root, by going down. -/
theorem reaches_of_below (h : Below paths folder) : ReflTransGen (Step paths) [] folder := by
  induction folder using List.reverseRecOn with
  | nil => exact .refl
  | append_singleton folder name ih =>
    have hreach := ih (h.of_prefix (List.prefix_append folder [name]))
    exact hreach.tail (.down (shows_iff.mpr h))

/-- **What walks from the root reach.** -/
theorem reaches_iff :
    ReflTransGen (Step paths) [] folder ↔ folder = [] ∨ Below paths folder := by
  constructor
  · intro h
    induction h with
    | refl => exact .inl rfl
    | tail _ hstep ih => exact hstep.below ih
  · rintro (rfl | hbelow)
    · exact .refl
    · exact reaches_of_below hbelow

/-- A path below a folder lies in it or below a folder shown there. -/
theorem below_cases {path : List κ} (hpath : path ∈ paths) (hne : path ≠ folder)
    (hfolder : folder <+: path) :
    (∃ name, path = folder ++ [name]) ∨
      ∃ name, Shows paths folder name ∧ folder ++ [name] <+: path := by
  obtain ⟨rest, rfl⟩ := hfolder
  match rest with
  | [] => exact absurd (List.append_nil folder) hne
  | [name] => exact .inl ⟨name, rfl⟩
  | name :: next :: rest =>
    refine .inr ⟨name, ⟨next :: rest, by simp, hpath⟩, next :: rest, ?_⟩
    simp

/-- Only one folder shown leads to a path. -/
theorem shown_unique {name' : κ} {path : List κ} (h : folder ++ [name] <+: path)
    (h' : folder ++ [name'] <+: path) : name = name' := by
  have heq : folder ++ [name] = folder ++ [name'] :=
    (List.prefix_of_prefix_length_le h h' (by simp)).eq_of_length (by simp)
  simpa using heq

end DcsDashboard.Lib.Folders
