/-
# JSON values

The value type of `serde_json`, with the accessors the handlers use.  Numbers are exact; an
object is the list of its members, and a key is looked up at its first occurrence.
-/
import Mathlib.Data.Rat.Floor
import Mathlib.Logic.Function.Basic

namespace DcsDashboard.Lib

/-- `serde_json::Value`. -/
inductive Json
  | null
  | bool (b : Bool)
  | num (n : ℚ)
  | str (s : String)
  | arr (xs : List Json)
  | obj (kvs : List (String × Json))

namespace Json

/-- `value.get(key)`. -/
def get (key : String) : Json → Option Json
  | obj kvs => kvs.lookup key
  | _ => none

/-- `as_array`. -/
def asArray : Json → Option (List Json)
  | arr xs => some xs
  | _ => none

/-- `as_object`. -/
def asObject : Json → Option (List (String × Json))
  | obj kvs => some kvs
  | _ => none

/-- `as_f64`. -/
def asF64 : Json → Option ℚ
  | num n => some n
  | _ => none

/-- `as_str`. -/
def asStr : Json → Option String
  | str s => some s
  | _ => none

/-- `as_bool`. -/
def asBool : Json → Option Bool
  | bool b => some b
  | _ => none

/-- A character inside a JSON string. -/
def escapeChar (c : Char) : List Char :=
  match c with
  | '"' => "\\\"".toList
  | '\\' => "\\\\".toList
  | '\n' => "\\n".toList
  | '\r' => "\\r".toList
  | '\t' => "\\t".toList
  | '\x08' => "\\b".toList
  | '\x0c' => "\\f".toList
  | c =>
    if c.toNat < 32 then
      "\\u00".toList ++ [Nat.digitChar (c.toNat / 16), Nat.digitChar (c.toNat % 16)]
    else [c]

/-- A JSON string. -/
def stringText (s : String) : List Char := '"' :: s.toList.flatMap escapeChar ++ ['"']

section
variable (number : ℚ → List Char)

mutual

/-- `to_string`, given the texts of the numbers. -/
def text : Json → List Char
  | null => "null".toList
  | bool b => if b then "true".toList else "false".toList
  | num n => number n
  | str s => stringText s
  | arr xs => '[' :: itemsText xs ++ [']']
  | obj kvs => '\x7b' :: membersText kvs ++ ['\x7d']

def itemsText : List Json → List Char
  | [] => []
  | [x] => text x
  | x :: xs => text x ++ ',' :: itemsText xs

def membersText : List (String × Json) → List Char
  | [] => []
  | [(k, x)] => stringText k ++ ':' :: text x
  | (k, x) :: kvs => stringText k ++ ':' :: text x ++ ',' :: membersText kvs

end

end

end Json

/-! ## Maps

A map of JSON values is given by what it maps each key to. -/

theorem mem_of_lookup {κ β : Type*} [BEq κ] [LawfulBEq κ] {members : List (κ × β)} {key : κ}
    {v : β} (h : members.lookup key = some v) : (key, v) ∈ members := by
  obtain ⟨before, after, rfl, -⟩ := List.lookup_eq_some_iff.mp h
  simp

/-- A key is looked up in vain when no member has it. -/
theorem lookup_eq_none_iff_notMem {κ β : Type*} [BEq κ] [LawfulBEq κ] {members : List (κ × β)}
    {key : κ} : members.lookup key = none ↔ key ∉ members.map Prod.fst := by
  rw [List.lookup_eq_none_iff, List.mem_map]
  constructor
  · rintro h ⟨e, he, rfl⟩
    simpa using h e he
  · intro h e he
    simpa using fun heq : key = e.1 => h ⟨e, he, heq.symm⟩

section
variable {κ : Type*} [DecidableEq κ]

/-- The map with some members more, inserted one after the other. -/
def insertAll (m : κ → Option Json) (members : List (κ × Json)) : κ → Option Json :=
  members.foldl (fun m e => Function.update m e.1 (some e.2)) m

@[simp] theorem insertAll_nil (m : κ → Option Json) : insertAll m [] = m := rfl

@[simp] theorem insertAll_cons (m : κ → Option Json) (e : κ × Json) (members : List (κ × Json)) :
    insertAll m (e :: members) = insertAll (Function.update m e.1 (some e.2)) members := rfl

theorem insertAll_apply {members : List (κ × Json)} (h : (members.map Prod.fst).Nodup)
    (m : κ → Option Json) (key : κ) :
    insertAll m members key = (members.lookup key).or (m key) := by
  induction members generalizing m with
  | nil => rfl
  | cons e members ih =>
    obtain ⟨name, v⟩ := e
    obtain ⟨hfresh, hnodup⟩ := List.nodup_cons.mp h
    rw [insertAll_cons, ih hnodup]
    by_cases hk : key = name
    · subst hk
      simp [lookup_eq_none_iff_notMem.mpr hfresh]
    · have hbeq : (key == name) = false := by simpa using hk
      simp [List.lookup_cons, hbeq, Function.update_of_ne hk]

theorem insertAll_eq_some {members : List (κ × Json)} {m : κ → Option Json} {key : κ} {v : Json}
    (h : insertAll m members key = some v) : (key, v) ∈ members ∨ m key = some v := by
  induction members generalizing m with
  | nil => exact .inr h
  | cons e members ih =>
    rw [insertAll_cons] at h
    rcases ih h with hmem | hm
    · exact .inl (List.mem_cons_of_mem _ hmem)
    · by_cases hk : key = e.1
      · rw [hk, Function.update_self] at hm
        left
        rw [hk, ← Option.some.inj hm]
        exact List.mem_cons_self
      · rw [Function.update_of_ne hk] at hm
        exact .inr hm

theorem insertAll_isSome {members : List (κ × Json)} {m : κ → Option Json} {key : κ}
    (h : key ∈ members.map Prod.fst ∨ (m key).isSome) : (insertAll m members key).isSome := by
  induction members generalizing m with
  | nil => simpa using h
  | cons e members ih =>
    refine ih ?_
    by_cases hk : key = e.1
    · exact .inr (by simp [hk])
    · simpa [hk, Function.update_of_ne hk] using h

/-- Where no key has two values, the order does not matter. -/
theorem insertAll_eq_some_iff {members : List (κ × Json)}
    (h : ∀ key v w, (key, v) ∈ members → (key, w) ∈ members → v = w) {key : κ} {v : Json} :
    insertAll (fun _ => none) members key = some v ↔ (key, v) ∈ members := by
  have hmem : ∀ w, insertAll (fun _ => none) members key = some w → (key, w) ∈ members :=
    fun w hw => (insertAll_eq_some hw).resolve_right (by simp)
  refine ⟨hmem v, ?_⟩
  intro hv
  have hsome : (insertAll (fun _ => none) members key).isSome :=
    insertAll_isSome (.inl (List.mem_map.mpr ⟨_, hv, rfl⟩))
  obtain ⟨w, hw⟩ := Option.isSome_iff_exists.mp hsome
  rw [hw, h key w v (hmem w hw) hv]

end

/-- Rust `f as u64`: truncation, saturating at both ends. -/
def asU64 (f : ℚ) : Nat := min ⌊f⌋.toNat (2 ^ 64 - 1)

/-- Rust `f as i64`: truncation towards zero, saturating at both ends. -/
def asI64 (f : ℚ) : ℤ :=
  max (-2 ^ 63) (min (2 ^ 63 - 1) (if 0 ≤ f then ⌊f⌋ else ⌈f⌉))

@[simp] theorem asU64_natCast {n : Nat} (h : n < 2 ^ 64) : asU64 (n : ℚ) = n := by
  simp only [asU64, Int.floor_natCast, Int.toNat_natCast]
  omega

end DcsDashboard.Lib
