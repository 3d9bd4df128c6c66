/-
# JavaScript objects used as dictionaries

A `Record<string, V>` is given by its own enumerable properties; their order is not kept.
There are two ways to set one, and they differ at a single key.  A computed key in an object
literal and a spread DEFINE an own property whatever the key is.  An assignment `o[k] = v`
finds the accessor that every object inherits under `__proto__`: unless the object already
has an own property of that name, it sets the prototype and no property.

The second half is the abstract account of such a dictionary under updates: `lastWrite` is
what the last of a list of writes says about a key.
-/
import Mathlib.Data.List.AList

namespace DcsDashboard.Lib

/-! ## 1. Dictionaries -/

/-- The own properties of an object. -/
abbrev JsRecord (V : Type*) := AList fun _ : String => V

/-- The key under which every object inherits an accessor. -/
def protoKey : String := "__proto__"

namespace JsRecord

variable {V : Type*}

/-- An own property, as `{ [key]: value }` and a spread make it. -/
def define (o : JsRecord V) (key : String) (value : V) : JsRecord V := o.insert key value

/-- `o[key] = value`, for a value that is an object. -/
def assign (o : JsRecord V) (key : String) (value : V) : JsRecord V :=
  if key = protoKey ∧ key ∉ o then o else o.insert key value

/-- `delete o[key]`. -/
def delete (o : JsRecord V) (key : String) : JsRecord V := o.erase key

/-- `{ ...o, ...p }`. -/
def spread (o p : JsRecord V) : JsRecord V := p ∪ o

@[simp] theorem lookup_define_self (o : JsRecord V) (key : String) (value : V) :
    (o.define key value).lookup key = some value := AList.lookup_insert o

theorem lookup_define_of_ne (o : JsRecord V) {key k : String} (value : V) (h : k ≠ key) :
    (o.define key value).lookup k = o.lookup k := AList.lookup_insert_ne h

theorem assign_eq_define {o : JsRecord V} {key : String} (h : key = protoKey → key ∈ o)
    (value : V) : o.assign key value = o.define key value := by
  unfold assign define
  rw [if_neg]
  rintro ⟨hkey, hmem⟩
  exact hmem (h hkey)

theorem assign_proto {o : JsRecord V} (h : protoKey ∉ o) (value : V) :
    o.assign protoKey value = o := if_pos ⟨rfl, h⟩

/-- An assignment leaves the other properties alone. -/
theorem lookup_assign_of_ne (o : JsRecord V) {key k : String} (value : V) (h : k ≠ key) :
    (o.assign key value).lookup k = o.lookup k := by
  unfold assign
  split
  · rfl
  · exact AList.lookup_insert_ne h

@[simp] theorem lookup_delete_self (o : JsRecord V) (key : String) :
    (o.delete key).lookup key = none := AList.lookup_erase key o

theorem lookup_delete_of_ne (o : JsRecord V) {key k : String} (h : k ≠ key) :
    (o.delete key).lookup k = o.lookup k := AList.lookup_erase_ne h

/-- In a spread the later object wins. -/
theorem lookup_spread (o p : JsRecord V) (k : String) :
    (o.spread p).lookup k = (p.lookup k).or (o.lookup k) := by
  unfold spread
  by_cases hk : k ∈ p
  · obtain ⟨v, hv⟩ := Option.isSome_iff_exists.mp (AList.lookup_isSome.mpr hk)
    rw [AList.lookup_union_left hk, hv, Option.some_or]
  · rw [AList.lookup_union_right hk, AList.lookup_eq_none.mpr hk, Option.none_or]

end JsRecord

/-! ## 2. The last write -/

section

variable {κ β : Type*} [DecidableEq κ]

/-- What the last of the writes to a key says, if there is one. -/
def lastWrite (key : κ) (writes : List (κ × β)) : Option β := writes.reverse.lookup key

@[simp] theorem lastWrite_nil (key : κ) : lastWrite key ([] : List (κ × β)) = none := rfl

/-- Later writes win. -/
theorem lastWrite_append (key : κ) (earlier later : List (κ × β)) :
    lastWrite key (earlier ++ later) = (lastWrite key later).or (lastWrite key earlier) := by
  simp [lastWrite, List.lookup_append]

theorem lastWrite_concat_self (key : κ) (writes : List (κ × β)) (x : β) :
    lastWrite key (writes ++ [(key, x)]) = some x := by
  rw [lastWrite_append]; simp [lastWrite]

theorem lastWrite_concat_of_ne {key k : κ} (writes : List (κ × β)) (x : β) (h : k ≠ key) :
    lastWrite k (writes ++ [(key, x)]) = lastWrite k writes := by
  have hsingle : lastWrite k [(key, x)] = none := by simpa [lastWrite] using h
  rw [lastWrite_append, hsingle, Option.none_or]

/-- A key nothing writes keeps its value. -/
theorem lastWrite_eq_none {key : κ} {writes : List (κ × β)}
    (h : ∀ w ∈ writes, w.1 ≠ key) : lastWrite key writes = none := by
  refine List.lookup_eq_none_iff.mpr ?_
  intro w hw
  simpa using fun heq : key = w.1 => h w (List.mem_reverse.mp hw) heq.symm

/-- Two updates of one value that agree wherever they are applied say the same. -/
theorem eq_of_getD_eq [Nontrivial β] {a b : Option β} (h : ∀ x, a.getD x = b.getD x) : a = b := by
  cases a with
  | none =>
    cases b with
    | none => rfl
    | some y =>
      obtain ⟨x, hx⟩ := exists_ne y
      exact absurd (h x) hx
  | some y =>
    cases b with
    | none =>
      obtain ⟨x, hx⟩ := exists_ne y
      exact absurd (h x).symm hx
    | some z =>
      have heq : y = z := h y
      rw [heq]

end

end DcsDashboard.Lib
