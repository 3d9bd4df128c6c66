/-
# Carrier detection from the radar stream

`carrierDetection.ts`: which ship groups of the radar snapshot look like carriers and are not
in the detected list.  The radar stream costs nothing, so it is what tells the page that the
list is stale.

Upper and lower casing of arbitrary Unicode text is the browser's; it is a parameter
(`JsCase`), and nothing below depends on what it does.
-/
import Mathlib.Data.List.Infix
import Mathlib.Data.List.Lex
import Mathlib.Data.List.Sort
import Mathlib.Data.List.Dedup

namespace DcsDashboard.Airboss

/-! ## 1. JavaScript text -/

/-- `String.prototype.toLowerCase` and `toUpperCase`. -/
structure JsCase where
  toLowerCase : String → String
  toUpperCase : String → String

/-- The ASCII part of the two. -/
def asciiCase : JsCase where
  toLowerCase s := String.ofList (s.toList.map Char.toLower)
  toUpperCase s := String.ofList (s.toList.map Char.toUpper)

/-- `haystack.includes(needle)`. -/
def includes (haystack needle : String) : Bool := needle.toList <:+: haystack.toList

/-- White space and line terminators of ECMAScript, what `trim` removes. -/
def isJsSpace (c : Char) : Bool :=
  c.toNat ∈ [0x9, 0xA, 0xB, 0xC, 0xD, 0x20, 0xA0, 0x1680, 0x2028, 0x2029, 0x202F, 0x205F,
      0x3000, 0xFEFF] ∨ (0x2000 ≤ c.toNat ∧ c.toNat ≤ 0x200A)

/-- `s.trim()`. -/
def jsTrim (s : String) : String :=
  String.ofList (((s.toList.dropWhile isJsSpace).reverse.dropWhile isJsSpace).reverse)

/-- The UTF-16 code units of a string, by which JavaScript orders strings. -/
def utf16 (s : String) : List Nat :=
  s.toList.flatMap fun c =>
    if c.toNat < 0x10000 then [c.toNat]
    else [0xD800 + (c.toNat - 0x10000) / 0x400, 0xDC00 + (c.toNat - 0x10000) % 0x400]

/-! ## 2. Radar units -/

/-- A unit of the radar snapshot, as far as detection reads it. -/
structure RadarUnit where
  type : Option String
  /-- `unit.group?.category` -/
  category : Option String
  /-- `unit.group?.name` -/
  groupName : Option String
  deriving DecidableEq

/-- One row of `GET /api/airboss/carriers`, as far as the list hook reads it. -/
structure DetectedCarrier where
  group : String
  deriving DecidableEq

/-- `CARRIER_TYPE_HINTS`. -/
def carrierTypeHints : List String :=
  ["CVN", "CV_", "CV-", "LHA", "LHD", "Carrier", "Invincible", "Essex", "Ark",
    "Kuznetsov", "KUZNECOW", "1143", "Stennis", "Forrestal", "Tarawa", "Juan_Carlos",
    "Type_071", "Hermes", "Clemenceau", "Charles", "Wasp", "America", "ara_vdm"]

/-- `CARRIER_REFRESH_MIN_INTERVAL_MS`. -/
def carrierRefreshMinIntervalMs : Nat := 30000

section

variable (js : JsCase)

/-- `typeNameLooksLikeCarrier`. -/
def typeNameLooksLikeCarrier (typeName : Option String) : Bool :=
  let name := js.toLowerCase (typeName.getD "")
  if name = "" then false
  else carrierTypeHints.any fun hint => includes name (js.toLowerCase hint)

/-- `isShipUnit`. -/
def isShipUnit (unit : RadarUnit) : Bool :=
  includes (js.toUpperCase (unit.category.getD "")) "SHIP"

/-- The group one unit contributes to `unknownCarrierGroupsInRadar`, if any. -/
def unknownGroup? (knownGroups : List String) (unit : RadarUnit) : Option String :=
  if !isShipUnit js unit || !typeNameLooksLikeCarrier js unit.type then none
  else
    match unit.groupName.map jsTrim with
    | none => none
    | some groupName =>
      if groupName = "" || knownGroups.contains groupName then none else some groupName

/-- `unknownCarrierGroupsInRadar`: the groups of carrier-looking ships that the detected list
does not know, without repeats, sorted. -/
def unknownCarrierGroupsInRadar (units : List (String × RadarUnit))
    (knownGroups : List String) : List String :=
  (units.filterMap fun u => unknownGroup? js knownGroups u.2).dedup.insertionSort
    fun a b => utf16 a ≤ utf16 b

/-- The groups of carrier-looking ships in the radar, known or not. -/
def carrierGroupsInRadar (units : List (String × RadarUnit)) : List String :=
  unknownCarrierGroupsInRadar js units []

variable {js}

theorem unknownGroup?_eq_some {known : List String} {unit : RadarUnit} {g : String} :
    unknownGroup? js known unit = some g ↔ unknownGroup? js [] unit = some g ∧ g ∉ known := by
  unfold unknownGroup?
  split
  · simp
  · cases unit.groupName.map jsTrim with
    | none => simp
    | some n =>
      by_cases h0 : n = ""
      · simp [h0]
      · by_cases hk : n ∈ known
        · simp only [h0, hk, List.contains_eq_mem, decide_true, decide_false, Bool.or_true,
            if_true, List.not_mem_nil, Bool.or_false, Bool.false_eq_true, if_false]
          constructor
          · intro h; cases h
          · rintro ⟨h, hg⟩; cases h; exact absurd hk hg
        · simp only [h0, hk, List.contains_eq_mem, decide_false, List.not_mem_nil,
            Bool.or_false, Bool.false_eq_true, if_false]
          constructor
          · intro h; cases h; exact ⟨rfl, hk⟩
          · exact fun h => h.1

/-- **What the helper reports.**  The groups of carrier-looking ships in the radar that are
not known. -/
theorem mem_unknownCarrierGroupsInRadar {units : List (String × RadarUnit)}
    {known : List String} {g : String} :
    g ∈ unknownCarrierGroupsInRadar js units known ↔
      g ∈ carrierGroupsInRadar js units ∧ g ∉ known := by
  simp only [carrierGroupsInRadar, unknownCarrierGroupsInRadar, List.mem_insertionSort,
    List.mem_dedup, List.mem_filterMap]
  constructor
  · rintro ⟨u, hu, hg⟩
    exact ⟨⟨u, hu, (unknownGroup?_eq_some.mp hg).1⟩, (unknownGroup?_eq_some.mp hg).2⟩
  · rintro ⟨⟨u, hu, hg⟩, hk⟩
    exact ⟨u, hu, unknownGroup?_eq_some.mpr ⟨hg, hk⟩⟩

end

end DcsDashboard.Airboss
