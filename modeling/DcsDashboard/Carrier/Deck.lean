/-
# Decks

Which ships are carriers, and how far the deck is angled: `M.classifyDeck` from the attributes
DCS gives a unit and from its type name, and `M.deckOffsetForType`.

Text is compared as Lua compares it in the C locale, where only ASCII letters have a case.
-/
import DcsDashboard.Carrier.Config

namespace DcsDashboard.Carrier

/-! ## 1. Text -/

/-- `string.lower`. -/
def lower (s : String) : List Char := s.toList.map Char.toLower

/-- `name:find(string.lower(fragment), 1, true)` for an already lowered name. -/
def findLower (name : List Char) (fragment : String) : Bool := lower fragment <:+: name

/-- `name:find(pattern, 1, true)`. -/
def findPlain (name pattern : String) : Bool := pattern.toList <:+: name.toList

/-! ## 2. Classification -/

/-- `M.carrierTypeHints`. -/
def carrierTypeHints : List String :=
  ["CVN", "CV_", "CV-", "LHA", "LHD", "Carrier", "Invincible", "Essex", "Ark",
    "Kuznetsov", "KUZNECOW", "1143", "Stennis", "Forrestal", "Tarawa", "Juan_Carlos",
    "Type_071", "Hermes", "Clemenceau", "Charles", "Wasp", "America", "ara_vdm"]

/-- `M.excludedTypes`. -/
def excludedTypes : List String := ["atconveyor"]

/-- `M.deckAttributes.catapult`. -/
def catapultAttributes : List String := ["AircraftCarrier With Catapult", "catapult"]

/-- `M.deckAttributes.arrestingGear`. -/
def arrestingGearAttributes : List String :=
  ["AircraftCarrier With Arresting Gear", "Arresting Gear"]

/-- `M.deckAttributes.aircraftCarrier`. -/
def aircraftCarrierAttributes : List String :=
  ["Aircraft Carriers", "AircraftCarrier", "AircraftCarrier With Tramplin", "ski_jump"]

/-- `M.deckAttributes.helipad`. -/
def helipadAttributes : List String := ["HelicopterCarrier", "Landing Ships"]

/-- The classes `M.classifyDeck` returns. -/
inductive DeckClass
  | catobar
  | stobar
  | vstol
  | unknown
  deriving DecidableEq

/-- `M.typeNameIsExcluded`. -/
def typeNameIsExcluded (typeName : String) : Bool :=
  excludedTypes.any fun fragment => findLower (lower typeName) fragment

/-- `M.typeNameLooksLikeCarrier`. -/
def typeNameLooksLikeCarrier (typeName : String) : Bool :=
  typeName ≠ "" && carrierTypeHints.any fun hint => findLower (lower typeName) hint

/-- What `anyAttribute` appends to `matched`; it hit when this is not empty. -/
def matchedAttributes (attributes names : List String) : List String :=
  names.filter fun name => attributes.contains name

/-- `M.classifyDeck`: the class, and the attributes that decided it. -/
def classifyDeck (attributes : List String) (typeName : String) : Option DeckClass × List String :=
  if typeNameIsExcluded typeName then (none, [])
  else
    let catapult := matchedAttributes attributes catapultAttributes
    let arrestingGear := matchedAttributes attributes arrestingGearAttributes
    let aircraftCarrier := matchedAttributes attributes aircraftCarrierAttributes
    let helipad := matchedAttributes attributes helipadAttributes
    let hinted := typeNameLooksLikeCarrier typeName
    if catapult ≠ [] then (some .catobar, catapult ++ arrestingGear)
    else if arrestingGear ≠ [] then (some .stobar, arrestingGear ++ aircraftCarrier)
    else if aircraftCarrier ≠ [] then (some .vstol, aircraftCarrier)
    else if helipad ≠ [] then (if hinted then some .vstol else none, helipad)
    else (if hinted then some .unknown else none, [])

/-- `M.deckOffsetForType`. -/
def deckOffsetForType {R : Type*} [Field R] (typeName : String) (cfg : Config R)
    (deckClass : Option DeckClass) : R :=
  if deckClass = some .vstol then 0
  else if (cfg.straightDeckTypes.getD []).any fun pattern => findPlain typeName pattern then 0
  else ((cfg.value "angledDeckOffsetDeg").bind Value.tonumber).getD (914 / 100)

end DcsDashboard.Carrier
