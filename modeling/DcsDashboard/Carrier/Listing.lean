/-
# The carriers of the mission

`M.listCarriers` goes through the ship groups of the three coalitions and describes each whose lead
unit is a carrier; a group that raises on the way is left out, and the others are not affected.
`M.windReports` makes the report of every ship the page has synced in one Eval.

The page joins the two by group name.  They come to a ship by different calls, and say the same
of it: a ship group is listed just if its report has a deck class, and then with the type, class,
deck offset, target, phase and backend of the report (`listed_agrees`).
-/
import DcsDashboard.Carrier.CalmSea
import DcsDashboard.Carrier.WindReport
import DcsDashboard.Lib.RustText

namespace DcsDashboard.Carrier

open Lib

/-! ## 1. The list -/

/-- The mission as `M.listCarriers` finds it. -/
structure Fleet (R : Type*) where
  world : World R
  /-- the names of `coalition.getGroups(side, SHIP)`, unless it raises -/
  shipGroups : Nat → Option (List String)
  /-- `lead:getName()` -/
  unitName : String → String
  /-- whether a call raises while the group is described -/
  raises : String → Bool
  footholdState : String → Option (Option String)

/-- An entry of the list. -/
structure CarrierEntry (R : Type*) where
  group : String
  unit : String
  type : String
  coalition : Nat
  deckClass : DeckClass
  attributes : List String
  deckOffset : R
  targetWod : Option (Value R)
  backend : Backend
  recoveryPhase : String

/-- `coalition.side`. -/
def sides : List Nat := [0, 1, 2]

/-- `shipGroupsForSide`. -/
def Fleet.shipGroupsForSide {R : Type*} (F : Fleet R) (side : Nat) : List String :=
  (F.shipGroups side).getD []

section Listing

variable {R : Type*} [Field R]

/-- `describeCarrier`. -/
def State.describeCarrier (s : State R) (F : Fleet R) (side : Nat) (groupName : String) :
    Option (CarrierEntry R) :=
  (F.world.leadUnit groupName).bind fun (_, lead) =>
    match classifyDeck lead.attributes lead.typeName with
    | (none, _) => none
    | (some deckClass, attributes) => some {
        group := groupName
        unit := F.unitName groupName
        type := lead.typeName
        coalition := side
        deckClass := deckClass
        attributes := attributes
        deckOffset :=
          deckOffsetForType lead.typeName (s.setup.config (some groupName)) (some deckClass)
        targetWod := (s.setup.config (some groupName)).value "targetWodKt"
        backend := s.setup.backend groupName
        recoveryPhase := s.phase (F.footholdState groupName) groupName }

/-- One round of the loop of `M.listCarriers`. -/
def State.listed? (s : State R) (F : Fleet R) (side : Nat) (groupName : String) :
    Option (CarrierEntry R) :=
  if F.raises groupName then none else s.describeCarrier F side groupName

/-- `a.group <= b.group`, as the sort of `M.listCarriers` compares. -/
def CarrierEntry.le {R : Type*} (a b : CarrierEntry R) : Bool :=
  textLe a.group.toList b.group.toList

/-- `M.listCarriers`. -/
def State.listCarriers (s : State R) (F : Fleet R) : List (CarrierEntry R) :=
  (sides.flatMap fun side => (F.shipGroupsForSide side).filterMap (s.listed? F side)).mergeSort
    CarrierEntry.le

variable [LinearOrder R] [FloorRing R] [LuaMath R]

/-- `M.windReports`: what it says of a name. -/
def State.windReports (s : State R) (F : Fleet R) (names : List String) (name : String) :
    Option (Except (Message R) (WindReport R)) :=
  if name ∈ names ∧ name ≠ "" then some (s.windReport F.world (F.footholdState name) name)
  else none

end Listing

/-! ## 2. What is listed -/

section

variable {R : Type*} [Field R] {s : State R} {F : Fleet R}

/-- A group that is described. -/
theorem State.describeCarrier_eq_some {side : Nat} {name : String} {e : CarrierEntry R} :
    s.describeCarrier F side name = some e ↔
      ∃ group lead deckClass attributes, F.world.leadUnit name = some (group, lead) ∧
        classifyDeck lead.attributes lead.typeName = (some deckClass, attributes) ∧
        e = {
          group := name
          unit := F.unitName name
          type := lead.typeName
          coalition := side
          deckClass := deckClass
          attributes := attributes
          deckOffset :=
            deckOffsetForType lead.typeName (s.setup.config (some name)) (some deckClass)
          targetWod := (s.setup.config (some name)).value "targetWodKt"
          backend := s.setup.backend name
          recoveryPhase := s.phase (F.footholdState name) name } := by
  unfold State.describeCarrier
  constructor
  · intro h
    obtain ⟨⟨group, lead⟩, hlead, h⟩ := Option.bind_eq_some_iff.mp h
    simp only at h
    split at h
    · cases h
    · rename_i deckClass attributes hclass
      exact ⟨group, lead, deckClass, attributes, hlead, hclass, (Option.some.inj h).symm⟩
  · rintro ⟨group, lead, deckClass, attributes, hlead, hclass, rfl⟩
    rw [hlead, Option.bind_some]
    simp only [hclass]

theorem State.listed?_group {side : Nat} {name : String} {e : CarrierEntry R}
    (h : s.listed? F side name = some e) : e.group = name := by
  obtain ⟨-, h⟩ := Option.ite_none_left_eq_some.mp h
  obtain ⟨_, _, _, _, -, -, rfl⟩ := State.describeCarrier_eq_some.mp h
  rfl

/-- **What is listed.** -/
theorem State.mem_listCarriers {e : CarrierEntry R} :
    e ∈ s.listCarriers F ↔
      ∃ side ∈ sides, e.group ∈ F.shipGroupsForSide side ∧ s.listed? F side e.group = some e := by
  rw [State.listCarriers, List.mem_mergeSort, List.mem_flatMap]
  constructor
  · rintro ⟨side, hside, he⟩
    obtain ⟨name, hname, hlisted⟩ := List.mem_filterMap.mp he
    obtain rfl := State.listed?_group hlisted
    exact ⟨side, hside, hname, hlisted⟩
  · rintro ⟨side, hside, hname, hlisted⟩
    exact ⟨side, hside, List.mem_filterMap.mpr ⟨_, hname, hlisted⟩⟩

omit [Field R] in
theorem CarrierEntry.le_trans (a b c : CarrierEntry R) (hab : a.le b = true)
    (hbc : b.le c = true) : a.le c = true := textLe_trans hab hbc

omit [Field R] in
theorem CarrierEntry.le_total (a b : CarrierEntry R) : (a.le b || b.le a) = true :=
  textLe_total _ _

theorem State.sorted_listCarriers (s : State R) (F : Fleet R) :
    (s.listCarriers F).Pairwise fun a b => a.le b :=
  List.pairwise_mergeSort CarrierEntry.le_trans CarrierEntry.le_total _

/-- The groups that one side lists are some of its groups, in order. -/
theorem State.listed?_sublist (s : State R) (F : Fleet R) (side : Nat) (names : List String) :
    ((names.filterMap (s.listed? F side)).map CarrierEntry.group).Sublist names := by
  induction names with
  | nil => exact List.Sublist.refl _
  | cons name names ih =>
    cases hlisted : s.listed? F side name with
    | none =>
      rw [List.filterMap_cons_none hlisted]
      exact ih.cons name
    | some e =>
      rw [List.filterMap_cons_some hlisted, List.map_cons, State.listed?_group hlisted]
      exact ih.cons_cons name

/-- Where every group belongs to one coalition, none is listed twice. -/
theorem State.nodup_listCarriers (hnames : (sides.flatMap F.shipGroupsForSide).Nodup) :
    ((s.listCarriers F).map CarrierEntry.group).Nodup := by
  have hperm := (List.mergeSort_perm (sides.flatMap fun side =>
    (F.shipGroupsForSide side).filterMap (s.listed? F side)) CarrierEntry.le).map
      CarrierEntry.group
  refine hperm.nodup_iff.mpr (List.Nodup.sublist ?_ hnames)
  rw [List.map_flatMap]
  exact List.Sublist.flatMap_right _ fun side _ => s.listed?_sublist F side _

end

/-! ## 3. The list and the reports -/

section Reports

variable {R : Type*} [Field R] [LinearOrder R] [FloorRing R] [LuaMath R] {s : State R} {F : Fleet R}

/-- An entry of the list and a report say the same of a ship. -/
structure CarrierEntry.Agrees (e : CarrierEntry R) (r : WindReport R) : Prop where
  group : r.carrierName = e.group
  type : r.typeName = e.type
  coalition : r.coalition = e.coalition
  deckClass : r.deckClass = some e.deckClass
  deckOffset : r.deckOffset = e.deckOffset
  targetWod : r.targetWod = e.targetWod
  backend : r.backend = e.backend
  recoveryPhase : r.recoveryPhase = e.recoveryPhase

omit [LinearOrder R] [FloorRing R] [LuaMath R] [Field R] in
theorem World.group_of_leadUnit {w : World R} {name : String} {group : ShipGroup R}
    {lead : ShipUnit R} (h : w.leadUnit name = some (group, lead)) : w.group name = some group := by
  obtain ⟨found, hfound, h⟩ := Option.bind_eq_some_iff.mp h
  obtain ⟨-, h⟩ := Option.ite_none_left_eq_some.mp h
  obtain ⟨unit, -, h⟩ := Option.bind_eq_some_iff.mp h
  obtain ⟨-, h⟩ := Option.ite_none_left_eq_some.mp h
  cases h
  exact hfound

/-- What a report says comes from the lead unit. -/
theorem State.windReport_lead {name : String} {footholdState : Option (Option String)}
    {r : WindReport R} (h : s.windReport F.world footholdState name = .ok r) :
    ∃ group lead, F.world.leadUnit name = some (group, lead) ∧ r.carrierName = name ∧
      r.typeName = lead.typeName ∧ r.coalition = group.coalition.getD 2 ∧
      r.deckClass = (classifyDeck lead.attributes lead.typeName).1 ∧
      r.deckOffset = deckOffsetForType lead.typeName (s.setup.config (some name)) r.deckClass ∧
      r.targetWod = (s.setup.config (some name)).value "targetWodKt" ∧
      r.backend = s.setup.backend name ∧ r.recoveryPhase = s.phase footholdState name := by
  unfold State.windReport at h
  split at h
  · cases h
  · rename_i data hdata
    cases h
    obtain ⟨⟨group, lead⟩, hlead, h⟩ := Option.bind_eq_some_iff.mp hdata
    obtain ⟨point, -, h⟩ := Option.bind_eq_some_iff.mp h
    obtain ⟨forward, -, h⟩ := Option.bind_eq_some_iff.mp h
    cases h
    exact ⟨group, lead, hlead, rfl, rfl, rfl, rfl, rfl, rfl, rfl, rfl⟩

/-- The entry and the report of one group. -/
theorem State.agrees_of_listed? {side : Nat} {name : String} {e : CarrierEntry R}
    {r : WindReport R} (hlisted : s.listed? F side name = some e)
    (hr : s.windReport F.world (F.footholdState name) name = .ok r)
    (hside : ∀ group, F.world.group name = some group → group.coalition.getD 2 = side) :
    e.Agrees r := by
  obtain ⟨group, lead, hlead, hgroup, htype, hcoalition, hclass, hoffset, htarget, hbackend,
    hphase⟩ := State.windReport_lead hr
  obtain ⟨-, hdescribe⟩ := Option.ite_none_left_eq_some.mp hlisted
  obtain ⟨group', lead', deckClass, attributes, hlead', hclass', rfl⟩ :=
    State.describeCarrier_eq_some.mp hdescribe
  obtain ⟨rfl, rfl⟩ : group' = group ∧ lead' = lead := by
    rw [hlead'] at hlead
    exact Prod.mk.inj (Option.some.inj hlead)
  have hdeck : r.deckClass = some deckClass := by rw [hclass, hclass']
  refine ⟨hgroup, htype, ?_, hdeck, ?_, htarget, hbackend, hphase⟩
  · exact hcoalition.trans (hside group' (World.group_of_leadUnit hlead'))
  · rw [hoffset, hdeck]

/-- A group with a report is listed just if the report has a deck class. -/
theorem State.isSome_listed? {name : String} {footholdState : Option (Option String)}
    {r : WindReport R} (hr : s.windReport F.world footholdState name = .ok r) (side : Nat) :
    (s.listed? F side name).isSome = true ↔ r.deckClass.isSome = true ∧ F.raises name = false := by
  obtain ⟨group, lead, hlead, -, -, -, hclass, -⟩ := State.windReport_lead hr
  unfold State.listed? State.describeCarrier
  rw [hlead, hclass, Option.bind_some]
  cases hraises : F.raises name with
  | true => simp
  | false =>
    simp only [Bool.false_eq_true, if_false]
    generalize classifyDeck lead.attributes lead.typeName = classified
    obtain ⟨found, attributes⟩ := classified
    cases found <;> simp

/-- **The list and the reports agree.**  The list is sorted by group and has every group once; each
entry says what the batched report of its group says; and of the ship groups that have a report,
those are listed whose report has a deck class, and that raised no error. -/
theorem listed_agrees (s : State R) (F : Fleet R)
    (hnames : (sides.flatMap F.shipGroupsForSide).Nodup)
    (hside : ∀ side name group, name ∈ F.shipGroupsForSide side →
      F.world.group name = some group → group.coalition.getD 2 = side) :
    (s.listCarriers F).Pairwise (fun a b => a.le b) ∧
    ((s.listCarriers F).map CarrierEntry.group).Nodup ∧
    (∀ e ∈ s.listCarriers F, ∀ names r,
      s.windReports F names e.group = some (.ok r) → e.Agrees r) ∧
    ∀ side ∈ sides, ∀ name ∈ F.shipGroupsForSide side, ∀ names r,
      s.windReports F names name = some (.ok r) →
        ((∃ e ∈ s.listCarriers F, e.group = name) ↔
          r.deckClass.isSome = true ∧ F.raises name = false) := by
  refine ⟨s.sorted_listCarriers F, State.nodup_listCarriers hnames, ?_, ?_⟩
  · intro e he names r hr
    obtain ⟨side, -, hname, hlisted⟩ := State.mem_listCarriers.mp he
    obtain ⟨-, hr⟩ := Option.ite_none_right_eq_some.mp hr
    exact State.agrees_of_listed? hlisted (Option.some.inj hr) fun group => hside side _ group hname
  · intro side hmem name hname names r hr
    obtain ⟨-, hr⟩ := Option.ite_none_right_eq_some.mp hr
    rw [← State.isSome_listed? (Option.some.inj hr) side]
    constructor
    · rintro ⟨e, he, rfl⟩
      obtain ⟨side', hmem', hname', hlisted⟩ := State.mem_listCarriers.mp he
      obtain ⟨group, lead, hlead, -⟩ := State.windReport_lead (Option.some.inj hr)
      have hgroup := World.group_of_leadUnit hlead
      obtain rfl : side' = side :=
        (hside side' _ group hname' hgroup).symm.trans (hside side _ group hname hgroup)
      rw [hlisted]
      rfl
    · intro hsome
      obtain ⟨e, hlisted⟩ := Option.isSome_iff_exists.mp hsome
      obtain rfl := State.listed?_group hlisted
      exact ⟨e, State.mem_listCarriers.mpr ⟨side, hmem, hname, hlisted⟩, rfl⟩

/-- A mission with a carrier on each side, another one that cannot be described, and an escort. -/
noncomputable def taskForce : Fleet ℝ where
  world := { calmSea 0 with
    group := fun name => some
      { isExist := true
        size := 1
        lead := some (if name = "Molniya" then { calmShip with attributes := [], typeName := "MOLNIYA" }
          else calmShip)
        coalition := some (if name = "Kuznetsov" then 1 else 2) } }
  shipGroups side :=
    if side = 1 then some ["Kuznetsov"]
    else if side = 2 then some ["CVN-72", "Molniya", "CVN-71"]
    else none
  unitName name := name
  raises name := name = "CVN-72"
  footholdState _ := none

/-- The carriers are listed, but for the one whose description raises; the escort is not. -/
theorem listed_agrees_taskForce :
    let listed := (State.injected bareMission).listCarriers taskForce
    (∃ e ∈ listed, e.group = "CVN-71") ∧ (∃ e ∈ listed, e.group = "Kuznetsov") ∧
      (¬ ∃ e ∈ listed, e.group = "CVN-72") ∧ (¬ ∃ e ∈ listed, e.group = "Molniya") ∧
      listed.Pairwise (fun a b => a.le b) ∧ (listed.map CarrierEntry.group).Nodup ∧
      ∃ r, (State.injected bareMission).windReports taskForce ["CVN-71"] "CVN-71" = some (.ok r) ∧
        ∀ e ∈ listed, e.group = "CVN-71" → e.Agrees r := by
  have hnames : (sides.flatMap taskForce.shipGroupsForSide).Nodup := by
    show (["Kuznetsov", "CVN-72", "Molniya", "CVN-71"] : List String).Nodup
    decide
  have hside : ∀ side name group, name ∈ taskForce.shipGroupsForSide side →
      taskForce.world.group name = some group → group.coalition.getD 2 = side := by
    intro side name group hname hgroup
    obtain rfl := Option.some.inj hgroup
    by_cases h1 : side = 1
    · subst h1
      obtain rfl : name = "Kuznetsov" := by
        simpa [Fleet.shipGroupsForSide, taskForce] using hname
      rfl
    · by_cases h2 : side = 2
      · subst h2
        have hother : name ≠ "Kuznetsov" := by
          rintro rfl
          simp [Fleet.shipGroupsForSide, taskForce] at hname
        simp [hother]
      · simp [Fleet.shipGroupsForSide, taskForce, h1, h2] at hname
  obtain ⟨hsorted, honce, hagrees, hlisted⟩ :=
    listed_agrees (State.injected bareMission) taskForce hnames hside
  have hblue (name : String) (hname : name ∈ taskForce.shipGroupsForSide 2) :=
    hlisted 2 (by decide) name hname
  refine ⟨?_, ?_, ?_, ?_, hsorted, honce, _, rfl, ?_⟩
  · exact (hblue "CVN-71" (by decide) ["CVN-71"] _ rfl).mpr ⟨rfl, rfl⟩
  · exact (hlisted 1 (by decide) "Kuznetsov" (by decide) ["Kuznetsov"] _ rfl).mpr ⟨rfl, rfl⟩
  · exact fun h => absurd ((hblue "CVN-72" (by decide) ["CVN-72"] _ rfl).mp h).2 (by decide)
  · exact fun h => absurd ((hblue "Molniya" (by decide) ["Molniya"] _ rfl).mp h).1 (by decide)
  · intro e he hgroup
    exact hagrees e he ["CVN-71"] _ (by rw [hgroup]; rfl)

end Reports

end DcsDashboard.Carrier
