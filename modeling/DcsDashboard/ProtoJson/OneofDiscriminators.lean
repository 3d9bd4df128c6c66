/-
# Discriminators of oneofs

`proto_json.rs` walks a message and its JSON in lock step (`inject_oneof_discriminators`): into the
object of each message it inserts, for each oneof of two members or more that is set, the name of
the member that is.  Walking down a message is by the values of its fields, walking down the JSON by
their names.

`annotated` is the JSON a message is to have; the two walks do not come apart, so that is what
the injection makes of the canonical JSON of the message, at any depth
(`injectOneofDiscriminators_annotates`).
-/
import DcsDashboard.ProtoJson.Messages

namespace DcsDashboard.ProtoJson

open Lib

section

variable {σ : Type} [DecidableEq σ] (pool : String → MessageDescriptor σ)

/-! ## 1. The injection -/

/-- The loop over the oneofs, for one of them. -/
def insertDiscriminator (msg : DynamicMessage σ) (map : List (String × Json))
    (oneof : OneofDescriptor σ) : List (String × Json) :=
  if oneof.fields.length ≤ 1 then map
  else match oneof.fields.find? msg.hasField with
    | some field => insertKey oneof.name (.str field.name) map
    | none => map

omit [DecidableEq σ] in
/-- What becomes of an item of a list. -/
def walkItem (walk : DynamicMessage σ → Json → Option Json) (element : Value σ) (item : Json) :
    Option Json :=
  match element.asMessage with
  | some elementMsg => walk elementMsg item
  | none => some item

omit [DecidableEq σ] in
/-- The loop over a list and its items; `none` when a call of it gives up. -/
def walkItems (walk : DynamicMessage σ → Json → Option Json) :
    List (Value σ) → List Json → Option (List Json)
  | element :: list, item :: items => do
    let item ← walkItem walk element item
    let items ← walkItems walk list items
    return item :: items
  | _, items => some items

omit [DecidableEq σ] in
/-- What becomes of the JSON of a field: that of a message, or of the messages of a list, is walked
through in its place. -/
def walkValue (walk : DynamicMessage σ → Json → Option Json) (value : Value σ) (child : Json) :
    Option Json :=
  match value, child with
  | .message descriptor fields, child => walk ⟨descriptor, fields⟩ child
  | .list list, .arr items => (walkItems walk list items).map .arr
  | _, child => some child

omit [DecidableEq σ] in
/-- The loop over the fields, for one of them. -/
def walkField (walk : DynamicMessage σ → Json → Option Json) (msg : DynamicMessage σ)
    (map : List (String × Json)) (field : FieldDescriptor σ) : Option (List (String × Json)) :=
  match map.lookup field.name with
  | none => some map
  | some child => (walkValue walk (msg.getField pool field) child).map fun child =>
      insertKey field.name child map

/-- `inject_oneof_discriminators`, with calls nested at most so deep; `none` when that is not
enough. -/
def injectOneofDiscriminators : Nat → DynamicMessage σ → Json → Option Json
  | 0, _, _ => none
  | depth + 1, msg, value =>
    if msg.isWellKnown then some value
    else match value with
      | .obj map =>
        (msg.descriptor.fields.foldlM (walkField pool (injectOneofDiscriminators depth) msg)
          (msg.descriptor.oneofs.foldl (insertDiscriminator msg) map)).map .obj
      | value => some value

/-! ## 2. What a message is to be written as -/

/-- The discriminators of a oneof of two members or more: one for every member that is set. -/
def DynamicMessage.discriminatorsOf (msg : DynamicMessage σ) (oneof : OneofDescriptor σ) :
    List (String × Json) :=
  if 2 ≤ oneof.fields.length then
    (oneof.fields.filter msg.hasField).map fun field => (oneof.name, .str field.name)
  else []

/-- The discriminators of a message. -/
def DynamicMessage.discriminators (msg : DynamicMessage σ) : List (String × Json) :=
  msg.descriptor.oneofs.flatMap msg.discriminatorsOf

/-- At most one member of each oneof is set. -/
def DynamicMessage.Exclusive (msg : DynamicMessage σ) : Prop :=
  ∀ oneof ∈ msg.descriptor.oneofs, (oneof.fields.filter msg.hasField).length ≤ 1

section

variable (extra : DynamicMessage σ → List (String × Json)) (leaf : Value σ → Json)

mutual

/-- A value whose messages are the objects of their fields and of some members more. -/
def written : Value σ → Json
  | .message descriptor fields =>
    .obj (ofMembers ((DynamicMessage.shown ⟨descriptor, fields⟩).map (fun field =>
        (field.name, ((writtenFields fields).lookup field.name).getD
          (leaf (field.defaultValue pool)))) ++ extra ⟨descriptor, fields⟩))
  | .list values => .arr (writtenItems values)
  | .scalar value => leaf (.scalar value)
  | .map entries => leaf (.map entries)

def writtenItems : List (Value σ) → List Json
  | [] => []
  | value :: values => written value :: writtenItems values

def writtenFields : List (String × Value σ) → List (String × Json)
  | [] => []
  | (name, value) :: fields => (name, written value) :: writtenFields fields

end

end

/-- **The JSON with discriminators**: the object of each message has them beside its fields. -/
def annotated (serialize : Value σ → Json) : Value σ → Json :=
  written pool DynamicMessage.discriminators serialize

/-- A message tree: none of its messages is of a well-known type, of each oneof at most one member
is set, and there are no lists of lists.  What is in map fields does not matter. -/
inductive Plain : Value σ → Prop
  | scalar (value : σ) : Plain (.scalar value)
  | map (entries : List (String × Value σ)) : Plain (.map entries)
  | list {values : List (Value σ)} : (∀ value ∈ values, value.asList = none) →
      (∀ value ∈ values, Plain value) → Plain (.list values)
  | message {msg : DynamicMessage σ} : msg.isWellKnown = false → msg.Exclusive →
      (∀ e ∈ msg.fields, Plain e.2) → Plain msg.toValue

/-! ## 3. What is written -/

variable {pool : String → MessageDescriptor σ} {serialize : Value σ → Json}
  {extra : DynamicMessage σ → List (String × Json)} {leaf : Value σ → Json}
  {msg : DynamicMessage σ}

theorem writtenItems_eq (values : List (Value σ)) :
    writtenItems pool extra leaf values = values.map (written pool extra leaf) := by
  induction values with
  | nil => rfl
  | cons value values ih => rw [writtenItems, ih, List.map_cons]

theorem lookup_writtenFields (fields : List (String × Value σ)) (name : String) :
    (writtenFields pool extra leaf fields).lookup name =
      (fields.lookup name).map (written pool extra leaf) := by
  induction fields with
  | nil => rfl
  | cons e fields ih =>
    obtain ⟨n, value⟩ := e
    rw [writtenFields, List.lookup_cons, List.lookup_cons, ih]
    split <;> rfl

/-- A shown field that is not set has no messages in its value. -/
theorem defaultValue_of_shown (pool : String → MessageDescriptor σ) {field : FieldDescriptor σ}
    (hshown : field ∈ msg.shown) (hunset : msg.fields.lookup field.name = none) :
    field.defaultValue pool = .list [] ∨ field.defaultValue pool = .map [] ∨
      ∃ value, field.defaultValue pool = .scalar value := by
  have hpresence : field.supportsPresence = false := by
    have h := (List.mem_filter.mp hshown).2
    simpa [DynamicMessage.hasField, hunset] using h
  obtain ⟨name, kind, cardinality, explicitPresence⟩ := field
  cases cardinality with
  | singular =>
    cases kind with
    | scalar default => exact .inr (.inr ⟨default, rfl⟩)
    | message typeName => simp [FieldDescriptor.supportsPresence] at hpresence
  | repeated => exact .inl rfl
  | map => exact .inr (.inl rfl)

/-- **The object of a message**: its fields as they are written, and the members more. -/
theorem written_message (hleaf : leaf (.list []) = .arr []) (msg : DynamicMessage σ) :
    written pool extra leaf msg.toValue =
      .obj (ofMembers (msg.shown.map (fun field =>
        (field.name, written pool extra leaf (msg.getField pool field))) ++ extra msg)) := by
  have hfields : msg.shown.map (fun field =>
      (field.name, ((writtenFields pool extra leaf msg.fields).lookup field.name).getD
        (leaf (field.defaultValue pool)))) =
      msg.shown.map fun field =>
        (field.name, written pool extra leaf (msg.getField pool field)) := by
    refine List.map_congr_left ?_
    intro field hfield
    rw [lookup_writtenFields, DynamicMessage.getField]
    cases hset : msg.fields.lookup field.name with
    | some value => rfl
    | none =>
      rcases defaultValue_of_shown pool hfield hset with hlist | hmap | ⟨value, hscalar⟩
      · rw [hlist, Option.map_none, Option.getD_none, Option.getD_none, hleaf, written,
          writtenItems]
      · rw [hmap]
        simp [written]
      · rw [hscalar]
        simp [written]
  rw [DynamicMessage.toValue, written]
  exact congrArg (fun members => Json.obj (ofMembers (members ++ extra msg))) hfields

/-- There is a canonical serialization, whatever scalars are written as. -/
theorem canonical_written (hleaf : leaf (.list []) = .arr []) :
    Canonical pool (written pool (fun _ => []) leaf) where
  message msg _ := by rw [written_message hleaf, List.append_nil]
  list values := by rw [written, writtenItems_eq]

/-! ## 4. The oneofs -/

theorem insertDiscriminator_eq {oneof : OneofDescriptor σ}
    (hexclusive : (oneof.fields.filter msg.hasField).length ≤ 1) (map : List (String × Json)) :
    insertDiscriminator msg map oneof =
      (msg.discriminatorsOf oneof).foldl (fun map e => insertKey e.1 e.2 map) map := by
  unfold insertDiscriminator DynamicMessage.discriminatorsOf
  by_cases hlength : 2 ≤ oneof.fields.length
  · rw [if_neg (by omega), if_pos hlength, ← List.head?_filter]
    cases hset : oneof.fields.filter msg.hasField with
    | nil => rfl
    | cons field rest =>
      rw [hset, List.length_cons] at hexclusive
      obtain rfl : rest = [] := List.length_eq_zero_iff.mp (by omega)
      rfl
  · rw [if_pos (by omega), if_neg hlength]
    rfl

/-- **The loop over the oneofs** inserts the discriminators. -/
theorem foldl_insertDiscriminator (hexclusive : msg.Exclusive) (members : List (String × Json)) :
    msg.descriptor.oneofs.foldl (insertDiscriminator msg) (ofMembers members) =
      ofMembers (members ++ msg.discriminators) := by
  have hloop : msg.descriptor.oneofs.foldl (insertDiscriminator msg) (ofMembers members) =
      msg.discriminators.foldl (fun map e => insertKey e.1 e.2 map) (ofMembers members) := by
    rw [DynamicMessage.discriminators, List.foldl_flatMap]
    refine List.foldl_ext _ _ _ ?_
    intro map oneof honeof
    exact insertDiscriminator_eq (hexclusive oneof honeof) map
  rw [hloop, ofMembers, ofMembers, List.foldl_append]

/-- The discriminators stand under names of oneofs, each at most once. -/
theorem discriminators_sublist (hexclusive : msg.Exclusive) :
    (msg.discriminators.map Prod.fst).Sublist (msg.descriptor.oneofs.map OneofDescriptor.name) := by
  have hone : ∀ oneof ∈ msg.descriptor.oneofs,
      ((msg.discriminatorsOf oneof).map Prod.fst).Sublist [oneof.name] := by
    intro oneof honeof
    have hlength := hexclusive oneof honeof
    unfold DynamicMessage.discriminatorsOf
    split
    · cases hset : oneof.fields.filter msg.hasField with
      | nil => exact List.nil_sublist _
      | cons field rest =>
        rw [hset, List.length_cons] at hlength
        obtain rfl : rest = [] := List.length_eq_zero_iff.mp (by omega)
        exact List.Sublist.refl _
    · exact List.nil_sublist _
  have hall : ∀ oneofs : List (OneofDescriptor σ),
      (∀ oneof ∈ oneofs, ((msg.discriminatorsOf oneof).map Prod.fst).Sublist [oneof.name]) →
      ((oneofs.flatMap msg.discriminatorsOf).map Prod.fst).Sublist
        (oneofs.map OneofDescriptor.name) := by
    intro oneofs h
    induction oneofs with
    | nil => exact List.nil_sublist _
    | cons oneof oneofs ih =>
      rw [List.flatMap_cons, List.map_append, List.map_cons]
      exact (h oneof (by simp)).append (ih fun o ho => h o (List.mem_cons_of_mem _ ho))
  exact hall _ hone

/-- **A discriminator has a name of its own.** -/
theorem names_nodup (hexclusive : msg.Exclusive) :
    (msg.descriptor.fields.map FieldDescriptor.name ++ msg.discriminators.map Prod.fst).Nodup :=
  ((List.Sublist.refl _).append (discriminators_sublist hexclusive)).nodup msg.descriptor.names_nodup

theorem mem_discriminators {e : String × Json} :
    e ∈ msg.discriminators ↔ ∃ oneof ∈ msg.descriptor.oneofs, 2 ≤ oneof.fields.length ∧
      ∃ field ∈ oneof.fields, msg.hasField field = true ∧ (oneof.name, .str field.name) = e := by
  rw [DynamicMessage.discriminators, List.mem_flatMap]
  refine exists_congr ?_
  intro oneof
  unfold DynamicMessage.discriminatorsOf
  by_cases hlength : 2 ≤ oneof.fields.length
  · simp [hlength, and_assoc]
  · simp [hlength]

/-- **The members of the object**: the fields, and one for each oneof that is set. -/
theorem exists_annotated (hserialize : Canonical pool serialize) (hexclusive : msg.Exclusive) :
    ∃ map, annotated pool serialize msg.toValue = .obj map ∧ KeyOrdered map ∧
      ∀ e, e ∈ map ↔
        (∃ field ∈ msg.shown,
          (field.name, annotated pool serialize (msg.getField pool field)) = e) ∨
        ∃ oneof ∈ msg.descriptor.oneofs, 2 ≤ oneof.fields.length ∧
          ∃ field ∈ oneof.fields, msg.hasField field = true ∧
            (oneof.name, .str field.name) = e := by
  refine ⟨_, written_message (hserialize.list []) msg, keyOrdered_ofMembers _, ?_⟩
  intro e
  have hnodup : ((msg.shown.map (fun field =>
      (field.name, annotated pool serialize (msg.getField pool field))) ++
        msg.discriminators).map Prod.fst).Nodup := by
    refine List.Sublist.nodup ?_ (names_nodup hexclusive)
    rw [List.map_append, List.map_map]
    exact (List.filter_sublist.map _).append (List.Sublist.refl _)
  rw [← mem_discriminators, ← List.mem_map, ← List.mem_append]
  exact mem_ofMembers hnodup

/-! ## 5. The fields -/

/-- The members of the fields that are shown. -/
def DynamicMessage.membersOf (msg : DynamicMessage σ) (write : FieldDescriptor σ → Json)
    (fields : List (FieldDescriptor σ)) : List (String × Json) :=
  (fields.filter fun field => !field.supportsPresence || msg.hasField field).map fun field =>
    (field.name, write field)

section

variable {field : FieldDescriptor σ} {fields : List (FieldDescriptor σ)}

theorem membersOf_cons_of_shown (write : FieldDescriptor σ → Json)
    (hshown : (!field.supportsPresence || msg.hasField field) = true) :
    msg.membersOf write (field :: fields) = (field.name, write field) :: msg.membersOf write fields := by
  rw [DynamicMessage.membersOf, List.filter_cons, if_pos hshown]
  rfl

theorem membersOf_cons_of_not_shown (write : FieldDescriptor σ → Json)
    (hshown : ¬(!field.supportsPresence || msg.hasField field) = true) :
    msg.membersOf write (field :: fields) = msg.membersOf write fields := by
  rw [DynamicMessage.membersOf, List.filter_cons, if_neg hshown]
  rfl

/-- The members have names of fields. -/
theorem membersOf_sublist (write : FieldDescriptor σ → Json) (fields : List (FieldDescriptor σ)) :
    ((msg.membersOf write fields).map Prod.fst).Sublist (fields.map FieldDescriptor.name) := by
  rw [DynamicMessage.membersOf, List.map_map]
  exact List.filter_sublist.map _

variable {walk : DynamicMessage σ → Json → Option Json} {done rest : List (String × Json)}
  {child child' : Json}

omit [DecidableEq σ] in
/-- A member is walked through in its place. -/
theorem walkField_at
    (hnodup : ((done ++ (field.name, child) :: rest).map Prod.fst).Nodup)
    (hwalk : walkValue walk (msg.getField pool field) child = some child') :
    walkField pool walk msg (ofMembers (done ++ (field.name, child) :: rest)) field =
      some (ofMembers (done ++ (field.name, child') :: rest)) := by
  rw [walkField, lookup_ofMembers_at hnodup]
  simp only [hwalk, Option.map_some, insertKey_ofMembers hnodup]

omit [DecidableEq σ] in
/-- A field that is not shown changes nothing. -/
theorem walkField_of_notMem (hnodup : (done.map Prod.fst).Nodup)
    (hfield : field.name ∉ done.map Prod.fst) :
    walkField pool walk msg (ofMembers done) field = some (ofMembers done) := by
  rw [walkField, lookup_ofMembers_eq_none hnodup hfield]

/-- **The loop over the fields** walks through each member in its place. -/
theorem foldlM_walkField {before after : FieldDescriptor σ → Json}
    (hwalk : ∀ field ∈ fields, (!field.supportsPresence || msg.hasField field) = true →
      walkValue walk (msg.getField pool field) (before field) = some (after field))
    (done rest : List (String × Json))
    (hnodup : (done.map Prod.fst ++ (fields.map FieldDescriptor.name ++
      rest.map Prod.fst)).Nodup) :
    fields.foldlM (walkField pool walk msg)
        (ofMembers (done ++ (msg.membersOf before fields ++ rest))) =
      some (ofMembers (done ++ (msg.membersOf after fields ++ rest))) := by
  induction fields generalizing done with
  | nil => rfl
  | cons field fields ih =>
    -- the keys, whether the field is among them or not
    have hkeys : ((done ++ (field.name, before field) ::
        (msg.membersOf before fields ++ rest)).map Prod.fst).Nodup := by
      refine List.Sublist.nodup ?_ hnodup
      simp only [List.map_append, List.map_cons, List.cons_append]
      exact (List.Sublist.refl _).append
        (((membersOf_sublist before fields).append (List.Sublist.refl _)).cons_cons _)
    have hrest := fun f hf => hwalk f (List.mem_cons_of_mem field hf)
    by_cases hshown : (!field.supportsPresence || msg.hasField field) = true
    · have hnext := ih hrest (done ++ [(field.name, after field)]) (by simpa using hnodup)
      rw [membersOf_cons_of_shown _ hshown, membersOf_cons_of_shown _ hshown, List.foldlM_cons,
        List.cons_append, walkField_at hkeys (hwalk field List.mem_cons_self hshown)]
      simpa using hnext
    · rw [List.map_append, List.map_cons] at hkeys
      obtain ⟨hfresh, hothers⟩ := List.nodup_cons.mp (List.nodup_middle.mp hkeys)
      rw [← List.map_append] at hfresh hothers
      rw [membersOf_cons_of_not_shown _ hshown, membersOf_cons_of_not_shown _ hshown,
        List.foldlM_cons, walkField_of_notMem hothers hfresh]
      refine ih hrest done (List.Sublist.nodup ?_ hnodup)
      exact (List.Sublist.refl _).append (List.sublist_cons_self _ _)

end

/-! ## 6. The whole tree -/

omit [DecidableEq σ] in
/-- An item of a list is walked through as the value of a field. -/
theorem walkItems_map {walk : DynamicMessage σ → Json → Option Json} {before after : Value σ → Json}
    {values : List (Value σ)} (hflat : ∀ value ∈ values, value.asList = none)
    (hwalk : ∀ value ∈ values, walkValue walk value (before value) = some (after value)) :
    walkItems walk values (values.map before) = some (values.map after) := by
  induction values with
  | nil => rfl
  | cons value values ih =>
    have hvalue := hwalk value List.mem_cons_self
    have hnotList := hflat value List.mem_cons_self
    have hitem : walkItem walk value (before value) = some (after value) := by
      cases value with
      | message descriptor fields => exact hvalue
      | list values => cases hnotList
      | scalar value => exact hvalue
      | map entries => exact hvalue
    have hrest := ih (fun v hv => hflat v (List.mem_cons_of_mem _ hv))
      fun v hv => hwalk v (List.mem_cons_of_mem _ hv)
    simp only [List.map_cons, walkItems, hitem, hrest]
    rfl

/-- One depth for all items of a list. -/
theorem exists_depth {α : Type*} {P : α → Nat → Prop} {l : List α}
    (h : ∀ x ∈ l, ∃ n, ∀ depth ≥ n, P x depth) : ∃ n, ∀ depth ≥ n, ∀ x ∈ l, P x depth := by
  induction l with
  | nil => exact ⟨0, by simp⟩
  | cons x l ih =>
    obtain ⟨n, hn⟩ := h x List.mem_cons_self
    obtain ⟨m, hm⟩ := ih fun y hy => h y (List.mem_cons_of_mem _ hy)
    refine ⟨max n m, ?_⟩
    intro depth hdepth y hy
    rcases List.mem_cons.mp hy with rfl | hy
    · exact hn depth (le_of_max_le_left hdepth)
    · exact hm depth (le_of_max_le_right hdepth) y hy

/-- **One message**, when its fields are walked through. -/
theorem inject_message (hserialize : Canonical pool serialize) (hown : msg.isWellKnown = false)
    (hexclusive : msg.Exclusive) {depth : Nat}
    (hfields : ∀ field ∈ msg.shown,
      walkValue (injectOneofDiscriminators pool depth) (msg.getField pool field)
        (serialize (msg.getField pool field)) =
      some (annotated pool serialize (msg.getField pool field))) :
    injectOneofDiscriminators pool (depth + 1) msg (serialize msg.toValue) =
      some (annotated pool serialize msg.toValue) := by
  have hloop := foldlM_walkField
    (fun field hfield hshown => hfields field (List.mem_filter.mpr ⟨hfield, hshown⟩))
    [] msg.discriminators (by simpa using names_nodup hexclusive)
  have hdiscriminators := foldl_insertDiscriminator hexclusive
    (msg.shown.map fun field => (field.name, serialize (msg.getField pool field)))
  rw [hserialize.message msg hown, annotated, written_message (hserialize.list []),
    injectOneofDiscriminators, if_neg (by simp [hown]), hdiscriminators]
  exact congrArg (Option.map Json.obj) hloop

/-- **Any value of a message tree.** -/
theorem Plain.walkValue (hserialize : Canonical pool serialize) {value : Value σ}
    (h : Plain value) : ∃ n, ∀ depth ≥ n,
      walkValue (injectOneofDiscriminators pool depth) value (serialize value) =
        some (annotated pool serialize value) := by
  induction h with
  | scalar value => exact ⟨0, fun _ _ => rfl⟩
  | map entries => exact ⟨0, fun _ _ => rfl⟩
  | @list values hflat _ ih =>
    obtain ⟨n, hn⟩ := exists_depth ih
    refine ⟨n, ?_⟩
    intro depth hdepth
    rw [hserialize.list, ProtoJson.walkValue, walkItems_map hflat (hn depth hdepth), annotated,
      written, writtenItems_eq]
    rfl
  | @message msg hown hexclusive _ ih =>
    have hset : ∀ field ∈ msg.shown, ∃ n, ∀ depth ≥ n,
        ProtoJson.walkValue (injectOneofDiscriminators pool depth) (msg.getField pool field)
          (serialize (msg.getField pool field)) =
        some (annotated pool serialize (msg.getField pool field)) := by
      intro field hfield
      rw [DynamicMessage.getField]
      cases hvalue : msg.fields.lookup field.name with
      | some value => exact ih _ (mem_of_lookup hvalue)
      | none =>
        refine ⟨0, ?_⟩
        intro depth _
        rcases defaultValue_of_shown pool hfield hvalue with hlist | hmap | ⟨value, hscalar⟩
        · rw [Option.getD_none, hlist, hserialize.list]
          rfl
        · rw [Option.getD_none, hmap]
          rfl
        · rw [Option.getD_none, hscalar]
          rfl
    obtain ⟨n, hn⟩ := exists_depth hset
    refine ⟨n + 1, ?_⟩
    intro depth hdepth
    obtain ⟨depth, rfl⟩ := Nat.exists_eq_add_of_le' (Nat.one_le_of_lt hdepth)
    exact inject_message hserialize hown hexclusive (hn depth (by omega))

/-- **The injection adds the discriminators.**  However deep the message is, calls nested deep enough
make of its canonical JSON the JSON with discriminators: the object of a message has its fields and,
for each oneof of two members or more that is set, one member more, which says the field that is
set; arrays are taken item by item, and everything else is as it was. -/
theorem injectOneofDiscriminators_annotates (hserialize : Canonical pool serialize)
    (hplain : Plain msg.toValue) :
    (∃ n, ∀ depth ≥ n, injectOneofDiscriminators pool depth msg (serialize msg.toValue) =
      some (annotated pool serialize msg.toValue)) ∧
    (∀ inner : DynamicMessage σ, inner.Exclusive →
      ∃ map, annotated pool serialize inner.toValue = .obj map ∧ KeyOrdered map ∧
        ∀ e, e ∈ map ↔
          (∃ field ∈ inner.shown,
            (field.name, annotated pool serialize (inner.getField pool field)) = e) ∨
          ∃ oneof ∈ inner.descriptor.oneofs, 2 ≤ oneof.fields.length ∧
            ∃ field ∈ oneof.fields, inner.hasField field = true ∧
              (oneof.name, .str field.name) = e) ∧
    (∀ values, annotated pool serialize (.list values) =
      .arr (values.map (annotated pool serialize))) ∧
    (∀ value, annotated pool serialize (.scalar value) = serialize (.scalar value)) ∧
    ∀ entries, annotated pool serialize (.map entries) = serialize (.map entries) := by
  refine ⟨hplain.walkValue hserialize, ?_, ?_, ?_, ?_⟩
  · intro inner hexclusive
    exact exists_annotated hserialize hexclusive
  · intro values
    rw [annotated, written, writtenItems_eq]
  · intro value
    rw [annotated, written]
  · intro entries
    rw [annotated, written]

end

/-! ## 7. Detected targets

`GetDetectedTargetsResponse`: a repeated field of messages, each with the oneof `target`. -/

/-- The scalars of its messages. -/
inductive Scalar
  | uint32 (n : ℕ)
  | bool (b : Bool)
  | string (s : String)
  deriving DecidableEq

/-- What a scalar is written as; a repeated field that is not set is an empty array. -/
def leafJson : Value Scalar → Json
  | .scalar (.uint32 n) => .num n
  | .scalar (.bool b) => .bool b
  | .scalar (.string s) => .str s
  | .list _ => .arr []
  | _ => .obj []

/-- A field of a message type. -/
def messageField (name typeName : String) (cardinality : Cardinality) : FieldDescriptor Scalar :=
  ⟨name, .message typeName, cardinality, cardinality matches .singular⟩

/-- A scalar field. -/
def scalarField (name : String) (default : Scalar) : FieldDescriptor Scalar :=
  ⟨name, .scalar default, .singular, false⟩

def unknownDescriptor : MessageDescriptor Scalar :=
  ⟨"dcs.common.v0.Unknown", [scalarField "name" (.string "")], [], by decide⟩

/-- The members of the oneof `target`. -/
def targetFields : List (FieldDescriptor Scalar) :=
  [messageField "object" "dcs.common.v0.Unknown" .singular,
    messageField "unit" "dcs.common.v0.Unit" .singular,
    messageField "weapon" "dcs.common.v0.Weapon" .singular]

def contactDescriptor : MessageDescriptor Scalar :=
  ⟨"dcs.common.v0.Contact",
    [scalarField "id" (.uint32 0), scalarField "visible" (.bool false),
      scalarField "distance" (.bool false)] ++ targetFields, [⟨"target", targetFields⟩], by decide⟩

def detectedTargetsDescriptor : MessageDescriptor Scalar :=
  ⟨"dcs.controller.v0.GetDetectedTargetsResponse",
    [messageField "contacts" "dcs.common.v0.Contact" .repeated], [], by decide⟩

/-- A contact that is not known better. -/
def unknownContact (id : ℕ) (name : String) : Value Scalar :=
  .message contactDescriptor [("id", .scalar (.uint32 id)), ("visible", .scalar (.bool true)),
    ("object", .message unknownDescriptor [("name", .scalar (.string name))])]

def detectedTargets : DynamicMessage Scalar :=
  ⟨detectedTargetsDescriptor, [("contacts", .list [unknownContact 7 "Mig", unknownContact 8 "SAM"])]⟩

/-- The types the messages below are of. -/
def targetsPool (typeName : String) : MessageDescriptor Scalar :=
  if typeName = "dcs.common.v0.Contact" then contactDescriptor else unknownDescriptor

theorem plain_unknownContact (id : ℕ) (name : String) : Plain (unknownContact id name) := by
  have hunknown : Plain (.message unknownDescriptor [("name", .scalar (.string name))]) := by
    refine @Plain.message _ _ ⟨unknownDescriptor, _⟩
      (by simp [DynamicMessage.isWellKnown, unknownDescriptor, List.isPrefixOf]) ?_ ?_
    · intro oneof honeof
      cases honeof
    · simpa using Plain.scalar _
  refine @Plain.message _ _ ⟨contactDescriptor, _⟩
    (by simp [DynamicMessage.isWellKnown, contactDescriptor, List.isPrefixOf]) ?_ ?_
  · intro oneof honeof
    obtain rfl := List.mem_singleton.mp honeof
    exact Nat.le_refl 1
  · simp only [List.forall_mem_cons]
    exact ⟨.scalar _, .scalar _, hunknown, by simp⟩

theorem plain_detectedTargets : Plain detectedTargets.toValue := by
  refine .message rfl ?_ ?_
  · intro oneof honeof
    cases honeof
  · have hlist : Plain (.list [unknownContact 7 "Mig", unknownContact 8 "SAM"]) := by
      refine .list ?_ ?_
      · simp [unknownContact, Value.asList]
      · simp [plain_unknownContact]
    simpa [detectedTargets] using hlist

theorem injectOneofDiscriminators_annotates_contacts :
    ∃ n, ∀ depth ≥ n,
      injectOneofDiscriminators targetsPool depth detectedTargets
          (written targetsPool (fun _ => []) leafJson detectedTargets.toValue) =
        some (.obj [("contacts", .arr [
          .obj [("distance", .bool false), ("id", .num 7), ("object", .obj [("name", .str "Mig")]),
            ("target", .str "object"), ("visible", .bool true)],
          .obj [("distance", .bool false), ("id", .num 8), ("object", .obj [("name", .str "SAM")]),
            ("target", .str "object"), ("visible", .bool true)]])]) :=
  (injectOneofDiscriminators_annotates (canonical_written rfl) plain_detectedTargets).1

end DcsDashboard.ProtoJson
