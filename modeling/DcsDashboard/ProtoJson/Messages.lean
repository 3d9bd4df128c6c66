/-
# Messages and their JSON

What `proto_json.rs` sees of a message through `prost-reflect`: its descriptor, which of its fields
are set, and their values.  A message is the tree of its set fields; a field that is not set has its
default value.

How a message is serialized is a parameter.  `Canonical` says what of it matters: a message is the
object of its fields under their names in the protobuf file, a repeated field is an array.  What a
scalar or a map field is written as does not matter.
-/
import DcsDashboard.Lib.Json
import DcsDashboard.Lib.KeyOrder
import Mathlib.Data.String.Basic

namespace DcsDashboard.ProtoJson

open Lib

/-! ## 1. Descriptors -/

/-- What a field holds: a scalar with its default, or a message of a type. -/
inductive Kind (σ : Type)
  | scalar (default : σ)
  | message (typeName : String)

inductive Cardinality
  | singular
  | repeated
  | map

/-- `FieldDescriptor`.  `explicitPresence` is that of an `optional` field and of a member of a
oneof. -/
structure FieldDescriptor (σ : Type) where
  name : String
  kind : Kind σ
  cardinality : Cardinality
  explicitPresence : Bool

/-- `supports_presence`. -/
def FieldDescriptor.supportsPresence {σ : Type} (field : FieldDescriptor σ) : Bool :=
  match field.cardinality, field.kind with
  | .singular, .message _ => true
  | .singular, .scalar _ => field.explicitPresence
  | _, _ => false

/-- `OneofDescriptor`. -/
structure OneofDescriptor (σ : Type) where
  name : String
  fields : List (FieldDescriptor σ)

/-- `MessageDescriptor`.  The fields and the oneofs of a message share one name space. -/
structure MessageDescriptor (σ : Type) where
  fullName : String
  fields : List (FieldDescriptor σ)
  oneofs : List (OneofDescriptor σ)
  names_nodup : (fields.map FieldDescriptor.name ++ oneofs.map OneofDescriptor.name).Nodup

/-! ## 2. Messages -/

/-- `Value`; the key of a map is given by its text. -/
inductive Value (σ : Type)
  | scalar (value : σ)
  | message (descriptor : MessageDescriptor σ) (fields : List (String × Value σ))
  | list (values : List (Value σ))
  | map (entries : List (String × Value σ))

/-- `DynamicMessage`: its descriptor and the fields that are set. -/
structure DynamicMessage (σ : Type) where
  descriptor : MessageDescriptor σ
  fields : List (String × Value σ)

/-- A message as a value. -/
def DynamicMessage.toValue {σ : Type} (msg : DynamicMessage σ) : Value σ :=
  .message msg.descriptor msg.fields

namespace Value

variable {σ : Type}

/-- `as_message`. -/
def asMessage : Value σ → Option (DynamicMessage σ)
  | message descriptor fields => some ⟨descriptor, fields⟩
  | _ => none

/-- `as_list`. -/
def asList : Value σ → Option (List (Value σ))
  | list values => some values
  | _ => none

/-- The value is the default one of the field. -/
def isDefault [DecidableEq σ] (field : FieldDescriptor σ) : Value σ → Bool
  | scalar value =>
    match field.kind with
    | .scalar default => value = default
    | .message _ => false
  | message _ _ => false
  | list values => values.isEmpty
  | map entries => entries.isEmpty

end Value

section

variable {σ : Type}

/-- The value of a field that is not set.  The descriptor of a message type is that of the pool. -/
def FieldDescriptor.defaultValue (pool : String → MessageDescriptor σ)
    (field : FieldDescriptor σ) : Value σ :=
  match field.cardinality, field.kind with
  | .repeated, _ => .list []
  | .map, _ => .map []
  | .singular, .scalar default => .scalar default
  | .singular, .message typeName => .message (pool typeName) []

/-- `get_field`. -/
def DynamicMessage.getField (pool : String → MessageDescriptor σ) (msg : DynamicMessage σ)
    (field : FieldDescriptor σ) : Value σ :=
  (msg.fields.lookup field.name).getD (field.defaultValue pool)

variable [DecidableEq σ]

/-- `has_field`. -/
def DynamicMessage.hasField (msg : DynamicMessage σ) (field : FieldDescriptor σ) : Bool :=
  match msg.fields.lookup field.name with
  | some value => field.supportsPresence || !value.isDefault field
  | none => false

/-- The message is of one of the well-known types. -/
def DynamicMessage.isWellKnown (msg : DynamicMessage σ) : Bool :=
  "google.protobuf.".toList.isPrefixOf msg.descriptor.fullName.toList

/-- The fields that are serialized when default values are not skipped: all but those that could be
set and are not. -/
def DynamicMessage.shown (msg : DynamicMessage σ) : List (FieldDescriptor σ) :=
  msg.descriptor.fields.filter fun field => !field.supportsPresence || msg.hasField field

/-! ## 3. Serialization -/

/-- Canonical JSON with the field names of the protobuf file.  What a well-known type is serialized
to is left open. -/
structure Canonical (pool : String → MessageDescriptor σ) (serialize : Value σ → Json) : Prop where
  message : ∀ msg : DynamicMessage σ, msg.isWellKnown = false → serialize msg.toValue =
    .obj (ofMembers (msg.shown.map fun field =>
      (field.name, serialize (msg.getField pool field))))
  list : ∀ values, serialize (.list values) = .arr (values.map serialize)

end

end DcsDashboard.ProtoJson
