/-
# NovaRuntime.Object.Registry — schemas and their evolution

`nova_object::registry`: `evolve` applies a list of changes to a copy of the registered schema,
each with a check of its own, compares the copy with the original, and registers it. The steps
find a field by the first of its name, and so does the comparison. A release build's `version + 1`
wraps. The registry is the map behind the lock that `evolve` holds throughout; `{:?}` of a type
comes from outside.
-/
import NovaRuntime.Object.Document
import NovaRuntime.Object.Schema

namespace NovaRuntime.Object

open NovaRuntime.Library

set_option autoImplicit false

/-! ## Widening -/

def isTypeWidening (old new : NovaType) : Bool :=
  old.eq new ||
  match old, new with
  | .int8, .int16 | .int8, .int32 | .int8, .int64 | .int16, .int32 | .int16, .int64 | .int32, .int64
  | .uint8, .uint16 | .uint8, .uint32 | .uint8, .uint64 | .uint16, .uint32 | .uint16, .uint64
  | .uint32, .uint64 | .float32, .float64 => true
  | .string a, .string b | .binary a, .binary b =>
    match a, b with
    | some aLen, some bLen => aLen ≤ bLen
    | none, _ => true
    | some _, none => true
  | .optional oldInner, .optional newInner => isTypeWidening oldInner newInner
  | oldInner, .optional newInner => isTypeWidening oldInner newInner
  | _, _ => false
termination_by structural new

/-! ## The steps -/

/-- `fields.iter_mut().find(..)` and what is done with the field; without one there is an error. -/
def updateField (name : Text) (change : FieldDef → Except ArgumentError FieldDef) :
    List FieldDef → Except ArgumentError (List FieldDef)
  | [] => .error (.notFound ("field '".toList ++ name ++ "' not found in schema".toList))
  | f :: fields =>
    if f.name = name then (change f).map fun f => f :: fields
    else (updateField name change fields).map fun fields => f :: fields

/-- What `WidenField` does with the field it found. -/
def widen (name : Text) (newType : NovaType) (f : FieldDef) : Except ArgumentError FieldDef :=
  if isTypeWidening f.fieldType newType then .ok { f with fieldType := newType }
  else .error (.invalidArgument ("cannot narrow type for field '".toList ++ name ++ "'".toList))

def applySchemaChange (schema : CollectionSchema) : SchemaChangeOp → Except ArgumentError CollectionSchema
  | .addField field _ =>
    if schema.fields.any fun f => f.name == field.name then
      .error (.invalidArgument ("field '".toList ++ field.name ++ "' already exists in schema".toList))
    else .ok { schema with fields := schema.fields ++ [field] }
  | .makeOptional field _ =>
    (updateField field (fun f => .ok { f with required := false }) schema.fields).map
      fun fields => { schema with fields }
  | .widenField field newType _ =>
    (updateField field (widen field newType) schema.fields).map fun fields => { schema with fields }
  | .addIndex index _ =>
    if schema.indexes.any fun i => i.name == index.name then
      .error (.alreadyExists ("index '".toList ++ index.name ++ "' already exists".toList))
    else .ok { schema with indexes := schema.indexes ++ [index] }
  | .addDefault field default _ =>
    if schema.fields.any fun f => f.name == field then
      .ok { schema with defaults := insertEntry field default schema.defaults }
    else .error (.notFound ("field '".toList ++ field ++ "' not found in schema".toList))
  | .deprecateField .. => .ok schema
  | .addEnumValue .. => .ok schema

/-- The loop over the changes. -/
def applyChanges : CollectionSchema → List SchemaChangeOp → Except ArgumentError CollectionSchema
  | schema, [] => .ok schema
  | schema, op :: changes =>
    match applySchemaChange schema op with
    | .ok schema => applyChanges schema changes
    | .error e => .error e

/-! ## The comparison -/

section Evolution

variable (debug : NovaType → Text)

/-- A field of the new schema against the one of its name in the old. -/
def checkField (oldField newField : FieldDef) : Except ArgumentError Unit :=
  if oldField.required && !newField.required then
    .error (.invalidArgument ("field '".toList ++ newField.name ++
      "': cannot change from required to optional without using MakeOptional".toList))
  else if !isTypeWidening oldField.fieldType newField.fieldType then
    .error (.invalidArgument ("field '".toList ++ newField.name ++ "': type narrowing not allowed (was ".toList ++
      debug oldField.fieldType ++ ", would become ".toList ++ debug newField.fieldType ++ ")".toList))
  else .ok ()

/-- The loop over the new fields. -/
def checkNewFields (old : List FieldDef) : List FieldDef → Except ArgumentError Unit
  | [] => .ok ()
  | newField :: fields =>
    match old.find? fun f => f.name == newField.name with
    | none => checkNewFields old fields
    | some oldField =>
      match checkField debug oldField newField with
      | .ok () => checkNewFields old fields
      | .error e => .error e

/-- The loop over the old fields. -/
def checkOldFields (new : List FieldDef) : List FieldDef → Except ArgumentError Unit
  | [] => .ok ()
  | oldField :: fields =>
    if new.any fun f => f.name == oldField.name then checkOldFields new fields
    else .error (.invalidArgument
      ("field '".toList ++ oldField.name ++ "': removal of fields is not allowed".toList))

def checkCompatibilityInternal (old new : CollectionSchema) : Except ArgumentError Unit :=
  match checkNewFields debug old.fields new.fields with
  | .ok () => checkOldFields new.fields old.fields
  | .error e => .error e

/-! ## The registry -/

abbrev SchemaRegistry := List (Text × CollectionSchema)

/-- The copy that the changes are applied to. -/
def CollectionSchema.next (old : CollectionSchema) (now : UInt64) : CollectionSchema :=
  { old with version := old.version + 1, updatedAt := now }

/-- `now` is the clock when the copy is made, `timestamp` when it is done. -/
def evolve (now timestamp : UInt64) (collection : Text) (changes : List SchemaChangeOp) (description author : Text) :
    Exec ArgumentError SchemaRegistry CollectionSchema := fun schemas =>
  match schemas.lookup collection with
  | none => (.err (.notFound ("schema for collection '".toList ++ collection ++ "' not found".toList)), schemas)
  | some old =>
    match applyChanges (old.next now) changes with
    | .error e => (.err e, schemas)
    | .ok newSchema =>
      match checkCompatibilityInternal debug old newSchema with
      | .error e => (.err e, schemas)
      | .ok () =>
        let schemaChange := { version := newSchema.version, timestamp, changes, description, author }
        let newSchema := { newSchema with changelog := newSchema.changelog ++ [schemaChange] }
        (.ok newSchema, insertEntry collection newSchema schemas)

end Evolution

end NovaRuntime.Object
