/-
# NovaRuntime.Object.Schema — types of values, fields and schemas

`NovaType` of `nova_object::types` and the data of `nova_object::schema`: a type of objects
declares fields, a field has a type, and a computed field two. The derived equality compares
the defaults and the bounds of rules in it as values, so a type with a NaN in a default does
not equal itself; `NovaType.transAt` says that equality is transitive.
-/
import NovaRuntime.Object.Equality

namespace NovaRuntime.Object

open NovaRuntime.Library

set_option autoImplicit false

inductive SortOrder where
  | ascending
  | descending
  deriving DecidableEq

inductive DistanceMetric where
  | cosine
  | euclidean
  | dotProduct
  deriving DecidableEq

inductive IndexHint where
  | bTree (order : UInt8)
  | hash
  | fullText (language tokenizer : Text)
  | geospatial
  | vector (m efConstruction : UInt16) (distance : DistanceMetric)
  | composite (fields : List Text) (order : List SortOrder)
  deriving DecidableEq

structure IndexField where
  field : Text
  order : SortOrder
  deriving DecidableEq

structure IndexOptions where
  language : Option Text := none
  vectorDimensions : Option UInt16 := none
  vectorDistance : Option DistanceMetric := none
  expireAfterSeconds : Option UInt64 := none
  partialFilter : Option Text := none
  deriving DecidableEq

structure IndexDef where
  name : Text
  fields : List IndexField
  unique : Bool
  sparse : Bool
  indexType : IndexHint
  options : IndexOptions
  deriving DecidableEq

inductive ComparisonOp where
  | equals
  | notEquals
  | lessThan
  | lessThanOrEqual
  | greaterThan
  | greaterThanOrEqual
  deriving DecidableEq

inductive ValidationRule where
  | pattern (field regex errorMessage : Text)
  | range (field : Text) (min max : Option Value)
  | length (field : Text) (min max : Option UInt32)
  | itemCount (field : Text) (min max : Option UInt32)
  | compare (fieldA : Text) (op : ComparisonOp) (fieldB : Text)
  | unique (field : Text) (scope : Option Text)
  | custom (name : Text)

mutual

inductive NovaType where
  | null
  | bool
  | int8
  | int16
  | int32
  | int64
  | uint8
  | uint16
  | uint32
  | uint64
  | float32
  | float64
  | string (maxLength : Option UInt32)
  | binary (maxLength : Option UInt32)
  | date
  | time
  | dateTime
  | duration
  | timestamp
  | decimal (precision scale : UInt8)
  | array (elementType : NovaType) (maxItems : Option UInt32)
  | object (fields : List FieldDef) (additionalFields : Bool)
  | map (valueType : NovaType)
  | reference (collection : Text)
  | any
  | union (types : List NovaType)
  | optional (inner : NovaType)
  | geoPoint
  | geoShape
  | vector (dimensions : UInt16)

structure FieldDef where
  name : Text
  fieldType : NovaType
  required : Bool
  default : Option Value
  computed : Option ComputedFieldDef
  description : Text
  index : Option IndexHint
  unique : Bool
  sensitive : Bool
  validate : List ValidationRule

structure ComputedExpr where
  expression : Text
  dependsOn : List Text
  outputType : NovaType

structure ComputedFieldDef where
  name : Text
  expr : ComputedExpr
  outputType : NovaType

end

inductive SchemaMode where
  | dynamic (maxFields : UInt32)
  | typed
  | mixed (maxDynamicFields : UInt32)
  deriving DecidableEq

inductive SchemaChangeOp where
  | addField (field : FieldDef) (reason : Text)
  | makeOptional (field reason : Text)
  | widenField (field : Text) (newType : NovaType) (reason : Text)
  | addIndex (index : IndexDef) (reason : Text)
  | addDefault (field : Text) (default : Value) (reason : Text)
  | deprecateField (field deprecationMessage : Text) (removalVersion : Option UInt32)
  | addEnumValue (field value : Text)

structure SchemaChange where
  version : UInt32
  timestamp : UInt64
  changes : List SchemaChangeOp
  description : Text
  author : Text

structure CollectionSchema where
  version : UInt32
  collection : Text
  description : Text
  mode : SchemaMode
  fields : List FieldDef
  computedFields : List ComputedFieldDef
  indexes : List IndexDef
  defaults : List (Text × Value)
  validation : List ValidationRule
  maxDocumentSize : UInt32
  metadata : List (Text × Text)
  changelog : List SchemaChange
  createdAt : UInt64
  updatedAt : UInt64

/-! ## Equality -/

def optionEq {α : Type} (eq : α → α → Bool) : Option α → Option α → Bool
  | none, none => true
  | some a, some b => eq a b
  | _, _ => false

theorem transAt_optionEq {α : Type} {eq : α → α → Bool} {o : Option α} (held : ∀ a ∈ o, TransAt eq a) :
    TransAt (optionEq eq) o := by
  rintro (_ | b) (_ | c) first second
  · exact first
  · cases second
  · cases o with
    | none => cases first
    | some a => cases second
  · cases o with
    | none => cases first
    | some a => exact held a rfl first second

def ValidationRule.eq : ValidationRule → ValidationRule → Bool
  | .pattern f r m, .pattern f' r' m' => (f, r, m) == (f', r', m')
  | .range f min max, .range f' min' max' =>
    f == f' && optionEq Value.eq min min' && optionEq Value.eq max max'
  | .length f min max, .length f' min' max' => (f, min, max) == (f', min', max')
  | .itemCount f min max, .itemCount f' min' max' => (f, min, max) == (f', min', max')
  | .compare a op b, .compare a' op' b' => (a, op, b) == (a', op', b')
  | .unique f s, .unique f' s' => (f, s) == (f', s')
  | .custom n, .custom n' => n == n'
  | _, _ => false

theorem ValidationRule.transAt (a : ValidationRule) : TransAt ValidationRule.eq a := by
  intro b c first second
  have bounds (o : Option Value) : TransAt (optionEq Value.eq) o := transAt_optionEq fun v _ => v.transAt
  cases a with
  | range f min max =>
    cases b with
    | range f' min' max' =>
      cases c with
      | range f'' min'' max'' =>
        simp only [ValidationRule.eq, Bool.and_eq_true, beq_iff_eq] at *
        exact ⟨⟨first.1.1.trans second.1.1, bounds min first.1.2 second.1.2⟩,
          bounds max first.2 second.2⟩
      | _ => cases second
    | _ => cases first
  | _ =>
    cases b <;> first
    | contradiction
    | (cases eq_of_beq first; exact second)

mutual

def NovaType.eq : NovaType → NovaType → Bool
  | .null, b => match b with | .null => true | _ => false
  | .bool, b => match b with | .bool => true | _ => false
  | .int8, b => match b with | .int8 => true | _ => false
  | .int16, b => match b with | .int16 => true | _ => false
  | .int32, b => match b with | .int32 => true | _ => false
  | .int64, b => match b with | .int64 => true | _ => false
  | .uint8, b => match b with | .uint8 => true | _ => false
  | .uint16, b => match b with | .uint16 => true | _ => false
  | .uint32, b => match b with | .uint32 => true | _ => false
  | .uint64, b => match b with | .uint64 => true | _ => false
  | .float32, b => match b with | .float32 => true | _ => false
  | .float64, b => match b with | .float64 => true | _ => false
  | .string m, b => match b with | .string m' => m == m' | _ => false
  | .binary m, b => match b with | .binary m' => m == m' | _ => false
  | .date, b => match b with | .date => true | _ => false
  | .time, b => match b with | .time => true | _ => false
  | .dateTime, b => match b with | .dateTime => true | _ => false
  | .duration, b => match b with | .duration => true | _ => false
  | .timestamp, b => match b with | .timestamp => true | _ => false
  | .decimal p s, b => match b with | .decimal p' s' => (p, s) == (p', s') | _ => false
  | .array t m, b => match b with | .array t' m' => t.eq t' && m == m' | _ => false
  | .object fs extra, b => match b with | .object fs' extra' => eqFields fs fs' && extra == extra' | _ => false
  | .map t, b => match b with | .map t' => t.eq t' | _ => false
  | .reference c, b => match b with | .reference c' => c == c' | _ => false
  | .any, b => match b with | .any => true | _ => false
  | .union ts, b => match b with | .union ts' => eqTypes ts ts' | _ => false
  | .optional t, b => match b with | .optional t' => t.eq t' | _ => false
  | .geoPoint, b => match b with | .geoPoint => true | _ => false
  | .geoShape, b => match b with | .geoShape => true | _ => false
  | .vector d, b => match b with | .vector d' => d == d' | _ => false
termination_by structural a => a

def eqTypes : List NovaType → List NovaType → Bool
  | [], b => b.isEmpty
  | t :: ts, b => match b with | [] => false | t' :: ts' => t.eq t' && eqTypes ts ts'
termination_by structural a => a

def eqFields : List FieldDef → List FieldDef → Bool
  | [], b => b.isEmpty
  | f :: fs, b => match b with | [] => false | f' :: fs' => f.eq f' && eqFields fs fs'
termination_by structural a => a

def FieldDef.eq : FieldDef → FieldDef → Bool
  | ⟨name, type, required, dflt, computed, description, index, unique, sensitive, validate⟩, b =>
    name == b.name && type.eq b.fieldType && required == b.required &&
      optionEq Value.eq dflt b.default && eqComputed computed b.computed &&
      description == b.description && index == b.index && unique == b.unique &&
      sensitive == b.sensitive && validate.isEqv b.validate ValidationRule.eq
termination_by structural a => a

def eqComputed : Option ComputedFieldDef → Option ComputedFieldDef → Bool
  | none, b => b.isNone
  | some c, b => match b with | none => false | some c' => c.eq c'
termination_by structural a => a

def ComputedFieldDef.eq : ComputedFieldDef → ComputedFieldDef → Bool
  | ⟨name, expr, type⟩, b => name == b.name && expr.eq b.expr && type.eq b.outputType
termination_by structural a => a

def ComputedExpr.eq : ComputedExpr → ComputedExpr → Bool
  | ⟨expression, dependsOn, type⟩, b =>
    expression == b.expression && dependsOn == b.dependsOn && type.eq b.outputType
termination_by structural a => a

end

theorem eqTypes_eq (as bs : List NovaType) : eqTypes as bs = as.isEqv bs NovaType.eq := by
  induction as generalizing bs with
  | nil => cases bs <;> rfl
  | cons a as ih =>
    cases bs with
    | nil => rfl
    | cons b bs => simp only [eqTypes, List.isEqv, ih]

theorem eqFields_eq (as bs : List FieldDef) : eqFields as bs = as.isEqv bs FieldDef.eq := by
  induction as generalizing bs with
  | nil => cases bs <;> rfl
  | cons a as ih =>
    cases bs with
    | nil => rfl
    | cons b bs => simp only [eqFields, List.isEqv, ih]

theorem eqComputed_eq (a b : Option ComputedFieldDef) : eqComputed a b = optionEq ComputedFieldDef.eq a b := by
  cases a <;> cases b <;> rfl

def FieldDef.types (f : FieldDef) : List NovaType :=
  f.fieldType :: f.computed.toList.flatMap fun c => [c.expr.outputType, c.outputType]

def NovaType.parts : NovaType → List NovaType
  | .array t _ | .map t | .optional t => [t]
  | .object fs _ => fs.flatMap FieldDef.types
  | .union ts => ts
  | _ => []

theorem FieldDef.sizeOf_type {f : FieldDef} {t : NovaType} (member : t ∈ f.types) : sizeOf t < sizeOf f := by
  obtain ⟨name, type, required, dflt, computed, description, index, unique, sensitive, validate⟩ := f
  simp only [FieldDef.mk.sizeOf_spec]
  rcases List.mem_cons.mp member with rfl | member
  · omega
  · cases computed with
    | none => cases member
    | some c =>
      obtain ⟨name', ⟨expression, dependsOn, type'⟩, type''⟩ := c
      simp only [Option.toList_some, List.flatMap_cons, List.flatMap_nil, List.append_nil, List.mem_cons,
        List.not_mem_nil, or_false] at member
      rcases member with rfl | rfl <;>
        simp only [Option.some.sizeOf_spec, ComputedFieldDef.mk.sizeOf_spec, ComputedExpr.mk.sizeOf_spec] <;>
        omega

theorem NovaType.sizeOf_part {a t : NovaType} (member : t ∈ a.parts) : sizeOf t < sizeOf a := by
  cases a with
  | array t' m | map t' | optional t' =>
    cases List.mem_singleton.mp member
    simp +arith
  | object fs extra =>
    obtain ⟨f, inFields, inField⟩ := List.mem_flatMap.mp member
    have := List.sizeOf_lt_of_mem inFields
    have := FieldDef.sizeOf_type inField
    simp only [NovaType.object.sizeOf_spec]
    omega
  | union ts =>
    have : sizeOf t < sizeOf ts := List.sizeOf_lt_of_mem member
    simp only [NovaType.union.sizeOf_spec]
    omega
  | _ => cases member

/-- Induction on what a type contains. -/
theorem NovaType.parts_induction {P : NovaType → Prop} (step : ∀ t : NovaType, (∀ u ∈ t.parts, P u) → P t)
    (t : NovaType) : P t :=
  step t fun u _ => parts_induction step u
termination_by t
decreasing_by exact NovaType.sizeOf_part ‹_›

theorem ComputedFieldDef.transAt {c : ComputedFieldDef} (expr : TransAt NovaType.eq c.expr.outputType)
    (type : TransAt NovaType.eq c.outputType) : TransAt ComputedFieldDef.eq c := by
  obtain ⟨name, ⟨expression, dependsOn, type'⟩, type''⟩ := c
  intro b c first second
  simp only [ComputedFieldDef.eq, ComputedExpr.eq, Bool.and_eq_true, beq_iff_eq] at *
  obtain ⟨⟨rfl, ⟨rfl, rfl⟩, left⟩, left'⟩ := first
  obtain ⟨b, ⟨e, d, u⟩, v⟩ := b
  simp only [ComputedFieldDef.eq, ComputedExpr.eq, Bool.and_eq_true, beq_iff_eq] at *
  exact ⟨⟨second.1.1, second.1.2.1, expr left second.1.2.2⟩, type left' second.2⟩

theorem FieldDef.eq_iff {f g : FieldDef} :
    f.eq g = true ↔ f.name = g.name ∧ f.fieldType.eq g.fieldType = true ∧ f.required = g.required ∧
      optionEq Value.eq f.default g.default = true ∧ optionEq ComputedFieldDef.eq f.computed g.computed = true ∧
      f.description = g.description ∧ f.index = g.index ∧ f.unique = g.unique ∧
      f.sensitive = g.sensitive ∧ f.validate.isEqv g.validate ValidationRule.eq = true := by
  obtain ⟨name, type, required, dflt, computed, description, index, unique, sensitive, validate⟩ := f
  simp only [FieldDef.eq, eqComputed_eq, Bool.and_eq_true, beq_iff_eq, and_assoc]

theorem FieldDef.transAt {f : FieldDef} (types : ∀ t ∈ f.types, TransAt NovaType.eq t) :
    TransAt FieldDef.eq f := by
  intro g h first second
  rw [FieldDef.eq_iff] at *
  obtain ⟨name, type, required, dflt, computed, description, index, unique, sensitive, validate⟩ := first
  obtain ⟨name', type', required', dflt', computed', description', index', unique', sensitive', validate'⟩ :=
    second
  have computedTypes : ∀ c ∈ f.computed, TransAt ComputedFieldDef.eq c := by
    intro c held
    have inTypes (t : NovaType) (member : t ∈ [c.expr.outputType, c.outputType]) : t ∈ f.types :=
      .tail _ (List.mem_flatMap.mpr ⟨c, Option.mem_toList.mpr held, member⟩)
    exact ComputedFieldDef.transAt (types _ (inTypes _ (by simp))) (types _ (inTypes _ (by simp)))
  exact ⟨name.trans name', types _ (.head _) type type', required.trans required',
    transAt_optionEq (fun v _ => v.transAt) dflt dflt', transAt_optionEq computedTypes computed computed',
    description.trans description', index.trans index', unique.trans unique', sensitive.trans sensitive',
    transAt_isEqv (fun r _ => r.transAt) validate validate'⟩

section Kinds

variable {b : NovaType}

theorem NovaType.eq_array {t : NovaType} {m : Option UInt32} (same : (NovaType.array t m).eq b = true) :
    ∃ t' m', b = .array t' m' ∧ t.eq t' = true ∧ m = m' := by
  cases b with
  | array t' m' => exact ⟨t', m', rfl, by simpa [NovaType.eq] using same⟩
  | _ => cases same

theorem NovaType.eq_object {fs : List FieldDef} {extra : Bool} (same : (NovaType.object fs extra).eq b = true) :
    ∃ fs' extra', b = .object fs' extra' ∧ fs.isEqv fs' FieldDef.eq = true ∧ extra = extra' := by
  cases b with
  | object fs' extra' => exact ⟨fs', extra', rfl, by simpa [NovaType.eq, eqFields_eq] using same⟩
  | _ => cases same

theorem NovaType.eq_map {t : NovaType} (same : (NovaType.map t).eq b = true) :
    ∃ t', b = .map t' ∧ t.eq t' = true := by
  cases b with
  | map t' => exact ⟨t', rfl, same⟩
  | _ => cases same

theorem NovaType.eq_union {ts : List NovaType} (same : (NovaType.union ts).eq b = true) :
    ∃ ts', b = .union ts' ∧ ts.isEqv ts' NovaType.eq = true := by
  cases b with
  | union ts' => exact ⟨ts', rfl, (eqTypes_eq ts ts').symm.trans same⟩
  | _ => cases same

theorem NovaType.eq_optional {t : NovaType} (same : (NovaType.optional t).eq b = true) :
    ∃ t', b = .optional t' ∧ t.eq t' = true := by
  cases b with
  | optional t' => exact ⟨t', rfl, same⟩
  | _ => cases same

def NovaType.isPlain : NovaType → Bool
  | .array .. | .object .. | .map _ | .union _ | .optional _ => false
  | _ => true

theorem NovaType.eq_of_isPlain {a : NovaType} (plain : a.isPlain = true) (same : a.eq b = true) : a = b := by
  cases a
  all_goals
    first
    | contradiction
    | (unfold NovaType.eq at same
       split at same
       · first
         | rfl
         | rw [eq_of_beq same]
         | (cases eq_of_beq same; rfl)
       · contradiction)

end Kinds

theorem NovaType.transAt_of_parts {a : NovaType} (parts : ∀ t ∈ a.parts, TransAt NovaType.eq t) :
    TransAt NovaType.eq a := by
  intro b c first second
  cases plain : a.isPlain with
  | true => rwa [NovaType.eq_of_isPlain plain first]
  | false =>
    cases a with
    | array t m =>
      obtain ⟨t', m', rfl, left, rfl⟩ := NovaType.eq_array first
      obtain ⟨t'', m'', rfl, right, rfl⟩ := NovaType.eq_array second
      have inner : TransAt NovaType.eq t := parts t (List.mem_singleton_self t)
      simp only [NovaType.eq, inner left right, Bool.true_and, beq_self_eq_true]
    | object fs extra =>
      obtain ⟨fs', extra', rfl, left, rfl⟩ := NovaType.eq_object first
      obtain ⟨fs'', extra'', rfl, right, rfl⟩ := NovaType.eq_object second
      have inner : TransAt (List.isEqv · · FieldDef.eq) fs := transAt_isEqv fun f inFields =>
        FieldDef.transAt fun t inField => parts t (List.mem_flatMap.mpr ⟨f, inFields, inField⟩)
      simp only [NovaType.eq, eqFields_eq, inner left right, Bool.true_and, beq_self_eq_true]
    | map t =>
      obtain ⟨t', rfl, left⟩ := NovaType.eq_map first
      obtain ⟨t'', rfl, right⟩ := NovaType.eq_map second
      exact parts t (List.mem_singleton_self t) left right
    | union ts =>
      obtain ⟨ts', rfl, left⟩ := NovaType.eq_union first
      obtain ⟨ts'', rfl, right⟩ := NovaType.eq_union second
      exact (eqTypes_eq ts ts'').trans (transAt_isEqv parts left right)
    | optional t =>
      obtain ⟨t', rfl, left⟩ := NovaType.eq_optional first
      obtain ⟨t'', rfl, right⟩ := NovaType.eq_optional second
      exact parts t (List.mem_singleton_self t) left right
    | _ => cases plain

theorem NovaType.transAt (a : NovaType) : TransAt NovaType.eq a :=
  transAt_of_parts fun t _ => t.transAt
termination_by a
decreasing_by exact NovaType.sizeOf_part ‹_›

end NovaRuntime.Object
