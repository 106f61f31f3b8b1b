/-
# NovaRuntime.Object.Validation — values against types and rules

`Value::validate_type` of `nova_object::types` and `nova_object::validation`. A type descends
into the values of an array, an object or a map. `value_compare` orders two values of one kind
of number or text, and an `Int64` against a `Float64`; on all other pairs it looks at the
variants. Regular expressions, and values and numbers as text, come from outside.
-/
import NovaRuntime.Object.Document
import NovaRuntime.Object.Schema

namespace NovaRuntime.Object

open NovaRuntime.Library

set_option autoImplicit false

/-! ## Types -/

mutual

def Value.validateType : (expected : NovaType) → (value : Value) → Bool
  | .any, _ => true
  | .optional inner, v => (v matches .null) || v.validateType inner
  | .union types, v => validatesAny types v
  | .null, v => (v matches .null)
  | .bool, v => (v matches .bool _)
  | .int8, v => (v matches .int8 _)
  | .int16, v => (v matches .int16 _)
  | .int32, v => (v matches .int32 _)
  | .int64, v => (v matches .int64 _)
  | .uint8, v => (v matches .uint8 _)
  | .uint16, v => (v matches .uint16 _)
  | .uint32, v => (v matches .uint32 _)
  | .uint64, v => (v matches .uint64 _)
  | .float32, v => (v matches .float32 _)
  | .float64, v => (v matches .float64 _)
  | .string _, v => (v matches .string _)
  | .binary _, v => (v matches .binary _)
  | .date, v => (v matches .date ..)
  | .time, v => (v matches .time ..)
  | .dateTime, v => (v matches .dateTime ..)
  | .duration, v => (v matches .duration _)
  | .timestamp, v => (v matches .timestamp _)
  | .decimal .., v => (v matches .decimal ..)
  | .array elementType maxItems, v =>
    match v with
    | .array items =>
      (match maxItems with
        | some max => items.length ≤ max.toNat
        | none => true) && items.all fun item => item.validateType elementType
    | _ => false
  | .object fields additionalFields, v =>
    match v with
    | .object map =>
      validatesFields fields map &&
        (additionalFields || map.all fun e => fields.any fun f => f.name == e.1)
    | _ => false
  | .map valueType, v =>
    match v with
    | .map entries => entries.all fun e => e.2.validateType valueType
    | _ => false
  | .reference _, v => (v matches .reference ..)
  | .geoPoint, v => (v matches .geoPoint ..)
  | .geoShape, v => (v matches .geoShape _)
  | .vector dimensions, v =>
    match v with
    | .vector vec => vec.length == dimensions.toNat
    | _ => false
termination_by structural t => t

/-- `types.iter().any(..)`. -/
def validatesAny : List NovaType → Value → Bool
  | [], _ => false
  | t :: types, v => v.validateType t || validatesAny types v
termination_by structural ts => ts

/-- The loop over the declared fields. -/
def validatesFields : List FieldDef → List (Text × Value) → Bool
  | [], _ => true
  | f :: fields, map => validatesField f map && validatesFields fields map
termination_by structural fs => fs

def validatesField : FieldDef → List (Text × Value) → Bool
  | ⟨name, fieldType, required, _, _, _, _, _, _, _⟩, map =>
    match map.lookup name with
    | some val => val.validateType fieldType
    | none => !required
termination_by structural f => f

end

theorem validatesAny_eq (types : List NovaType) (v : Value) :
    validatesAny types v = types.any fun t => v.validateType t := by
  induction types with
  | nil => rfl
  | cons t types ih => rw [validatesAny, List.any_cons, ih]

theorem validatesFields_eq (fields : List FieldDef) (map : List (Text × Value)) :
    validatesFields fields map = fields.all (validatesField · map) := by
  induction fields with
  | nil => rfl
  | cons f fields ih => rw [validatesFields, List.all_cons, ih]

theorem validatesField_eq (f : FieldDef) (map : List (Text × Value)) :
    validatesField f map = ((map.lookup f.name).elim (!f.required) fun val => val.validateType f.fieldType) := by
  cases f with
  | mk name fieldType required _ _ _ _ _ _ _ =>
    show (match map.lookup name with | some val => val.validateType fieldType | none => !required) = _
    cases map.lookup name <;> rfl

/-! ## Comparisons -/

/-- The `match` of `value_compare` on the two values. -/
def partialOrder (a b : Value) : Option Ordering :=
  match a, b with
  | .int8 x, .int8 y => some (compare x.toInt y.toInt)
  | .int16 x, .int16 y => some (compare x.toInt y.toInt)
  | .int32 x, .int32 y => some (compare x.toInt y.toInt)
  | .int64 x, .int64 y => some (compare x.toInt y.toInt)
  | .uint8 x, .uint8 y => some (compare x.toNat y.toNat)
  | .uint16 x, .uint16 y => some (compare x.toNat y.toNat)
  | .uint32 x, .uint32 y => some (compare x.toNat y.toNat)
  | .uint64 x, .uint64 y => some (compare x.toNat y.toNat)
  | .float32 x, .float32 y => x.partialCmp y
  | .float64 x, .float64 y => x.partialCmp y
  | .string x, .string y => some (byteCmp (utf8 x) (utf8 y))
  | .int64 x, .float64 y => (F64.ofInt x.toInt).partialCmp y
  | .float64 x, .int64 y => x.partialCmp (F64.ofInt y.toInt)
  | _, _ => none

/-- What an order answers to an operator. -/
def ComparisonOp.holds (o : Ordering) : ComparisonOp → Bool
  | .equals => o == .eq
  | .notEquals => o != .eq
  | .lessThan => o == .lt
  | .lessThanOrEqual => o != .gt
  | .greaterThan => o == .gt
  | .greaterThanOrEqual => o != .lt

/-- `value_compare`; `std::mem::discriminant` is the number of the variant. -/
def valueCompare (a b : Value) (op : ComparisonOp) : Bool :=
  match partialOrder a b with
  | some o => op.holds o
  | none =>
    match op with
    | .equals => a.ctorIdx == b.ctorIdx
    | .notEquals => a.ctorIdx != b.ctorIdx
    | _ => false

/-! ## Rules -/

/-- What rules take from outside: `Regex::new` with the text of its error, and `{:?}` of a value. -/
structure RuleSupport where
  regex : Text → Except Text (Text → Bool)
  debug : Value → Text

def ComparisonOp.debug : ComparisonOp → String
  | .equals => "Equals"
  | .notEquals => "NotEquals"
  | .lessThan => "LessThan"
  | .lessThanOrEqual => "LessThanOrEqual"
  | .greaterThan => "GreaterThan"
  | .greaterThanOrEqual => "GreaterThanOrEqual"

/-- A `u32` in a message. -/
def countText (n : UInt32) : Text := Nat.toDigits 10 n.toNat

/-- A count against its bounds; `what` is what was counted. -/
def countErrors (what : Text) (field : Text) (n : UInt32) (min max : Option UInt32) : List Text :=
  (match min with
    | some least => if n < least then
        ["Field '".toList ++ field ++ "' ".toList ++ what ++ " ".toList ++ countText n ++
          " is less than minimum ".toList ++ countText least] else []
    | none => []) ++
  match max with
  | some most => if most < n then
      ["Field '".toList ++ field ++ "' ".toList ++ what ++ " ".toList ++ countText n ++
        " exceeds maximum ".toList ++ countText most] else []
  | none => []

section Rules

variable (S : RuleSupport)

/-- The error of a value on the wrong side of a bound; `words` say which side. -/
def boundErrors (field : Text) (value : Value) (op : ComparisonOp) (words : Text) : Option Value → List Text
  | some bound =>
    if valueCompare value bound op then [] else
      ["Field '".toList ++ field ++ "' value ".toList ++ S.debug value ++ words ++ S.debug bound]
  | none => []

/-- The errors of a `ValidationRule::Range` on the value of its field. -/
def rangeErrors (field : Text) (value : Value) (min max : Option Value) : List Text :=
  boundErrors S field value .greaterThanOrEqual " is less than minimum ".toList min ++
    boundErrors S field value .lessThanOrEqual " exceeds maximum ".toList max

/-- One turn of `validate_rules`. -/
def ruleErrors (data : List (Text × Value)) : ValidationRule → List Text
  | .pattern field regex errorMessage =>
    match data.lookup field with
    | some (.string val) =>
      match S.regex regex with
      | .ok isMatch => if isMatch val then [] else [errorMessage]
      | .error e => ["Invalid regex '".toList ++ regex ++ "': ".toList ++ e]
    | _ => []
  | .range field min max =>
    match data.lookup field with
    | some value => rangeErrors S field value min max
    | none => []
  | .length field min max =>
    match data.lookup field with
    | some value =>
      let len : UInt32 := match value with
        | .string s => .ofNat (utf8 s).length
        | .binary b => .ofNat b.length
        | _ => 0
      countErrors "length".toList field len min max
    | none => []
  | .itemCount field min max =>
    match data.lookup field with
    | some value =>
      let count : UInt32 := match value with
        | .array items => .ofNat items.length
        | _ => 0
      countErrors "item count".toList field count min max
    | none => []
  | .compare fieldA op fieldB =>
    match data.lookup fieldA, data.lookup fieldB with
    | some valA, some valB =>
      if valueCompare valA valB op then [] else
        ["Compare rule failed: ".toList ++ S.debug valA ++ " ".toList ++ op.debug.toList ++
          " ".toList ++ S.debug valB]
    | _, _ => []
  | .unique .. => []
  | .custom name => ["Custom validation rule '".toList ++ name ++ "' not implemented".toList]

def validateRules (doc : Document) (rules : List ValidationRule) : List Text :=
  rules.flatMap (ruleErrors S doc.data)

end Rules

end NovaRuntime.Object
