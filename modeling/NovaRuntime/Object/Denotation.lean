/-
# NovaRuntime.Object.Denotation — the values that a type denotes

`Member` is the set of values a type denotes, with the four bounds that `validate_type` does not
look at either counted or not: the lengths of strings and of binaries, the collection of a
reference, precision and scale of a decimal. With the bounds it is what the type declares
(`Denotes`), without them what the code checks (`validateType_iff`). The code is wrong on exactly
the values that have the shape and at some place a bound against them (`validateType_iff_denotes_iff`);
in a union every type of that shape has to have one.
-/
import NovaRuntime.Object.Validation

namespace NovaRuntime.Object

open NovaRuntime.Library

set_option autoImplicit false

/-- The value is of the type; the four bounds count if `bounds` holds. -/
inductive Member (bounds : Prop) : NovaType → Value → Prop
  | any (v : Value) : Member bounds .any v
  | null : Member bounds .null .null
  | bool (b : Bool) : Member bounds .bool (.bool b)
  | int8 (x : Int8) : Member bounds .int8 (.int8 x)
  | int16 (x : Int16) : Member bounds .int16 (.int16 x)
  | int32 (x : Int32) : Member bounds .int32 (.int32 x)
  | int64 (x : Int64) : Member bounds .int64 (.int64 x)
  | uint8 (x : UInt8) : Member bounds .uint8 (.uint8 x)
  | uint16 (x : UInt16) : Member bounds .uint16 (.uint16 x)
  | uint32 (x : UInt32) : Member bounds .uint32 (.uint32 x)
  | uint64 (x : UInt64) : Member bounds .uint64 (.uint64 x)
  | float32 (x : F32) : Member bounds .float32 (.float32 x)
  | float64 (x : F64) : Member bounds .float64 (.float64 x)
  | string {maxLength : Option UInt32} (s : Text)
      (short : bounds → ∀ n ∈ maxLength, (utf8 s).length ≤ n.toNat) : Member bounds (.string maxLength) (.string s)
  | binary {maxLength : Option UInt32} (b : Bytes)
      (short : bounds → ∀ n ∈ maxLength, b.length ≤ n.toNat) : Member bounds (.binary maxLength) (.binary b)
  | date (year : Int32) (month day : UInt8) : Member bounds .date (.date year month day)
  | time (hour min sec : UInt8) (nano : UInt32) : Member bounds .time (.time hour min sec nano)
  | dateTime (secs : Int64) (nsecs : UInt32) : Member bounds .dateTime (.dateTime secs nsecs)
  | duration (nanos : Int64) : Member bounds .duration (.duration nanos)
  | timestamp (ts : Int64) : Member bounds .timestamp (.timestamp ts)
  | decimal {precision scale : UInt8} (x : Bytes16) (precision' scale' : UInt8)
      (same : bounds → precision' = precision ∧ scale' = scale) :
      Member bounds (.decimal precision scale) (.decimal x precision' scale')
  | array {elementType : NovaType} {maxItems : Option UInt32} (items : List Value)
      (few : ∀ n ∈ maxItems, items.length ≤ n.toNat) (elements : ∀ item ∈ items, Member bounds elementType item) :
      Member bounds (.array elementType maxItems) (.array items)
  | object {fields : List FieldDef} {additionalFields : Bool} (map : List (Text × Value))
      (required : ∀ f ∈ fields, f.required = true → (map.lookup f.name).isSome)
      (typed : ∀ f ∈ fields, ∀ v, map.lookup f.name = some v → Member bounds f.fieldType v)
      (known : additionalFields = true ∨ ∀ e ∈ map, ∃ f ∈ fields, f.name = e.1) :
      Member bounds (.object fields additionalFields) (.object map)
  | map {valueType : NovaType} (entries : List (Text × Value))
      (values : ∀ e ∈ entries, Member bounds valueType e.2) : Member bounds (.map valueType) (.map entries)
  | reference {collection : Text} (collection' : Text) (id : Bytes16) (same : bounds → collection' = collection) :
      Member bounds (.reference collection) (.reference collection' id)
  | union {types : List NovaType} {v : Value} (t : NovaType) (member : t ∈ types) (inside : Member bounds t v) :
      Member bounds (.union types) v
  | optionalNull {inner : NovaType} : Member bounds (.optional inner) .null
  | optional {inner : NovaType} {v : Value} (inside : Member bounds inner v) : Member bounds (.optional inner) v
  | geoPoint (lat lon : F64) : Member bounds .geoPoint (.geoPoint lat lon)
  | geoShape (geom : GeoJsonGeometry) : Member bounds .geoShape (.geoShape geom)
  | vector {dimensions : UInt16} (vec : List F32) (size : vec.length = dimensions.toNat) :
      Member bounds (.vector dimensions) (.vector vec)

/-- **The set that a type denotes.** -/
abbrev Denotes : NovaType → Value → Prop := Member True

/-- The value is of the type but for the four bounds. -/
abbrev Shaped : NovaType → Value → Prop := Member False

/-- At some place of a value of the type's shape a bound is against it; of a union, whatever type
the shape is of. -/
inductive Violates : NovaType → Value → Prop
  | string {n : UInt32} {s : Text} (long : n.toNat < (utf8 s).length) : Violates (.string (some n)) (.string s)
  | binary {n : UInt32} {b : Bytes} (long : n.toNat < b.length) : Violates (.binary (some n)) (.binary b)
  | decimal {precision scale precision' scale' : UInt8} {x : Bytes16}
      (other : ¬ (precision' = precision ∧ scale' = scale)) :
      Violates (.decimal precision scale) (.decimal x precision' scale')
  | reference {collection collection' : Text} {id : Bytes16} (other : collection' ≠ collection) :
      Violates (.reference collection) (.reference collection' id)
  | array {elementType : NovaType} {maxItems : Option UInt32} {items : List Value} (item : Value)
      (member : item ∈ items) (inside : Violates elementType item) :
      Violates (.array elementType maxItems) (.array items)
  | object {fields : List FieldDef} {additionalFields : Bool} {map : List (Text × Value)} (f : FieldDef)
      (member : f ∈ fields) (v : Value) (found : map.lookup f.name = some v) (inside : Violates f.fieldType v) :
      Violates (.object fields additionalFields) (.object map)
  | map {valueType : NovaType} {entries : List (Text × Value)} (e : Text × Value) (member : e ∈ entries)
      (inside : Violates valueType e.2) : Violates (.map valueType) (.map entries)
  | union {types : List NovaType} {v : Value} (all : ∀ t ∈ types, Shaped t v → Violates t v) :
      Violates (.union types) v
  | optional {inner : NovaType} {v : Value} (present : v ≠ .null) (inside : Violates inner v) :
      Violates (.optional inner) v

theorem NovaType.mem_parts_of_field {fields : List FieldDef} {additionalFields : Bool} {f : FieldDef}
    (member : f ∈ fields) : f.fieldType ∈ (NovaType.object fields additionalFields).parts :=
  List.mem_flatMap.mpr ⟨f, member, .head _⟩

/-! ## What the code checks -/

/-- A declared field is there if it has to be, and what is there passes. -/
theorem validatesField_iff {f : FieldDef} {map : List (Text × Value)} : validatesField f map = true ↔
    (f.required = true → (map.lookup f.name).isSome) ∧
      ∀ v, map.lookup f.name = some v → v.validateType f.fieldType = true := by
  rw [validatesField_eq]
  cases map.lookup f.name with
  | none => simp
  | some v => simp

theorem validateType_of_shaped {t : NovaType} {v : Value} (member : Shaped t v) : v.validateType t = true := by
  induction member with
  | array items few _ inside =>
    refine Bool.and_eq_true_iff.mpr ⟨?_, List.all_eq_true.mpr inside⟩
    split
    next n => exact decide_eq_true (few n rfl)
    next => rfl
  | object map required _ known inside =>
    refine Bool.and_eq_true_iff.mpr ⟨?_, ?_⟩
    · rw [validatesFields_eq, List.all_eq_true]
      exact fun f member => validatesField_iff.mpr ⟨required f member, inside f member⟩
    · simpa only [Bool.or_eq_true, List.all_eq_true, List.any_eq_true, beq_iff_eq] using known
  | map entries _ inside => exact List.all_eq_true.mpr inside
  | union t member _ inside =>
    show validatesAny _ _ = true
    rw [validatesAny_eq, List.any_eq_true]
    exact ⟨t, member, inside⟩
  | optional _ inside => exact Bool.or_eq_true_iff.mpr (.inr inside)
  | vector vec size => exact beq_iff_eq.mpr size
  | _ => rfl

theorem shaped_of_validateType (t : NovaType) : ∀ v : Value, v.validateType t = true → Shaped t v := by
  induction t using NovaType.parts_induction with
  | step t ih =>
  intro v accepted
  cases t with
  | any => exact .any v
  | optional inner =>
    rcases Bool.or_eq_true_iff.mp accepted with null | inside
    · cases v <;> first | exact .optionalNull | cases null
    · exact .optional (ih inner (List.mem_singleton_self inner) v inside)
  | union types =>
    have some : validatesAny types v = true := accepted
    rw [validatesAny_eq, List.any_eq_true] at some
    obtain ⟨t, member, inside⟩ := some
    exact .union t member (ih t member v inside)
  | array elementType maxItems =>
    cases v with
    | array items =>
      obtain ⟨few, elements⟩ := Bool.and_eq_true_iff.mp accepted
      refine .array items ?_ fun item member =>
        ih elementType (List.mem_singleton_self elementType) item (List.all_eq_true.mp elements item member)
      rintro n rfl
      exact of_decide_eq_true few
    | _ => cases accepted
  | object fields additionalFields =>
    cases v with
    | object map =>
      obtain ⟨declared, known⟩ := Bool.and_eq_true_iff.mp accepted
      rw [validatesFields_eq, List.all_eq_true] at declared
      simp only [Bool.or_eq_true, List.all_eq_true, List.any_eq_true, beq_iff_eq] at known
      have field (f : FieldDef) (member : f ∈ fields) := validatesField_iff.mp (declared f member)
      exact .object map (fun f member => (field f member).1)
        (fun f member v found => ih f.fieldType (NovaType.mem_parts_of_field member) v ((field f member).2 v found))
        known
    | _ => cases accepted
  | map valueType =>
    cases v with
    | map entries =>
      have values : (entries.all fun e => e.2.validateType valueType) = true := accepted
      exact .map entries fun e member =>
        ih valueType (List.mem_singleton_self valueType) e.2 (List.all_eq_true.mp values e member)
    | _ => cases accepted
  | vector dimensions =>
    cases v with
    | vector vec => exact .vector vec (beq_iff_eq.mp accepted)
    | _ => cases accepted
  | _ =>
    cases v <;> first
    | exact absurd accepted Bool.false_ne_true
    | exact .string _ False.elim
    | exact .binary _ False.elim
    | exact .decimal _ _ _ False.elim
    | exact .reference _ _ False.elim
    | constructor

/-- **The code checks the shape.** -/
theorem validateType_iff (t : NovaType) (v : Value) : v.validateType t = true ↔ Shaped t v :=
  ⟨shaped_of_validateType t v, validateType_of_shaped⟩

/-! ## What the code leaves out -/

theorem Member.shaped {bounds : Prop} {t : NovaType} {v : Value} (member : Member bounds t v) : Shaped t v := by
  induction member with
  | string s _ => exact .string s False.elim
  | binary b _ => exact .binary b False.elim
  | decimal x p s _ => exact .decimal x p s False.elim
  | reference c id _ => exact .reference c id False.elim
  | array items few _ inside => exact .array items few inside
  | object map required _ known inside => exact .object map required inside known
  | map entries _ inside => exact .map entries inside
  | union t member _ inside => exact .union t member inside
  | optional _ inside => exact .optional inside
  | _ => constructor <;> assumption

/-- **A value is denoted if it has the shape and no bound is against it.** -/
theorem denotes_iff (t : NovaType) : ∀ v : Value, Denotes t v ↔ Shaped t v ∧ ¬ Violates t v := by
  induction t using NovaType.parts_induction with
  | step t ih =>
  intro v
  constructor
  · intro member
    refine ⟨member.shaped, fun violated => ?_⟩
    cases violated with
    | string long => cases member with | string _ short => exact absurd (short trivial _ rfl) (Nat.not_le.mpr long)
    | binary long => cases member with | binary _ short => exact absurd (short trivial _ rfl) (Nat.not_le.mpr long)
    | decimal other => cases member with | decimal _ _ _ same => exact other (same trivial)
    | reference other => cases member with | reference _ _ same => exact other (same trivial)
    | array item inItems inside =>
      cases member with
      | array _ _ elements =>
        exact ((ih _ (.head _) item).mp (elements item inItems)).2 inside
    | object f inFields v found inside =>
      cases member with
      | object _ _ typed _ =>
        exact ((ih _ (NovaType.mem_parts_of_field inFields) v).mp (typed f inFields v found)).2 inside
    | map e inEntries inside =>
      cases member with
      | map _ values => exact ((ih _ (.head _) e.2).mp (values e inEntries)).2 inside
    | union all =>
      cases member with
      | union t inTypes inside =>
        have here := (ih t inTypes v).mp inside
        exact here.2 (all t inTypes here.1)
    | optional present inside =>
      cases member with
      | optionalNull => exact present rfl
      | optional within => exact ((ih _ (.head _) v).mp within).2 inside
  · rintro ⟨shaped, unharmed⟩
    cases shaped with
    | string s _ =>
      refine .string s ?_
      rintro - n rfl
      exact Nat.not_lt.mp fun long => unharmed (.string long)
    | binary b _ =>
      refine .binary b ?_
      rintro - n rfl
      exact Nat.not_lt.mp fun long => unharmed (.binary long)
    | decimal x p s _ => exact .decimal x p s fun _ => by_contra fun other => unharmed (.decimal other)
    | reference c id _ => exact .reference c id fun _ => by_contra fun other => unharmed (.reference other)
    | array items few elements =>
      refine .array items few fun item member => (ih _ (.head _) item).mpr ?_
      exact ⟨elements item member, fun inside => unharmed (.array item member inside)⟩
    | object map required typed known =>
      refine .object map required (fun f member v found => ?_) known
      refine (ih _ (NovaType.mem_parts_of_field member) v).mpr ⟨typed f member v found, fun inside => ?_⟩
      exact unharmed (.object f member v found inside)
    | map entries values =>
      refine .map entries fun e member => (ih _ (.head _) e.2).mpr ?_
      exact ⟨values e member, fun inside => unharmed (.map e member inside)⟩
    | @union types _ t member inside =>
      have some : ∃ u, u ∈ types ∧ Shaped u v ∧ ¬ Violates u v := by
        by_contra none
        refine unharmed (.union fun u inTypes shaped => ?_)
        by_contra free
        exact none ⟨u, inTypes, shaped, free⟩
      obtain ⟨u, inTypes, shaped, free⟩ := some
      exact .union u inTypes ((ih u inTypes v).mpr ⟨shaped, free⟩)
    | optionalNull => exact .optionalNull
    | optional inside =>
      by_cases null : v = .null
      · cases null
        exact .optionalNull
      · refine .optional ((ih _ (.head _) v).mpr ⟨inside, fun violated => ?_⟩)
        exact unharmed (.optional null violated)
    | _ => constructor <;> assumption

/-- **Validation agrees with the denoted set** but on the values of the type's shape that have a length, a
collection, a precision or a scale against them. -/
theorem validateType_iff_denotes_iff (t : NovaType) (v : Value) :
    (v.validateType t = true ↔ Denotes t v) ↔ ¬ (Shaped t v ∧ Violates t v) := by
  rw [validateType_iff, denotes_iff]
  tauto

/-- Two bytes of text where one is allowed, in an array of the right length. -/
theorem long_text_accepted :
    ¬ ((Value.array [.string "ab".toList]).validateType (.array (.string (some 1)) (some 1)) = true ↔
      Denotes (.array (.string (some 1)) (some 1)) (.array [.string "ab".toList])) := by
  rw [validateType_iff, denotes_iff]
  refine fun agreed => (agreed.mp (.array _ ?_ ?_)).2 (.array _ (.head _) (.string (by decide)))
  · rintro n ⟨⟩
    decide
  · intro item member
    cases List.mem_singleton.mp member
    exact .string _ False.elim

end NovaRuntime.Object
