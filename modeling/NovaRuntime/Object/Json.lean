/-
# NovaRuntime.Object.Json — values as JSON and back

`Value::to_json` and `Value::from_json` of `nova_object::types`. A `serde_json::Map` is the
list of its entries, as a `HashMap` is: the keys are distinct, and the order is no part of
it. A `Number` is an integer or a float; the integers are those of `i64` and `u64`.

`reread` is what becomes of the kinds that JSON does not tell apart, and `rounded` of the
integers that `from_json` has no kind for. `json_faithful` says that both are all that
changes: a document without the keys of the special kinds is read as a value that is
written as the document, and a date with time, a reference or a point comes back as itself
at any depth.
-/
import Mathlib.Data.List.Nodup
import NovaRuntime.Library.Json
import NovaRuntime.Object.Types
import NovaRuntime.Queue.Types

namespace NovaRuntime.Object

open NovaRuntime.Library
open NovaRuntime.Queue (UuidText hexChar hexDigits)

set_option autoImplicit false

/-- The text of an error; `foreign` is the text of another crate's error. -/
inductive JsonError where
  | message (text : String)
  | foreign
  deriving DecidableEq

/-- The `uuid` package, and what `serde_json` makes of a geometry and back. -/
structure JsonExtern where
  uuid : UuidText
  shapeToValue : GeoJsonGeometry → Option Json
  shapeFromValue : Json → Option GeoJsonGeometry

/-! ## Numbers -/

/-- `as f64`: every value of 32 bits is one of 64. The highest bit of a fraction without an
exponent becomes the exponent. -/
def F32.toF64 (x : F32) : F64 :=
  let sign := x.bits.toNat / 2 ^ 31
  let exponent := x.bits.toNat / 2 ^ 23 % 2 ^ 8
  let fraction := x.bits.toNat % 2 ^ 23
  let magnitude :=
    if exponent = 255 then F64.infinite + fraction * 2 ^ 29
    else if exponent ≠ 0 then (exponent + 896) * 2 ^ 52 + fraction * 2 ^ 29
    else if fraction = 0 then 0
    else (fraction.log2 + 873) * 2 ^ 52 + fraction * 2 ^ (52 - fraction.log2)
  ⟨.ofNat (sign * 2 ^ 63 + magnitude)⟩

example : F32.toF64 ⟨0xBFC00000⟩ = ⟨0xBFF8000000000000⟩ := by decide
example : F32.toF64 ⟨1⟩ = ⟨0x36A0000000000000⟩ := by decide

/-- A float, or zero for what is none in JSON. -/
def finiteOrZero (f : F64) : F64 := if f.isFinite then f else .zero

def Json.asI64 : Json → Option Int64
  | .int n => if -9223372036854775808 ≤ n ∧ n < 9223372036854775808 then some (.ofInt n) else none
  | _ => none

def Json.asU64 : Json → Option UInt64
  | .int n => if 0 ≤ n ∧ n < 18446744073709551616 then some (.ofNat n.toNat) else none
  | _ => none

def Json.asF64 : Json → Option F64
  | .int n => some (.ofInt n)
  | .float f => some f
  | _ => none

def Json.asArray : Json → Option (List Json)
  | .arr items => some items
  | _ => none

/-! ## Writing -/

/-- `{:0width}`: zeros between the sign and the digits. -/
def zeroPadded (width : Nat) (n : Int) : Text :=
  let sign := if n < 0 then ['-'] else []
  let digits := (Nat.repr n.natAbs).toList
  sign ++ List.replicate (width - sign.length - digits.length) '0' ++ digits

def dateText (year : Int32) (month day : UInt8) : Text :=
  zeroPadded 4 year.toInt ++ '-' :: zeroPadded 2 month.toNat ++ '-' :: zeroPadded 2 day.toNat

def timeText (hour min sec : UInt8) (nano : UInt32) : Text :=
  zeroPadded 2 hour.toNat ++ ':' :: zeroPadded 2 min.toNat ++ ':' :: zeroPadded 2 sec.toNat ++
    if nano > 0 then '.' :: zeroPadded 9 nano.toNat else []

example : dateText (-5) 2 30 = "-005-02-30".toList := by decide +kernel

section

variable (X : JsonExtern)

mutual

def toJson : Value → Json
  | .null => .null
  | .bool b => .bool b
  | .int8 v => .int v.toInt
  | .int16 v => .int v.toInt
  | .int32 v => .int v.toInt
  | .int64 v => .int v.toInt
  | .uint8 v => .int v.toNat
  | .uint16 v => .int v.toNat
  | .uint32 v => .int v.toNat
  | .uint64 v => .int v.toNat
  | .float32 v => .float (finiteOrZero v.toF64)
  | .float64 v => .float (finiteOrZero v)
  | .string s => .str s
  | .binary b => .arr (b.map fun x => .int x.toNat)
  | .date year month day => .str (dateText year month day)
  | .time hour min sec nano => .str (timeText hour min sec nano)
  | .dateTime secs nsecs => .obj [("secs", .int secs.toInt), ("nsecs", .int nsecs.toNat)]
  | .duration nanos => .obj [("nanos", .int nanos.toInt)]
  | .timestamp ts => .int ts.toInt
  | .decimal value precision scale =>
    .obj [("value", .str ((hexDigits 32 value.toNat).map hexChar)),
      ("precision", .int precision.toNat), ("scale", .int scale.toNat)]
  | .array items => .arr (itemsToJson items)
  | .object map => .obj (entriesToJson map)
  | .map map => .obj (entriesToJson map)
  | .reference collection id =>
    .obj [("$ref", .str (collection ++ '/' :: X.uuid.display id)),
      ("collection", .str collection), ("id", .str (X.uuid.display id))]
  | .geoPoint lat lon =>
    .obj [("type", .str "Point".toList),
      ("coordinates", .arr [.float (finiteOrZero lon), .float (finiteOrZero lat)])]
  | .geoShape geom => (X.shapeToValue geom).getD .null
  | .vector vec => .arr (vec.map fun x => .float (finiteOrZero x.toF64))

def itemsToJson : List Value → List Json
  | [] => []
  | item :: items => toJson item :: itemsToJson items

def entryToJson : Text × Value → String × Json
  | (key, val) => (.ofList key, toJson val)

def entriesToJson : List (Text × Value) → List (String × Json)
  | [] => []
  | e :: map => entryToJson e :: entriesToJson map

end

/-! ## Reading -/

/-- `Map::get`. -/
def getMember (name : String) (map : List (String × Json)) : Option Json :=
  (map.find? fun m => m.1 == name).map Prod.snd

def containsKey (map : List (String × Json)) (name : String) : Bool := map.any fun m => m.1 == name

/-- `Number`s of both kinds. -/
def ofNumberJson (n : Json) : Outcome JsonError Value :=
  match Json.asI64 n with
  | some i =>
    match Json.asU64 n with
    | some u => if u ≤ 9223372036854775807 then .ok (.int64 i) else .ok (.uint64 u)
    | none => .ok (.int64 i)
  | none =>
    match Json.asF64 n with
    | some f => .ok (.float64 f)
    | none => .err (.message "Invalid number")

def timestampOf (map : List (String × Json)) : Outcome JsonError Value :=
  match (getMember "$timestamp" map).bind Json.asI64 with
  | some ts => .ok (.timestamp ts)
  | none => .err (.message "$timestamp must be an i64")

def referenceOf (map : List (String × Json)) : Outcome JsonError Value :=
  let collection := ((getMember "collection" map).bind Json.asText).getD []
  let id := ((getMember "id" map).bind Json.asText).getD []
  match X.uuid.parseStr (utf8 id) with
  | some uuid => .ok (.reference collection uuid)
  | none => .err .foreign

def pointOf (map : List (String × Json)) : Outcome JsonError Value :=
  match (getMember "coordinates" map).bind Json.asArray with
  | some (lon :: lat :: _) =>
    .ok (.geoPoint ((Json.asF64 lat).getD .zero) ((Json.asF64 lon).getD .zero))
  | _ => .err (.message "Invalid GeoPoint coordinates")

def shapeOf (map : List (String × Json)) : Outcome JsonError Value :=
  match X.shapeFromValue (.obj map) with
  | some geom => .ok (.geoShape geom)
  | none => .err .foreign

def dateTimeOf (map : List (String × Json)) : Value :=
  .dateTime (((getMember "secs" map).bind Json.asI64).getD 0)
    (((getMember "nsecs" map).bind Json.asU64).getD 0).toUInt32

def shapeTypes : List Text :=
  ["MultiPoint", "LineString", "MultiLineString", "Polygon", "MultiPolygon",
    "GeometryCollection"].map String.toList

/-- An object, by its keys in this order; `plain` is the object read member by member. -/
def ofMembers (map : List (String × Json)) (plain : Outcome JsonError Value) :
    Outcome JsonError Value :=
  let dated := if containsKey map "secs" ∧ containsKey map "nsecs" then .ok (dateTimeOf map) else plain
  if containsKey map "$timestamp" then timestampOf map
  else if containsKey map "$ref" then referenceOf X map
  else
    match (getMember "type" map).bind Json.asText with
    | some geomType =>
      if geomType = "Point".toList then pointOf map
      else if geomType ∈ shapeTypes then shapeOf X map
      else dated
    | none => dated

mutual

def fromJson : Json → Outcome JsonError Value
  | .null => .ok .null
  | .bool b => .ok (.bool b)
  | .int n => ofNumberJson (.int n)
  | .float f => ofNumberJson (.float f)
  | .str s => .ok (.string s)
  | .arr items => do
      let values ← itemsFromJson items
      pure (.array values)
  | .obj map => ofMembers X map do
      let values ← entriesFromJson map
      pure (.object (values.foldl (fun map e => insertEntry e.1 e.2 map) []))

def itemsFromJson : List Json → Outcome JsonError (List Value)
  | [] => pure []
  | item :: items => do
      let first ← fromJson item
      let rest ← itemsFromJson items
      pure (first :: rest)

def entryFromJson : String × Json → Outcome JsonError (Text × Value)
  | (k, v) => do
      let value ← fromJson v
      pure (k.toList, value)

def entriesFromJson : List (String × Json) → Outcome JsonError (List (Text × Value))
  | [] => pure []
  | e :: map => do
      let first ← entryFromJson e
      let rest ← entriesFromJson map
      pure (first :: rest)

end

/-! ## What changes -/

/-- The number that an integer is read as: above `i64` the nearest float. -/
def readNumber (n : Int) : Value :=
  if n < 9223372036854775808 then .int64 (.ofInt n) else .float64 (.ofInt n)

mutual

/-- A document with its integers above `i64` rounded. -/
def rounded : Json → Json
  | .int n => if n < 9223372036854775808 then .int n else .float (.ofInt n)
  | .arr items => .arr (roundedItems items)
  | .obj map => .obj (roundedEntries map)
  | j => j

def roundedItems : List Json → List Json
  | [] => []
  | item :: items => rounded item :: roundedItems items

def roundedEntry : String × Json → String × Json
  | (k, v) => (k, rounded v)

def roundedEntries : List (String × Json) → List (String × Json)
  | [] => []
  | e :: map => roundedEntry e :: roundedEntries map

end

mutual

/-- The integers of a document, at any depth. -/
def integers : Json → List Int
  | .int n => [n]
  | .arr items => integersOfItems items
  | .obj map => integersOfEntries map
  | _ => []

def integersOfItems : List Json → List Int
  | [] => []
  | item :: items => integers item ++ integersOfItems items

def integersOfEntry : String × Json → List Int
  | (_, v) => integers v

def integersOfEntries : List (String × Json) → List Int
  | [] => []
  | e :: map => integersOfEntry e ++ integersOfEntries map

end

mutual

/-- A value as JSON gives it back. -/
def reread : Value → Value
  | .int8 v => readNumber v.toInt
  | .int16 v => readNumber v.toInt
  | .int32 v => readNumber v.toInt
  | .int64 v => readNumber v.toInt
  | .uint8 v => readNumber v.toNat
  | .uint16 v => readNumber v.toNat
  | .uint32 v => readNumber v.toNat
  | .uint64 v => readNumber v.toNat
  | .float32 v => .float64 (finiteOrZero v.toF64)
  | .float64 v => .float64 (finiteOrZero v)
  | .binary b => .array (b.map fun x => readNumber x.toNat)
  | .date year month day => .string (dateText year month day)
  | .time hour min sec nano => .string (timeText hour min sec nano)
  | .duration nanos => .object [("nanos".toList, readNumber nanos.toInt)]
  | .decimal value precision scale =>
    .object [("value".toList, .string ((hexDigits 32 value.toNat).map hexChar)),
      ("precision".toList, readNumber precision.toNat), ("scale".toList, readNumber scale.toNat)]
  | .array items => .array (rereadItems items)
  | .object map => .object (rereadEntries map)
  | .map map => .object (rereadEntries map)
  | .vector vec => .array (vec.map fun x => .float64 (finiteOrZero x.toF64))
  | value => value

def rereadItems : List Value → List Value
  | [] => []
  | item :: items => reread item :: rereadItems items

def rereadEntry : Text × Value → Text × Value
  | (key, val) => (key, reread val)

def rereadEntries : List (Text × Value) → List (Text × Value)
  | [] => []
  | e :: map => rereadEntry e :: rereadEntries map

end

/-! ## Documents and values without reserved keys -/

/-- The keys by which the reader knows the special kinds. -/
def Reserved (keys : List String) : Prop :=
  "$timestamp" ∈ keys ∨ "$ref" ∈ keys ∨ "type" ∈ keys ∨ "secs" ∈ keys ∧ "nsecs" ∈ keys

instance (keys : List String) : Decidable (Reserved keys) := by unfold Reserved; infer_instance

/-- Documents of integers of 64 bits and finite floats, without reserved keys. -/
inductive Plain : Json → Prop where
  | null : Plain .null
  | bool (b : Bool) : Plain (.bool b)
  | int {n : Int} (low : -9223372036854775808 ≤ n) (high : n < 18446744073709551616) : Plain (.int n)
  | float {f : F64} (finite : f.isFinite = true) : Plain (.float f)
  | str (s : Text) : Plain (.str s)
  | arr {items : List Json} (each : ∀ item ∈ items, Plain item) : Plain (.arr items)
  | obj {map : List (String × Json)} (distinct : (map.map Prod.fst).Nodup)
      (unreserved : ¬ Reserved (map.map Prod.fst)) (each : ∀ e ∈ map, Plain e.2) : Plain (.obj map)

/-- Kinds without values inside, but for timestamps, points and shapes. -/
def isScalar : Value → Bool
  | .timestamp _ => false
  | .geoPoint .. => false
  | .geoShape _ => false
  | .array _ => false
  | .object _ => false
  | .map _ => false
  | _ => true

/-- Values without timestamps and shapes, with finite points, and without reserved keys. -/
inductive Readable : Value → Prop where
  | scalar {value : Value} (kind : isScalar value = true) : Readable value
  | geoPoint {lat lon : F64} (latFinite : lat.isFinite = true) (lonFinite : lon.isFinite = true) :
      Readable (.geoPoint lat lon)
  | array {items : List Value} (each : ∀ item ∈ items, Readable item) : Readable (.array items)
  | object {map : List (Text × Value)} (distinct : (map.map Prod.fst).Nodup)
      (unreserved : ¬ Reserved (map.map fun e => .ofList e.1)) (each : ∀ e ∈ map, Readable e.2) :
      Readable (.object map)
  | map {map : List (Text × Value)} (distinct : (map.map Prod.fst).Nodup)
      (unreserved : ¬ Reserved (map.map fun e => .ofList e.1)) (each : ∀ e ∈ map, Readable e.2) :
      Readable (.map map)

mutual

/-- Of kinds that JSON tells apart, at every depth. -/
def toldApart : Value → Bool
  | .null => true
  | .bool _ => true
  | .int64 _ => true
  | .float64 f => f.isFinite
  | .string _ => true
  | .dateTime .. => true
  | .reference .. => true
  | .geoPoint .. => true
  | .array items => itemsToldApart items
  | .object map => entriesToldApart map
  | _ => false

def itemsToldApart : List Value → Bool
  | [] => true
  | item :: items => toldApart item && itemsToldApart items

def entryToldApart : Text × Value → Bool
  | (_, val) => toldApart val

def entriesToldApart : List (Text × Value) → Bool
  | [] => true
  | e :: map => entryToldApart e && entriesToldApart map

end

/-! ## Reading a document -/

variable {X}
variable {map : List (String × Json)}

theorem containsKey_iff {name : String} :
    containsKey map name = true ↔ name ∈ map.map Prod.fst := by
  simp [containsKey]

theorem getMember_eq_none {name : String}
    (absent : name ∉ map.map Prod.fst) : getMember name map = none := by
  rw [getMember, Option.map_eq_none_iff, List.find?_eq_none]
  intro m member same
  exact absent (List.mem_map.mpr ⟨m, member, by simpa using same⟩)

/-- Without a reserved key, an object is read member by member. -/
theorem ofMembers_of_unreserved (plain : Outcome JsonError Value)
    (unreserved : ¬ Reserved (map.map Prod.fst)) : ofMembers X map plain = plain := by
  simp only [Reserved, not_or, not_and] at unreserved
  obtain ⟨timestamp, ref, type, dated⟩ := unreserved
  have noDate : ¬ (containsKey map "secs" = true ∧ containsKey map "nsecs" = true) := by
    rw [containsKey_iff, containsKey_iff]
    exact fun both => dated both.1 both.2
  rw [ofMembers, if_neg noDate, if_neg (containsKey_iff.not.mpr timestamp),
    if_neg (containsKey_iff.not.mpr ref), getMember_eq_none type]
  rfl

theorem ofNumberJson_int {n : Int} (low : -9223372036854775808 ≤ n)
    (high : n < 18446744073709551616) : ofNumberJson (.int n) = .ok (readNumber n) := by
  unfold ofNumberJson readNumber Json.asI64 Json.asU64 Json.asF64
  by_cases small : n < 9223372036854775808
  · simp only [low, small, and_self, if_true]
    by_cases nonneg : 0 ≤ n
    · have within : UInt64.ofNat n.toNat ≤ 9223372036854775807 := by
        rw [UInt64.le_iff_toNat_le, UInt64.toNat_ofNat']
        show n.toNat % 2 ^ 64 ≤ 9223372036854775807
        omega
      simp only [nonneg, high, and_self, if_true, within]
    · simp only [nonneg, false_and, if_false]
  · simp only [small, and_false, if_false]

theorem fromJson_int {n : Int} (low : -9223372036854775808 ≤ n)
    (high : n < 18446744073709551616) : fromJson X (.int n) = .ok (readNumber n) := by
  rw [fromJson, ofNumberJson_int low high]

theorem fromJson_float (f : F64) : fromJson X (.float f) = .ok (.float64 f) := rfl

theorem finiteOrZero_of_finite {f : F64} (finite : f.isFinite = true) : finiteOrZero f = f := by
  rw [finiteOrZero, if_pos finite]

/-- A number is written as the document that it was read from, but for the rounding. -/
theorem toJson_readNumber {n : Int} (low : -9223372036854775808 ≤ n)
    (high : n < 18446744073709551616) : toJson X (readNumber n) = rounded (.int n) := by
  rw [readNumber, rounded]
  split
  next small => rw [toJson, Int64.toInt_ofInt_of_le low (by omega)]
  next large =>
    have finite : (F64.ofInt n).isFinite = true := by
      rw [F64.ofInt, if_pos (by omega)]
      exact F64.isFinite_ofNat (by omega)
    rw [toJson, finiteOrZero_of_finite finite]

/-- A document is read as a value that is written as it. -/
def Faithful (X : JsonExtern) (j : Json) : Prop :=
  ∃ v, fromJson X j = .ok v ∧ toJson X v = rounded j

theorem faithful_items {items : List Json} (each : ∀ item ∈ items, Faithful X item) :
    ∃ values, itemsFromJson X items = .ok values ∧ itemsToJson X values = roundedItems items := by
  induction items with
  | nil => exact ⟨[], rfl, rfl⟩
  | cons item items ih =>
    obtain ⟨first, readFirst, writtenFirst⟩ := each item (.head _)
    obtain ⟨rest, readRest, writtenRest⟩ := ih fun item later => each item (.tail _ later)
    refine ⟨first :: rest, ?_, ?_⟩
    · rw [itemsFromJson, readFirst, Outcome.ok_bind, readRest]
      rfl
    · rw [itemsToJson, roundedItems, writtenFirst, writtenRest]

theorem faithful_entries (each : ∀ e ∈ map, Faithful X e.2) :
    ∃ values, entriesFromJson X map = .ok values ∧ entriesToJson X values = roundedEntries map ∧
      values.map Prod.fst = map.map fun e => e.1.toList := by
  induction map with
  | nil => exact ⟨[], rfl, rfl, rfl⟩
  | cons e map ih =>
    obtain ⟨k, v⟩ := e
    obtain ⟨first, readFirst, writtenFirst⟩ := each (k, v) (.head _)
    obtain ⟨rest, readRest, writtenRest, keys⟩ := ih fun e later => each e (.tail _ later)
    refine ⟨(k.toList, first) :: rest, ?_, ?_, ?_⟩
    · rw [entriesFromJson, entryFromJson, readFirst, Outcome.ok_bind, readRest]
      rfl
    · rw [entriesToJson, roundedEntries, entryToJson, roundedEntry, writtenFirst, writtenRest,
        String.ofList_toList]
    · rw [List.map_cons, List.map_cons, keys]

/-- The keys of an object are inserted one after the other into an empty map. -/
theorem insert_all {values : List (Text × Value)} (distinct : (values.map Prod.fst).Nodup) :
    values.foldl (fun map e => insertEntry e.1 e.2 map) [] = values := by
  rw [foldl_insertEntry (by simpa using distinct), List.nil_append]

/-- An object without reserved keys, when its members are read. -/
theorem fromJson_obj {values : List (Text × Value)}
    (unreserved : ¬ Reserved (map.map Prod.fst)) (read : entriesFromJson X map = .ok values)
    (distinct : (values.map Prod.fst).Nodup) : fromJson X (.obj map) = .ok (.object values) := by
  rw [fromJson, ofMembers_of_unreserved _ unreserved, read, Outcome.ok_bind, insert_all distinct]
  rfl

theorem Plain.faithful {j : Json} (plain : Plain j) : Faithful X j := by
  induction plain with
  | null | bool b => exact ⟨_, rfl, rfl⟩
  | int low high => exact ⟨_, fromJson_int low high, toJson_readNumber low high⟩
  | @float f finite => exact ⟨_, fromJson_float f, by rw [toJson, finiteOrZero_of_finite finite]; rfl⟩
  | str s => exact ⟨_, rfl, rfl⟩
  | arr _ each =>
    obtain ⟨values, read, written⟩ := faithful_items each
    refine ⟨.array values, ?_, by rw [toJson, written, rounded]⟩
    rw [fromJson, read]
    rfl
  | @obj map distinct unreserved _ each =>
    obtain ⟨values, read, written, keys⟩ := faithful_entries each
    have fresh : (values.map Prod.fst).Nodup := by
      rw [keys, ← Function.comp_def, ← List.map_map]
      exact List.Nodup.map (fun _ _ same => String.toList_injective same) distinct
    exact ⟨.object values, fromJson_obj unreserved read fresh, by rw [toJson, written, rounded]⟩

/-! ### Where nothing is rounded -/

theorem roundedItems_eq_iff {items : List Json}
    (each : ∀ item ∈ items, rounded item = item ↔ ∀ n ∈ integers item, n < 9223372036854775808) :
    roundedItems items = items ↔ ∀ n ∈ integersOfItems items, n < 9223372036854775808 := by
  induction items with
  | nil => simp [roundedItems, integersOfItems]
  | cons item items ih =>
    rw [roundedItems, integersOfItems, List.cons_eq_cons, each item (.head _),
      ih fun item later => each item (.tail _ later)]
    simp only [List.mem_append, or_imp, forall_and]

theorem roundedEntries_eq_iff
    (each : ∀ e ∈ map, rounded e.2 = e.2 ↔ ∀ n ∈ integers e.2, n < 9223372036854775808) :
    roundedEntries map = map ↔ ∀ n ∈ integersOfEntries map, n < 9223372036854775808 := by
  induction map with
  | nil => simp [roundedEntries, integersOfEntries]
  | cons e map ih =>
    obtain ⟨k, v⟩ := e
    have here : (k, rounded v) = (k, v) ↔ ∀ n ∈ integers v, n < 9223372036854775808 := by
      rw [Prod.mk.injEq, each (k, v) (.head _)]
      simp
    rw [roundedEntries, roundedEntry, integersOfEntries, integersOfEntry, List.cons_eq_cons, here,
      ih fun e later => each e (.tail _ later)]
    simp only [List.mem_append, or_imp, forall_and]

/-- A document without an integer above `i64` stays as it is, and no other does. -/
theorem Plain.rounded_eq_iff {j : Json} (plain : Plain j) :
    rounded j = j ↔ ∀ n ∈ integers j, n < 9223372036854775808 := by
  induction plain with
  | @int n low high =>
    simp only [rounded, integers, List.mem_singleton, forall_eq]
    split <;> simp_all
  | arr _ each => simp only [rounded, integers, Json.arr.injEq, roundedItems_eq_iff each]
  | obj _ _ _ each => simp only [rounded, integers, Json.obj.injEq, roundedEntries_eq_iff each]
  | _ => simp [rounded, integers]

/-! ## Writing a value and reading it back -/

/-- A value is written as a document that is read as it, but for the kinds. -/
def Returns (X : JsonExtern) (v : Value) : Prop := fromJson X (toJson X v) = .ok (reread v)

theorem returns_items {items : List Value} (each : ∀ item ∈ items, Returns X item) :
    itemsFromJson X (itemsToJson X items) = .ok (rereadItems items) := by
  induction items with
  | nil => rfl
  | cons item items ih =>
    have first : fromJson X (toJson X item) = .ok (reread item) := each item (.head _)
    rw [itemsToJson, itemsFromJson, first, Outcome.ok_bind,
      ih fun item later => each item (.tail _ later)]
    rfl

theorem returns_entries {map : List (Text × Value)} (each : ∀ e ∈ map, Returns X e.2) :
    entriesFromJson X (entriesToJson X map) = .ok (rereadEntries map) := by
  induction map with
  | nil => rfl
  | cons e map ih =>
    obtain ⟨key, val⟩ := e
    have first : fromJson X (toJson X val) = .ok (reread val) := each (key, val) (.head _)
    rw [entriesToJson, entriesFromJson, entryToJson, entryFromJson, first, Outcome.ok_bind,
      ih fun e later => each e (.tail _ later)]
    simp only [Outcome.pure_eq, Outcome.ok_bind, String.toList_ofList]
    rfl

theorem keys_entriesToJson (map : List (Text × Value)) :
    (entriesToJson X map).map Prod.fst = map.map fun e => .ofList e.1 := by
  induction map with
  | nil => rfl
  | cons e map ih =>
    obtain ⟨key, val⟩ := e
    rw [entriesToJson, List.map_cons, List.map_cons, ih, entryToJson]

theorem keys_rereadEntries (map : List (Text × Value)) :
    (rereadEntries map).map Prod.fst = map.map Prod.fst := by
  induction map with
  | nil => rfl
  | cons e map ih =>
    obtain ⟨key, val⟩ := e
    rw [rereadEntries, List.map_cons, List.map_cons, ih, rereadEntry]

/-- A map without reserved keys comes back as an object. -/
theorem fromJson_entriesToJson {map : List (Text × Value)} (distinct : (map.map Prod.fst).Nodup)
    (unreserved : ¬ Reserved (map.map fun e => .ofList e.1)) (each : ∀ e ∈ map, Returns X e.2) :
    fromJson X (.obj (entriesToJson X map)) = .ok (.object (rereadEntries map)) := by
  rw [← keys_entriesToJson (X := X)] at unreserved
  rw [← keys_rereadEntries] at distinct
  exact fromJson_obj unreserved (returns_entries each) distinct

theorem itemsFromJson_map {A : Type} {write : A → Json} {read : A → Value} {items : List A}
    (each : ∀ x, fromJson X (write x) = .ok (read x)) :
    itemsFromJson X (items.map write) = .ok (items.map read) := by
  induction items with
  | nil => rfl
  | cons x items ih =>
    rw [List.map_cons, itemsFromJson, each x, Outcome.ok_bind, ih]
    rfl

theorem fromJson_arr_map {A : Type} {write : A → Json} {read : A → Value} {items : List A}
    (each : ∀ x, fromJson X (write x) = .ok (read x)) :
    fromJson X (.arr (items.map write)) = .ok (.array (items.map read)) := by
  rw [fromJson, itemsFromJson_map each]
  rfl

theorem dateTimeOf_members (secs : Int64) (nsecs : UInt32) :
    dateTimeOf [("secs", .int secs.toInt), ("nsecs", .int nsecs.toNat)] = .dateTime secs nsecs := by
  have low := secs.le_toInt
  have high := secs.toInt_lt
  have bound := nsecs.toNat_lt
  have first : getMember "secs" [("secs", .int secs.toInt), ("nsecs", .int nsecs.toNat)] =
      some (.int secs.toInt) := by simp [getMember]
  have second : getMember "nsecs" [("secs", .int secs.toInt), ("nsecs", .int nsecs.toNat)] =
      some (.int nsecs.toNat) := by simp [getMember]
  have signed : Json.asI64 (.int secs.toInt) = some secs := by
    rw [Json.asI64, if_pos ⟨by omega, by omega⟩, Int64.ofInt_toInt]
  have unsigned : Json.asU64 (.int nsecs.toNat) = some (.ofNat nsecs.toNat) := by
    rw [Json.asU64, if_pos ⟨by omega, by omega⟩, Int.toNat_natCast]
  rw [dateTimeOf, first, second, Option.bind_some, Option.bind_some, signed, unsigned]
  simp

theorem returns_reference (parses : ∀ id, X.uuid.parseStr (utf8 (X.uuid.display id)) = some id)
    (collection : Text) (id : Bytes16) : Returns X (.reference collection id) := by
  show referenceOf X _ = _
  unfold referenceOf
  simp [getMember, Json.asText, parses]
  rfl

theorem returns_geoPoint {lat lon : F64} (latFinite : lat.isFinite = true)
    (lonFinite : lon.isFinite = true) : Returns X (.geoPoint lat lon) := by
  rw [Returns, toJson, finiteOrZero_of_finite latFinite, finiteOrZero_of_finite lonFinite]
  rfl

theorem returns_duration (nanos : Int64) : Returns X (.duration nanos) := by
  have low := nanos.le_toInt
  have high := nanos.toInt_lt
  have read : fromJson X (.int nanos.toInt) = .ok (readNumber nanos.toInt) := fromJson_int low (by omega)
  rw [Returns, toJson, reread]
  refine fromJson_obj ?_ ?_ ?_
  · simp [Reserved]
  · rw [entriesFromJson, entryFromJson, read]
    rfl
  · simp

theorem returns_decimal (value : Bytes16) (precision scale : UInt8) :
    Returns X (.decimal value precision scale) := by
  have read (n : UInt8) : fromJson X (.int n.toNat) = .ok (readNumber n.toNat) :=
    fromJson_int (by omega) (by have := n.toNat_lt; omega)
  have text (s : Text) : fromJson X (.str s) = .ok (.string s) := rfl
  rw [Returns, toJson, reread]
  refine fromJson_obj ?_ ?_ ?_
  · simp [Reserved]
  · simp only [entriesFromJson, entryFromJson, read, text, Outcome.ok_bind, Outcome.pure_eq]
  · simp

theorem Readable.returns (parses : ∀ id, X.uuid.parseStr (utf8 (X.uuid.display id)) = some id)
    {value : Value} (readable : Readable value) : Returns X value := by
  induction readable with
  | @scalar value kind =>
    cases value with
    | int8 v | int16 v | int32 v | int64 v =>
      exact fromJson_int (by have := v.le_toInt; omega) (by have := v.toInt_lt; omega)
    | uint8 v | uint16 v | uint32 v | uint64 v =>
      exact fromJson_int (by omega) (by have := v.toNat_lt; omega)
    | binary b =>
      exact fromJson_arr_map fun x => fromJson_int (by omega) (by have := x.toNat_lt; omega)
    | dateTime secs nsecs => exact congrArg Outcome.ok (dateTimeOf_members secs nsecs)
    | duration nanos => exact returns_duration nanos
    | decimal value precision scale => exact returns_decimal value precision scale
    | reference collection id => exact returns_reference parses collection id
    | vector vec => exact fromJson_arr_map fun _ => rfl
    | timestamp _ | geoPoint _ _ | geoShape _ | array _ | object _ | map _ => cases kind
    | _ => rfl
  | geoPoint latFinite lonFinite => exact returns_geoPoint latFinite lonFinite
  | array _ each =>
    rw [Returns, toJson, fromJson, returns_items each]
    rfl
  | object distinct unreserved _ each | map distinct unreserved _ each =>
    rw [Returns, toJson, fromJson_entriesToJson distinct unreserved each, reread]

/-! ### Where nothing is renamed -/

mutual

theorem reread_of_toldApart : (value : Value) → toldApart value = true → reread value = value
  | .null, _ => rfl
  | .bool _, _ => rfl
  | .int64 v, _ => by
      have small : v.toInt < 9223372036854775808 := v.toInt_lt
      rw [reread, readNumber, if_pos small, Int64.ofInt_toInt]
  | .float64 _, finite => by
      rw [reread, finiteOrZero_of_finite finite]
  | .string _, _ => rfl
  | .dateTime .., _ => rfl
  | .reference .., _ => rfl
  | .geoPoint .., _ => rfl
  | .array items, each => by
      rw [reread, rereadItems_of_toldApart items each]
  | .object map, each => by
      rw [reread, rereadEntries_of_toldApart map each]

theorem rereadItems_of_toldApart :
    (items : List Value) → itemsToldApart items = true → rereadItems items = items
  | [], _ => rfl
  | item :: items, each => by
      rw [itemsToldApart, Bool.and_eq_true] at each
      rw [rereadItems, reread_of_toldApart item each.1, rereadItems_of_toldApart items each.2]

theorem rereadEntry_of_toldApart :
    (e : Text × Value) → entryToldApart e = true → rereadEntry e = e
  | (_, val), apart => by
      rw [rereadEntry, reread_of_toldApart val apart]

theorem rereadEntries_of_toldApart :
    (map : List (Text × Value)) → entriesToldApart map = true → rereadEntries map = map
  | [], _ => rfl
  | e :: map, each => by
      rw [entriesToldApart, Bool.and_eq_true] at each
      rw [rereadEntries, rereadEntry_of_toldApart e each.1, rereadEntries_of_toldApart map each.2]

end

/-- **JSON changes nothing but** integers above `i64`, which become the nearest floats, and
the kinds that it does not tell apart. -/
theorem json_faithful (parses : ∀ id, X.uuid.parseStr (utf8 (X.uuid.display id)) = some id) :
    (∀ j, Plain j → ∃ v, fromJson X j = .ok v ∧ toJson X v = rounded j ∧
      (toJson X v = j ↔ ∀ n ∈ integers j, n < 9223372036854775808)) ∧
    ∀ v, Readable v → fromJson X (toJson X v) = .ok (reread v) ∧
      (toldApart v = true → fromJson X (toJson X v) = .ok v) := by
  refine ⟨fun j plain => ?_, fun v readable => ?_⟩
  · obtain ⟨v, read, written⟩ := plain.faithful (X := X)
    refine ⟨v, read, written, ?_⟩
    rw [written]
    exact plain.rounded_eq_iff
  · have returns : fromJson X (toJson X v) = .ok (reread v) := readable.returns parses
    refine ⟨returns, fun apart => ?_⟩
    rw [returns, reread_of_toldApart v apart]

/-- No geometries. -/
def JsonExtern.noShapes : JsonExtern := ⟨.hyphenated, fun _ => none, fun _ => none⟩

def sampleJson : Json :=
  .obj [("n", .arr [.int 5, .int 18446744073709551615, .float ⟨0x3FF8000000000000⟩]), ("secs", .null)]

def sampleDocument : Value :=
  .array [.object [("at".toList, .dateTime (-5) 7), ("by".toList, .reference "users".toList 16)],
    .geoPoint ⟨0x3FF8000000000000⟩ ⟨0xC000000000000000⟩]

theorem json_faithful_sample :
    (∃ v, fromJson .noShapes sampleJson = .ok v ∧ toJson .noShapes v = rounded sampleJson ∧
      (toJson .noShapes v = sampleJson ↔ ∀ n ∈ integers sampleJson, n < 9223372036854775808)) ∧
    fromJson .noShapes (toJson .noShapes sampleDocument) = .ok sampleDocument := by
  have faithful := json_faithful (X := .noShapes) Queue.UuidText.laws_hyphenated.parse_display
  refine ⟨faithful.1 sampleJson (.obj (by decide) (by decide) ?_),
    (faithful.2 sampleDocument (.array ?_)).2 (by decide)⟩
  · intro e member
    simp only [List.mem_cons, List.not_mem_nil, or_false] at member
    rcases member with rfl | rfl
    · refine .arr fun item member => ?_
      simp only [List.mem_cons, List.not_mem_nil, or_false] at member
      rcases member with rfl | rfl | rfl
      · exact .int (by decide) (by decide)
      · exact .int (by decide) (by decide)
      · exact .float (by decide)
    · exact .null
  · intro item member
    simp only [List.mem_cons, List.not_mem_nil, or_false] at member
    rcases member with rfl | rfl
    · refine .object (by decide) (by decide) fun e member => ?_
      simp only [List.mem_cons, List.not_mem_nil, or_false] at member
      rcases member with rfl | rfl
      · exact .scalar rfl
      · exact .scalar rfl
    · exact .geoPoint (by decide) (by decide)

/-- The largest `u64` is read as a float. -/
theorem not_json_faithful : Plain (.int 18446744073709551615) ∧
    ¬ ∃ v, fromJson .noShapes (.int 18446744073709551615) = .ok v ∧
      toJson .noShapes v = .int 18446744073709551615 := by
  refine ⟨.int (by decide) (by decide), ?_⟩
  rintro ⟨v, read, written⟩
  have float : fromJson .noShapes (.int 18446744073709551615) =
      .ok (.float64 ⟨0x43F0000000000000⟩) := by rfl
  rw [float, Outcome.ok.injEq] at read
  subst read
  cases written

end

end NovaRuntime.Object
