/-
# NovaRuntime.Object.Types — values of documents

`Value` and `GeoJsonGeometry` of `nova_object::types`. A float is its bit pattern. Sixteen
bytes are one number, the first byte its highest. A `HashMap` is the list of its entries in
the order it iterates over them: the keys are distinct, and the order is no part of the
map. What a document holds is checked against in `Object.Schema`.
-/
import NovaRuntime.Library.F64
import NovaRuntime.Library.MsgPack
import NovaRuntime.Library.Outcome
import NovaRuntime.Library.Text

namespace NovaRuntime.Object

open NovaRuntime.Library

set_option autoImplicit false

/-- A 32-bit float. -/
structure F32 where
  bits : UInt32
  deriving DecidableEq

abbrev Bytes16 := BitVec 128

/-- Longitude and latitude. -/
abbrev Position := F64 × F64

inductive GeoJsonGeometry where
  | point (coordinates : Position)
  | multiPoint (coordinates : List Position)
  | lineString (coordinates : List Position)
  | multiLineString (coordinates : List (List Position))
  | polygon (coordinates : List (List Position))
  | multiPolygon (coordinates : List (List (List Position)))
  | geometryCollection (geometries : List GeoJsonGeometry)

inductive Value where
  | null
  | bool (b : Bool)
  | int8 (v : Int8)
  | int16 (v : Int16)
  | int32 (v : Int32)
  | int64 (v : Int64)
  | uint8 (v : UInt8)
  | uint16 (v : UInt16)
  | uint32 (v : UInt32)
  | uint64 (v : UInt64)
  | float32 (v : F32)
  | float64 (v : F64)
  | string (s : Text)
  | binary (b : Bytes)
  | date (year : Int32) (month day : UInt8)
  | time (hour min sec : UInt8) (nano : UInt32)
  | dateTime (secs : Int64) (nsecs : UInt32)
  | duration (nanos : Int64)
  | timestamp (ts : Int64)
  | decimal (value : Bytes16) (precision scale : UInt8)
  | array (items : List Value)
  | object (map : List (Text × Value))
  | map (map : List (Text × Value))
  | reference (collection : Text) (id : Bytes16)
  | geoPoint (lat lon : F64)
  | geoShape (geom : GeoJsonGeometry)
  | vector (vec : List F32)

def Value.typeName : Value → String
  | .null => "null"
  | .bool _ => "bool"
  | .int8 _ => "int8"
  | .int16 _ => "int16"
  | .int32 _ => "int32"
  | .int64 _ => "int64"
  | .uint8 _ => "uint8"
  | .uint16 _ => "uint16"
  | .uint32 _ => "uint32"
  | .uint64 _ => "uint64"
  | .float32 _ => "float32"
  | .float64 _ => "float64"
  | .string _ => "string"
  | .binary _ => "binary"
  | .date .. => "date"
  | .time .. => "time"
  | .dateTime .. => "datetime"
  | .duration _ => "duration"
  | .timestamp _ => "timestamp"
  | .decimal .. => "decimal"
  | .array _ => "array"
  | .object _ => "object"
  | .map _ => "map"
  | .reference .. => "reference"
  | .geoPoint .. => "geopoint"
  | .geoShape _ => "geo_shape"
  | .vector _ => "vector"

section Maps

variable {V : Type}

/-- `HashMap::insert`. -/
def insertEntry (key : Text) (value : V) : List (Text × V) → List (Text × V)
  | [] => [(key, value)]
  | e :: map => if e.1 = key then (key, value) :: map else e :: insertEntry key value map

/-- A new key goes to the end. -/
theorem insertEntry_of_fresh {key : Text} (value : V) {map : List (Text × V)}
    (fresh : key ∉ map.map Prod.fst) : insertEntry key value map = map ++ [(key, value)] := by
  induction map with
  | nil => rfl
  | cons e map ih =>
    rw [List.map_cons, List.mem_cons, not_or] at fresh
    rw [insertEntry, if_neg (Ne.symm fresh.1), ih fresh.2, List.cons_append]

/-- **Distinct keys that are inserted in turn** are the map they came from. -/
theorem foldl_insertEntry {entries map : List (Text × V)}
    (distinct : ((map ++ entries).map Prod.fst).Nodup) :
    entries.foldl (fun map e => insertEntry e.1 e.2 map) map = map ++ entries := by
  induction entries generalizing map with
  | nil => exact (List.append_nil map).symm
  | cons e entries ih =>
    have fresh : e.1 ∉ map.map Prod.fst := by
      rw [List.map_append, List.map_cons] at distinct
      exact fun member => (List.nodup_append.mp distinct).2.2 _ member _ (.head _) rfl
    rw [List.foldl_cons, insertEntry_of_fresh e.2 fresh, ih (by simpa using distinct),
      List.append_assoc]
    rfl

end Maps

end NovaRuntime.Object
