/-
# NovaRuntime.Object.Serialization — the MessagePack form of a value

`encode_value` and `decode_value` of `nova_object::serialization`. A writer gives the bytes
it appends; a reader is a call on the bytes that are left. The reader of values calls
itself once for each value inside a value; the fuel bounds how deep, and as each call takes
a marker, the bytes there are suffice.

`GeoCodec` is what `rmp_serde` makes of a geometry and back. Arithmetic on dates wraps, as
it does in a release build.
-/
import NovaRuntime.Object.Types

namespace NovaRuntime.Object

open NovaRuntime.Library
open NovaRuntime.Library.MsgPack

set_option autoImplicit false

/-! ## Extension types -/

def extDocumentId : Int8 := 8
def extEventId : Int8 := 9
def extTimestamp : Int8 := 10
def extDecimal : Int8 := 11
def extGeoShape : Int8 := 12
def extBinary : Int8 := 13
def extDate : Int8 := 14
def extTime : Int8 := 15
def extDateTime : Int8 := 16
def extDuration : Int8 := 17
def extRegex : Int8 := 18
def extStatusCode : Int8 := 19

/-- `RuntimeError`; `foreign` is a `Deserialization` with the text of another crate's error. -/
inductive RuntimeError where
  | serialization
  | deserialization (message : String)
  | foreign
  | io
  deriving DecidableEq

structure GeoCodec where
  toVec : GeoJsonGeometry → Option Bytes
  fromSlice : Bytes → Option GeoJsonGeometry

/-! ## Dates and times -/

def ymdToDays (year : Int32) (month day : UInt8) : UInt32 :=
  let month : Int32 := .ofNat month.toNat
  let y := if month ≤ 2 then year - 1 else year
  let m := if month ≤ 2 then month + 12 else month
  let era := (if y ≥ 0 then y else y - 399) / 400
  let yoe := y - era * 400
  let doy := (153 * (m - 3) + 2) / 5 + .ofNat day.toNat
  let doe := yoe * 365 + yoe / 4 - yoe / 100 + doy
  (era * 146097 + doe - 719468).toUInt32

def daysToYmd (days : UInt32) : Int32 × UInt8 × UInt8 :=
  let z : Int64 := .ofNat days.toNat + 719468
  let era := (if z ≥ 0 then z else z - 146096) / 146097
  let doe := z - era * 146097
  let yoe := (doe - doe / 1460 + doe / 36524 - doe / 146096) / 365
  let y := yoe + era * 400
  let doy := doe - (365 * yoe + yoe / 4 - yoe / 100)
  let mp := (5 * doy + 2) / 153
  let d := doy - (153 * mp + 2) / 5 + 1
  let m := if mp < 10 then mp + 3 else mp - 9
  let y := if m ≤ 2 then y + 1 else y
  (y.toInt32, m.toInt8.toUInt8, d.toInt8.toUInt8)

def hmsnToNanos (hour min sec : UInt8) (nano : UInt32) : UInt64 :=
  hour.toUInt64 * 3600000000000 + min.toUInt64 * 60000000000 + sec.toUInt64 * 1000000000 + nano.toUInt64

def nanosToHmsn (nanos : UInt64) : UInt8 × UInt8 × UInt8 × UInt32 :=
  let totalSecs := nanos / 1000000000
  ((totalSecs / 3600).toUInt8, (totalSecs % 3600 / 60).toUInt8, (totalSecs % 60).toUInt8,
    (nanos % 1000000000).toUInt32)

def unixToDatetime (secs : Int64) (nsecs : UInt32) : UInt32 × UInt64 :=
  let days := if secs ≥ 0 then secs / 86400 else (secs - 86399) / 86400
  let rem := if secs ≥ 0 then secs % 86400 else secs - days * 86400
  (days.toInt32.toUInt32, rem.toUInt64 * 1000000000 + nsecs.toUInt64)

def datetimeToUnix (days : UInt32) (nanos : UInt64) : Int64 × UInt32 :=
  (days.toUInt64.toInt64 * 86400 + (nanos / 1000000000).toInt64, (nanos % 1000000000).toUInt32)

/-! ## Encoding -/

/-- A length `as u32`. -/
def asU32 (len : Nat) : Nat := len % 4294967296

theorem asU32_of_lt {len : Nat} (short : len < 4294967296) : asU32 len = len := Nat.mod_eq_of_lt short

def writeStr (s : Text) : Bytes := writeStrLen (asU32 (utf8 s).length) ++ utf8 s

def writeBin (b : Bytes) : Bytes := writeBinLen (asU32 b.length) ++ b

def writeExt (ty : Int8) (data : Bytes) : Bytes := writeExtMeta (asU32 data.length) ty ++ data

section Encode

variable (codec : GeoCodec)

mutual

def encodeToVec : Value → Outcome RuntimeError Bytes
  | .null => .ok writeNil
  | .bool b => .ok (writeBool b)
  | .int8 v => .ok (writeSint v.toInt)
  | .int16 v => .ok (writeSint v.toInt)
  | .int32 v => .ok (writeSint v.toInt)
  | .int64 v => .ok (writeSint v.toInt)
  | .uint8 v => .ok (writeUint v.toNat)
  | .uint16 v => .ok (writeUint v.toNat)
  | .uint32 v => .ok (writeUint v.toNat)
  | .uint64 v => .ok (writeUint v.toNat)
  | .float32 v => .ok (writeF32 v.bits)
  | .float64 v => .ok (writeF64 v.bits)
  | .string s => .ok (writeStr s)
  | .binary b => .ok (writeBin b)
  | .timestamp ts => .ok (writeExt extTimestamp (be 8 ts.toUInt64.toNat))
  | .date year month day => .ok (writeExt extDate (be 4 (ymdToDays year month day).toNat))
  | .time hour min sec nano => .ok (writeExt extTime (be 8 (hmsnToNanos hour min sec nano).toNat))
  | .dateTime secs nsecs =>
    .ok (writeExt extDateTime
      (be 4 (unixToDatetime secs nsecs).1.toNat ++ be 8 (unixToDatetime secs nsecs).2.toNat))
  | .duration nanos => .ok (writeExt extDuration (be 8 nanos.toUInt64.toNat))
  | .decimal value precision scale =>
    .ok (writeExt extDecimal (be 16 value.toNat ++ [precision, scale]))
  | .geoShape geom =>
    match codec.toVec geom with
    | some encoded => .ok (writeExt extGeoShape encoded)
    | none => .err .serialization
  | .reference collection id => .ok (writeArrayLen 2 ++ (writeStr collection ++ writeBin (be 16 id.toNat)))
  | .geoPoint lat lon => .ok (writeArrayLen 2 ++ (writeF64 lat.bits ++ writeF64 lon.bits))
  | .vector vec => .ok (writeArrayLen (asU32 vec.length) ++ vec.flatMap fun v => writeF32 v.bits)
  | .array items => do
      let encoded ← encodeItems items
      pure (writeArrayLen (asU32 items.length) ++ encoded)
  | .object map => do
      let encoded ← encodeEntries map
      pure (writeMapLen (asU32 map.length) ++ encoded)
  | .map map => do
      let encoded ← encodeEntries map
      pure (writeMapLen (asU32 map.length) ++ encoded)

def encodeItems : List Value → Outcome RuntimeError Bytes
  | [] => pure []
  | item :: items => do
      let first ← encodeToVec item
      let rest ← encodeItems items
      pure (first ++ rest)

def encodeEntry : Text × Value → Outcome RuntimeError Bytes
  | (key, val) => do
      let encoded ← encodeToVec val
      pure (writeStr key ++ encoded)

def encodeEntries : List (Text × Value) → Outcome RuntimeError Bytes
  | [] => pure []
  | e :: map => do
      let first ← encodeEntry e
      let rest ← encodeEntries map
      pure (first ++ rest)

end

def encodeValue (value : Value) : Outcome RuntimeError Bytes := encodeToVec codec value

end Encode

/-! ## Decoding -/

abbrev Reader (α : Type) := Exec RuntimeError Bytes α

def readExact (n : Nat) : Reader Bytes := fun data =>
  if n ≤ data.length then (.ok (data.take n), data.drop n) else (.err .io, [])

def readMarker : Reader Marker
  | [] => (.err .foreign, [])
  | b :: data => (.ok (.ofByte b), data)

/-- A big-endian number of `w` bytes. -/
def readBe (w : Nat) : Reader Nat := do
  let b ← readExact w
  pure (ofBe b)

def readU8 : Reader Nat := readBe 1
def readU16 : Reader Nat := readBe 2
def readU32 : Reader Nat := readBe 4

def readI8Raw : Reader Int8 := do
  let b ← readBe 1
  pure (UInt8.ofNat b).toInt8

/-- The bytes of a string. -/
def readString (len : Nat) : Reader Value := do
  let buf ← readExact len
  match ofUtf8 buf with
  | some s => pure (.string s)
  | none => Exec.lift (.err .foreign)

def readBinary (len : Nat) : Reader Value := do
  let buf ← readExact len
  pure (.binary buf)

/-- What is read a number of times. -/
def readMany {α : Type} (read : Reader α) : Nat → Reader (List α)
  | 0 => pure []
  | n + 1 => do
      let first ← read
      let rest ← readMany read n
      pure (first :: rest)

/-- A payload that is too short for its type. -/
def tooShort (name : String) (expected got : Nat) : Outcome RuntimeError Value :=
  .err (.deserialization s!"{name} ext: expected {expected} bytes, got {got}")

section Decode

variable (codec : GeoCodec)

def decodeExt (tc : Int8) (data : Bytes) : Outcome RuntimeError Value :=
  if tc = extDocumentId ∨ tc = extEventId then .ok (.binary data)
  else if tc = extTimestamp then
    if data.length ≥ 8 then .ok (.timestamp (UInt64.ofNat (ofBe (data.take 8))).toInt64)
    else tooShort "Timestamp" 8 data.length
  else if tc = extDecimal then
    if data.length ≥ 18 then
      .ok (.decimal (.ofNat 128 (ofBe (data.take 16))) (data.getD 16 0) (data.getD 17 0))
    else tooShort "Decimal" 18 data.length
  else if tc = extGeoShape then
    match codec.fromSlice data with
    | some geom => .ok (.geoShape geom)
    | none => .err .foreign
  else if tc = extBinary then .ok (.binary data)
  else if tc = extDate then
    if data.length ≥ 4 then
      let ymd := daysToYmd (.ofNat (ofBe (data.take 4)))
      .ok (.date ymd.1 ymd.2.1 ymd.2.2)
    else tooShort "Date" 4 data.length
  else if tc = extTime then
    if data.length ≥ 8 then
      let hmsn := nanosToHmsn (.ofNat (ofBe (data.take 8)))
      .ok (.time hmsn.1 hmsn.2.1 hmsn.2.2.1 hmsn.2.2.2)
    else tooShort "Time" 8 data.length
  else if tc = extDateTime then
    if data.length ≥ 12 then
      let unix := datetimeToUnix (.ofNat (ofBe (data.take 4))) (.ofNat (ofBe ((data.drop 4).take 8)))
      .ok (.dateTime unix.1 unix.2)
    else tooShort "DateTime" 12 data.length
  else if tc = extDuration then
    if data.length ≥ 8 then .ok (.duration (UInt64.ofNat (ofBe (data.take 8))).toInt64)
    else tooShort "Duration" 8 data.length
  else if tc = extRegex then
    match ofUtf8 data with
    | some s => .ok (.string s)
    | none => .err .foreign
  else if tc = extStatusCode then
    if data.length ≥ 2 then .ok (.int64 (.ofNat (ofBe (data.take 2))))
    else tooShort "StatusCode" 2 data.length
  else .err (.deserialization s!"unknown MessagePack ext type tag: {tc}")

/-- The type and a payload of a known length. -/
def readExt (len : Nat) : Reader Value := do
  let tc ← readI8Raw
  let buf ← readExact len
  Exec.lift (decodeExt codec tc buf)

/-- A map key must be a string. -/
def decodeMapKey (read : Reader Value) : Reader Text := do
  let keyVal ← read
  match keyVal with
  | .string s => pure s
  | other => Exec.lift (.err (.deserialization ("expected string map key, got " ++ other.typeName)))

def readEntry (read : Reader Value) : Reader (Text × Value) := do
  let key ← decodeMapKey read
  let val ← read
  pure (key, val)

def readArray (read : Reader Value) (len : Nat) : Reader Value := do
  let items ← readMany read len
  pure (.array items)

def readMap (read : Reader Value) (len : Nat) : Reader Value := do
  let entries ← readMany (readEntry read) len
  pure (.object (entries.foldl (fun map e => insertEntry e.1 e.2 map) []))

/-- What a marker is followed by. -/
def decodeMarked (read : Reader Value) : Marker → Reader Value
  | .null => pure .null
  | .true => pure (.bool true)
  | .false => pure (.bool false)
  | .fixPos val => pure (.uint8 val)
  | .fixNeg val => pure (.int8 val)
  | .u8 => readBe 1 >>= fun n => pure (.uint8 (.ofNat n))
  | .u16 => readBe 2 >>= fun n => pure (.uint16 (.ofNat n))
  | .u32 => readBe 4 >>= fun n => pure (.uint32 (.ofNat n))
  | .u64 => readBe 8 >>= fun n => pure (.uint64 (.ofNat n))
  | .i8 => readBe 1 >>= fun n => pure (.int8 (UInt8.ofNat n).toInt8)
  | .i16 => readBe 2 >>= fun n => pure (.int16 (UInt16.ofNat n).toInt16)
  | .i32 => readBe 4 >>= fun n => pure (.int32 (UInt32.ofNat n).toInt32)
  | .i64 => readBe 8 >>= fun n => pure (.int64 (UInt64.ofNat n).toInt64)
  | .f32 => readBe 4 >>= fun n => pure (.float32 ⟨.ofNat n⟩)
  | .f64 => readBe 8 >>= fun n => pure (.float64 ⟨.ofNat n⟩)
  | .fixStr len => readString len.toNat
  | .str8 => readU8 >>= readString
  | .str16 => readU16 >>= readString
  | .str32 => readU32 >>= readString
  | .bin8 => readU8 >>= readBinary
  | .bin16 => readU16 >>= readBinary
  | .bin32 => readU32 >>= readBinary
  | .fixArray len => readArray read len.toNat
  | .array16 => readU16 >>= readArray read
  | .array32 => readU32 >>= readArray read
  | .fixMap len => readMap read len.toNat
  | .map16 => readU16 >>= readMap read
  | .map32 => readU32 >>= readMap read
  | .fixExt1 => readExt codec 1
  | .fixExt2 => readExt codec 2
  | .fixExt4 => readExt codec 4
  | .fixExt8 => readExt codec 8
  | .fixExt16 => readExt codec 16
  | .ext8 => readU8 >>= readExt codec
  | .ext16 => readU16 >>= readExt codec
  | .ext32 => readU32 >>= readExt codec
  | .reserved => Exec.lift (.err (.deserialization "encountered reserved MessagePack marker"))

def decodeValueReader : Nat → Reader Value
  | 0 => Exec.lift .hang
  | fuel + 1 => do
      let marker ← readMarker
      decodeMarked codec (decodeValueReader fuel) marker

def decodeValue (data : Bytes) : Outcome RuntimeError Value :=
  (decodeValueReader codec (data.length + 1) data).1

end Decode

end NovaRuntime.Object
