/-
# NovaRuntime.Object.Codec — what is encoded is decoded, under its shortest name

`renamed` is what becomes of the kinds that MessagePack does not tell apart: a number takes
the variant of its shortest marker, a map is an object, a reference, a point and a vector
are arrays. `Reads` says that some bytes are one whole value, whatever follows them; there
is a `reads_…` lemma for each writer, and the values inside a value come one after the
other (`ReadsMany`). `decodeValue_encodeValue` is the induction over the value.
-/
import NovaRuntime.Object.Serialization

namespace NovaRuntime.Object

open NovaRuntime.Library
open NovaRuntime.Library.MsgPack

set_option autoImplicit false

/-! ## Renaming -/

/-- A number in the variant of its shortest marker. -/
def ofNumber (n : Int) : Value :=
  if 0 ≤ n then
    if n < 256 then .uint8 (.ofNat n.toNat)
    else if n < 65536 then .uint16 (.ofNat n.toNat)
    else if n < 4294967296 then .uint32 (.ofNat n.toNat)
    else .uint64 (.ofNat n.toNat)
  else if -128 ≤ n then .int8 (.ofInt n)
  else if -32768 ≤ n then .int16 (.ofInt n)
  else if -2147483648 ≤ n then .int32 (.ofInt n)
  else .int64 (.ofInt n)

theorem ofNumber_natCast (n : Nat) : ofNumber n =
    if n < 256 then .uint8 (.ofNat n)
    else if n < 65536 then .uint16 (.ofNat n)
    else if n < 4294967296 then .uint32 (.ofNat n)
    else .uint64 (.ofNat n) := by
  rw [ofNumber, if_pos (Int.natCast_nonneg n), Int.toNat_natCast]
  norm_cast

mutual

def renamed : Value → Value
  | .int8 v => ofNumber v.toInt
  | .int16 v => ofNumber v.toInt
  | .int32 v => ofNumber v.toInt
  | .int64 v => ofNumber v.toInt
  | .uint8 v => ofNumber v.toNat
  | .uint16 v => ofNumber v.toNat
  | .uint32 v => ofNumber v.toNat
  | .uint64 v => ofNumber v.toNat
  | .array items => .array (renamedItems items)
  | .object map => .object (renamedEntries map)
  | .map map => .object (renamedEntries map)
  | .reference collection id => .array [.string collection, .binary (be 16 id.toNat)]
  | .geoPoint lat lon => .array [.float64 lat, .float64 lon]
  | .vector vec => .array (vec.map .float32)
  | value => value

def renamedItems : List Value → List Value
  | [] => []
  | item :: items => renamed item :: renamedItems items

def renamedEntry : Text × Value → Text × Value
  | (key, val) => (key, renamed val)

def renamedEntries : List (Text × Value) → List (Text × Value)
  | [] => []
  | e :: map => renamedEntry e :: renamedEntries map

end

/-- The number a value is. -/
def numeric : Value → Option Int
  | .int8 v => some v.toInt
  | .int16 v => some v.toInt
  | .int32 v => some v.toInt
  | .int64 v => some v.toInt
  | .uint8 v => some v.toNat
  | .uint16 v => some v.toNat
  | .uint32 v => some v.toNat
  | .uint64 v => some v.toNat
  | _ => none

theorem numeric_ofNumber {n : Int} (low : -9223372036854775808 ≤ n) (high : n < 18446744073709551616) :
    numeric (ofNumber n) = some n := by
  unfold ofNumber
  split
  · split
    · simp only [numeric, UInt8.toNat_ofNat']
      congr 1
      omega
    · split
      · simp only [numeric, UInt16.toNat_ofNat']
        congr 1
        omega
      · split
        · simp only [numeric, UInt32.toNat_ofNat']
          congr 1
          omega
        · simp only [numeric, UInt64.toNat_ofNat']
          congr 1
          omega
  · split
    · rw [numeric, Int8.toInt_ofInt_of_le (by omega) (by omega)]
    · split
      · rw [numeric, Int16.toInt_ofInt_of_le (by omega) (by omega)]
      · split
        · rw [numeric, Int32.toInt_ofInt_of_le (by omega) (by omega)]
        · rw [numeric, Int64.toInt_ofInt_of_le (by omega) (by omega)]

theorem numeric_renamed (value : Value) : numeric (renamed value) = numeric value := by
  cases value with
  | int8 v | int16 v | int32 v | int64 v =>
    exact numeric_ofNumber (by have := v.le_toInt; omega) (by have := v.toInt_lt; omega)
  | uint8 v | uint16 v | uint32 v | uint64 v =>
    exact numeric_ofNumber (by omega) (by have := v.toNat_lt; omega)
  | _ => rfl

/-! ## Reading what was written -/

section Reads

variable {codec : GeoCodec}
variable {body : Bytes} {n : Nat} {value : Value}

theorem readExact_append {bs : Bytes} (size : bs.length = n) (rest : Bytes) :
    readExact n (bs ++ rest) = (.ok bs, rest) := by
  subst size
  rw [readExact, if_pos (by rw [List.length_append]; omega), List.take_left, List.drop_left]

theorem readBe_be {w : Nat} (fits : n < 256 ^ w) (rest : Bytes) :
    readBe w (be w n ++ rest) = (.ok n, rest) := by
  rw [readBe, Exec.bind_of_ok (readExact_append (length_be w n) rest), ofBe_be_of_lt fits]
  rfl

/-- Some bytes are one whole value: with as much fuel as there are, it is read, and what
follows them is left. -/
def Reads (codec : GeoCodec) (bytes : Bytes) (value : Value) : Prop :=
  0 < bytes.length ∧ ∀ fuel rest, bytes.length ≤ fuel →
    decodeValueReader codec fuel (bytes ++ rest) = (.ok value, rest)

/-- A marker and what it is followed by. -/
theorem reads_of_marked {b : UInt8} (marked : ∀ fuel rest, body.length ≤ fuel →
      decodeMarked codec (decodeValueReader codec fuel) (.ofByte b) (body ++ rest) = (.ok value, rest)) :
    Reads codec (b :: body) value := by
  refine ⟨Nat.succ_pos _, fun fuel rest enough => ?_⟩
  obtain ⟨fuel, rfl⟩ : ∃ k, fuel = k + 1 := ⟨fuel - 1, by rw [List.length_cons] at enough; omega⟩
  have marker : readMarker (b :: body ++ rest) = (.ok (.ofByte b), body ++ rest) := rfl
  rw [decodeValueReader, Exec.bind_of_ok marker]
  exact marked fuel rest (by rw [List.length_cons] at enough; omega)

theorem reads_be {b : UInt8} {w : Nat} (next : Reader Value → Nat → Reader Value) (fits : n < 256 ^ w)
    (marker : ∀ read, decodeMarked codec read (.ofByte b) = (readBe w >>= next read))
    (read : ∀ fuel rest, body.length ≤ fuel →
      next (decodeValueReader codec fuel) n (body ++ rest) = (.ok value, rest)) :
    Reads codec (b :: (be w n ++ body)) value := by
  refine reads_of_marked fun fuel rest enough => ?_
  rw [marker, List.append_assoc, Exec.bind_of_ok (readBe_be fits (body ++ rest))]
  refine read fuel rest ?_
  rw [List.length_append] at enough
  omega

/-- A marker with a number behind it and nothing else. -/
theorem reads_number {b : UInt8} {w : Nat} (fits : n < 256 ^ w) (value : Nat → Value)
    (marker : ∀ read, decodeMarked codec read (.ofByte b) = (readBe w >>= fun n => pure (value n))) :
    Reads codec (b :: be w n) (value n) := by
  have read : Reads codec (b :: (be w n ++ [])) (value n) :=
    reads_be (fun _ n => pure (value n)) fits marker fun _ _ _ => rfl
  rwa [List.append_nil] at read

theorem reads_writeUint (fits : n < 18446744073709551616) :
    Reads codec (writeUint n) (ofNumber n) := by
  rw [ofNumber_natCast, writeUint]
  by_cases small : n < 128
  · rw [if_pos small, if_pos (by omega)]
    refine reads_of_marked fun fuel rest _ => ?_
    rw [ofByte_fixPos small]
    rfl
  rw [if_neg small]
  by_cases byte : n < 256
  · rw [if_pos byte, if_pos byte]
    exact reads_number byte (fun n => .uint8 (.ofNat n)) fun _ => rfl
  rw [if_neg byte, if_neg byte]
  by_cases two : n < 65536
  · rw [if_pos two, if_pos two]
    exact reads_number two (fun n => .uint16 (.ofNat n)) fun _ => rfl
  rw [if_neg two, if_neg two]
  by_cases four : n < 4294967296
  · rw [if_pos four, if_pos four]
    exact reads_number four (fun n => .uint32 (.ofNat n)) fun _ => rfl
  · rw [if_neg four, if_neg four]
    exact reads_number fits (fun n => .uint64 (.ofNat n)) fun _ => rfl

theorem toInt8_twosComplement (n : Int) : (UInt8.ofNat (twosComplement 1 n)).toInt8 = .ofInt n := by
  refine Int8.toBitVec_inj.mp (BitVec.eq_of_toNat_eq ?_)
  simp [twosComplement, BitVec.toNat_ofInt]
  omega

theorem toInt16_twosComplement (n : Int) :
    (UInt16.ofNat (twosComplement 2 n)).toInt16 = .ofInt n := by
  refine Int16.toBitVec_inj.mp (BitVec.eq_of_toNat_eq ?_)
  simp [twosComplement, BitVec.toNat_ofInt]
  omega

theorem toInt32_twosComplement (n : Int) :
    (UInt32.ofNat (twosComplement 4 n)).toInt32 = .ofInt n := by
  refine Int32.toBitVec_inj.mp (BitVec.eq_of_toNat_eq ?_)
  simp [twosComplement, BitVec.toNat_ofInt]
  omega

theorem toInt64_twosComplement (n : Int) :
    (UInt64.ofNat (twosComplement 8 n)).toInt64 = .ofInt n := by
  refine Int64.toBitVec_inj.mp (BitVec.eq_of_toNat_eq ?_)
  simp [twosComplement, BitVec.toNat_ofInt]
  omega

theorem reads_writeSint {n : Int} (low : -9223372036854775808 ≤ n) (high : n < 18446744073709551616) :
    Reads codec (writeSint n) (ofNumber n) := by
  rw [writeSint]
  by_cases nonneg : 0 ≤ n
  · obtain ⟨k, rfl⟩ := Int.eq_ofNat_of_zero_le nonneg
    rw [if_pos nonneg, Int.toNat_natCast]
    exact reads_writeUint (by omega)
  rw [if_neg nonneg, ofNumber, if_neg nonneg]
  by_cases small : -32 ≤ n
  · rw [if_pos small, if_pos (by omega)]
    refine reads_of_marked fun fuel rest _ => ?_
    have byte : 224 ≤ twosComplement 1 n ∧ twosComplement 1 n < 256 := by
      unfold twosComplement
      omega
    rw [ofByte_fixNeg byte.1 byte.2, toInt8_twosComplement]
    rfl
  rw [if_neg small]
  by_cases byte : -128 ≤ n
  · rw [if_pos byte, if_pos byte, ← toInt8_twosComplement]
    exact reads_number (twosComplement_lt 1 n) (fun n => .int8 (UInt8.ofNat n).toInt8) fun _ => rfl
  rw [if_neg byte, if_neg byte]
  by_cases two : -32768 ≤ n
  · rw [if_pos two, if_pos two, ← toInt16_twosComplement]
    exact reads_number (twosComplement_lt 2 n) (fun n => .int16 (UInt16.ofNat n).toInt16) fun _ => rfl
  rw [if_neg two, if_neg two]
  by_cases four : -2147483648 ≤ n
  · rw [if_pos four, if_pos four, ← toInt32_twosComplement]
    exact reads_number (twosComplement_lt 4 n) (fun n => .int32 (UInt32.ofNat n).toInt32) fun _ => rfl
  · rw [if_neg four, if_neg four, ← toInt64_twosComplement]
    exact reads_number (twosComplement_lt 8 n) (fun n => .int64 (UInt64.ofNat n).toInt64) fun _ => rfl

theorem reads_writeNil : Reads codec writeNil .null := reads_of_marked fun _ _ _ => rfl

theorem reads_writeBool (b : Bool) : Reads codec (writeBool b) (.bool b) := by
  cases b <;> exact reads_of_marked fun _ _ _ => rfl

theorem reads_writeF32 (v : F32) : Reads codec (writeF32 v.bits) (.float32 v) := by
  have read : Reads codec (writeF32 v.bits) (.float32 ⟨.ofNat v.bits.toNat⟩) :=
    reads_number v.bits.toNat_lt (fun n => .float32 ⟨.ofNat n⟩) fun _ => rfl
  rwa [UInt32.ofNat_toNat] at read

theorem reads_writeF64 (v : F64) : Reads codec (writeF64 v.bits) (.float64 v) := by
  have read : Reads codec (writeF64 v.bits) (.float64 ⟨.ofNat v.bits.toNat⟩) :=
    reads_number v.bits.toNat_lt (fun n => .float64 ⟨.ofNat n⟩) fun _ => rfl
  rwa [UInt64.ofNat_toNat] at read

/-! ### Lengths -/

theorem readString_append {s : Text} {len : Nat} (size : (utf8 s).length = len) (rest : Bytes) :
    readString len (utf8 s ++ rest) = (.ok (.string s), rest) := by
  rw [readString, Exec.bind_of_ok (readExact_append size rest), ofUtf8_utf8]
  rfl

theorem reads_writeStr {s : Text} (short : (utf8 s).length < 4294967296) :
    Reads codec (writeStr s) (.string s) := by
  rw [writeStr, asU32_of_lt short, writeStrLen]
  by_cases small : (utf8 s).length < 32
  · rw [if_pos small]
    refine reads_of_marked fun fuel rest _ => ?_
    rw [ofByte_fixStr small]
    refine readString_append ?_ rest
    rw [UInt8.toNat_ofNat']
    omega
  rw [if_neg small]
  by_cases byte : (utf8 s).length < 256
  · rw [if_pos byte]
    exact reads_be (fun _ => readString) byte (fun _ => rfl) fun _ rest _ => readString_append rfl rest
  rw [if_neg byte]
  by_cases two : (utf8 s).length < 65536
  · rw [if_pos two]
    exact reads_be (fun _ => readString) two (fun _ => rfl) fun _ rest _ => readString_append rfl rest
  · rw [if_neg two]
    exact reads_be (fun _ => readString) short (fun _ => rfl) fun _ rest _ => readString_append rfl rest

theorem readBinary_append {b : Bytes} {len : Nat} (size : b.length = len) (rest : Bytes) :
    readBinary len (b ++ rest) = (.ok (.binary b), rest) := by
  rw [readBinary, Exec.bind_of_ok (readExact_append size rest)]
  rfl

theorem reads_writeBin {b : Bytes} (short : b.length < 4294967296) :
    Reads codec (writeBin b) (.binary b) := by
  rw [writeBin, asU32_of_lt short, writeBinLen]
  by_cases byte : b.length < 256
  · rw [if_pos byte]
    exact reads_be (fun _ => readBinary) byte (fun _ => rfl) fun _ rest _ => readBinary_append rfl rest
  rw [if_neg byte]
  by_cases two : b.length < 65536
  · rw [if_pos two]
    exact reads_be (fun _ => readBinary) two (fun _ => rfl) fun _ rest _ => readBinary_append rfl rest
  · rw [if_neg two]
    exact reads_be (fun _ => readBinary) short (fun _ => rfl) fun _ rest _ => readBinary_append rfl rest

theorem readExt_append {ty : Int8} {data : Bytes} {len : Nat}
    (decoded : decodeExt codec ty data = .ok value) (size : data.length = len) (rest : Bytes) :
    readExt codec len (ty.toUInt8 :: (data ++ rest)) = (.ok value, rest) := by
  have byte : readI8Raw (ty.toUInt8 :: (data ++ rest)) = (.ok ty, data ++ rest) := by
    have read : readBe 1 (ty.toUInt8 :: (data ++ rest)) = (.ok ty.toUInt8.toNat, data ++ rest) := by
      have one : be 1 ty.toUInt8.toNat = [ty.toUInt8] := by simp [be, le]
      have read := readBe_be (w := 1) ty.toUInt8.toNat_lt (data ++ rest)
      rwa [one] at read
    rw [readI8Raw, Exec.bind_of_ok read, UInt8.ofNat_toNat, Int8.toInt8_toUInt8]
    rfl
  rw [readExt, Exec.bind_of_ok byte, Exec.bind_of_ok (readExact_append size rest), decoded]
  rfl

theorem reads_writeExt {ty : Int8} {data : Bytes}
    (decoded : decodeExt codec ty data = .ok value) (short : data.length < 4294967296) :
    Reads codec (writeExt ty data) value := by
  -- the marker says the length
  have fixed (b : UInt8) (len : Nat) (size : data.length = len)
      (marker : ∀ read, decodeMarked codec read (.ofByte b) = readExt codec len) :
      Reads codec ([b, ty.toUInt8] ++ data) value :=
    reads_of_marked fun fuel rest _ => by
      rw [marker]
      exact readExt_append decoded size rest
  -- the length comes before the type
  have lengthy (b : UInt8) (w : Nat) (fits : data.length < 256 ^ w)
      (marker : ∀ read, decodeMarked codec read (.ofByte b) = (readBe w >>= readExt codec)) :
      Reads codec (b :: be w data.length ++ [ty.toUInt8] ++ data) value := by
    have read : Reads codec (b :: (be w data.length ++ (ty.toUInt8 :: data))) value :=
      reads_be (fun _ => readExt codec) fits marker fun _ rest _ => readExt_append decoded rfl rest
    simpa using read
  rw [writeExt, asU32_of_lt short, writeExtMeta]
  by_cases one : data.length = 1
  · rw [if_pos one]
    exact fixed 0xD4 1 one fun _ => rfl
  rw [if_neg one]
  by_cases two : data.length = 2
  · rw [if_pos two]
    exact fixed 0xD5 2 two fun _ => rfl
  rw [if_neg two]
  by_cases four : data.length = 4
  · rw [if_pos four]
    exact fixed 0xD6 4 four fun _ => rfl
  rw [if_neg four]
  by_cases eight : data.length = 8
  · rw [if_pos eight]
    exact fixed 0xD7 8 eight fun _ => rfl
  rw [if_neg eight]
  by_cases sixteen : data.length = 16
  · rw [if_pos sixteen]
    exact fixed 0xD8 16 sixteen fun _ => rfl
  rw [if_neg sixteen]
  by_cases byte : data.length < 256
  · rw [if_pos byte]
    exact lengthy 0xC7 1 byte fun _ => rfl
  rw [if_neg byte]
  by_cases word : data.length < 65536
  · rw [if_pos word]
    exact lengthy 0xC8 2 word fun _ => rfl
  · rw [if_neg word]
    exact lengthy 0xC9 4 short fun _ => rfl

/-! ### Values inside a value -/

/-- Some bytes are items that are read one after the other. -/
def ReadsMany {α : Type} (codec : GeoCodec) (read : Reader Value → Reader α) (bytes : Bytes)
    (items : List α) : Prop :=
  ∀ fuel rest, bytes.length ≤ fuel →
    readMany (read (decodeValueReader codec fuel)) items.length (bytes ++ rest) = (.ok items, rest)

theorem readsMany_nil {α : Type} (read : Reader Value → Reader α) : ReadsMany codec read [] [] :=
  fun _ _ _ => rfl

theorem readsMany_cons {α : Type} {read : Reader Value → Reader α} {first rest : Bytes} {item : α}
    {items : List α}
    (here : ∀ fuel after, first.length ≤ fuel →
      read (decodeValueReader codec fuel) (first ++ after) = (.ok item, after))
    (later : ReadsMany codec read rest items) : ReadsMany codec read (first ++ rest) (item :: items) := by
  intro fuel after enough
  rw [List.length_append] at enough
  rw [List.length_cons, readMany, List.append_assoc, Exec.bind_of_ok (here fuel _ (by omega)),
    Exec.bind_of_ok (later fuel after (by omega))]
  rfl

theorem reads_writeArray {items : List Value} (short : items.length < 4294967296)
    (many : ReadsMany codec (fun read => read) body items) :
    Reads codec (writeArrayLen (asU32 items.length) ++ body) (.array items) := by
  have read (len : Nat) (size : items.length = len) (fuel : Nat) (rest : Bytes) (enough : body.length ≤ fuel) :
      readArray (decodeValueReader codec fuel) len (body ++ rest) = (.ok (.array items), rest) := by
    subst size
    rw [readArray, Exec.bind_of_ok (many fuel rest enough)]
    rfl
  rw [asU32_of_lt short, writeArrayLen]
  by_cases small : items.length < 16
  · rw [if_pos small]
    refine reads_of_marked fun fuel rest enough => ?_
    rw [ofByte_fixArray small]
    refine read _ ?_ fuel rest enough
    rw [UInt8.toNat_ofNat']
    omega
  rw [if_neg small]
  by_cases two : items.length < 65536
  · rw [if_pos two]
    exact reads_be readArray two (fun _ => rfl) (read _ rfl)
  · rw [if_neg two]
    exact reads_be readArray short (fun _ => rfl) (read _ rfl)

theorem reads_writeMap {map : List (Text × Value)} (short : map.length < 4294967296)
    (distinct : (map.map Prod.fst).Nodup) (many : ReadsMany codec readEntry body map) :
    Reads codec (writeMapLen (asU32 map.length) ++ body) (.object map) := by
  have read (len : Nat) (size : map.length = len) (fuel : Nat) (rest : Bytes) (enough : body.length ≤ fuel) :
      readMap (decodeValueReader codec fuel) len (body ++ rest) = (.ok (.object map), rest) := by
    subst size
    rw [readMap, Exec.bind_of_ok (many fuel rest enough), foldl_insertEntry (by simpa using distinct)]
    rfl
  rw [asU32_of_lt short, writeMapLen]
  by_cases small : map.length < 16
  · rw [if_pos small]
    refine reads_of_marked fun fuel rest enough => ?_
    rw [ofByte_fixMap small]
    refine read _ ?_ fuel rest enough
    rw [UInt8.toNat_ofNat']
    omega
  rw [if_neg small]
  by_cases two : map.length < 65536
  · rw [if_pos two]
    exact reads_be readMap two (fun _ => rfl) (read _ rfl)
  · rw [if_neg two]
    exact reads_be readMap short (fun _ => rfl) (read _ rfl)

theorem readEntry_append {key : Text} {val : Value} {encoded : Bytes}
    (short : (utf8 key).length < 4294967296) (reads : Reads codec encoded val) (fuel : Nat)
    (after : Bytes) (enough : (writeStr key ++ encoded).length ≤ fuel) :
    readEntry (decodeValueReader codec fuel) (writeStr key ++ encoded ++ after) = (.ok (key, val), after) := by
  rw [List.length_append] at enough
  have keyRead : decodeMapKey (decodeValueReader codec fuel) (writeStr key ++ (encoded ++ after)) =
      (.ok key, encoded ++ after) := by
    rw [decodeMapKey, Exec.bind_of_ok ((reads_writeStr short).2 fuel _ (by omega))]
    rfl
  rw [readEntry, List.append_assoc, Exec.bind_of_ok keyRead, Exec.bind_of_ok (reads.2 fuel after (by omega))]
  rfl

/-! ## Values -/

/-- The values of all kinds but dates and times, with lengths of 32 bits. -/
inductive Built (codec : GeoCodec) : Value → Prop where
  | null : Built codec .null
  | bool (b : Bool) : Built codec (.bool b)
  | int8 (v : Int8) : Built codec (.int8 v)
  | int16 (v : Int16) : Built codec (.int16 v)
  | int32 (v : Int32) : Built codec (.int32 v)
  | int64 (v : Int64) : Built codec (.int64 v)
  | uint8 (v : UInt8) : Built codec (.uint8 v)
  | uint16 (v : UInt16) : Built codec (.uint16 v)
  | uint32 (v : UInt32) : Built codec (.uint32 v)
  | uint64 (v : UInt64) : Built codec (.uint64 v)
  | float32 (v : F32) : Built codec (.float32 v)
  | float64 (v : F64) : Built codec (.float64 v)
  | string {s : Text} (short : (utf8 s).length < 4294967296) : Built codec (.string s)
  | binary {b : Bytes} (short : b.length < 4294967296) : Built codec (.binary b)
  | timestamp (ts : Int64) : Built codec (.timestamp ts)
  | duration (nanos : Int64) : Built codec (.duration nanos)
  | decimal (value : Bytes16) (precision scale : UInt8) : Built codec (.decimal value precision scale)
  | geoShape {geom : GeoJsonGeometry} {encoded : Bytes} (encodes : codec.toVec geom = some encoded)
      (decodes : codec.fromSlice encoded = some geom) (short : encoded.length < 4294967296) :
      Built codec (.geoShape geom)
  | reference {collection : Text} (short : (utf8 collection).length < 4294967296) (id : Bytes16) :
      Built codec (.reference collection id)
  | geoPoint (lat lon : F64) : Built codec (.geoPoint lat lon)
  | vector {vec : List F32} (short : vec.length < 4294967296) : Built codec (.vector vec)
  | array {items : List Value} (short : items.length < 4294967296)
      (each : ∀ item ∈ items, Built codec item) : Built codec (.array items)
  | object {map : List (Text × Value)} (short : map.length < 4294967296)
      (distinct : (map.map Prod.fst).Nodup) (keys : ∀ e ∈ map, (utf8 e.1).length < 4294967296)
      (each : ∀ e ∈ map, Built codec e.2) : Built codec (.object map)
  | map {map : List (Text × Value)} (short : map.length < 4294967296)
      (distinct : (map.map Prod.fst).Nodup) (keys : ∀ e ∈ map, (utf8 e.1).length < 4294967296)
      (each : ∀ e ∈ map, Built codec e.2) : Built codec (.map map)

/-- A value is written as bytes that are its renaming. -/
def RoundTrips (codec : GeoCodec) (value : Value) : Prop :=
  ∃ bytes, encodeToVec codec value = .ok bytes ∧ Reads codec bytes (renamed value)

theorem length_renamedItems (items : List Value) : (renamedItems items).length = items.length := by
  induction items with
  | nil => rfl
  | cons item items ih => rw [renamedItems, List.length_cons, ih, List.length_cons]

theorem keys_renamedEntries (map : List (Text × Value)) :
    (renamedEntries map).map Prod.fst = map.map Prod.fst := by
  induction map with
  | nil => rfl
  | cons e map ih =>
    obtain ⟨key, val⟩ := e
    rw [renamedEntries, List.map_cons, List.map_cons, ih, renamedEntry]

theorem length_renamedEntries (map : List (Text × Value)) :
    (renamedEntries map).length = map.length := by
  simpa using congrArg List.length (keys_renamedEntries map)

theorem readsMany_items {items : List Value} (each : ∀ item ∈ items, RoundTrips codec item) :
    ∃ bytes, encodeItems codec items = .ok bytes ∧
      ReadsMany codec (fun read => read) bytes (renamedItems items) := by
  induction items with
  | nil => exact ⟨[], rfl, readsMany_nil _⟩
  | cons item items ih =>
    obtain ⟨first, encodedFirst, reads⟩ := each item (.head _)
    obtain ⟨rest, encodedRest, many⟩ := ih fun item later => each item (.tail _ later)
    refine ⟨first ++ rest, ?_, ?_⟩
    · rw [encodeItems, encodedFirst, Outcome.ok_bind, encodedRest]
      rfl
    · rw [renamedItems]
      exact readsMany_cons reads.2 many

theorem readsMany_entries {map : List (Text × Value)}
    (keys : ∀ e ∈ map, (utf8 e.1).length < 4294967296) (each : ∀ e ∈ map, RoundTrips codec e.2) :
    ∃ bytes, encodeEntries codec map = .ok bytes ∧
      ReadsMany codec readEntry bytes (renamedEntries map) := by
  induction map with
  | nil => exact ⟨[], rfl, readsMany_nil _⟩
  | cons e map ih =>
    obtain ⟨key, val⟩ := e
    obtain ⟨first, encodedFirst, reads⟩ := each (key, val) (.head _)
    obtain ⟨rest, encodedRest, many⟩ := ih (fun e later => keys e (.tail _ later))
      fun e later => each e (.tail _ later)
    refine ⟨writeStr key ++ first ++ rest, ?_, ?_⟩
    · rw [encodeEntries, encodeEntry, encodedFirst, Outcome.ok_bind, encodedRest]
      rfl
    · rw [renamedEntries, renamedEntry]
      exact readsMany_cons (readEntry_append (keys (key, val) (.head _)) reads) many

theorem readsMany_vector (vec : List F32) :
    ReadsMany codec (fun read => read) (vec.flatMap fun v => writeF32 v.bits) (vec.map .float32) := by
  induction vec with
  | nil => exact readsMany_nil _
  | cons v vec ih =>
    rw [List.flatMap_cons, List.map_cons]
    exact readsMany_cons (reads_writeF32 v).2 ih

/-- Two values one after the other, as an array. -/
theorem reads_pair {first second : Bytes} {a b : Value} (left : Reads codec first a)
    (right : Reads codec second b) : Reads codec (writeArrayLen 2 ++ (first ++ second)) (.array [a, b]) := by
  have last : ReadsMany codec (fun read => read) second [b] := by
    have last := readsMany_cons right.2 (readsMany_nil fun read => read)
    rwa [List.append_nil] at last
  exact reads_writeArray (by simp) (readsMany_cons left.2 last)

/-! ### Extensions -/

theorem toInt64_be (v : Int64) : (UInt64.ofNat (ofBe (be 8 v.toUInt64.toNat))).toInt64 = v := by
  rw [ofBe_be_of_lt v.toUInt64.toNat_lt, UInt64.ofNat_toNat, Int64.toInt64_toUInt64]

theorem decodeExt_timestamp (ts : Int64) :
    decodeExt codec extTimestamp (be 8 ts.toUInt64.toNat) = .ok (.timestamp ts) := by
  have size := length_be 8 ts.toUInt64.toNat
  rw [decodeExt, if_neg (by decide), if_pos rfl, if_pos (by omega), List.take_of_length_le (by omega), toInt64_be]

theorem decodeExt_duration (nanos : Int64) :
    decodeExt codec extDuration (be 8 nanos.toUInt64.toNat) = .ok (.duration nanos) := by
  have size := length_be 8 nanos.toUInt64.toNat
  rw [decodeExt, if_neg (by decide), if_neg (by decide), if_neg (by decide), if_neg (by decide),
    if_neg (by decide), if_neg (by decide), if_neg (by decide), if_neg (by decide), if_pos rfl,
    if_pos (by omega), List.take_of_length_le (by omega), toInt64_be]

theorem decodeExt_decimal (value : Bytes16) (precision scale : UInt8) :
    decodeExt codec extDecimal (be 16 value.toNat ++ [precision, scale]) =
      .ok (.decimal value precision scale) := by
  have size := length_be 16 value.toNat
  have fits : value.toNat < 256 ^ 16 := value.isLt
  rw [decodeExt, if_neg (by decide), if_neg (by decide), if_pos rfl, if_pos (by simp),
    List.take_left' size, ofBe_be_of_lt fits, BitVec.ofNat_toNat, BitVec.setWidth_eq]
  simp [List.getD]

theorem decodeExt_geoShape {geom : GeoJsonGeometry} {encoded : Bytes}
    (decodes : codec.fromSlice encoded = some geom) :
    decodeExt codec extGeoShape encoded = .ok (.geoShape geom) := by
  rw [decodeExt, if_neg (by decide), if_neg (by decide), if_neg (by decide), if_pos rfl]
  simp only [decodes]

theorem reads_entries {map : List (Text × Value)} (short : map.length < 4294967296)
    (distinct : (map.map Prod.fst).Nodup) (keys : ∀ e ∈ map, (utf8 e.1).length < 4294967296)
    (each : ∀ e ∈ map, RoundTrips codec e.2) :
    ∃ body, encodeEntries codec map = .ok body ∧
      Reads codec (writeMapLen (asU32 map.length) ++ body) (.object (renamedEntries map)) := by
  obtain ⟨body, encoded, many⟩ := readsMany_entries keys each
  refine ⟨body, encoded, ?_⟩
  rw [← keys_renamedEntries] at distinct
  rw [← length_renamedEntries map] at short ⊢
  exact reads_writeMap short distinct many

/-- **Every value is written as bytes that are its renaming**, by induction over the value. -/
theorem Built.roundTrips (built : Built codec value) : RoundTrips codec value := by
  induction built with
  | null => exact ⟨_, rfl, reads_writeNil⟩
  | bool b => exact ⟨_, rfl, reads_writeBool b⟩
  | int8 v | int16 v | int32 v | int64 v =>
    exact ⟨_, rfl, reads_writeSint (by have := v.le_toInt; omega) (by have := v.toInt_lt; omega)⟩
  | uint8 v | uint16 v | uint32 v => exact ⟨_, rfl, reads_writeUint (by have := v.toNat_lt; omega)⟩
  | uint64 v => exact ⟨_, rfl, reads_writeUint v.toNat_lt⟩
  | float32 v => exact ⟨_, rfl, reads_writeF32 v⟩
  | float64 v => exact ⟨_, rfl, reads_writeF64 v⟩
  | string short => exact ⟨_, rfl, reads_writeStr short⟩
  | binary short => exact ⟨_, rfl, reads_writeBin short⟩
  | timestamp ts => exact ⟨_, rfl, reads_writeExt (decodeExt_timestamp ts) (by simp)⟩
  | duration nanos => exact ⟨_, rfl, reads_writeExt (decodeExt_duration nanos) (by simp)⟩
  | decimal value precision scale =>
    exact ⟨_, rfl, reads_writeExt (decodeExt_decimal value precision scale) (by simp)⟩
  | @geoShape geom encoded encodes decodes short =>
    refine ⟨writeExt extGeoShape encoded, ?_, reads_writeExt (decodeExt_geoShape decodes) short⟩
    simp only [encodeToVec, encodes]
  | reference short id => exact ⟨_, rfl, reads_pair (reads_writeStr short) (reads_writeBin (by simp))⟩
  | geoPoint lat lon => exact ⟨_, rfl, reads_pair (reads_writeF64 lat) (reads_writeF64 lon)⟩
  | @vector vec short =>
    refine ⟨_, rfl, ?_⟩
    have size : (vec.map Value.float32).length = vec.length := List.length_map _
    rw [← size] at short ⊢
    exact reads_writeArray short (readsMany_vector vec)
  | @array items short _ each =>
    obtain ⟨body, encoded, many⟩ := readsMany_items each
    have size := length_renamedItems items
    refine ⟨writeArrayLen (asU32 items.length) ++ body, ?_, ?_⟩
    · rw [encodeToVec, encoded]
      rfl
    · rw [← size] at short ⊢
      exact reads_writeArray short many
  | @object map short distinct keys _ each =>
    obtain ⟨body, encoded, reads⟩ := reads_entries short distinct keys each
    refine ⟨writeMapLen (asU32 map.length) ++ body, ?_, reads⟩
    rw [encodeToVec, encoded]
    rfl
  | @map map short distinct keys _ each =>
    obtain ⟨body, encoded, reads⟩ := reads_entries short distinct keys each
    refine ⟨writeMapLen (asU32 map.length) ++ body, ?_, reads⟩
    rw [encodeToVec, encoded]
    rfl

/-- Bytes that are one whole value are decoded to it. -/
theorem Reads.decoded {bytes : Bytes} (reads : Reads codec bytes value) :
    decodeValue codec bytes = .ok value := by
  have read := reads.2 (bytes.length + 1) [] (Nat.le_succ _)
  rw [List.append_nil] at read
  rw [decodeValue, read]

/-- **What is encoded is decoded**, renamed; and renaming keeps the number that a value is. -/
theorem decodeValue_encodeValue {value : Value} (built : Built codec value) :
    (encodeValue codec value >>= decodeValue codec) = .ok (renamed value) ∧
      numeric (renamed value) = numeric value := by
  obtain ⟨bytes, encoded, reads⟩ := built.roundTrips
  refine ⟨?_, numeric_renamed value⟩
  rw [encodeValue, encoded, Outcome.ok_bind, reads.decoded]

end Reads

/-! ### A value of every shape -/

/-- Points only, in the form that `rmp_serde` gives them. -/
def pointCodec : GeoCodec where
  toVec
    | .point (x, y) => some ([0x81] ++ writeStr "Point".toList ++ [0x91, 0x92] ++
        writeF64 x.bits ++ writeF64 y.bits)
    | _ => none
  fromSlice data :=
    match decodeValue ⟨fun _ => none, fun _ => none⟩ data with
    | .ok (.object [(_, .array [.array [.float64 x, .float64 y]])]) => some (.point (x, y))
    | _ => none

def sampleValue : Value :=
  .map [
    ("place".toList, .geoShape (.point (⟨0x3FF8000000000000⟩, ⟨0xC000000000000000⟩))),
    ("since".toList, .duration (-1)),
    ("numbers".toList, .array [.int64 5, .int32 (-33), .uint64 300, .reference "users".toList 7])]

theorem decodeValue_encodeValue_sample :
    (encodeValue pointCodec sampleValue >>= decodeValue pointCodec) = .ok (renamed sampleValue) ∧
      numeric (renamed sampleValue) = numeric sampleValue := by
  refine decodeValue_encodeValue (.map (by decide) (by decide) ?_ ?_)
  · decide
  · intro e member
    simp only [List.mem_cons, List.not_mem_nil, or_false] at member
    rcases member with rfl | rfl | rfl
    · exact .geoShape rfl (by rfl) (by decide)
    · exact .duration _
    · refine .array (by decide) fun item member => ?_
      simp only [List.mem_cons, List.not_mem_nil, or_false] at member
      rcases member with rfl | rfl | rfl | rfl
      · exact .int64 _
      · exact .int32 _
      · exact .uint64 _
      · exact .reference (by decide) _

end NovaRuntime.Object
