/-
# NovaRuntime.Object.Untrusted — decoding bytes that nobody vouches for

Each marker has one of seven `Shape`s, and `decodeMarked_eq` reads the decoder off them.
`Spells` is the format itself: which bytes are one whole value. The decoder gives a value
exactly where the input starts with bytes that spell it; what follows them it does not look at.

`decodeMetered` is the decoder with a meter. A length comes from up to four bytes of the
input and is allocated before anything is read, so it may exceed what is left; a run that
gives a value has paid for all of them. Each call takes a marker, so there are never more
open than there are bytes, and one more.
-/
import NovaRuntime.Library.Readers
import NovaRuntime.Object.Codec

namespace NovaRuntime.Object

open NovaRuntime.Library
open NovaRuntime.Library.MsgPack
open NovaRuntime.Library.Metered (allocate onLeft call Tracks Within)

set_option autoImplicit false

/-! ## Shapes -/

/-- Where a length is: in the marker, or in a field behind it. -/
inductive LengthForm where
  | within (len : Nat)
  | field (width : Nat)
  deriving DecidableEq

/-- What a marker is followed by. -/
inductive Shape where
  | scalar (width : Nat) (value : Nat → Value)
  | string (form : LengthForm)
  | binary (form : LengthForm)
  | array (form : LengthForm)
  | map (form : LengthForm)
  | ext (form : LengthForm)
  | reserved

def shape : Marker → Shape
  | .null => .scalar 0 fun _ => .null
  | .true => .scalar 0 fun _ => .bool true
  | .false => .scalar 0 fun _ => .bool false
  | .fixPos val => .scalar 0 fun _ => .uint8 val
  | .fixNeg val => .scalar 0 fun _ => .int8 val
  | .u8 => .scalar 1 fun n => .uint8 (.ofNat n)
  | .u16 => .scalar 2 fun n => .uint16 (.ofNat n)
  | .u32 => .scalar 4 fun n => .uint32 (.ofNat n)
  | .u64 => .scalar 8 fun n => .uint64 (.ofNat n)
  | .i8 => .scalar 1 fun n => .int8 (UInt8.ofNat n).toInt8
  | .i16 => .scalar 2 fun n => .int16 (UInt16.ofNat n).toInt16
  | .i32 => .scalar 4 fun n => .int32 (UInt32.ofNat n).toInt32
  | .i64 => .scalar 8 fun n => .int64 (UInt64.ofNat n).toInt64
  | .f32 => .scalar 4 fun n => .float32 ⟨.ofNat n⟩
  | .f64 => .scalar 8 fun n => .float64 ⟨.ofNat n⟩
  | .fixStr len => .string (.within len.toNat)
  | .str8 => .string (.field 1)
  | .str16 => .string (.field 2)
  | .str32 => .string (.field 4)
  | .bin8 => .binary (.field 1)
  | .bin16 => .binary (.field 2)
  | .bin32 => .binary (.field 4)
  | .fixArray len => .array (.within len.toNat)
  | .array16 => .array (.field 2)
  | .array32 => .array (.field 4)
  | .fixMap len => .map (.within len.toNat)
  | .map16 => .map (.field 2)
  | .map32 => .map (.field 4)
  | .fixExt1 => .ext (.within 1)
  | .fixExt2 => .ext (.within 2)
  | .fixExt4 => .ext (.within 4)
  | .fixExt8 => .ext (.within 8)
  | .fixExt16 => .ext (.within 16)
  | .ext8 => .ext (.field 1)
  | .ext16 => .ext (.field 2)
  | .ext32 => .ext (.field 4)
  | .reserved => .reserved

/-- The length, and then what it is the length of. -/
def LengthForm.read {α : Type} (form : LengthForm) (next : Nat → Reader α) : Reader α :=
  match form with
  | .within len => next len
  | .field width => readBe width >>= next

def reservedMarker : Outcome RuntimeError Value :=
  .err (.deserialization "encountered reserved MessagePack marker")

def readShape (codec : GeoCodec) (read : Reader Value) : Shape → Reader Value
  | .scalar width value => readBe width >>= fun n => pure (value n)
  | .string form => form.read readString
  | .binary form => form.read readBinary
  | .array form => form.read (readArray read)
  | .map form => form.read (readMap read)
  | .ext form => form.read (readExt codec)
  | .reserved => Exec.lift reservedMarker

variable {codec : GeoCodec}

theorem readBe_zero {α : Type} (next : Nat → Reader α) : (readBe 0 >>= next) = next 0 := by
  funext data
  have nothing : readBe 0 data = (.ok 0, data) := rfl
  rw [Exec.bind_of_ok nothing]

theorem decodeMarked_eq (read : Reader Value) (marker : Marker) :
    decodeMarked codec read marker = readShape codec read (shape marker) := by
  cases marker
  -- the five markers that are whole values
  case null | true | false | fixPos | fixNeg =>
    rw [shape, readShape, readBe_zero]
    rfl
  all_goals rfl

/-! ## The format -/

/-- Behind the marker, the field names the length. -/
def LengthForm.Names (form : LengthForm) (field : Bytes) (len : Nat) : Prop :=
  match form with
  | .within n => field = [] ∧ len = n
  | .field width => field.length = width ∧ len = ofBe field

/-- The entries of a map, the last of each key. -/
def mapOf (entries : List (Text × Value)) : Value :=
  .object (entries.foldl (fun map e => insertEntry e.1 e.2 map) [])

/-- Some bytes are one whole value. -/
inductive Spells (codec : GeoCodec) : Bytes → Value → Prop where
  | scalar {b : UInt8} {width : Nat} {value : Nat → Value} {body : Bytes}
      (marked : shape (.ofByte b) = .scalar width value) (size : body.length = width) :
      Spells codec (b :: body) (value (ofBe body))
  | string {b : UInt8} {form : LengthForm} {field body : Bytes} {s : Text}
      (marked : shape (.ofByte b) = .string form) (named : form.Names field body.length)
      (text : ofUtf8 body = some s) : Spells codec (b :: (field ++ body)) (.string s)
  | binary {b : UInt8} {form : LengthForm} {field body : Bytes}
      (marked : shape (.ofByte b) = .binary form) (named : form.Names field body.length) :
      Spells codec (b :: (field ++ body)) (.binary body)
  | ext {b tag : UInt8} {form : LengthForm} {field body : Bytes} {value : Value}
      (marked : shape (.ofByte b) = .ext form) (named : form.Names field body.length)
      (decoded : decodeExt codec tag.toInt8 body = .ok value) :
      Spells codec (b :: (field ++ tag :: body)) value
  | array {b : UInt8} {form : LengthForm} {field : Bytes} {parts : List Bytes} {items : List Value}
      (marked : shape (.ofByte b) = .array form) (named : form.Names field items.length)
      (each : List.Forall₂ (Spells codec) parts items) :
      Spells codec (b :: (field ++ parts.flatten)) (.array items)
  | map {b : UInt8} {form : LengthForm} {field : Bytes} {keys vals : List Bytes}
      {entries : List (Text × Value)} (marked : shape (.ofByte b) = .map form)
      (named : form.Names field entries.length)
      (eachKey : List.Forall₂ (Spells codec) keys (entries.map fun e => .string e.1))
      (eachVal : List.Forall₂ (Spells codec) vals (entries.map Prod.snd)) :
      Spells codec (b :: (field ++ (List.zipWith (· ++ ·) keys vals).flatten)) (mapOf entries)

/-! ### What is decoded is spelled -/

theorem parses_readExact (n : Nat) :
    Exec.Parses (fun used b => used = b ∧ b.length = n) (readExact n) := by
  intro input b rest ran
  rw [readExact] at ran
  by_cases enough : n ≤ input.length
  · rw [if_pos enough] at ran
    obtain ⟨rfl, rfl⟩ : input.take n = b ∧ input.drop n = rest := by simpa using ran
    exact ⟨input.take n, (List.take_append_drop n input).symm, rfl, by rw [List.length_take]; omega⟩
  · simp [if_neg enough] at ran

theorem parses_readBe (width : Nat) :
    Exec.Parses (fun used n => used.length = width ∧ n = ofBe used) (readBe width) := by
  intro input n rest ran
  obtain ⟨b, middle, ranBytes, ran⟩ := Exec.bind_eq_ok.mp ran
  obtain ⟨rfl, rfl⟩ : ofBe b = n ∧ middle = rest := by simpa using ran
  obtain ⟨used, split, rfl, size⟩ := parses_readExact width input b middle ranBytes
  exact ⟨used, split, size, rfl⟩

theorem parses_readI8Raw : Exec.Parses (fun used tc => ∃ tag : UInt8, used = [tag] ∧ tc = tag.toInt8) readI8Raw := by
  intro input tc rest ran
  obtain ⟨n, middle, ranByte, ran⟩ := Exec.bind_eq_ok.mp ran
  obtain ⟨rfl, rfl⟩ : (UInt8.ofNat n).toInt8 = tc ∧ middle = rest := by simpa using ran
  obtain ⟨used, split, size, rfl⟩ := parses_readBe 1 input n middle ranByte
  obtain ⟨tag, rfl⟩ := List.length_eq_one_iff.mp size
  refine ⟨[tag], split, tag, rfl, ?_⟩
  have one : ofBe [tag] = tag.toNat := by simp [ofBe, ofLe]
  rw [one, UInt8.ofNat_toNat]

theorem parses_readString (len : Nat) :
    Exec.Parses (fun used value => used.length = len ∧ ∃ s, ofUtf8 used = some s ∧ value = .string s)
      (readString len) := by
  intro input value rest ran
  obtain ⟨buf, middle, ranBytes, ran⟩ := Exec.bind_eq_ok.mp ran
  obtain ⟨used, split, rfl, size⟩ := parses_readExact len input buf middle ranBytes
  cases text : ofUtf8 used with
  | none => simp [text] at ran
  | some s =>
    obtain ⟨rfl, rfl⟩ : Value.string s = value ∧ middle = rest := by simpa [text] using ran
    exact ⟨used, split, size, s, text, rfl⟩

theorem parses_readBinary (len : Nat) :
    Exec.Parses (fun used value => used.length = len ∧ value = .binary used) (readBinary len) := by
  intro input value rest ran
  obtain ⟨buf, middle, ranBytes, ran⟩ := Exec.bind_eq_ok.mp ran
  obtain ⟨used, split, rfl, size⟩ := parses_readExact len input buf middle ranBytes
  obtain ⟨rfl, rfl⟩ : Value.binary used = value ∧ middle = rest := by simpa using ran
  exact ⟨used, split, size, rfl⟩

theorem parses_readExt (len : Nat) :
    Exec.Parses (fun used value => ∃ (tag : UInt8) (body : Bytes), used = tag :: body ∧
      body.length = len ∧ decodeExt codec tag.toInt8 body = .ok value) (readExt codec len) := by
  intro input value rest ran
  obtain ⟨tc, middle, ranTag, ran⟩ := Exec.bind_eq_ok.mp ran
  obtain ⟨body, middle', ranBody, ran⟩ := Exec.bind_eq_ok.mp ran
  obtain ⟨decoded, rfl⟩ : decodeExt codec tc body = .ok value ∧ middle' = rest := by simpa using ran
  obtain ⟨_, rfl, tag, rfl, rfl⟩ := parses_readI8Raw input tc middle ranTag
  obtain ⟨used, rfl, rfl, size⟩ := parses_readExact len middle body middle' ranBody
  exact ⟨tag :: used, rfl, tag, used, rfl, size, decoded⟩

/-- A length and what it is the length of. -/
theorem LengthForm.parses {α : Type} {R : Nat → Bytes → α → Prop} {next : Nat → Reader α}
    (each : ∀ len, Exec.Parses (R len) (next len)) (form : LengthForm) :
    Exec.Parses (fun used a => ∃ field body len, used = field ++ body ∧ form.Names field len ∧ R len body a)
      (form.read next) := by
  cases form with
  | within len =>
    exact (each len).mono fun used a related => ⟨[], used, len, rfl, ⟨rfl, rfl⟩, related⟩
  | field width =>
    refine ((parses_readBe width).bind each).mono ?_
    rintro used a ⟨n, field, body, split, ⟨size, rfl⟩, related⟩
    exact ⟨field, body, ofBe field, split, ⟨size, rfl⟩, related⟩

theorem parses_decodeMapKey {read : Reader Value} (parses : Exec.Parses (Spells codec) read) :
    Exec.Parses (fun used key => Spells codec used (.string key)) (decodeMapKey read) := by
  intro input key rest ran
  obtain ⟨value, middle, ranValue, ran⟩ := Exec.bind_eq_ok.mp ran
  obtain ⟨used, split, spelled⟩ := parses input value middle ranValue
  cases value with
  | string s =>
    obtain ⟨rfl, rfl⟩ : s = key ∧ middle = rest := by simpa using ran
    exact ⟨used, split, spelled⟩
  | _ => simp at ran

theorem readMany_eq_times {α : Type} (read : Reader α) (n : Nat) : readMany read n = Exec.times read n := by
  induction n with
  | zero => rfl
  | succ n ih => rw [readMany, Exec.times, ih]

theorem parses_readArray {read : Reader Value} (parses : Exec.Parses (Spells codec) read) (len : Nat) :
    Exec.Parses (fun used value => ∃ parts items, used = List.flatten parts ∧ items.length = len ∧
      List.Forall₂ (Spells codec) parts items ∧ value = .array items) (readArray read len) := by
  intro input value rest ran
  obtain ⟨items, middle, ranItems, ran⟩ := Exec.bind_eq_ok.mp ran
  obtain ⟨rfl, rfl⟩ : Value.array items = value ∧ middle = rest := by simpa using ran
  rw [readMany_eq_times] at ranItems
  obtain ⟨used, split, size, parts, flat, each⟩ := parses.times len input items middle ranItems
  exact ⟨used, split, parts, items, flat, size, each, rfl⟩

/-- The keys and the values of entries that are spelled one after the other. -/
theorem exists_keys_vals {parts : List Bytes} {entries : List (Text × Value)}
    (each : List.Forall₂ (fun part e => ∃ key val, part = key ++ val ∧ Spells codec key (.string e.1) ∧
      Spells codec val e.2) parts entries) :
    ∃ keys vals, parts = List.zipWith (· ++ ·) keys vals ∧
      List.Forall₂ (Spells codec) keys (entries.map fun e => .string e.1) ∧
      List.Forall₂ (Spells codec) vals (entries.map Prod.snd) := by
  induction each with
  | nil => exact ⟨[], [], rfl, .nil, .nil⟩
  | cons first _ ih =>
    obtain ⟨key, val, rfl, spelledKey, spelledVal⟩ := first
    obtain ⟨keys, vals, rfl, eachKey, eachVal⟩ := ih
    exact ⟨key :: keys, val :: vals, rfl, .cons spelledKey eachKey, .cons spelledVal eachVal⟩

theorem parses_readMap {read : Reader Value} (parses : Exec.Parses (Spells codec) read) (len : Nat) :
    Exec.Parses (fun used value => ∃ keys vals entries,
      used = (List.zipWith (· ++ ·) keys vals).flatten ∧ entries.length = len ∧
      List.Forall₂ (Spells codec) keys (entries.map fun e => .string e.1) ∧
      List.Forall₂ (Spells codec) vals (entries.map Prod.snd) ∧ value = mapOf entries)
      (readMap read len) := by
  have entry : Exec.Parses (fun part e => ∃ key val, part = key ++ val ∧ Spells codec key (.string e.1) ∧
      Spells codec val e.2) (readEntry read) := by
    intro input e rest ran
    obtain ⟨key, middle, ranKey, ran⟩ := Exec.bind_eq_ok.mp ran
    obtain ⟨val, middle', ranVal, ran⟩ := Exec.bind_eq_ok.mp ran
    obtain ⟨rfl, rfl⟩ : (key, val) = e ∧ middle' = rest := by simpa using ran
    obtain ⟨before, rfl, spelledKey⟩ := parses_decodeMapKey parses input key middle ranKey
    obtain ⟨after, rfl, spelledVal⟩ := parses middle val middle' ranVal
    exact ⟨before ++ after, (List.append_assoc ..).symm, before, after, rfl, spelledKey, spelledVal⟩
  intro input value rest ran
  obtain ⟨entries, middle, ranEntries, ran⟩ := Exec.bind_eq_ok.mp ran
  obtain ⟨rfl, rfl⟩ : mapOf entries = value ∧ middle = rest := by simpa [mapOf] using ran
  rw [readMany_eq_times] at ranEntries
  obtain ⟨used, split, size, parts, rfl, each⟩ := entry.times len input entries middle ranEntries
  obtain ⟨keys, vals, rfl, eachKey, eachVal⟩ := exists_keys_vals each
  exact ⟨_, split, keys, vals, entries, rfl, size, eachKey, eachVal, rfl⟩

theorem parses_readShape {read : Reader Value} (parses : Exec.Parses (Spells codec) read) {b : UInt8}
    {form : Shape} (marked : shape (.ofByte b) = form) :
    Exec.Parses (fun used value => Spells codec (b :: used) value) (readShape codec read form) := by
  cases form with
  | scalar width value =>
    intro input v rest ran
    obtain ⟨n, middle, ranNumber, ran⟩ := Exec.bind_eq_ok.mp ran
    obtain ⟨rfl, rfl⟩ : value n = v ∧ middle = rest := by simpa using ran
    obtain ⟨used, split, size, rfl⟩ := parses_readBe width input n middle ranNumber
    exact ⟨used, split, .scalar marked size⟩
  | string form =>
    refine (form.parses parses_readString).mono ?_
    rintro used value ⟨field, body, len, rfl, named, rfl, s, text, rfl⟩
    exact .string marked named text
  | binary form =>
    refine (form.parses parses_readBinary).mono ?_
    rintro used value ⟨field, body, len, rfl, named, rfl, rfl⟩
    exact .binary marked named
  | ext form =>
    refine (form.parses parses_readExt).mono ?_
    rintro used value ⟨field, _, len, rfl, named, tag, body, rfl, rfl, decoded⟩
    exact .ext marked named decoded
  | array form =>
    refine (form.parses (parses_readArray parses)).mono ?_
    rintro used value ⟨field, _, len, rfl, named, parts, items, rfl, rfl, each, rfl⟩
    exact .array marked named each
  | map form =>
    refine (form.parses (parses_readMap parses)).mono ?_
    rintro used value ⟨field, _, len, rfl, named, keys, vals, entries, rfl, rfl, eachKey, eachVal, rfl⟩
    exact .map marked named eachKey eachVal
  | reserved =>
    intro input v rest ran
    simp [readShape, reservedMarker] at ran

/-- **What is decoded is spelled** by the bytes that were taken. -/
theorem parses_decodeValueReader (fuel : Nat) :
    Exec.Parses (Spells codec) (decodeValueReader codec fuel) := by
  induction fuel with
  | zero =>
    intro input v rest ran
    simp [decodeValueReader] at ran
  | succ fuel ih =>
    intro input v rest ran
    obtain ⟨marker, middle, ranMarker, ran⟩ := Exec.bind_eq_ok.mp ran
    cases input with
    | nil => simp [readMarker] at ranMarker
    | cons b input =>
      obtain ⟨rfl, rfl⟩ : Marker.ofByte b = marker ∧ input = middle := by
        simpa [readMarker] using ranMarker
      rw [decodeMarked_eq] at ran
      obtain ⟨used, rfl, spelled⟩ := parses_readShape ih rfl input v rest ran
      exact ⟨b :: used, rfl, spelled⟩

/-! ### What is spelled is decoded -/

theorem readBe_append {width : Nat} {field : Bytes} (size : field.length = width) (rest : Bytes) :
    readBe width (field ++ rest) = (.ok (ofBe field), rest) := by
  rw [readBe, Exec.bind_of_ok (readExact_append size rest)]
  rfl

theorem LengthForm.Names.read {α : Type} {form : LengthForm} {field : Bytes} {len : Nat}
    (named : form.Names field len) (next : Nat → Reader α) (rest : Bytes) :
    form.read next (field ++ rest) = next len rest := by
  cases form with
  | within n =>
    obtain ⟨rfl, rfl⟩ := named
    rfl
  | field width =>
    obtain ⟨size, rfl⟩ := named
    exact Exec.bind_of_ok (readBe_append size rest) next

/-- A marker, a length, and what is read by it. -/
theorem reads_of_shape {b : UInt8} {marked : Shape} {used : Bytes} {value : Value}
    (is : shape (.ofByte b) = marked)
    (read : ∀ fuel rest, used.length ≤ fuel →
      readShape codec (decodeValueReader codec fuel) marked (used ++ rest) = (.ok value, rest)) :
    Reads codec (b :: used) value := by
  refine reads_of_marked fun fuel rest enough => ?_
  rw [decodeMarked_eq, is]
  exact read fuel rest enough

theorem readsMany_items_of {parts : List Bytes} {items : List Value}
    (each : List.Forall₂ (Spells codec) parts items)
    (reads : ∀ part value, part.length ≤ parts.flatten.length → Spells codec part value →
      Reads codec part value) :
    ReadsMany codec (fun read => read) parts.flatten items := by
  induction each with
  | nil => exact readsMany_nil _
  | @cons part item parts items first _ ih =>
    rw [List.flatten_cons, List.length_append] at reads
    refine readsMany_cons (fun fuel after enough => ?_) (ih fun part value short => reads part value (by omega))
    exact (reads part item (by omega) first).2 fuel after enough

theorem readsMany_entries_of {keys vals : List Bytes} {entries : List (Text × Value)}
    (eachKey : List.Forall₂ (Spells codec) keys (entries.map fun e => .string e.1))
    (eachVal : List.Forall₂ (Spells codec) vals (entries.map Prod.snd))
    (reads : ∀ part value, part.length ≤ (List.zipWith (· ++ ·) keys vals).flatten.length →
      Spells codec part value → Reads codec part value) :
    ReadsMany codec readEntry (List.zipWith (· ++ ·) keys vals).flatten entries := by
  induction entries generalizing keys vals with
  | nil =>
    cases eachKey
    exact readsMany_nil _
  | cons e entries ih =>
    obtain _ | ⟨spelledKey, eachKey⟩ := eachKey
    obtain _ | ⟨spelledVal, eachVal⟩ := eachVal
    rename_i key keys val vals
    simp only [List.zipWith_cons_cons, List.flatten_cons, List.length_append] at reads ⊢
    refine readsMany_cons (fun fuel after enough => ?_)
      (ih eachKey eachVal fun part value short => reads part value (by omega))
    rw [List.length_append] at enough
    have readKey := (reads key _ (by omega) spelledKey).2 fuel (val ++ after) (by omega)
    have keyRead : decodeMapKey (decodeValueReader codec fuel) (key ++ (val ++ after)) =
        (.ok e.1, val ++ after) := by
      rw [decodeMapKey, Exec.bind_of_ok readKey]
      rfl
    have readVal := (reads val _ (by omega) spelledVal).2 fuel after (by omega)
    rw [readEntry, List.append_assoc, Exec.bind_of_ok keyRead, Exec.bind_of_ok readVal]
    rfl

/-- **What is spelled is decoded**, whatever follows it. -/
theorem Spells.reads {bytes : Bytes} {value : Value} (spelled : Spells codec bytes value) :
    Reads codec bytes value := by
  -- the values inside a value are spelled by fewer bytes
  induction size : bytes.length using Nat.strongRecOn generalizing bytes value with
  | _ size ih =>
    subst size
    have inner (used : Bytes) (b : UInt8) (field : Bytes) (whole : bytes = b :: (field ++ used)) :
        ∀ part value, part.length ≤ used.length → Spells codec part value → Reads codec part value := by
      intro part value short spelled
      refine ih part.length ?_ spelled rfl
      rw [whole, List.length_cons, List.length_append]
      omega
    cases spelled with
    | @scalar b width value body marked fits =>
      refine reads_of_shape marked fun fuel rest _ => ?_
      rw [readShape, Exec.bind_of_ok (readBe_append fits rest)]
      rfl
    | @string b form field body s marked named text =>
      refine reads_of_shape marked fun fuel rest _ => ?_
      rw [readShape, List.append_assoc, named.read, readString, Exec.bind_of_ok (readExact_append rfl rest), text]
      rfl
    | @binary b form field body marked named =>
      refine reads_of_shape marked fun fuel rest _ => ?_
      rw [readShape, List.append_assoc, named.read]
      exact readBinary_append rfl rest
    | @ext b tag form field body value marked named decoded =>
      refine reads_of_shape marked fun fuel rest _ => ?_
      rw [readShape, List.append_assoc, named.read]
      simpa using readExt_append decoded rfl rest
    | @array b form field parts items marked named each =>
      have many := readsMany_items_of each (inner _ b field rfl)
      refine reads_of_shape marked fun fuel rest enough => ?_
      rw [List.length_append] at enough
      rw [readShape, List.append_assoc, named.read, readArray, Exec.bind_of_ok (many fuel rest (by omega))]
      rfl
    | @map b form field keys vals entries marked named eachKey eachVal =>
      have many := readsMany_entries_of eachKey eachVal (inner _ b field rfl)
      refine reads_of_shape marked fun fuel rest enough => ?_
      rw [List.length_append] at enough
      rw [readShape, List.append_assoc, named.read, readMap, Exec.bind_of_ok (many fuel rest (by omega))]
      rfl

theorem decodeValue_eq_ok_iff {data : Bytes} {value : Value} :
    decodeValue codec data = .ok value ↔ ∃ used rest, data = used ++ rest ∧ Spells codec used value := by
  constructor
  · intro decoded
    obtain ⟨used, split, spelled⟩ := parses_decodeValueReader _ data value _ (Exec.eq_ok_of_fst decoded)
    exact ⟨used, _, split, spelled⟩
  · rintro ⟨used, rest, rfl, spelled⟩
    rw [decodeValue, spelled.reads.2 _ rest (by rw [List.length_append]; omega)]

/-- An input starts with one value only, and with one spelling of it. -/
theorem Spells.unique {data used used' : Bytes} {value value' : Value} (spelled : Spells codec used value)
    (spelled' : Spells codec used' value') (starts : used <+: data) (starts' : used' <+: data) :
    used = used' ∧ value = value' := by
  obtain ⟨rest, rfl⟩ := starts
  obtain ⟨rest', same⟩ := starts'
  have read := spelled.reads.2 (used.length + used'.length) rest (by omega)
  rw [← same, spelled'.reads.2 _ rest' (by omega)] at read
  obtain ⟨rfl, rfl⟩ : value' = value ∧ rest' = rest := by simpa using read
  exact ⟨(List.append_cancel_right same).symm, rfl⟩

/-- **The decoder gives a value exactly where the input starts with one**, spelled whole. -/
theorem decodeValue_eq_ok_iff_existsUnique {data : Bytes} {value : Value} :
    decodeValue codec data = .ok value ↔ ∃! used, used <+: data ∧ Spells codec used value := by
  rw [decodeValue_eq_ok_iff]
  constructor
  · rintro ⟨used, rest, rfl, spelled⟩
    refine ⟨used, ⟨List.prefix_append .., spelled⟩, ?_⟩
    rintro used' ⟨starts', spelled'⟩
    exact (spelled'.unique spelled starts' (List.prefix_append ..)).1
  · rintro ⟨used, ⟨⟨rest, rfl⟩, spelled⟩, _⟩
    exact ⟨used, rest, rfl, spelled⟩

/-! ## The decoder with a meter -/

abbrev MeteredReader (α : Type) := Metered RuntimeError UInt8 α

def LengthForm.meter {α : Type} (form : LengthForm) (next : Nat → MeteredReader α) : MeteredReader α :=
  match form with
  | .within len => next len
  | .field width => onLeft (readBe width) >>= next

/-- `vec![0u8; len]`, and then the bytes. -/
def meterBytes (read : Nat → Reader Value) (len : Nat) : MeteredReader Value := do
  allocate len
  onLeft (read len)

/-- A length in the marker is that of an array on the stack. -/
def meterExt (codec : GeoCodec) (form : LengthForm) : MeteredReader Value :=
  match form with
  | .within len => onLeft (readExt codec len)
  | .field width => do
      let len ← onLeft (readBe width)
      let tc ← onLeft readI8Raw
      allocate len
      let buf ← onLeft (readExact len)
      Exec.lift (decodeExt codec tc buf)

/-- `Vec::with_capacity(len)`, and then the items. -/
def meterArray (read : MeteredReader Value) (len : Nat) : MeteredReader Value := do
  allocate len
  let items ← Exec.times read len
  pure (.array items)

def meterMapKey (read : MeteredReader Value) : MeteredReader Text := do
  let keyVal ← read
  match keyVal with
  | .string s => pure s
  | other => Exec.lift (.err (.deserialization ("expected string map key, got " ++ other.typeName)))

def meterEntry (read : MeteredReader Value) : MeteredReader (Text × Value) := do
  let key ← meterMapKey read
  let val ← read
  pure (key, val)

/-- `HashMap::with_capacity(len)`, and then the entries. -/
def meterMap (read : MeteredReader Value) (len : Nat) : MeteredReader Value := do
  allocate len
  let entries ← Exec.times (meterEntry read) len
  pure (mapOf entries)

def meterShape (codec : GeoCodec) (read : MeteredReader Value) : Shape → MeteredReader Value
  | .scalar width value => onLeft (readBe width) >>= fun n => pure (value n)
  | .string form => form.meter (meterBytes readString)
  | .binary form => form.meter (meterBytes readBinary)
  | .array form => form.meter (meterArray read)
  | .map form => form.meter (meterMap read)
  | .ext form => meterExt codec form
  | .reserved => Exec.lift reservedMarker

def meterValueReader (codec : GeoCodec) : Nat → MeteredReader Value
  | 0 => Exec.lift .hang
  | fuel + 1 => call (onLeft readMarker >>= fun marker =>
    meterShape codec (meterValueReader codec fuel) (shape marker))

/-- A decoding: how it ends, and what it has allocated and called by then. -/
def decodeMetered (codec : GeoCodec) (data : Bytes) : Outcome RuntimeError Value × Meter UInt8 :=
  meterValueReader codec (data.length + 1) (Metered.start data)

/-! ### Without its meter it is the decoder -/

theorem LengthForm.tracks {α : Type} {next : Nat → MeteredReader α} {plain : Nat → Reader α}
    (each : ∀ len, Tracks (next len) (plain len)) (form : LengthForm) :
    Tracks (form.meter next) (form.read plain) := by
  cases form with
  | within len => exact each len
  | field width => exact (Metered.tracks_onLeft _).bind each

theorem tracks_meterBytes (read : Nat → Reader Value) (len : Nat) : Tracks (meterBytes read len) (read len) :=
  (Metered.tracks_onLeft _).allocate len

theorem tracks_meterExt (form : LengthForm) : Tracks (meterExt codec form) (form.read (readExt codec)) := by
  cases form with
  | within len => exact Metered.tracks_onLeft _
  | field width =>
    refine (Metered.tracks_onLeft _).bind fun len => (Metered.tracks_onLeft _).bind fun tc => ?_
    exact ((Metered.tracks_onLeft _).bind fun _ => Metered.tracks_lift _).allocate len

theorem tracks_meterMapKey {read : MeteredReader Value} {plain : Reader Value} (tracks : Tracks read plain) :
    Tracks (meterMapKey read) (decodeMapKey plain) := by
  refine tracks.bind fun value => ?_
  cases value with
  | string s => exact Metered.tracks_pure s
  | _ => exact Metered.tracks_lift _

theorem tracks_meterShape {read : MeteredReader Value} {plain : Reader Value} (tracks : Tracks read plain)
    (marked : Shape) : Tracks (meterShape codec read marked) (readShape codec plain marked) := by
  cases marked with
  | scalar width value => exact (Metered.tracks_onLeft _).bind fun _ => Metered.tracks_pure _
  | string form => exact form.tracks (tracks_meterBytes readString)
  | binary form => exact form.tracks (tracks_meterBytes readBinary)
  | array form =>
    refine form.tracks fun len => ?_
    rw [readArray, readMany_eq_times]
    exact ((tracks.times len).bind fun _ => Metered.tracks_pure _).allocate len
  | map form =>
    refine form.tracks fun len => ?_
    have entry : Tracks (meterEntry read) (readEntry plain) :=
      (tracks_meterMapKey tracks).bind fun _ => tracks.bind fun _ => Metered.tracks_pure _
    rw [readMap, readMany_eq_times]
    exact ((entry.times len).bind fun _ => Metered.tracks_pure _).allocate len
  | ext form => exact tracks_meterExt form
  | reserved => exact Metered.tracks_lift _

theorem tracks_meterValueReader (fuel : Nat) :
    Tracks (meterValueReader codec fuel) (decodeValueReader codec fuel) := by
  induction fuel with
  | zero => exact Metered.tracks_lift _
  | succ fuel ih =>
    refine Tracks.call ((Metered.tracks_onLeft readMarker).bind fun marker => ?_)
    rw [decodeMarked_eq]
    exact tracks_meterShape ih (shape marker)

/-- The metered decoder ends as the decoder does. -/
theorem decodeMetered_fst (data : Bytes) : (decodeMetered codec data).1 = decodeValue codec data :=
  (tracks_meterValueReader _ _).1

/-! ### What is allocated and called -/

theorem ofBe_lt (field : Bytes) : ofBe field < 256 ^ field.length := by
  rw [ofBe, ← List.length_reverse]
  exact ofLe_lt _

/-- The length has at most 32 bits. -/
def LengthForm.Short : LengthForm → Prop
  | .within len => len < 2 ^ 32
  | .field width => width ≤ 4

def Shape.Short : Shape → Prop
  | .string form | .binary form | .array form | .map form | .ext form => form.Short
  | _ => True

theorem shape_short (marker : Marker) : (shape marker).Short := by
  have byte (len : UInt8) : len.toNat < 2 ^ 32 := Nat.lt_trans len.toNat_lt (by decide)
  cases marker
  case fixStr len | fixArray len | fixMap len => exact byte len
  all_goals simp [shape, Shape.Short, LengthForm.Short]

theorem answering_readExact (len : Nat) : Exec.Answering (readExact len) := by
  intro input
  rw [readExact]
  by_cases enough : len ≤ input.length
  · rw [if_pos enough]
    trivial
  · rw [if_neg enough]
    trivial

theorem answering_readBe (width : Nat) : Exec.Answering (readBe width) :=
  (answering_readExact width).bind fun _ => Exec.answering_pure _

theorem answering_readI8Raw : Exec.Answering readI8Raw := (answering_readBe 1).bind fun _ => Exec.answering_pure _

theorem answering_readMarker : Exec.Answering readMarker := by
  intro input
  cases input <;> trivial

theorem decodeExt_answers (tc : Int8) (data : Bytes) : (decodeExt codec tc data).Answers := by
  rw [decodeExt]
  repeat' apply Outcome.answers_ite
  all_goals first | exact trivial | cases codec.fromSlice data <;> exact trivial | cases ofUtf8 data <;> exact trivial

theorem parses_readMarker : Exec.Parses (fun used _ => used.length = 1) readMarker := by
  intro input marker rest ran
  cases input with
  | nil => cases ran
  | cons b input =>
    cases ran
    exact ⟨[b], rfl, rfl⟩

theorem within_readExact {n : Nat} (len : Nat) : Within n (2 ^ 32) len (onLeft (readExact len)) :=
  Metered.within_onLeft (answering_readExact len) (parses_readExact len) fun _ _ ⟨same, size⟩ => by
    rw [same, size]

theorem within_readBe {n : Nat} (width : Nat) : Within n (2 ^ 32) width (onLeft (readBe width)) :=
  Metered.within_onLeft (answering_readBe width) (parses_readBe width) fun _ _ related => related.1.ge

/-- A number of a field is as short as the field. -/
theorem readBe_lt {width : Nat} (short : width ≤ 4) (m : Meter UInt8) (n : Nat)
    (gave : (onLeft (readBe width) m : Outcome RuntimeError Nat × _).1 = .ok n) : n < 2 ^ 32 := by
  obtain ⟨used, _, size, rfl⟩ := parses_readBe width m.left n _ (Exec.eq_ok_of_fst gave)
  calc ofBe used < 256 ^ used.length := ofBe_lt used
    _ ≤ 256 ^ 4 := Nat.pow_le_pow_right (by decide) (size ▸ short)

variable {n : Nat}

theorem LengthForm.bounded {α : Type} {form : LengthForm} (short : form.Short) {next : Nat → MeteredReader α}
    (each : ∀ len, len < 2 ^ 32 → Within n (2 ^ 32) 0 (next len)) : Within n (2 ^ 32) 0 (form.meter next) := by
  cases form with
  | within len => exact each len short
  | field width => exact ((within_readBe width).bind_of (readBe_lt short) each).mono (Nat.zero_le _)

theorem within_meterString (len : Nat) (small : len < 2 ^ 32) :
    Within n (2 ^ 32) 0 (meterBytes readString len) := by
  have answers : Exec.Answering (readString len) := (answering_readExact len).bind fun buf => by
    cases ofUtf8 buf <;> exact fun _ => trivial
  have read : Within n (2 ^ 32) len (onLeft (readString len)) :=
    Metered.within_onLeft answers (parses_readString len) fun _ _ related => related.1.ge
  exact (read.allocate small (le_rfl)).mono (Nat.zero_le _)

theorem within_meterBinary (len : Nat) (small : len < 2 ^ 32) :
    Within n (2 ^ 32) 0 (meterBytes readBinary len) := by
  have read : Within n (2 ^ 32) len (onLeft (readBinary len)) :=
    Metered.within_onLeft ((answering_readExact len).bind fun _ => Exec.answering_pure _) (parses_readBinary len)
      fun _ _ related => related.1.ge
  exact (read.allocate small (le_rfl)).mono (Nat.zero_le _)

theorem within_meterExt {form : LengthForm} (short : form.Short) :
    Within n (2 ^ 32) 0 (meterExt codec form) := by
  cases form with
  | within len =>
    have answers : Exec.Answering (readExt codec len) := answering_readI8Raw.bind fun tc =>
      (answering_readExact len).bind fun buf _ => decodeExt_answers tc buf
    exact Metered.within_onLeft answers (parses_readExt len) fun _ _ _ => Nat.zero_le _
  | field width =>
    have payload (len : Nat) (small : len < 2 ^ 32) (tc : Int8) : Within n (2 ^ 32) 0 (do
        allocate len
        let buf ← onLeft (readExact len)
        Exec.lift (decodeExt codec tc buf)) :=
      (((within_readExact len).bind fun buf => Metered.within_lift (decodeExt_answers tc buf)).allocate small
        (le_rfl)).mono (Nat.zero_le _)
    have tag : Within n (2 ^ 32) 0 (onLeft readI8Raw) :=
      Metered.within_onLeft answering_readI8Raw parses_readI8Raw fun _ _ _ => Nat.zero_le _
    exact ((within_readBe width).bind_of (readBe_lt short) fun len small => tag.bind (payload len small)).mono
      (Nat.zero_le _)

theorem within_meterEntry {read : MeteredReader Value} (within : Within n (2 ^ 32) 1 read) :
    Within n (2 ^ 32) 1 (meterEntry read) := by
  have key : Within n (2 ^ 32) (1 + 0) (meterMapKey read) := by
    refine within.bind fun value => ?_
    cases value with
    | string s => exact Metered.within_pure s
    | _ => exact Metered.within_lift trivial
  exact (key.bind fun _ => within.bind fun _ => Metered.within_pure _).mono (by decide)

theorem within_meterShape {read : MeteredReader Value} (within : Within n (2 ^ 32) 1 read) {marked : Shape}
    (short : marked.Short) : Within n (2 ^ 32) 0 (meterShape codec read marked) := by
  cases marked with
  | scalar width value => exact ((within_readBe width).bind fun _ => Metered.within_pure _).mono (Nat.zero_le _)
  | string form => exact LengthForm.bounded short within_meterString
  | binary form => exact LengthForm.bounded short within_meterBinary
  | array form =>
    refine LengthForm.bounded short fun len small => ?_
    have items := (within.times len).bind fun items => Metered.within_pure (Value.array items)
    exact (items.allocate small (le_rfl)).mono (Nat.zero_le _)
  | map form =>
    refine LengthForm.bounded short fun len small => ?_
    have entries := ((within_meterEntry within).times len).bind fun entries =>
      Metered.within_pure (mapOf entries)
    exact (entries.allocate small (le_rfl)).mono (Nat.zero_le _)
  | ext form => exact within_meterExt short
  | reserved => exact Metered.within_lift trivial

/-- Each call takes a marker, so fuel above the number of bytes is never used up. -/
theorem within_meterValueReader (fuel : Nat) : Within fuel (2 ^ 32) 1 (meterValueReader codec fuel) := by
  induction fuel with
  | zero => exact fun _ few => absurd few (Nat.not_lt_zero _)
  | succ fuel ih =>
    exact Within.call answering_readMarker parses_readMarker (fun _ _ one => one.ge) fun marker =>
      within_meterShape ih (shape_short marker)

/-- Arrays of one array each, and no end: one call more for each byte. -/
theorem meterValueReader_nested (n : Nat) (m : Meter UInt8) (left : m.left = List.replicate n 0x91) :
    (meterValueReader codec (n + 1) m).1 = .err .foreign ∧
      m.calls + n + 1 ≤ (meterValueReader codec (n + 1) m).2.deepest := by
  induction n generalizing m with
  | zero =>
    obtain ⟨left', calls, deepest, allocated⟩ := m
    obtain rfl : left' = [] := left
    exact ⟨rfl, le_max_right ..⟩
  | succ n ih =>
    obtain ⟨left', calls, deepest, allocated⟩ := m
    obtain rfl : left' = 0x91 :: List.replicate n 0x91 := left
    -- the meter that the inner array is read with
    let inner : Meter UInt8 := ⟨List.replicate n 0x91, calls + 1, max deepest (calls + 1),
      allocated ++ [⟨1, (List.replicate n (0x91 : UInt8)).length⟩]⟩
    obtain ⟨ended, deep⟩ := ih inner rfl
    have failed : meterValueReader codec (n + 1) inner =
        (.err .foreign, (meterValueReader codec (n + 1) inner).2) := Prod.ext ended rfl
    have items : Exec.times (meterValueReader codec (n + 1)) 1 inner =
        (.err .foreign, (meterValueReader codec (n + 1) inner).2) := by
      rw [Exec.times, Exec.bind_apply, failed]
    have array : meterArray (meterValueReader codec (n + 1)) 1
        ⟨List.replicate n 0x91, calls + 1, max deepest (calls + 1), allocated⟩ =
        (.err .foreign, (meterValueReader codec (n + 1) inner).2) := by
      show (Exec.times (meterValueReader codec (n + 1)) 1 >>= fun items => pure (Value.array items)) inner = _
      rw [Exec.bind_apply, items]
    have closed (ran : Outcome RuntimeError Value × Meter UInt8)
        (is : meterArray (meterValueReader codec (n + 1)) 1
          ⟨List.replicate n 0x91, calls + 1, max deepest (calls + 1), allocated⟩ = ran) :
        meterValueReader codec (n + 2) ⟨0x91 :: List.replicate n 0x91, calls, deepest, allocated⟩ =
          (ran.1, { ran.2 with calls := calls }) := by
      subst is
      rfl
    rw [closed _ array]
    refine ⟨rfl, ?_⟩
    simp only [inner] at deep ⊢
    omega

end NovaRuntime.Object
