/-
# NovaRuntime.Storage.Wal — the write-ahead log of `wal.rs`

The log is a directory of numbered segments. A record is a 24-byte header (magic,
checksum, payload length, LSN, record type, two reserved bytes) and its payload.
`WalWriter` appends to the highest segment; opening it finds that segment and the
highest LSN with a parser of its own, which checks neither magic nor checksum.
`WalReader` starts at segment 1 and moves to the next segment when fewer than 24
bytes are left.

Writes reach the file at once and reads see whole files; `flush` and `sync_all`
change nothing that is modelled, nor does the writer's `offset`, which nothing
reads. An overflow of the LSN or of the segment number is a panic, as in a build
with overflow checks. `now_timestamp` is an argument of `makeRecord`.
-/
import NovaRuntime.Storage.Types

namespace NovaRuntime.Storage

open NovaRuntime.Library

set_option autoImplicit false

inductive WalRecordType where
  | begin
  | commit
  | rollback
  | insert
  | update
  | delete
  | checkpoint
  deriving DecidableEq

namespace WalRecordType

def toU16 : WalRecordType → Nat
  | .begin => 0
  | .commit => 1
  | .rollback => 2
  | .insert => 3
  | .update => 4
  | .delete => 5
  | .checkpoint => 6

def fromU16 : Nat → Option WalRecordType
  | 0 => some .begin
  | 1 => some .commit
  | 2 => some .rollback
  | 3 => some .insert
  | 4 => some .update
  | 5 => some .delete
  | 6 => some .checkpoint
  | _ => none

@[simp] theorem fromU16_toU16 (t : WalRecordType) : fromU16 t.toU16 = some t := by cases t <;> rfl

theorem toU16_lt (t : WalRecordType) : t.toU16 < 7 := by cases t <;> decide

end WalRecordType

structure WalRecord where
  lsn : Nat
  txId : UInt64
  recordType : WalRecordType
  key : Key
  value : Option Value
  checksum : UInt32
  timestamp : Int64
  deriving DecidableEq

/-- The `.wal` files of the log directory, by number. -/
abbrev WalDir := Std.TreeMap Nat Bytes

structure WalWriter where
  segNum : Nat
  currentLsn : Nat
  policy : FsyncPolicy
  deriving DecidableEq

/-- A log directory and the writer that is open on it. -/
structure Wal where
  dir : WalDir
  writer : WalWriter

namespace Wal

def magic : Nat := 0x4E4F5641
def maxPayloadSize : Nat := 65535

def makeRecord (timestamp : Int64) (recordType : WalRecordType) (txId : UInt64) (key : Key)
    (value : Option Value) : WalRecord :=
  { lsn := 0, txId, recordType, key, value, checksum := 0, timestamp }

/-! ## Payloads -/

def encodePayload (record : WalRecord) : Bytes :=
  let valueBytes := match record.value with
    | some v => v
    | none => []
  le 8 record.txId.toNat ++ le 4 record.key.length ++ record.key ++ le 4 valueBytes.length ++
    valueBytes ++ le 8 record.timestamp.toUInt64.toNat

def decodePayload (data : Bytes) : Result (UInt64 × Key × Option Value × Int64) :=
  if data.length < 24 then .err (.corruptData "WAL payload too short") else
  let txId := UInt64.ofNat (ofLe (slice data 0 8))
  let keyLen := ofLe (slice data 8 4)
  let off := 12
  if off + keyLen > data.length then .err (.corruptData "WAL payload key truncated") else
  let key := slice data off keyLen
  let off := off + keyLen
  if off + 4 > data.length then .err (.corruptData "WAL payload value length truncated") else
  let valueLen := ofLe (slice data off 4)
  let off := off + 4
  if valueLen > 0 ∧ off + valueLen > data.length then
    .err (.corruptData "WAL payload value truncated")
  else
  let value := if valueLen > 0 then some (slice data off valueLen) else none
  let off := off + valueLen
  let timestamp :=
    if off + 8 ≤ data.length then (UInt64.ofNat (ofLe (slice data off 8))).toInt64 else 0
  .ok (txId, key, value, timestamp)

/-- The header of a record, with the payload length cut to a `u32`. -/
def encodeHeader (X : Extern) (recordType : WalRecordType) (lsn : Nat) (payload : Bytes) : Bytes :=
  le 4 magic ++ le 4 (X.crc32c payload).toNat ++ le 4 payload.length ++ le 8 lsn ++
    le 2 recordType.toU16 ++ le 2 0

end Wal

/-! ## The writer -/

namespace WalWriter

/-- The loop of `recover_lsn_from_segment` on the bytes not read yet. A round
takes at least 24 bytes off, so the size of the file is fuel enough. -/
def recoverLsnLoop : Nat → Bytes → Nat → Nat
  | 0, _, maxLsn => maxLsn
  | fuel + 1, rest, maxLsn =>
    if rest.length < 24 then maxLsn else
    let length := ofLe (slice rest 8 4)
    let maxLsn := max maxLsn (ofLe (slice rest 12 8))
    let body := rest.drop 24
    if body.length < length then maxLsn else recoverLsnLoop fuel (body.drop length) maxLsn

def recoverLsnFromSegment (file : Bytes) : Nat := recoverLsnLoop file.length file 0

def findHighestSegment (dir : WalDir) : Nat × Nat :=
  let maxSeg := dir.toList.foldl (fun maxSeg entry => max maxSeg entry.1) 0
  let maxLsn := dir.toList.foldl (fun maxLsn entry => max maxLsn (recoverLsnFromSegment entry.2)) 0
  if maxSeg = 0 then (1, 0) else (maxSeg, maxLsn)

/-- `OpenOptions::create(true)`: the file is there afterwards, with what it held. -/
def createFile (dir : WalDir) (num : Nat) : WalDir :=
  if dir.contains num then dir else dir.insert num []

def openDir (dir : WalDir) (policy : FsyncPolicy) : Wal :=
  let (segNum, maxLsn) := findHighestSegment dir
  { dir := createFile dir segNum, writer := { segNum, currentLsn := maxLsn, policy } }

/-- Append bytes to the current segment. -/
def writeAll (bytes : Bytes) : Method Wal Unit :=
  Exec.modify fun wal =>
    { wal with dir := wal.dir.insert wal.writer.segNum ((wal.dir[wal.writer.segNum]?.getD []) ++ bytes) }

/-- Append a record. The LSN is taken before the payload is checked. -/
def append (X : Extern) (record : WalRecord) : Method Wal Nat := do
  let wal ← Exec.get
  let lsn := wal.writer.currentLsn + 1
  if lsn < 2 ^ 64 then
    Exec.modify fun wal => { wal with writer := { wal.writer with currentLsn := lsn } }
    let payload := Wal.encodePayload record
    let payloadLen := payload.length % 2 ^ 32
    if payloadLen > Wal.maxPayloadSize then
      Exec.lift (.err (.invalidArgument "WAL record payload too large"))
    else
      writeAll (Wal.encodeHeader X record.recordType lsn payload)
      writeAll payload
      pure lsn
  else Exec.lift .panic

def flush : Method Wal Unit := pure ()

def switchSegment : Method Wal Unit := do
  let wal ← Exec.get
  let segNum := wal.writer.segNum + 1
  if segNum < 2 ^ 64 then
    Exec.modify fun wal =>
      { dir := createFile wal.dir segNum, writer := { wal.writer with segNum } }
  else Exec.lift .panic

def close : Method Wal Unit := flush

end WalWriter

/-! ## The reader -/

/-- `file` is what is left of the open segment. -/
structure WalReader where
  currentSeg : Nat
  maxSeg : Nat
  file : Option Bytes

namespace WalReader

def openSegment (dir : WalDir) (num : Nat) : Method WalReader Unit :=
  match dir[num]? with
  | some file => Exec.modify fun reader => { reader with file := some file }
  | none => Exec.lift (.err (.io "No such file or directory (os error 2)"))

/-- A reader at the start of segment 1, which is created if it is missing. -/
def openDir (dir : WalDir) : WalReader × WalDir :=
  let maxSeg := dir.toList.foldl (fun maxSeg entry => max maxSeg entry.1) 0
  let maxSeg := if maxSeg = 0 then 1 else maxSeg
  let dir := WalWriter.createFile dir 1
  ({ currentSeg := 1, maxSeg, file := dir[1]? }, dir)

/-- Read the payload that a header announces. -/
def readPayload (X : Extern) (length lsn checksum : Nat) (recordType : WalRecordType) :
    Method Bytes WalRecord := do
  let rest ← Exec.get
  if rest.length < length then
    Exec.modify fun _ => []
    Exec.lift (.err (.io "failed to fill whole buffer"))
  else
    let payload := rest.take length
    Exec.modify fun rest => rest.drop length
    let expected := UInt32.ofNat checksum
    if X.crc32c payload ≠ expected then
      Exec.lift (.err (.checksumMismatch expected (X.crc32c payload)))
    else do
      let (txId, key, value, timestamp) ←
        Exec.lift (if length > 0 then Wal.decodePayload payload else .ok (0, [], none, 0))
      pure { lsn, txId, recordType, key, value, checksum := expected, timestamp }

/-- Read one record off a file that has at least 24 bytes left. -/
def readRecord (X : Extern) : Method Bytes WalRecord := do
  let file ← Exec.get
  let header := file.take 24
  Exec.modify fun file => file.drop 24
  if ofLe (slice header 0 4) ≠ Wal.magic then
    Exec.lift (.err (.corruptData "WAL invalid magic"))
  else
    match WalRecordType.fromU16 (ofLe (slice header 20 2)) with
    | none => Exec.lift (.err (.corruptData "WAL invalid record type"))
    | some recordType =>
      readPayload X (ofLe (slice header 8 4)) (ofLe (slice header 12 8)) (ofLe (slice header 4 4))
        recordType

/-- `read_next` up to the call of `try_next_segment`, which is the argument. -/
def readNextWith (X : Extern) (tryNextSegment : Method WalReader (Option WalRecord)) :
    Method WalReader (Option WalRecord) := do
  let reader ← Exec.get
  match reader.file with
  | none => pure none
  | some file =>
    if file.length < 24 then tryNextSegment
    else do
      let (outcome, rest) := readRecord X file
      Exec.modify fun reader => { reader with file := some rest }
      let record ← Exec.lift outcome
      pure (some record)

/-- `try_next_segment` calls `read_next` again. The argument is
`max_seg - current_seg`, the number of segments left. -/
def readNextLoop (X : Extern) (dir : WalDir) : Nat → Method WalReader (Option WalRecord)
  | 0 => readNextWith X do
      Exec.modify fun reader => { reader with file := none }
      pure none
  | segsLeft + 1 => readNextWith X do
      Exec.modify fun reader => { reader with currentSeg := reader.currentSeg + 1 }
      let reader ← Exec.get
      openSegment dir reader.currentSeg
      readNextLoop X dir segsLeft

def readNext (X : Extern) (dir : WalDir) : Method WalReader (Option WalRecord) := do
  let reader ← Exec.get
  readNextLoop X dir (reader.maxSeg - reader.currentSeg)

def seek (dir : WalDir) : Method WalReader Unit := do
  Exec.modify fun reader => { reader with currentSeg := 1 }
  openSegment dir 1

/-- The loop of `read_from`. -/
def readLoop (X : Extern) (dir : WalDir) : Nat → List WalRecord → Method WalReader (List WalRecord)
  | 0, _ => Exec.lift .hang
  | fuel + 1, records => do
      match ← readNext X dir with
      | none => pure records
      | some record => readLoop X dir fuel (records ++ [record])

/-- A record takes at least 24 bytes, so the size of the log, and one round more
for the end, is fuel enough. -/
def logSize (dir : WalDir) : Nat := (dir.toList.map fun entry => entry.2.length).sum

def readFrom (X : Extern) (dir : WalDir) : Method WalReader (List WalRecord) := do
  seek dir
  readLoop X dir (logSize dir + 1) []

end WalReader

end NovaRuntime.Storage
