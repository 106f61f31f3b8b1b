/-
# NovaRuntime.Storage.SSTable — `SSTable` of `lsm.rs`, byte for byte

An SSTable file is its compressed data blocks, the bloom filter, the block index
and a 56-byte footer. `createWithTombstones` writes one from a list of entries;
`getWithTombstone` and `scanWithTombstones` read the footer and the index of the
file and decompress the blocks they need. Both readers break out of the index
when it is too short and fail when a block cannot be read, as the source does; a
slice past the end of a buffer is a panic.

Files are a function of their path. A path is `lsm_{id:06}_l{level}.sst` in the
store's directory, and distinct `(id, level)` give distinct names. `created_at`
is not kept: nothing reads it.
-/
import NovaRuntime.Storage.Bloom

namespace NovaRuntime.Storage

open NovaRuntime.Library

set_option autoImplicit false

structure SstPath where
  id : Nat
  level : Nat
  deriving DecidableEq

/-- The contents of the store's `sstables` directory. -/
abbrev SstFiles := SstPath → Option Bytes

structure SSTable where
  id : Nat
  path : SstPath
  keyMin : Key
  keyMax : Key
  level : Nat
  size : Nat
  bloomFilter : BloomFilter

structure DataBlockHeader where
  offset : Nat
  length : Nat
  uncompressedLength : Nat
  firstKey : Bytes
  lastKey : Bytes
  deriving DecidableEq

namespace SSTable

def magic : Nat := 0x53535442
def version : Nat := 1
def dataBlockTargetSize : Nat := 64 * 1024
def footerSize : Nat := 56

/-- The value length that marks a tombstone, `u32::MAX`. -/
def tombstoneLen : Nat := 2 ^ 32 - 1

/-- A file cannot grow past the largest `off_t`: the write fails. -/
def maxFileSize : Nat := 2 ^ 63

/-! ## Blocks -/

def encodeEntry (e : Bytes × Option Bytes) : Bytes :=
  le 4 e.1.length ++ e.1 ++
    match e.2 with
    | some value => le 4 value.length ++ value
    | none => le 4 tombstoneLen

def compressBlockWithTombstones (X : Extern) (entries : List (Bytes × Option Bytes)) :
    Result Bytes :=
  match X.snappyCompress (entries.flatMap encodeEntry) with
  | .ok compressed => .ok compressed
  | .error message => .err (.io message)

/-- One round of the decoding loop on the bytes not read yet; `none` is `break`. -/
def decodeEntry (raw : Bytes) : Option ((Bytes × Option Bytes) × Bytes) :=
  if raw.length < 4 then none else
  let keyLen := ofLe (raw.take 4)
  let raw := raw.drop 4
  if raw.length < keyLen then none else
  let key := raw.take keyLen
  let raw := raw.drop keyLen
  if raw.length < 4 then none else
  let valLen := ofLe (raw.take 4)
  let raw := raw.drop 4
  if valLen = tombstoneLen then some ((key, none), raw) else
  if raw.length < valLen then none else
  some ((key, some (raw.take valLen)), raw.drop valLen)

/-- The decoding loop. Every round takes at least eight bytes off, so the length
of the block is fuel enough (`decodeEntries_flatMap`). -/
def decodeLoop : Nat → Bytes → List (Bytes × Option Bytes)
  | 0, _ => []
  | fuel + 1, raw =>
    match decodeEntry raw with
    | none => []
    | some (entry, rest) => entry :: decodeLoop fuel rest

def decodeEntries (raw : Bytes) : List (Bytes × Option Bytes) := decodeLoop raw.length raw

def decompressBlockWithTombstones (X : Extern) (data : Bytes) :
    Result (List (Bytes × Option Bytes)) :=
  match X.snappyDecompress data with
  | .ok raw => .ok (decodeEntries raw)
  | .error message => .err (.io message)

/-! ## Writing a table -/

/-- The local variables of `create_with_tombstones`, and the file under
construction. Every write goes to `data_offset`, which is the end of the file. -/
structure Builder where
  bloom : BloomFilter
  dataBlocks : List DataBlockHeader := []
  currentBlockData : List (Bytes × Option Bytes) := []
  currentBlockSize : Nat := 0
  file : Bytes := []

namespace Builder

def append (b : Builder) (bytes : Bytes) : Builder := { b with file := b.file ++ bytes }

def writeAll (bytes : Bytes) : Method Builder Unit := do
  let b ← Exec.get
  if b.file.length + bytes.length < maxFileSize then Exec.modify fun b => b.append bytes
  else Exec.lift (.err (.io "File too large"))

/-- Compress the current block, write it and index it. -/
def finishBlock (X : Extern) : Method Builder Unit := do
  let b ← Exec.get
  let compressed ← Exec.lift (compressBlockWithTombstones X b.currentBlockData)
  writeAll compressed
  let header : DataBlockHeader := {
    offset := b.file.length
    length := compressed.length
    uncompressedLength := b.currentBlockSize
    firstKey := (b.currentBlockData.head?.map Prod.fst).getD []
    lastKey := (b.currentBlockData.getLast?.map Prod.fst).getD [] }
  Exec.modify fun b =>
    { b with dataBlocks := b.dataBlocks ++ [header], currentBlockData := [], currentBlockSize := 0 }

/-- The size of an entry in its block. -/
def entryLen (key : Key) (value : Option Value) : Nat :=
  4 + key.length + 4 + (match value with | some v => v.length | none => 0)

def add (X : Extern) (key : Key) (value : Option Value) : Method Builder Unit := do
  Exec.modify fun b => { b with bloom := b.bloom.insert X key }
  let b ← Exec.get
  if b.currentBlockSize + entryLen key value > dataBlockTargetSize ∧ b.currentBlockData ≠ [] then
    finishBlock X
  Exec.modify fun b =>
    { b with
      currentBlockData := b.currentBlockData ++ [(key, value)]
      currentBlockSize := b.currentBlockSize + entryLen key value }

def addAll (X : Extern) : List (Key × Option Value) → Method Builder Unit
  | [] => pure ()
  | (key, value) :: entries => do
      add X key value
      addAll X entries

end Builder

def encodeHeader (block : DataBlockHeader) : Bytes :=
  le 8 block.offset ++ le 8 block.length ++ le 8 block.uncompressedLength ++
    le 4 block.firstKey.length ++ block.firstKey ++ le 4 block.lastKey.length ++ block.lastKey

def encodeIndex (blocks : List DataBlockHeader) : Bytes :=
  le 4 blocks.length ++ blocks.flatMap encodeHeader

def encodeFooter (X : Extern) (indexOffset bloomOffset bloomLen : Nat) (index : Bytes)
    (blocks : List DataBlockHeader) : Bytes :=
  le 4 magic ++ le 4 version ++ le 8 indexOffset ++ le 8 index.length ++ le 8 bloomOffset ++
    le 8 bloomLen ++ le 4 blocks.length ++ le 8 (blocks.map (·.uncompressedLength)).sum ++
    le 4 (X.crc32c index).toNat

/-- The bloom filter, the index and the footer. -/
def Builder.writeTail (X : Extern) : Method Builder Unit := do
  let b ← Exec.get
  let bloomData := b.bloom.encode
  let bloomOffset := b.file.length
  Builder.writeAll (le 4 bloomData.length)
  Builder.writeAll bloomData
  let index := encodeIndex b.dataBlocks
  let indexOffset := bloomOffset + (4 + bloomData.length)
  Builder.writeAll index
  Builder.writeAll (encodeFooter X indexOffset bloomOffset bloomData.length index b.dataBlocks)

/-- The part of `create_with_tombstones` after the loop over the entries. -/
def Builder.finish (X : Extern) : Method Builder Unit := do
  let b ← Exec.get
  if b.currentBlockData ≠ [] then Builder.finishBlock X
  Builder.writeTail X

def createWithTombstones (X : Extern) (id level : Nat) (entries : List (Key × Option Value)) :
    Method SstFiles SSTable := fun files =>
  let path : SstPath := ⟨id, level⟩
  let start : Builder :=
    { bloom := BloomFilter.new X (entries.length % 2 ^ 32) BloomFilter.defaultBitsPerKey }
  let (outcome, b) := (do Builder.addAll X entries; Builder.finish X : Method Builder Unit) start
  let table : SSTable := {
    id, path, level
    keyMin := (entries.head?.map Prod.fst).getD []
    keyMax := (entries.getLast?.map Prod.fst).getD []
    size := b.file.length
    bloomFilter := b.bloom }
  (outcome >>= fun _ => .ok table, Function.update files path (some b.file))

def create (X : Extern) (id level : Nat) (entries : List (Key × Value)) : Method SstFiles SSTable :=
  createWithTombstones X id level (entries.map fun (k, v) => (k, some v))

/-! ## Reading a table -/

def readExact (file : Bytes) (off len : Nat) : Result Bytes :=
  if off + len ≤ file.length then .ok (slice file off len)
  else .err (.io "failed to fill whole buffer")

/-- What the two readers take from an index entry. -/
structure IndexEntry where
  offset : Nat
  length : Nat
  firstKey : Bytes
  lastKey : Bytes
  deriving DecidableEq

/-- Read one index entry off the bytes of the index not read yet, of which there
are at least 32. -/
def readIndexEntry (index : Bytes) : Result (IndexEntry × Bytes) :=
  let offset := ofLe (slice index 0 8)
  let length := ofLe (slice index 8 8)
  let firstLen := ofLe (slice index 24 4)
  let rest := index.drop 28
  if rest.length < firstLen then .panic else
  let firstKey := rest.take firstLen
  let rest := rest.drop firstLen
  if rest.length < 4 then .panic else
  let lastLen := ofLe (rest.take 4)
  let rest := rest.drop 4
  if rest.length < lastLen then .panic else
  .ok ({ offset, length, firstKey, lastKey := rest.take lastLen }, rest.drop lastLen)

def readBlock (X : Extern) (file : Bytes) (block : IndexEntry) :
    Result (List (Bytes × Option Bytes)) := do
  let data ← readExact file block.offset block.length
  decompressBlockWithTombstones X data

/-- The index buffer and the number of blocks the footer gives. -/
def readIndex (file : Bytes) : Result (Bytes × Nat) := do
  let footer := file.drop (file.length - footerSize)
  let index ← readExact file (ofLe (slice footer 8 8)) (ofLe (slice footer 16 8))
  .ok (index, ofLe (slice footer 40 4))

def openFile (files : SstFiles) (path : SstPath) : Result Bytes :=
  match files path with
  | some file => .ok file
  | none => .err (.io "No such file or directory (os error 2)")

/-- The loop of `get_with_tombstone` over the blocks left. -/
def getLoop (X : Extern) (file : Bytes) (key : Key) : Nat → Bytes → Result (Option (Option Value))
  | 0, _ => .ok none
  | n + 1, index =>
    if index.length < 32 then .ok none else do
    let (block, index) ← readIndexEntry index
    if block.firstKey ≤ key ∧ key ≤ block.lastKey then
      let entries ← readBlock X file block
      match entries.lookup key with
      | some value => .ok (some value)
      | none => getLoop X file key n index
    else getLoop X file key n index

/-- `Some(Some(v))` for a live entry, `Some(None)` for a tombstone, `None` if the
key is not in this table. -/
def getWithTombstone (X : Extern) (files : SstFiles) (t : SSTable) (key : Key) :
    Result (Option (Option Value)) :=
  if ¬ t.bloomFilter.mayContain X key then .ok none else do
  let file ← openFile files t.path
  if file.length < footerSize then .ok none else
  let (index, numBlocks) ← readIndex file
  getLoop X file key numBlocks (index.drop 4)

/-- The loop of `scan_with_tombstones` over the blocks left. -/
def scanLoop (X : Extern) (file : Bytes) (start stop : Key) :
    Nat → Bytes → List (Key × Option Value) → Result (List (Key × Option Value))
  | 0, _, results => .ok results
  | n + 1, index, results =>
    if index.length < 32 then .ok results else do
    let (block, index) ← readIndexEntry index
    if block.lastKey < start then scanLoop X file start stop n index results
    else if stop ≤ block.firstKey then .ok results
    else
      let entries ← readBlock X file block
      scanLoop X file start stop n index
        (results ++ entries.filter fun e => decide (start ≤ e.1 ∧ e.1 < stop))

def scanWithTombstones (X : Extern) (files : SstFiles) (t : SSTable) (start stop : Key) :
    Result (List (Key × Option Value)) := do
  let file ← openFile files t.path
  if file.length < footerSize then .ok [] else
  let (index, numBlocks) ← readIndex file
  scanLoop X file start stop numBlocks (index.drop 4) []

end SSTable

end NovaRuntime.Storage
