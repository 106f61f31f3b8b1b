/-
# NovaRuntime.Storage.Store — `Store` of `store.rs`

A store writes to the log first and to the memtable second. A full memtable is
flushed to an SSTable, four or more SSTables can be compacted into one, and a read
asks the memtable, the SSTables from the newest to the oldest, and a B-tree that
nothing writes to. Opening a store replays the log; it does not look at the
SSTable files.

`memtableLocked` is the memtable's lock, held for writing: a call that waits for a
lock it holds itself never returns and never gives the lock back. The other locks
are never waited for by their holder and are not modelled, nor is `next_lsn`, which
nothing reads, nor the transaction manager. File operations outside the SSTable
writer succeed. The time of each record is an argument.
-/
import NovaRuntime.Storage.BTree
import NovaRuntime.Storage.SSTable
import NovaRuntime.Storage.MemTable
import NovaRuntime.Storage.Wal

namespace NovaRuntime.Storage

open NovaRuntime.Library

set_option autoImplicit false

structure StorageConfig where
  pageCacheSize : Nat := 16384
  memtableSize : Nat := 64 * 1024 * 1024
  fsyncPolicy : FsyncPolicy := .everyNMs 100
  btreeOrder : Nat := 128

/-- A write of a batch, and the time its record is made. -/
inductive WriteOperation where
  | set (now : Int64) (key : Key) (value : Value)
  | delete (now : Int64) (key : Key)

/-- What is on disk: the log directory, the `sstables` directory, and the
checkpoint files, each with the number in its name and the sequence number in it,
if that is one. -/
structure Disk where
  wal : WalDir := ∅
  sstables : SstFiles := fun _ => none
  checkpoints : List (Nat × Option Nat) := []

structure Store (C : Type) where
  config : StorageConfig
  pageCache : PageCache C
  wal : Option WalWriter
  btree : BTree
  memtable : MemTable := MemTable.new
  memtableLocked : Bool := false
  sstables : List SSTable := []
  nextPageId : Nat := 2
  disk : Disk

namespace Store

variable {C : Type} [BoundedCache C PageId Page]

/-! ## Parts of the store -/

/-- Run with the memtable locked for writing. The lock is given back unless the
call never returns. -/
def withMemtable {α : Type} (body : Method (Store C) α) : Method (Store C) α := fun s =>
  if s.memtableLocked then (.hang, s) else
  match body { s with memtableLocked := true } with
  | (.hang, s') => (.hang, s')
  | (outcome, s') => (outcome, { s' with memtableLocked := false })

/-- `self.memtable.read()`. -/
def readMemtable : Method (Store C) MemTable := do
  let s ← Exec.get
  if s.memtableLocked then Exec.lift .hang else pure s.memtable

/-- A call of the log writer; without one the `expect` panics. -/
def onWal {α : Type} (call : Method Wal α) : Method (Store C) α := fun s =>
  match s.wal with
  | none => (.panic, s)
  | some writer =>
    let (outcome, wal) := call { dir := s.disk.wal, writer }
    (outcome, { s with wal := some wal.writer, disk := { s.disk with wal := wal.dir } })

def onSstables {α : Type} (call : Method SstFiles α) : Method (Store C) α := fun s =>
  let (outcome, sstables) := call s.disk.sstables
  (outcome, { s with disk := { s.disk with sstables } })

def onPageCache {α : Type} (call : Method (PageCache C) α) : Method (Store C) α := fun s =>
  let (outcome, pageCache) := call s.pageCache
  (outcome, { s with pageCache })

def onTree {α : Type} (call : Method (Tree C) α) : Method (Store C) α := fun s =>
  let (outcome, tree) := call { btree := s.btree, cache := s.pageCache }
  (outcome, { s with btree := tree.btree, pageCache := tree.cache })

/-- `next_page_id.fetch_add(1)`. -/
def nextId : Method (Store C) Nat := do
  let s ← Exec.get
  Exec.modify fun s => { s with nextPageId := s.nextPageId + 1 }
  pure s.nextPageId

/-! ## Flushing and compaction -/

/-- The store sets no writeback callback, so nothing outside is ever asked. -/
def noCallback : PageCache.Outside := ⟨fun pages => pages, fun _ => .refl _, fun _ => .ok ()⟩

def flush : Method (Store C) Unit := do
  let _ ← onPageCache (PageCache.flush noCallback)
  let s ← Exec.get
  if s.wal.isSome then onWal WalWriter.flush

def flushMemtable (X : Extern) : Method (Store C) Unit := withMemtable do
  let s ← Exec.get
  if s.memtable.isEmpty then pure ()
  else
    let entries := s.memtable.iterWithTombstones
    if entries.isEmpty then pure ()
    else do
      let id ← nextId
      let sstable ← onSstables (SSTable.createWithTombstones X id 0 entries)
      Exec.modify fun s => { s with sstables := s.sstables ++ [sstable] }
      Exec.modify fun s => { s with memtable := MemTable.new }

/-- The merge state of a compaction. -/
structure Compaction where
  merged : ByteMap Value := ∅
  tombstones : List Key := []

def Compaction.visit (c : Compaction) (entry : Key × Option Value) : Compaction :=
  if c.merged.contains entry.1 || c.tombstones.contains entry.1 then c
  else match entry.2 with
    | some value => { c with merged := c.merged.insert entry.1 value }
    | none => { c with tombstones := entry.1 :: c.tombstones }

/-- The end of the range a compaction reads. -/
def compactionStop : Key := List.replicate 256 0xFF

/-- The loop over the tables, newest first. -/
def mergeLoop (X : Extern) (files : SstFiles) : List SSTable → Compaction → Result Compaction
  | [], c => .ok c
  | sst :: ssts, c => do
      let entries ← SSTable.scanWithTombstones X files sst [] compactionStop
      mergeLoop X files ssts (entries.foldl Compaction.visit c)

/-- `remove_file` on every path; a failure is ignored. -/
def removeFiles (files : SstFiles) (ssts : List SSTable) : SstFiles :=
  ssts.foldl (fun files sst => Function.update files sst.path none) files

def compact (X : Extern) : Method (Store C) Unit := do
  let s ← Exec.get
  if s.sstables.length < 4 then pure ()
  else do
    let c ← Exec.lift (mergeLoop X s.disk.sstables s.sstables.reverse {})
    let id ← nextId
    let compacted ← onSstables (SSTable.create X id 1 c.merged.toList)
    Exec.modify fun s =>
      { s with disk := { s.disk with sstables := removeFiles s.disk.sstables s.sstables } }
    Exec.modify fun s => { s with sstables := [compacted] }

/-! ## Writes -/

def append (X : Extern) (record : WalRecord) : Method (Store C) Nat :=
  onWal (WalWriter.append X record)

/-- The part of `set` under the memtable's lock. -/
def setMemtable (X : Extern) (key : Key) (value : Value) : Method (Store C) Unit := withMemtable do
  Exec.modify fun s => { s with memtable := s.memtable.insert key value }
  let s ← Exec.get
  if s.memtable.size ≥ s.config.memtableSize then flushMemtable X

def set (X : Extern) (now : Int64) (key : Key) (value : Value) : Method (Store C) Unit := do
  let _ ← append X (Wal.makeRecord now .insert 0 key (some value))
  setMemtable X key value

/-- The part of `delete` under the memtable's lock. -/
def deleteMemtable (key : Key) : Method (Store C) Bool := withMemtable do
  Exec.modify fun s => { s with memtable := s.memtable.delete key }
  pure true

def delete (X : Extern) (now : Int64) (key : Key) : Method (Store C) Bool := do
  let _ ← append X (Wal.makeRecord now .delete 0 key none)
  deleteMemtable key

def batch (X : Extern) : List WriteOperation → Method (Store C) Unit
  | [] => pure ()
  | .set now key value :: ops => do
      set X now key value
      batch X ops
  | .delete now key :: ops => do
      let _ ← delete X now key
      batch X ops

/-- `commit` of a transaction identifier: a record in the log. -/
def commit (X : Extern) (now : Int64) (txId : UInt64) : Method (Store C) Nat :=
  append X (Wal.makeRecord now .commit txId [] none)

def rollback (X : Extern) (now : Int64) (txId : UInt64) : Method (Store C) Unit := do
  let _ ← append X (Wal.makeRecord now .rollback txId [] none)

def sync : Method (Store C) Unit := do
  flush
  let s ← Exec.get
  if s.wal.isSome then onWal WalWriter.switchSegment

def checkpoint (X : Extern) (now : Int64) : Method (Store C) Nat := do
  flush
  flushMemtable X
  let currentLsn ← onWal do
    WalWriter.flush
    let wal ← Exec.get
    pure wal.writer.currentLsn
  let _ ← append X (Wal.makeRecord now .checkpoint 0 [] none)
  onWal WalWriter.flush
  pure currentLsn

def close (X : Extern) : Method (Store C) Unit := do
  flushMemtable X
  flush
  let s ← Exec.get
  if s.wal.isSome then do
    onWal WalWriter.close
    Exec.modify fun s => { s with wal := none }

/-! ## Reads -/

/-- The loop of `get` over the tables, newest first. A table that cannot be read
is passed over. -/
def searchTables (X : Extern) (files : SstFiles) (key : Key) :
    List SSTable → Result (Option (Option Value))
  | [] => .ok none
  | sst :: ssts =>
    match SSTable.getWithTombstone X files sst key with
    | .ok (some value) => .ok (some value)
    | .ok none | .err _ => searchTables X files key ssts
    | .panic => .panic
    | .hang => .hang

def get (X : Extern) (key : Key) : Method (Store C) (Option Value) := do
  let mt ← readMemtable
  match mt.getWithTombstone key with
  | some value => pure value
  | none => do
      let s ← Exec.get
      match ← Exec.lift (searchTables X s.disk.sstables key s.sstables.reverse) with
      | some value => pure value
      | none => onTree (BTree.get X key)

/-- The loop of `scan` over the tables. -/
def scanTables (X : Extern) (files : SstFiles) (start stop : Key) :
    List SSTable → Merge Key Value → Result (Merge Key Value)
  | [], m => .ok m
  | sst :: ssts, m =>
    match SSTable.scanWithTombstones X files sst start stop with
    | .ok entries => scanTables X files start stop ssts (m.run entries)
    | .err _ => scanTables X files start stop ssts m
    | .panic => .panic
    | .hang => .hang

def scan (X : Extern) (start stop : Key) : Method (Store C) (List (Key × Value)) := do
  let mt ← readMemtable
  let inMemory := mt.iterWithTombstones.filter fun e => ¬ (e.1 < start ∨ stop ≤ e.1)
  let m := ({} : Merge Key Value).run inMemory
  let s ← Exec.get
  let m ← Exec.lift (scanTables X s.disk.sstables start stop s.sstables.reverse m)
  let inTree ← onTree (BTree.scan start stop)
  let m := m.run (inTree.map fun e => (e.1, some e.2))
  pure (m.results.mergeSort fun a b => decide (a.1 ≤ b.1))

/-! ## Opening -/

/-- What recovery does with one record. -/
def replay (maxLsn afterLsn : Nat) (mt : MemTable) (record : WalRecord) : MemTable :=
  if record.lsn = 0 ∨ record.lsn > maxLsn then mt
  else if record.lsn ≤ afterLsn then mt
  else match record.recordType with
    | .insert | .update => mt.insert record.key (record.value.getD [])
    | .delete => mt.delete record.key
    | _ => mt

def recoverLoop (X : Extern) (dir : WalDir) (maxLsn afterLsn : Nat) :
    Nat → MemTable → Method WalReader MemTable
  | 0, _ => Exec.lift .hang
  | fuel + 1, mt => do
      match ← WalReader.readNext X dir with
      | none => pure mt
      | some record => recoverLoop X dir maxLsn afterLsn fuel (replay maxLsn afterLsn mt record)

/-- Replay the log from its first segment. -/
def recover (X : Extern) (maxLsn afterLsn : Nat) : Method WalDir MemTable := do
  let dir ← Exec.get
  let (reader, dir) := WalReader.openDir dir
  Exec.modify fun _ => dir
  Exec.lift (recoverLoop X dir maxLsn afterLsn (WalReader.logSize dir + 1) MemTable.new reader).1

/-- The sequence number of the checkpoint file read last among those whose number
exceeds the sequence number found before. -/
def findLatestCheckpoint (checkpoints : List (Nat × Option Nat)) : Option Nat :=
  checkpoints.foldl (fun best checkpoint =>
    if best.all fun b => decide (checkpoint.1 > b) then
      match checkpoint.2 with
      | some seq => some seq
      | none => best
    else best) none

/-- `Store::open`: the outcome and what it leaves on disk. -/
def openDisk (X : Extern) (config : StorageConfig) (disk : Disk) : Result (Store C) × Disk :=
  let wal := WalWriter.openDir disk.wal config.fsyncPolicy
  let checkpointLsn := (findLatestCheckpoint disk.checkpoints).getD 0
  let (outcome, dir) := recover X wal.writer.currentLsn checkpointLsn wal.dir
  let disk := { disk with wal := dir }
  (outcome >>= fun memtable =>
    .ok {
      config
      pageCache := PageCache.new config.pageCacheSize
      wal := some wal.writer
      btree := BTree.new config.btreeOrder
      memtable
      disk }, disk)

end Store

end NovaRuntime.Storage
