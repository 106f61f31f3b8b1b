/-
# NovaRuntime.Storage.Recovery — `Store::recover` replays what the log holds

Recovery reads the log record by record and applies each to the memtable.
`recover_eq` separates the two: it is the reading, followed by the replay of the
records read. On a readable log whose LSNs do not exceed the recovered maximum
nothing is filtered out, and every record counts as it was appended, empty values
included (`recover_log`).
-/
import NovaRuntime.Storage.Store
import NovaRuntime.Storage.WalLog

namespace NovaRuntime.Storage

open NovaRuntime.Library

set_option autoImplicit false

/-- What a record says about the memtable. -/
def WalRecord.applyTo (record : WalRecord) (mt : MemTable) : MemTable :=
  match record.recordType with
  | .insert | .update => mt.insert record.key (record.value.getD [])
  | .delete => mt.delete record.key
  | _ => mt

/-- Apply records in order. -/
def applyAll (records : List WalRecord) (mt : MemTable) : MemTable :=
  records.foldl (fun mt record => record.applyTo mt) mt

theorem applyAll_append (front back : List WalRecord) (mt : MemTable) :
    applyAll (front ++ back) mt = applyAll back (applyAll front mt) := List.foldl_append

namespace Store

open Wal

/-- The loop of `read_from` only appends to what it has. -/
theorem readLoop_acc (X : Extern) (dir : WalDir) (fuel : Nat) (acc : List WalRecord)
    (reader : WalReader) :
    (WalReader.readLoop X dir fuel acc reader).1 =
      (WalReader.readLoop X dir fuel [] reader).1 >>= fun records => .ok (acc ++ records) := by
  induction fuel generalizing acc reader with
  | zero => rfl
  | succ fuel ih =>
    simp only [WalReader.readLoop, Exec.bind_apply]
    rcases WalReader.readNext X dir reader with ⟨(_ | record) | error | _ | _, next⟩
    · simp
    · simp only
      rw [ih (acc ++ [record]), ih ([] ++ [record])]
      cases (WalReader.readLoop X dir fuel [] next).1 <;> simp
    · rfl
    · rfl
    · rfl

/-- The loop of `recover` is the loop of `read_from` with the replay after it. -/
theorem recoverLoop_eq (X : Extern) (dir : WalDir) (maxLsn afterLsn fuel : Nat) (mt : MemTable)
    (reader : WalReader) :
    (recoverLoop X dir maxLsn afterLsn fuel mt reader).1 =
      (WalReader.readLoop X dir fuel [] reader).1 >>= fun records =>
        .ok (records.foldl (replay maxLsn afterLsn) mt) := by
  induction fuel generalizing mt reader with
  | zero => rfl
  | succ fuel ih =>
    simp only [WalReader.readLoop, recoverLoop, Exec.bind_apply]
    rcases WalReader.readNext X dir reader with ⟨(_ | record) | error | _ | _, next⟩
    · rfl
    · simp only
      rw [ih, readLoop_acc X dir fuel ([] ++ [record])]
      cases (WalReader.readLoop X dir fuel [] next).1 <;> simp
    · rfl
    · rfl
    · rfl

/-- **Recovery is reading and then replaying.** -/
theorem recover_eq (X : Extern) (maxLsn afterLsn : Nat) {dir : WalDir} {files : List Bytes}
    (held : Files dir files) (nonempty : files ≠ []) :
    recover X maxLsn afterLsn dir =
      ((WalReader.readFrom X dir (WalReader.openDir dir).1).1 >>= fun records =>
        .ok (records.foldl (replay maxLsn afterLsn) MemTable.new), dir) := by
  rw [readFrom_openDir X held nonempty]
  simp only [recover, Exec.get_bind, openDir_eq held nonempty, Exec.modify_bind, Exec.lift_apply,
    recoverLoop_eq]

theorem getD_storedValue (value : Option Value) : (storedValue value).getD [] = value.getD [] := by
  rcases value with _ | _ | ⟨byte, bytes⟩ <;> rfl

/-- A record in range is replayed as it was appended. -/
theorem replay_readBack (X : Extern) {maxLsn afterLsn : Nat} {record : WalRecord}
    (positive : 0 < record.lsn) (below : record.lsn ≤ maxLsn) (fresh : afterLsn < record.lsn)
    (mt : MemTable) : replay maxLsn afterLsn mt (readBack X record) = record.applyTo mt := by
  have inRange : ¬ (record.lsn = 0 ∨ record.lsn > maxLsn) := by omega
  rw [replay, WalRecord.applyTo]
  cases kind : record.recordType <;>
    simp only [readBack, kind, if_neg inRange, if_neg (not_le.mpr fresh), getD_storedValue]

theorem foldl_replay_readBack (X : Extern) {maxLsn : Nat} {records : List WalRecord}
    (inRange : ∀ r ∈ records, 0 < r.lsn ∧ r.lsn ≤ maxLsn) (mt : MemTable) :
    (records.map (readBack X)).foldl (replay maxLsn 0) mt = applyAll records mt := by
  induction records generalizing mt with
  | nil => rfl
  | cons record records ih =>
    obtain ⟨⟨positive, below⟩, later⟩ := List.forall_mem_cons.mp inRange
    rw [List.map_cons, List.foldl_cons, replay_readBack X positive below positive, ih later]
    rfl

/-- **Recovery replays the log**: without a checkpoint, opening a readable log and
recovering applies every record, in order, and skips torn ends shorter than a header. -/
theorem recover_segments (X : Extern) {dir : WalDir} {segs : List (List WalRecord × Bytes)}
    (nonempty : segs ≠ []) (readable : ∀ s ∈ segs, (∀ r ∈ s.1, Readable r) ∧ s.2.length < 24)
    (held : Files dir (segs.map (segment X))) (positive : ∀ r ∈ segs.flatMap Prod.fst, 0 < r.lsn)
    (policy : FsyncPolicy) :
    recover X (WalWriter.openDir dir policy).writer.currentLsn 0 (WalWriter.openDir dir policy).dir =
      (.ok (applyAll (segs.flatMap Prod.fst) MemTable.new), dir) := by
  have files : segs.map (segment X) ≠ [] := by simpa using nonempty
  rw [(openDir_segNum held files policy).1, recover_eq X _ _ held files,
    readFrom_eq X nonempty readable held, openDir_currentLsn X nonempty readable held policy,
    Outcome.ok_bind, foldl_replay_readBack X fun r member => ⟨positive r member, le_maxLsn member⟩]

theorem recover_log (X : Extern) {wal : Wal} {segs : List (List WalRecord)} (lays : Lays X wal segs)
    (readable : ∀ r ∈ segs.flatten, Readable r) (policy : FsyncPolicy) :
    recover X (WalWriter.openDir wal.dir policy).writer.currentLsn 0
        (WalWriter.openDir wal.dir policy).dir =
      (.ok (applyAll segs.flatten MemTable.new), wal.dir) := by
  rw [← flatMap_whole segs]
  refine recover_segments X (by simpa using lays.nonempty) (readable_whole readable)
    (map_segment_whole X segs ▸ lays.files) (fun r member => ?_) policy
  rw [flatMap_whole] at member
  exact (lays.lsns r member).1

end Store

end NovaRuntime.Storage
