/-
# NovaRuntime.Storage.StoreRecovery — a reopened store answers as before

Opening a store rebuilds everything from the log and ignores the SSTables. So the
log has to say what the store says: `Logs X s mt` is a log whose replay ends in the
memtable `mt`, and in every state of a run in which no payload length wraps and no
write is lost by the store itself, `mt` answers every key as the store does. The
store is then found again, whether it was closed or not (`recovers_run`). A
compaction that loses a key breaks the agreement (`not_recovers_run`): the log still
has it.
-/
import NovaRuntime.Storage.StoreMap

namespace NovaRuntime.Storage

open NovaRuntime.Library

set_option autoImplicit false

namespace Store

open SSTable (blockCount)

variable {C : Type}
variable {X : Extern} {mt : MemTable} {s : Store C}

/-! ## The log of a store -/

/-- What a store has to do with its log. -/
def logPart (s : Store C) : Option WalWriter × WalDir × List (Nat × Option Nat) :=
  (s.wal, s.disk.wal, s.disk.checkpoints)

/-- The log on disk is readable and its replay ends in `mt`; the writer, if it is
open, is at the end of it. -/
structure Logs (X : Extern) (s : Store C) (mt : MemTable) : Prop where
  noCheckpoints : s.disk.checkpoints = []
  laid : ∃ segs writer, Wal.Lays X { dir := s.disk.wal, writer } segs ∧
    (∀ w, s.wal = some w → w = writer) ∧ (∀ r ∈ segs.flatten, Wal.Readable r) ∧
    applyAll segs.flatten MemTable.new = mt

theorem Logs.congr {s' : Store C} (logs : Logs X s mt) (same : logPart s' = logPart s) : Logs X s' mt := by
  simp only [logPart, Prod.mk.injEq] at same
  obtain ⟨wal, dir, checkpoints⟩ := same
  exact ⟨checkpoints ▸ logs.noCheckpoints, by rw [wal, dir]; exact logs.laid⟩

/-- Every segment list but the empty one has a last segment. -/
theorem Lays.exists_last {wal : Wal} {segs : List (List WalRecord)}
    (lays : Wal.Lays X wal segs) : ∃ front current, segs = front ++ [current] := by
  obtain ⟨front, current, rfl⟩ := (List.eq_nil_or_concat segs).resolve_left lays.nonempty
  exact ⟨front, current, List.concat_eq_append⟩

theorem append_of_open {w : WalWriter} (opened : s.wal = some w) (record : WalRecord) :
    append X record s =
      ((WalWriter.append X record { dir := s.disk.wal, writer := w }).1,
        { s with
          wal := some (WalWriter.append X record { dir := s.disk.wal, writer := w }).2.writer
          disk := { s.disk with
            wal := (WalWriter.append X record { dir := s.disk.wal, writer := w }).2.dir } }) := by
  simp only [append, onWal, opened]

/-- **Step.** A record that is appended is replayed after the others. -/
theorem Logs.append (logs : Logs X s mt) {record : WalRecord}
    (fits : (∃ lsn, (append X record s).1 = .ok lsn) → ¬ Wal.Wraps record) :
    ((∃ lsn, (append X record s).1 = .ok lsn) ∧ Logs X (append X record s).2 (record.applyTo mt)) ∨
    ((∀ lsn, (append X record s).1 ≠ .ok lsn) ∧ Logs X (append X record s).2 mt) := by
  obtain ⟨none, segs, writer, lays, isWriter, readable, replayed⟩ := logs
  cases opened : s.wal with
  | none =>
    have closed : Store.append X record s = (.panic, s) := by
      simp only [Store.append, onWal, opened]
    rw [closed]
    exact .inr ⟨by simp, none, segs, writer, lays, isWriter, readable, replayed⟩
  | some w =>
    obtain rfl := isWriter w opened
    have shape := append_of_open (X := X) opened record
    obtain ⟨front, current, rfl⟩ := Lays.exists_last lays
    rcases Wal.append_cases X record { dir := s.disk.wal, writer := w } with
      ⟨-, panicked⟩ | ⟨-, -, rejected⟩ | ⟨room, accepted, written⟩
    · rw [shape, panicked]
      exact .inr ⟨by simp, none, _, w, lays, by simp, readable, replayed⟩
    · rw [shape, rejected]
      exact .inr ⟨by simp, none, _, { w with currentLsn := w.currentLsn + 1 },
        ⟨lays.nonempty, lays.files, lays.segNum, lays.lsns⟩, by simp, readable, replayed⟩
    · have done : (Store.append X record s).1 = .ok (w.currentLsn + 1) := by rw [shape, written]
      have short : Wal.Short record := Wal.short_of_accepted accepted (fits ⟨_, done⟩)
      rw [shape, written]
      have next := Wal.Lays.appended lays record (Nat.succ_pos w.currentLsn) room
        { w with currentLsn := w.currentLsn + 1 } rfl
      refine .inl ⟨⟨_, rfl⟩, none, _, _, next, by simp, ?_, ?_⟩
      · intro r member
        simp only [List.flatten_append, List.flatten_singleton, List.mem_append,
          List.mem_singleton] at member readable
        rcases member with old | old | rfl
        · exact readable r (.inl old)
        · exact readable r (.inr old)
        · exact ⟨short, room⟩
      · rw [← replayed]
        simp only [List.flatten_append, List.flatten_singleton, ← List.append_assoc]
        rw [applyAll_append]
        rfl

/-- **Step.** A switch to the next segment adds no record. -/
theorem Logs.switchSegment (logs : Logs X s mt) :
    Logs X (onWal WalWriter.switchSegment s).2 mt := by
  obtain ⟨none, segs, writer, lays, isWriter, readable, replayed⟩ := logs
  cases opened : s.wal with
  | none =>
    simp only [onWal, opened]
    exact ⟨none, segs, writer, lays, isWriter, readable, replayed⟩
  | some w =>
    obtain rfl := isWriter w opened
    simp only [onWal, opened]
    rcases Wal.Lays.switchSegment lays with panicked | ⟨wal, switched, lays', -⟩
    · rw [panicked]
      exact ⟨none, _, w, lays, by simp, readable, replayed⟩
    · rw [switched]
      refine ⟨none, _, wal.writer, lays', by simp, ?_, ?_⟩
      · simpa using readable
      · simpa using replayed

/-- **Opening finds the replay of the log again**, and a log it can go on with. -/
theorem Logs.openDisk [BoundedCache C PageId Page] (logs : Logs X s mt) (config : StorageConfig) :
    ∃ s' : Store C, (openDisk X config s.disk).1 = .ok s' ∧ s'.memtable = mt ∧ Represents X s' [] ∧
      Logs X s' mt := by
  obtain ⟨none, segs, writer, lays, -, readable, replayed⟩ := logs
  have recovered := recover_log X lays readable config.fsyncPolicy
  have reopened := Wal.Lays.reopen lays config.fsyncPolicy
  have sameDir := (Wal.openDir_segNum lays.files (by simpa using lays.nonempty)
    config.fsyncPolicy).1
  simp only [Store.openDisk, none, findLatestCheckpoint, List.foldl_nil, Option.getD_none, recovered,
    Outcome.ok_bind]
  refine ⟨_, rfl, replayed, ⟨rfl, rfl, .nil, by simp⟩, rfl, segs,
    (WalWriter.openDir s.disk.wal config.fsyncPolicy).writer, ?_, by simp, readable, replayed⟩
  exact ⟨reopened.nonempty, by rw [← sameDir]; exact reopened.files, reopened.segNum, reopened.lsns⟩

theorem logs_start [BoundedCache C PageId Page] (X : Extern) (config : StorageConfig) :
    Logs X (start config : Store C) MemTable.new :=
  ⟨rfl, [[]], (WalWriter.openDir ∅ config.fsyncPolicy).writer, Wal.lays_fresh X config.fsyncPolicy,
    by simp [start], by simp, rfl⟩

/-! ## Calls and the log -/

theorem keeps_withMemtable {α : Type} {P : Store C → Prop} {body : Method (Store C) α}
    (lock : ∀ s locked, P s → P { s with memtableLocked := locked }) (kept : Exec.Keeps P body) :
    Exec.Keeps P (withMemtable body) := by
  intro s held
  have inside := kept _ (lock s true held)
  rw [withMemtable]
  split
  · exact held
  · revert inside
    rcases body { s with memtableLocked := true } with ⟨_ | _ | _ | _, s'⟩
    · exact lock s' false
    · exact lock s' false
    · exact lock s' false
    · exact id

/-- A flush of the memtable does not touch the log. -/
theorem keeps_logPart_flushMemtable (X : Extern) (log : Option WalWriter × WalDir × List (Nat × Option Nat)) :
    Exec.Keeps (fun s : Store C => logPart s = log) (flushMemtable X) := by
  refine keeps_withMemtable (fun _ _ held => held) (Exec.keeps_get_bind fun s => ?_)
  split
  · exact Exec.keeps_pure _ ()
  · simp only
    split
    · exact Exec.keeps_pure _ ()
    · refine Exec.Keeps.bind (fun _ => id) fun id => ?_
      refine Exec.Keeps.bind (fun _ held => held) fun sstable => ?_
      exact Exec.Keeps.bind (fun _ held => held) fun _ _ held => held

theorem keeps_logPart_compact (X : Extern) (log : Option WalWriter × WalDir × List (Nat × Option Nat)) :
    Exec.Keeps (fun s : Store C => logPart s = log) (compact X) := by
  refine Exec.keeps_get_bind fun s => ?_
  split
  · exact Exec.keeps_pure _ ()
  · refine (Exec.keeps_lift _ _).bind fun c => ?_
    refine Exec.Keeps.bind (fun _ => id) fun id => ?_
    refine Exec.Keeps.bind (fun _ held => held) fun compacted => ?_
    exact Exec.Keeps.bind (fun _ held => held) fun _ _ held => held

/-- The log on disk says about every key what the map says. -/
def Durable (X : Extern) (s : Store C) (map : Key → Option Value) : Prop :=
  ∃ mt, Logs X s mt ∧ ∀ key, (mt.getWithTombstone key).join = map key

theorem Durable.congr {s' : Store C} {map : Key → Option Value}
    (durable : Durable X s map) (same : logPart s' = logPart s) : Durable X s' map := by
  obtain ⟨mt, logs, answers⟩ := durable
  exact ⟨mt, logs.congr same, answers⟩

/-- The write is logged with a length that has wrapped around. -/
def Garbles (X : Extern) (op : WriteOperation) (s : Store C) : Prop :=
  (∃ lsn, (append X op.record s).1 = .ok lsn) ∧ Wal.Wraps op.record

/-- **Step.** The log takes a write when the map does. -/
theorem Durable.write {map : Key → Option Value}
    (denotes : Denotes X s map) (durable : Durable X s map) {op : WriteOperation}
    (room : ¬ Fills X op s) (fits : ¬ Garbles X op s) :
    ((write X op s).1 = .ok () ∧ Durable X (write X op s).2 (update map op)) ∨
    ((write X op s).1 ≠ .ok () ∧ Durable X (write X op s).2 map) := by
  obtain ⟨layers, rep, -⟩ := denotes
  obtain ⟨mt, logs, answers⟩ := durable
  have appended := logs.append fun logged wraps => fits ⟨logged, wraps⟩
  rcases write_cases rep op with ⟨notLogged, refused, after⟩ | ⟨logged, done, after⟩ | ⟨fills, -⟩
  · rcases appended with ⟨⟨lsn, logged⟩, -⟩ | ⟨-, kept⟩
    · exact absurd logged (notLogged lsn)
    · exact .inr ⟨refused, by rw [after]; exact ⟨mt, kept, answers⟩⟩
  · rcases appended with ⟨-, grown⟩ | ⟨notLogged, -⟩
    · refine .inl ⟨done, ?_⟩
      rw [after]
      refine ⟨_, grown.congr rfl, fun key => ?_⟩
      rw [getWithTombstone_applyTo, update]
      by_cases here : key = op.record.key
      · subst here
        simp
      · rw [if_neg here, Function.update_of_ne here, answers]
    · obtain ⟨lsn, logged⟩ := logged
      exact absurd logged (notLogged lsn)
  · exact absurd fills room

theorem not_wraps_mark {record : WalRecord} (noKey : record.key = []) (noValue : record.value = none) :
    ¬ Wal.Wraps record := by
  have small : (Wal.encodePayload record).length < 2 ^ 32 := by
    simp [Wal.encodePayload, noKey, noValue]
  exact fun wraps => absurd wraps.1 (not_le.mpr small)

/-- The calls that write no entry leave the log's answers alone. -/
theorem closed_durable (X : Extern) (map : Key → Option Value) :
    Closed X fun s : Store C => Durable X s map where
  pageCache _ durable := durable.congr rfl
  switchSegment _ := fun ⟨mt, logs, answers⟩ => ⟨mt, logs.switchSegment, answers⟩
  detach _ := fun ⟨mt, ⟨empty, segs, writer, lays, _, readable, replayed⟩, answers⟩ =>
    ⟨mt, ⟨empty, segs, writer, lays, by simp, readable, replayed⟩, answers⟩
  mark record isMark noKey noValue s := by
    rintro ⟨mt, logs, answers⟩
    have nothing : record.applyTo mt = mt := by
      simp only [List.mem_cons, List.not_mem_nil, or_false] at isMark
      rcases isMark with isMark | isMark | isMark <;> rw [WalRecord.applyTo, isMark]
    rcases logs.append fun _ => not_wraps_mark noKey noValue with ⟨-, grown⟩ | ⟨-, kept⟩
    · exact ⟨mt, nothing ▸ grown, answers⟩
    · exact ⟨mt, kept, answers⟩

/-! ## Runs -/

/-- A call, or the store is dropped and opened again on the same directories. -/
inductive SessionCall where
  | call (call : StoreCall)
  | reopen (config : StorageConfig)

namespace Traced

/-- The store and its log both hold the map. -/
def Agreed (X : Extern) (s : Store C) (map : Key → Option Value) : Prop :=
  Denotes X s map ∧ Durable X s map

theorem agreed_writes {X : Extern} {s : Store C} {map : Key → Option Value} (agreed : Agreed X s map)
    {ops : List WriteOperation} (room : EachWrite X (fun op s => ¬ Fills X op s) ops s)
    (fits : EachWrite X (fun op s => ¬ Garbles X op s) ops s) :
    Agreed X (batch X ops s).2 (batchMap X ops s map) := by
  refine batch_induction (fun s map op agreed meets => ?_) agreed (room.and fits)
  rcases agreed.1.write meets.1 with ⟨done, denotes⟩ | ⟨refused, denotes⟩ <;>
    rcases Durable.write agreed.1 agreed.2 meets.1 meets.2 with ⟨done', durable⟩ | ⟨refused', durable⟩
  · exact .inl ⟨done, denotes, durable⟩
  · exact absurd done refused'
  · exact absurd done' refused
  · exact .inr ⟨refused, denotes, durable⟩

/-- **Step.** A safe call keeps the store, its log and the map together. -/
theorem agreed_step {X : Extern} (laws : X.SnappyLaws) {t : Traced C}
    (agreed : Agreed X t.store t.map) {call : StoreCall} (safe : Safe X t call)
    (fits : EachWrite X (fun op s => ¬ Garbles X op s) call.writes t.store) :
    Agreed X (t.step X call).store (t.step X call).map := by
  refine ⟨denotes_step laws agreed.1 safe, ?_⟩
  have closed : Closed X fun s : Store C => Durable X s t.map := closed_durable X t.map
  have memtable : Exec.Keeps (fun s : Store C => Durable X s t.map) (flushMemtable X) :=
    fun s durable => durable.congr (keeps_logPart_flushMemtable X _ s rfl)
  have durable := agreed.2
  cases call with
  | write op =>
    have room : EachWrite X (fun op s => ¬ Fills X op s) [op] t.store := ⟨safe, fun _ => trivial⟩
    have single := (agreed_writes agreed room fits).2
    rwa [batch_singleton] at single
  | batch ops => exact (agreed_writes agreed safe fits).2
  | flush => exact closed.keeps_flush t.store durable
  | sync => exact closed.keeps_sync t.store durable
  | checkpoint now =>
    exact ((closed.keeps_checkpoint memtable now).bind fun _ => Exec.keeps_pure _ ()) t.store durable
  | compact => exact durable.congr (keeps_logPart_compact X _ t.store rfl)
  | commit now txId =>
    exact ((closed.keeps_commit now txId).bind fun _ => Exec.keeps_pure _ ()) t.store durable
  | rollback now txId => exact closed.keeps_rollback now txId t.store durable
  | close => exact closed.keeps_close memtable t.store durable

/-- The log of a store keeps its answers through every call that is not a write, a
compaction that loses a key included. -/
theorem durable_compact_close {X : Extern} {t : Traced C} (durable : Durable X t.store t.map) :
    Durable X ((t.step X .compact).step X .close).store t.map := by
  have memtable : Exec.Keeps (fun s : Store C => Durable X s t.map) (flushMemtable X) :=
    fun s durable => durable.congr (keeps_logPart_flushMemtable X _ s rfl)
  exact (closed_durable X t.map).keeps_close memtable _
    (durable.congr (keeps_logPart_compact X _ t.store rfl))

variable [BoundedCache C PageId Page]

def sessionStep (X : Extern) (t : Traced C) : SessionCall → Traced C
  | .call call => t.step X call
  | .reopen config =>
    match (openDisk X config t.store.disk).1 with
    | .ok store => { t with store }
    | _ => t

/-- A store opened on the directories of this one, whatever its configuration,
answers every key as this one does. -/
def Recovers (X : Extern) (t : Traced C) : Prop :=
  ∀ config, ∃ store : Store C, (openDisk X config t.store.disk).1 = .ok store ∧
    ∀ key, (get X key store).1 = (get X key t.store).1

/-- The call loses no write, and no write is logged under a wrong length. -/
def SessionSafe (X : Extern) (t : Traced C) : SessionCall → Prop
  | .call call => Safe X t call ∧ EachWrite X (fun op s => ¬ Garbles X op s) call.writes t.store
  | .reopen _ => True

/-- Opening the directories of a store whose log holds the map. -/
theorem agreed_opened {X : Extern} {s : Store C} {map : Key → Option Value}
    (durable : Durable X s map) (config : StorageConfig) :
    ∃ s' : Store C, (openDisk X config s.disk).1 = .ok s' ∧ Agreed X s' map := by
  obtain ⟨mt, logs, answers⟩ := durable
  obtain ⟨s', opened, replayed, rep, logs'⟩ := logs.openDisk config
  refine ⟨s', opened, ⟨[], rep, fun key => ?_⟩, mt, logs', answers⟩
  rw [answer_contents, replayed, ← answers]
  simp

/-- **Step.** So does opening the store again. -/
theorem agreed_sessionStep {X : Extern} (laws : X.SnappyLaws) {t : Traced C}
    (agreed : Agreed X t.store t.map) {call : SessionCall} (safe : SessionSafe X t call) :
    Agreed X (t.sessionStep X call).store (t.sessionStep X call).map := by
  cases call with
  | call call => exact agreed_step laws agreed safe.1 safe.2
  | reopen config =>
    obtain ⟨s', opened, agreed'⟩ := agreed_opened agreed.2 config
    simp only [sessionStep, opened]
    exact agreed'

theorem agreed_start (X : Extern) (config : StorageConfig) :
    Agreed X (start config : Store C) fun _ => none :=
  ⟨denotes_start X config, MemTable.new, logs_start X config, by simp⟩

/-- **Recovery is equivalent to going on.** In every state of a run of safe calls and
reopenings from empty directories, a store opened on the directories answers every
key as the store does: closed or not, and with values that are empty. -/
theorem recovers_run {X : Extern} (laws : X.SnappyLaws) (config : StorageConfig)
    {calls : List SessionCall}
    (safe : Run.Each (sessionStep X) (SessionSafe X) { store := (start config : Store C) } calls) :
    ∀ t ∈ Run.states (sessionStep X) { store := (start config : Store C) } calls, Recovers X t := by
  have held := safe.invariant (fun _ _ agreed => agreed_sessionStep laws agreed)
    (agreed_start X config)
  intro t member config'
  obtain ⟨⟨layers, rep, holds⟩, durable⟩ := held t member
  obtain ⟨s', opened, ⟨layers', rep', holds'⟩, -⟩ := agreed_opened durable config'
  refine ⟨s', opened, fun key => ?_⟩
  rw [get_eq rep, get_eq rep', holds, holds']

/-- A table, a switch of the segment, an empty value, a deletion, a reopening and a
closed store. -/
theorem recovers_run_reopened :
    let s : Store (RecencyCache PageId Page) := start { memtableSize := 1000 }
    let calls : List SessionCall := [.call (.write (.set 0 [1] [10])), .call (.checkpoint 0),
      .call .sync, .call (.batch [.set 0 [2] [], .delete 0 [1]]),
      .reopen { memtableSize := 500, fsyncPolicy := .async }, .call (.write (.set 0 [3] [30])),
      .call .close]
    ∀ t ∈ Run.states (sessionStep Extern.literal) { store := s } calls, Recovers Extern.literal t := by
  intro s calls
  refine recovers_run Extern.snappyLaws_literal { memtableSize := 1000 } ?_
  have fits : ∀ (s : Store (RecencyCache PageId Page)) (op : WriteOperation),
      ¬ Wal.Wraps op.record → ¬ Garbles Extern.literal op s := fun _ _ short wraps => short wraps.2
  refine ⟨⟨not_fills ?_, fits _ _ ?_, fun _ => trivial⟩, ⟨safe_checkpoint 0 ?_, trivial⟩,
    ⟨trivial, trivial⟩, ⟨⟨not_fills ?_, fun _ => ⟨id, fun _ => trivial⟩⟩, fits _ _ ?_,
      fun _ => ⟨fits _ _ ?_, fun _ => trivial⟩⟩, trivial,
    ⟨not_fills ?_, fits _ _ ?_, fun _ => trivial⟩, ⟨safe_close ?_, trivial⟩, trivial⟩
  all_goals decide +kernel

/-- The key a compaction has lost is there again after the store was closed and opened. -/
theorem not_recovers_run :
    let calls : List StoreCall := fourTables ++ [.compact, .close]
    ¬ ∀ t ∈ Run.states (sessionStep Extern.literal)
        { store := (start {} : Store (RecencyCache PageId Page)) } (calls.map .call),
      Recovers Extern.literal t := by
  intro calls recovers
  let before : Traced (RecencyCache PageId Page) :=
    (fourTables.map .call).foldl (sessionStep Extern.literal) { store := start {} }
  let last := (before.step Extern.literal .compact).step Extern.literal .close
  have fits : ∀ (s : Store (RecencyCache PageId Page)) (op : WriteOperation),
      ¬ Wal.Wraps op.record → ¬ Garbles Extern.literal op s := fun _ _ short wraps => short wraps.2
  have safe : Run.Each (sessionStep Extern.literal) (SessionSafe Extern.literal)
      { store := (start {} : Store (RecencyCache PageId Page)) } (fourTables.map .call) := by
    refine ⟨⟨not_fills ?_, fits _ _ ?_, fun _ => trivial⟩, ⟨safe_checkpoint 0 ?_, trivial⟩,
      ⟨not_fills ?_, fits _ _ ?_, fun _ => trivial⟩, ⟨safe_checkpoint 0 ?_, trivial⟩,
      ⟨not_fills ?_, fits _ _ ?_, fun _ => trivial⟩, ⟨safe_checkpoint 0 ?_, trivial⟩,
      ⟨not_fills ?_, fits _ _ ?_, fun _ => trivial⟩, ⟨safe_checkpoint 0 ?_, trivial⟩, trivial⟩
    all_goals decide +kernel
  have held := safe.invariant (I := fun t => Agreed Extern.literal t.store t.map)
    (fun _ _ agreed => agreed_sessionStep Extern.snappyLaws_literal agreed)
    (agreed_start Extern.literal {}) before (Run.foldl_mem_states _ _)
  obtain ⟨found, opened, ⟨layers, rep, holds⟩, -⟩ :=
    agreed_opened (durable_compact_close held.2) {}
  have isLast : (calls.map .call).foldl (sessionStep Extern.literal) { store := start {} } = last := by
    rw [List.map_append, List.foldl_append]
    rfl
  obtain ⟨store, opened', same⟩ := recovers _ (Run.foldl_mem_states _ _) {}
  rw [isLast] at opened' same
  have isFound : store = found := Outcome.ok.inj (opened'.symm.trans opened)
  have lost : (get Extern.literal compactionStop last.store).1 = .ok none := by decide +kernel
  have kept : before.map compactionStop = some [1] := by decide +kernel
  have answers := same compactionStop
  rw [isFound, get_eq rep, holds, kept, lost] at answers
  cases answers

end Traced

end Store

end NovaRuntime.Storage
