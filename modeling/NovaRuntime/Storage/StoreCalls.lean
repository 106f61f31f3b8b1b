/-
# NovaRuntime.Storage.StoreCalls — the calls of a store, and the states they reach

`StoreCall` is what a caller can do to a store. What a write does is one case
distinction (`write_cases`): it is refused and changes no entry, it is logged and
then applied to the memtable, or it fills the memtable and never returns
(`Fills`). The other calls are sequences of calls of the log, of the page cache
and of flushes of the memtable, so what these keep they all keep (`Closed`).

In every state reached by calls that returned, a range read gives exactly the
point reads of the keys in the range (`scan_exact`).
-/
import NovaRuntime.Storage.StoreSpec
import NovaRuntime.Storage.Recovery

namespace NovaRuntime.Storage

open NovaRuntime.Library

set_option autoImplicit false

def WriteOperation.record : WriteOperation → WalRecord
  | .set now key value => Wal.makeRecord now .insert 0 key (some value)
  | .delete now key => Wal.makeRecord now .delete 0 key none

inductive StoreCall where
  | write (op : WriteOperation)
  | batch (ops : List WriteOperation)
  | flush
  | sync
  | checkpoint (now : Int64)
  | compact
  | commit (now : Int64) (txId : UInt64)
  | rollback (now : Int64) (txId : UInt64)
  | close

def StoreCall.writes : StoreCall → List WriteOperation
  | .write op => [op]
  | .batch ops => ops
  | _ => []

namespace Store

variable {C : Type}

/-- `set` or `delete`. -/
def write (X : Extern) : WriteOperation → Method (Store C) Unit
  | .set now key value => set X now key value
  | .delete now key => do
      let _ ← delete X now key

def perform (X : Extern) : StoreCall → Method (Store C) Unit
  | .write op => write X op
  | .batch ops => batch X ops
  | .flush => flush
  | .sync => sync
  | .checkpoint now => do
      let _ ← checkpoint X now
  | .compact => compact X
  | .commit now txId => do
      let _ ← commit X now txId
  | .rollback now txId => rollback X now txId
  | .close => close X

/-! ## Writes -/

/-- The write is logged and makes the memtable reach its limit. -/
def Fills (X : Extern) (op : WriteOperation) (s : Store C) : Prop :=
  match op with
  | .set _ key value =>
    (∃ lsn, (append X op.record s).1 = .ok lsn) ∧
      s.config.memtableSize ≤ (s.memtable.insert key value).size
  | .delete _ _ => False

/-- What a write does under the memtable's lock. -/
def writeMemtable (X : Extern) : WriteOperation → Method (Store C) Unit
  | .set _ key value => setMemtable X key value
  | .delete _ key => do
      let _ ← deleteMemtable key

theorem write_eq (X : Extern) (op : WriteOperation) (s : Store C) :
    write X op s = (do
      let _ ← append X op.record
      writeMemtable X op : Method (Store C) Unit) s := by
  cases op with
  | set now key value => rfl
  | delete now key =>
    simp only [write, delete, writeMemtable, WriteOperation.record, Exec.bind_apply]
    rcases append X (Wal.makeRecord now .delete 0 key none) s with ⟨_ | _ | _ | _, s'⟩ <;> rfl

theorem batch_cons (X : Extern) (op : WriteOperation) (ops : List WriteOperation) (s : Store C) :
    batch X (op :: ops) s = (do
      write X op
      batch X ops : Method (Store C) Unit) s := by
  cases op with
  | set now key value => rfl
  | delete now key =>
    simp only [batch, write, Exec.bind_apply]
    rcases delete X now key s with ⟨_ | _ | _ | _, s'⟩ <;> rfl

theorem batch_singleton (X : Extern) (op : WriteOperation) (s : Store C) :
    (batch X [op] s).2 = (write X op s).2 := by
  rw [batch_cons, Exec.bind_apply]
  rcases write X op s with ⟨_ | _ | _ | _, s'⟩ <;> rfl

theorem Represents.append {X : Extern} {s : Store C} {layers : List (List SSTable.Entry)}
    (rep : Represents X s layers) (record : WalRecord) :
    Represents X (append X record s).2 layers := rep.sameData (sameData_onWal _ s)

/-- The memtable part of a write that does not fill the memtable. -/
theorem writeMemtable_eq (X : Extern) {s : Store C} (unlocked : s.memtableLocked = false)
    {op : WriteOperation}
    (room : ∀ now key value, op = .set now key value →
      (s.memtable.insert key value).size < s.config.memtableSize) :
    writeMemtable X op s = (.ok (), { s with memtable := op.record.applyTo s.memtable }) := by
  cases op with
  | set now key value => exact setMemtable_eq X unlocked (room now key value rfl)
  | delete now key =>
    rw [writeMemtable, Exec.bind_of_ok (deleteMemtable_eq unlocked key)]
    rfl

/-- **Everything a write can do to the entries.** It is refused and changes none, it
is applied to the memtable, or it fills the memtable and does not return. -/
theorem write_cases {X : Extern} {s : Store C} {layers : List (List SSTable.Entry)}
    (rep : Represents X s layers) (op : WriteOperation) :
    let s' := (write X op s).2
    ((∀ lsn, (append X op.record s).1 ≠ .ok lsn) ∧ (write X op s).1 ≠ .ok () ∧
      s' = (append X op.record s).2) ∨
    ((∃ lsn, (append X op.record s).1 = .ok lsn) ∧ (write X op s).1 = .ok () ∧
      s' = { (append X op.record s).2 with memtable := op.record.applyTo s.memtable }) ∨
    (Fills X op s ∧ (write X op s).1 = .hang) := by
  have same : SameData s (append X op.record s).2 := sameData_onWal _ s
  have unlocked := (rep.append op.record).unlocked
  simp only [write_eq, Exec.bind_apply]
  rcases appended : append X op.record s with ⟨outcome, s₁⟩
  rw [appended] at same unlocked
  have memtable : s₁.memtable = s.memtable := same.memtable
  have config : s₁.config = s.config := same.config
  cases outcome with
  | ok lsn =>
    by_cases fills : Fills X op s
    · cases op with
      | set now key value =>
        have full := fills.2
        rw [← memtable, ← config] at full
        refine .inr (.inr ⟨fills, ?_⟩)
        simp only [writeMemtable, setMemtable_fills X unlocked full]
      | delete now key => exact fills.elim
    · have room : ∀ now key value, op = .set now key value →
          (s₁.memtable.insert key value).size < s₁.config.memtableSize := by
        rintro now key value rfl
        rw [memtable, config]
        by_contra full
        exact fills ⟨⟨lsn, congrArg Prod.fst appended⟩, not_lt.mp full⟩
      refine .inr (.inl ⟨⟨lsn, rfl⟩, ?_⟩)
      simp only [writeMemtable_eq X unlocked room, memtable, and_self]
  | err e | panic | hang => exact .inl ⟨by simp, by simp, rfl⟩

theorem Represents.withMemtable {X : Extern} {s : Store C} {layers : List (List SSTable.Entry)}
    (rep : Represents X s layers) (mt : MemTable) : Represents X { s with memtable := mt } layers :=
  ⟨rep.unlocked, rep.noRoot, rep.tables, rep.fresh⟩

/-! ## The other calls -/

/-- A call of the log writer that only reads. -/
theorem onWal_of_same {α : Type} {call : Method Wal α} (same : ∀ wal, (call wal).2 = wal)
    (s : Store C) : (onWal call s).2 = s := by
  unfold onWal
  split
  · rfl
  · rename_i writer opened
    simp only [same]
    rw [← opened]

theorem keeps_onWal_of_same {α : Type} {call : Method Wal α} (same : ∀ wal, (call wal).2 = wal)
    (P : Store C → Prop) : Exec.Keeps P (onWal call) := fun s held => by
  rwa [onWal_of_same same]

/-- The parts of the calls that change no entry keep `P`. -/
structure Closed (X : Extern) (P : Store C → Prop) : Prop where
  pageCache : Exec.Keeps P (onPageCache (PageCache.flush noCallback))
  switchSegment : Exec.Keeps P (onWal WalWriter.switchSegment)
  detach : ∀ s, P s → P { s with wal := none }
  mark : ∀ record : WalRecord, record.recordType ∈ [.commit, .rollback, .checkpoint] →
    record.key = [] → record.value = none → Exec.Keeps P (append X record)

namespace Closed

variable {X : Extern} {P : Store C → Prop}

section

variable (closed : Closed X P)

include closed

theorem keeps_flush : Exec.Keeps P flush := by
  refine closed.pageCache.bind fun _ => Exec.keeps_get_bind fun s => ?_
  split
  · exact keeps_onWal_of_same (fun _ => rfl) P
  · exact Exec.keeps_pure P ()

theorem keeps_sync : Exec.Keeps P sync := by
  refine closed.keeps_flush.bind fun _ => Exec.keeps_get_bind fun s => ?_
  split
  · exact closed.switchSegment
  · exact Exec.keeps_pure P ()

theorem keeps_checkpoint (memtable : Exec.Keeps P (flushMemtable X))
    (now : Int64) : Exec.Keeps P (checkpoint X now) := by
  refine closed.keeps_flush.bind fun _ => memtable.bind fun _ => ?_
  refine (keeps_onWal_of_same (fun _ => rfl) P).bind fun currentLsn => ?_
  refine (closed.mark _ (by simp [Wal.makeRecord]) rfl rfl).bind fun _ => ?_
  exact (keeps_onWal_of_same (fun _ => rfl) P).bind fun _ => Exec.keeps_pure P currentLsn

theorem keeps_close (memtable : Exec.Keeps P (flushMemtable X)) : Exec.Keeps P (close X) := by
  refine memtable.bind fun _ => closed.keeps_flush.bind fun _ => Exec.keeps_get_bind fun s => ?_
  split
  · exact (keeps_onWal_of_same (fun _ => rfl) P).bind fun _ => closed.detach
  · exact Exec.keeps_pure P ()

theorem keeps_commit (now : Int64) (txId : UInt64) :
    Exec.Keeps P (commit X now txId) := closed.mark _ (by simp [Wal.makeRecord]) rfl rfl

theorem keeps_rollback (now : Int64) (txId : UInt64) : Exec.Keeps P (rollback X now txId) :=
  (closed.mark _ (by simp [Wal.makeRecord]) rfl rfl).bind fun _ => Exec.keeps_pure P ()

end

/-- A predicate that only looks at the entries. -/
theorem of_sameData (respects : ∀ s s', SameData s s' → P s → P s') : Closed X P where
  pageCache s := respects s _ (sameData_onPageCache _ s)
  switchSegment s := respects s _ (sameData_onWal _ s)
  detach s := respects s _ ⟨rfl, rfl, rfl, rfl, rfl, rfl, rfl⟩
  mark _ _ _ _ s := respects s _ (sameData_onWal _ s)

end Closed

/-- The tables of the store hold something. -/
def Represented (X : Extern) (s : Store C) : Prop := ∃ layers, Represents X s layers

theorem represented_write {X : Extern} {s : Store C} (rep : Represented X s) {op : WriteOperation}
    (returned : (write X op s).1 ≠ .hang) : Represented X (write X op s).2 := by
  obtain ⟨layers, rep⟩ := rep
  refine ⟨layers, ?_⟩
  rcases write_cases rep op with ⟨-, -, refused⟩ | ⟨-, -, applied⟩ | ⟨-, hung⟩
  · rw [refused]
    exact rep.append op.record
  · rw [applied]
    exact (rep.append op.record).withMemtable _
  · exact absurd hung returned

theorem represented_batch {X : Extern} {s : Store C} (rep : Represented X s)
    {ops : List WriteOperation} (returned : (batch X ops s).1 ≠ .hang) :
    Represented X (batch X ops s).2 := by
  induction ops generalizing s with
  | nil => exact rep
  | cons op ops ih =>
    have first : (write X op s).1 ≠ .hang → Represented X (write X op s).2 := represented_write rep
    rw [batch_cons, Exec.bind_apply] at returned ⊢
    rcases wrote : write X op s with ⟨outcome, s₁⟩
    rw [wrote] at first returned
    cases outcome with
    | ok _ => exact ih (first (by simp)) returned
    | err e | panic => exact first (by simp)
    | hang => exact absurd rfl returned

theorem represented_flushMemtable {X : Extern} (laws : X.SnappyLaws) :
    Exec.Keeps (Represented X : Store C → Prop) (flushMemtable X) := by
  rintro s ⟨layers, rep⟩
  rcases flushMemtable_cases laws rep with ⟨-, rep'⟩ | ⟨-, es, rep', -⟩
  · exact ⟨_, rep'⟩
  · exact ⟨_, rep'⟩

theorem represented_compact {X : Extern} (laws : X.SnappyLaws) :
    Exec.Keeps (Represented X : Store C → Prop) (compact X) := by
  rintro s ⟨layers, rep⟩
  rcases (compact_cases laws rep).2 with rep' | ⟨-, es, rep', -⟩
  · exact ⟨_, rep'⟩
  · exact ⟨_, rep'⟩

theorem closed_represented (X : Extern) : Closed X (Represented X : Store C → Prop) :=
  Closed.of_sameData fun _ _ same ⟨layers, rep⟩ => ⟨layers, rep.sameData same⟩

/-- **Step.** A call that returns leaves every table readable. -/
theorem represented_perform {X : Extern} (laws : X.SnappyLaws) {s : Store C}
    (rep : Represented X s) {call : StoreCall} (returned : (perform X call s).1 ≠ .hang) :
    Represented X (perform X call s).2 := by
  have closed : Closed X (Represented X : Store C → Prop) := closed_represented X
  have memtable := represented_flushMemtable (C := C) laws
  cases call with
  | write op => exact represented_write rep returned
  | batch ops => exact represented_batch rep returned
  | flush => exact closed.keeps_flush s rep
  | sync => exact closed.keeps_sync s rep
  | checkpoint now =>
    exact ((closed.keeps_checkpoint memtable now).bind fun _ => Exec.keeps_pure _ ()) s rep
  | compact => exact represented_compact laws s rep
  | commit now txId =>
    exact ((closed.keeps_commit now txId).bind fun _ => Exec.keeps_pure _ ()) s rep
  | rollback now txId => exact closed.keeps_rollback now txId s rep
  | close => exact closed.keeps_close memtable s rep

/-! ## Opening -/

variable [BoundedCache C PageId Page]

/-- A store opened on empty directories. -/
def start (config : StorageConfig) : Store C where
  config
  pageCache := PageCache.new config.pageCacheSize
  wal := some (WalWriter.openDir ∅ config.fsyncPolicy).writer
  btree := BTree.new config.btreeOrder
  disk := { wal := (WalWriter.openDir ∅ config.fsyncPolicy).dir }

theorem openDisk_empty (X : Extern) (config : StorageConfig) :
    openDisk X config {} = (.ok (start config : Store C), (start config : Store C).disk) := by
  have lays := Wal.lays_fresh X config.fsyncPolicy
  have read := Wal.Lays.readFrom lays (by simp)
  have recovered := recover_eq X (WalWriter.openDir ∅ config.fsyncPolicy).writer.currentLsn 0
    lays.files (by simp)
  rw [read] at recovered
  simp only [openDisk, findLatestCheckpoint, List.foldl_nil, Option.getD_none, recovered]
  rfl

theorem represents_opened {X : Extern} {config : StorageConfig} {disk disk' : Disk} {s : Store C}
    (opened : openDisk X config disk = (.ok s, disk')) : Represents X s [] := by
  rw [openDisk, Prod.mk.injEq, Outcome.bind_eq_ok] at opened
  obtain ⟨⟨mt, -, isOpened⟩, -⟩ := opened
  rw [← Outcome.ok.inj isOpened]
  exact ⟨rfl, rfl, .nil, by simp⟩

/-! ## Range reads -/

/-- The stores reached by calls that return, from a store opened on any directory. -/
inductive Reachable (X : Extern) : Store C → Prop
  | opened {config : StorageConfig} {disk disk' : Disk} {s : Store C} :
      openDisk X config disk = (.ok s, disk') → Reachable X s
  | performed {s : Store C} (call : StoreCall) :
      Reachable X s → (perform X call s).1 ≠ .hang → Reachable X (perform X call s).2

/-- **Run.** Every table of a reachable store is readable. -/
theorem Reachable.represented {X : Extern} (laws : X.SnappyLaws) {s : Store C}
    (reachable : Reachable X s) : Represented X s := by
  induction reachable with
  | opened isOpened => exact ⟨[], represents_opened isOpened⟩
  | performed call _ returned ih => exact represented_perform laws ih returned

/-- **A range read agrees with the point reads.** In every reachable store it
returns, sorted by strictly increasing key, exactly the pairs of a key in the range
and the value its point read gives. -/
theorem scan_exact {X : Extern} (laws : X.SnappyLaws) {s : Store C} (reachable : Reachable X s)
    (start stop : Key) :
    ∃ results, (scan X start stop s).1 = .ok results ∧ SortedKeys results ∧
      ∀ key value, (key, value) ∈ results ↔
        start ≤ key ∧ key < stop ∧ (get X key s).1 = .ok (some value) := by
  obtain ⟨layers, rep⟩ := reachable.represented laws
  refine ⟨_, congrArg Prod.fst (scan_eq rep start stop), sortedKeys_live _, fun key value => ?_⟩
  rw [mem_live_inRange, get_eq rep, Outcome.ok.injEq]

/-- A value, a table, a deletion over it and a value beside it. -/
theorem scan_exact_layered :
    let s : Store (RecencyCache PageId Page) := start { memtableSize := 1000 }
    let calls : List StoreCall := [.write (.set 0 [1] [10]), .write (.set 0 [2] [20]),
      .checkpoint 0, .write (.delete 0 [1]), .write (.set 0 [3] [])]
    let s' := calls.foldl (fun s call => (perform Extern.literal call s).2) s
    ∃ results, (scan Extern.literal [] [9] s').1 = .ok results ∧ SortedKeys results ∧
      ∀ key value, (key, value) ∈ results ↔
        [] ≤ key ∧ key < [9] ∧ (get Extern.literal key s').1 = .ok (some value) := by
  intro s calls s'
  refine scan_exact Extern.snappyLaws_literal ?_ [] [9]
  have opened : Reachable Extern.literal s := .opened (openDisk_empty Extern.literal _)
  refine .performed _ (.performed _ (.performed _ (.performed _ (.performed _ opened ?_) ?_) ?_) ?_) ?_
  all_goals decide +kernel

end Store

end NovaRuntime.Storage
