/-
# NovaRuntime.Storage.TxnStore — transactions over a store

`Store` hands its transactions to a `TransactionManager`. A snapshot read answers
from the write set of its transaction and, for a key the transaction has not
written, asks `Store::get` at the time of the read; the snapshot taken at `begin` is
not looked at, whatever the isolation level.

`Traced` keeps, for every transaction and key, the results of the reads inside the
transaction since its last own write of the key. They are equal in every state of a
run in which no write changes the value of a key that a transaction above read
committed has read and not written (`repeatable_run`); one write between two reads
is enough to tell them apart (`not_repeatable`).
-/
import NovaRuntime.Storage.Txn
import NovaRuntime.Storage.StoreMap

namespace NovaRuntime.Storage

open NovaRuntime.Library

set_option autoImplicit false

/-- A store with its `txn_manager`. -/
structure TxnStore (C : Type) where
  store : Store C
  txnManager : TransactionManager := TransactionManager.new

namespace TxnStore

variable {C : Type}

def onStore {α : Type} (call : Method (Store C) α) : Method (TxnStore C) α := fun s =>
  let (outcome, store) := call s.store
  (outcome, { s with store })

def onTxnManager {α : Type} (call : Method TransactionManager α) : Method (TxnStore C) α := fun s =>
  let (outcome, txnManager) := call s.txnManager
  (outcome, { s with txnManager })

def beginTxn (isolation : IsolationLevel) : Method (TxnStore C) Transaction :=
  onTxnManager (TransactionManager.begin isolation .optimistic)

def commitTxn (X : Extern) (now : Int64) (txId : UInt64) : Method (TxnStore C) Nat := do
  onTxnManager (TransactionManager.commit txId)
  onStore (Store.append X (Wal.makeRecord now .commit txId [] none))

def rollbackTxn (X : Extern) (now : Int64) (txId : UInt64) : Method (TxnStore C) Unit := do
  onTxnManager (TransactionManager.rollback txId)
  let _ ← onStore (Store.append X (Wal.makeRecord now .rollback txId [] none))

/-- A rollback leaves its record in the log and takes the transaction out. -/
theorem rollbackTxn_snd (X : Extern) (now : Int64) (txId : UInt64) (s : TxnStore C) :
    (rollbackTxn X now txId s).2 = {
      store := (Store.append X (Wal.makeRecord now .rollback txId [] none) s.store).2
      txnManager := (TransactionManager.rollback txId s.txnManager).2 } := by
  simp only [rollbackTxn, Exec.bind_apply, onTxnManager, onStore, TransactionManager.rollback,
    Exec.modify_apply]
  rcases Store.append X (Wal.makeRecord now .rollback txId [] none) s.store with ⟨_ | _ | _ | _, _⟩ <;>
    rfl

/-- `get` looks pages up in a tree without a root, so it leaves the store as it is
(`Store.get_eq`). -/
def snapshotRead [BoundedCache C PageId Page] (X : Extern) (txnId : UInt64) (key : Key) :
    Method (TxnStore C) (Option Value) := fun s =>
  (s.txnManager.snapshotRead txnId key fun key => (Store.get X key s.store).1, s)

/-! ## Runs -/

/-- A call of a store or of one of its transactions. -/
inductive Call where
  | store (call : StoreCall)
  | begin (isolation : IsolationLevel)
  | registerWrite (txnId : UInt64) (key : Key) (value : Option Value)
  | snapshotRead (txnId : UInt64) (key : Key)
  | commit (now : Int64) (txId : UInt64)
  | rollback (now : Int64) (txId : UInt64)

/-- A store with transactions, the map its successful writes describe, and the reads
of a key inside a transaction since the transaction last wrote the key. -/
structure Traced (C : Type) where
  db : TxnStore C
  map : Key → Option Value := fun _ => none
  reads : UInt64 → Key → List (Result (Option Value)) := fun _ _ => []

namespace Traced

/-- A new transaction has read nothing, one that ended is read in no longer. -/
def restart (t : Traced C) (txnId id : UInt64) (key : Key) : List (Result (Option Value)) :=
  if txnId = id then [] else t.reads id key

def step [BoundedCache C PageId Page] (X : Extern) (t : Traced C) : Call → Traced C
  | .store call =>
    { t with
      db := (onStore (Store.perform X call) t.db).2
      map := Store.batchMap X call.writes t.db.store t.map }
  | .begin isolation =>
    { t with
      db := (beginTxn isolation t.db).2
      reads := t.restart t.db.txnManager.nextTxnId }
  | .registerWrite txnId key value =>
    match onTxnManager (TransactionManager.registerWrite txnId key value) t.db with
    | (.ok (), db) =>
      { t with db, reads := fun id k => if key = k ∧ txnId = id then [] else t.reads id k }
    | (_, db) => { t with db }
  | .snapshotRead txnId key =>
    let (result, db) := snapshotRead X txnId key t.db
    { t with
      db
      reads := fun id k =>
        if key = k ∧ txnId = id then t.reads id k ++ [result] else t.reads id k }
  | .commit now txId => { t with db := (commitTxn X now txId t.db).2, reads := t.restart txId }
  | .rollback now txId => { t with db := (rollbackTxn X now txId t.db).2, reads := t.restart txId }

/-- The transaction is active and above read committed. -/
def Snapshots (t : Traced C) (txnId : UInt64) (txn : Transaction) : Prop :=
  t.db.txnManager.get txnId = some txn ∧ txn.isolation ≠ .readCommitted

/-- All reads of a key inside a transaction above read committed gave the same
result, as long as the transaction did not write the key in between. -/
def Repeatable (t : Traced C) : Prop :=
  ∀ txnId txn key, t.Snapshots txnId txn →
    ∀ result ∈ t.reads txnId key, ∀ result' ∈ t.reads txnId key, result = result'

/-- The call changes no value that a transaction above read committed has read from
the store, and the store stays readable. -/
def Undisturbed (X : Extern) (t : Traced C) : Call → Prop
  | .store call =>
    Store.Traced.Safe X { store := t.db.store, map := t.map } call ∧
    ∀ txnId txn key, t.Snapshots txnId txn → t.reads txnId key ≠ [] →
      TransactionManager.firstWrite txn.writeSet key = none →
      Store.batchMap X call.writes t.db.store t.map key = t.map key
  | _ => True

/-! ## The invariant -/

/-- The store holds the map, and every read of a transaction above read committed gave
what the same read gives now. -/
structure Consistent (X : Extern) (t : Traced C) : Prop where
  denotes : Store.Denotes X t.db.store t.map
  reads : ∀ txnId txn key, t.Snapshots txnId txn → ∀ result ∈ t.reads txnId key,
    result = .ok ((TransactionManager.firstWrite txn.writeSet key).getD (t.map key))

theorem Consistent.repeatable {X : Extern} {t : Traced C} (consistent : Consistent X t) :
    Repeatable t := fun txnId txn key snapshots result member result' member' =>
  (consistent.reads txnId txn key snapshots result member).trans
    (consistent.reads txnId txn key snapshots result' member').symm

theorem Snapshots.congr {t t' : Traced C} {txnId : UInt64} {txn : Transaction}
    (same : t'.db.txnManager.get txnId = t.db.txnManager.get txnId)
    (snapshots : t'.Snapshots txnId txn) : t.Snapshots txnId txn :=
  ⟨same ▸ snapshots.1, snapshots.2⟩

/-- A call that ends the transaction and changes no entry of the store. -/
theorem Consistent.ended {X : Extern} {t : Traced C} (consistent : Consistent X t) {txId : UInt64}
    {db : TxnStore C} (same : Store.SameData t.db.store db.store)
    (after : ∀ id, db.txnManager.get id = if txId = id then none else t.db.txnManager.get id) :
    Consistent X { t with db, reads := t.restart txId } where
  denotes := consistent.denotes.sameData same
  reads txnId txn key snapshots result member := by
    have active := snapshots.1
    rw [after] at active
    split at active
    · cases active
    · rename_i other
      replace member : result ∈ t.restart txId txnId key := member
      rw [restart, if_neg other] at member
      exact consistent.reads txnId txn key ⟨active, snapshots.2⟩ result member

/-- A write of keys that no transaction has read disturbs no reader. -/
theorem undisturbed_of_unread {X : Extern} {t : Traced C} {call : StoreCall}
    (safe : Store.Traced.Safe X { store := t.db.store, map := t.map } call)
    (unread : ∀ op ∈ call.writes, ∀ txnId, t.reads txnId op.record.key = []) :
    Undisturbed X t (.store call) := by
  refine ⟨safe, fun txnId txn key _ read _ => Store.batchMap_of_not_mem X (fun op member => ?_) _ _⟩
  rintro rfl
  exact read (unread op member txnId)

section Steps

variable [BoundedCache C PageId Page] {X : Extern} {t : Traced C}

/-- **Step.** A call of the store that disturbs no reader. -/
theorem Consistent.store (laws : X.SnappyLaws) (consistent : Consistent X t) {call : StoreCall}
    (undisturbed : Undisturbed X t (.store call)) : Consistent X (t.step X (.store call)) where
  denotes := Store.Traced.denotes_step laws (t := { store := t.db.store, map := t.map })
    consistent.denotes undisturbed.1
  reads txnId txn key snapshots result member := by
    have before := consistent.reads txnId txn key snapshots result member
    rw [before]
    cases own : TransactionManager.firstWrite txn.writeSet key with
    | some value => rfl
    | none =>
      have kept := undisturbed.2 txnId txn key snapshots (List.ne_nil_of_mem member) own
      exact congrArg Outcome.ok kept.symm

theorem Consistent.begin (consistent : Consistent X t) (isolation : IsolationLevel) :
    Consistent X (t.step X (.begin isolation)) where
  denotes := consistent.denotes
  reads txnId txn key snapshots result member := by
    have after := TransactionManager.get_begin isolation .optimistic t.db.txnManager txnId
    replace member : result ∈ t.restart t.db.txnManager.nextTxnId txnId key := member
    rw [restart] at member
    split at member
    · cases member
    · rename_i other
      rw [if_neg other] at after
      exact consistent.reads txnId txn key (snapshots.congr after) result member

theorem Consistent.registerWrite (consistent : Consistent X t) (txnId : UInt64) (key : Key)
    (value : Option Value) : Consistent X (t.step X (.registerWrite txnId key value)) := by
  have cases := TransactionManager.registerWrite_cases txnId key value t.db.txnManager
  simp only [step, onTxnManager]
  rcases called : TransactionManager.registerWrite txnId key value t.db.txnManager with ⟨outcome, tm⟩
  simp only [called] at cases ⊢
  rcases cases with ⟨refused, same⟩ | ⟨own, found, -, done, after⟩
  · subst same
    cases outcome with
    | ok _ => exact absurd rfl refused
    | err _ | panic | hang => exact ⟨consistent.denotes, consistent.reads⟩
  · subst done
    refine ⟨consistent.denotes, fun id txn k snapshots result member => ?_⟩
    simp only at member
    split at member
    · cases member
    · rename_i other
      have active := snapshots.1
      simp only [after] at active
      split at active
      · -- another key of the same transaction: its first write is where it was
        rename_i same
        subst same
        cases active
        have before := consistent.reads txnId own k ⟨found, snapshots.2⟩ result member
        have elsewhere : k ≠ key := fun here => other ⟨here.symm, rfl⟩
        rw [before, TransactionManager.firstWrite, TransactionManager.firstWrite, List.lookup_append,
          lookup_cons_ite, if_neg (by simpa using elsewhere), List.lookup_nil, Option.or_none]
      · exact consistent.reads id txn k ⟨active, snapshots.2⟩ result member

/-- **Step.** A read gives what every read before it gave. -/
theorem Consistent.snapshotRead (consistent : Consistent X t) (txnId : UInt64) (key : Key) :
    Consistent X (t.step X (.snapshotRead txnId key)) where
  denotes := consistent.denotes
  reads id txn k snapshots result member := by
    simp only [step] at member
    split at member
    · rename_i here
      obtain ⟨rfl, rfl⟩ := here
      rcases List.mem_append.mp member with earlier | now
      · exact consistent.reads txnId txn key snapshots result earlier
      · obtain ⟨layers, rep, holds⟩ := consistent.denotes
        have active : t.db.txnManager.get txnId = some txn := snapshots.1
        rw [List.mem_singleton.mp now]
        simp only [TxnStore.snapshotRead, TransactionManager.snapshotRead_of_found active,
          Store.get_eq rep, holds, step]
        cases TransactionManager.firstWrite txn.writeSet key <;> rfl
    · exact consistent.reads id txn k snapshots result member

/-- **Step.** Every call that disturbs no reader keeps the reads and the map together. -/
theorem Consistent.step (laws : X.SnappyLaws) (consistent : Consistent X t) {call : Call}
    (undisturbed : Undisturbed X t call) : Consistent X (t.step X call) := by
  cases call with
  | store call => exact consistent.store laws undisturbed
  | begin isolation => exact consistent.begin isolation
  | registerWrite txnId key value => exact consistent.registerWrite txnId key value
  | snapshotRead txnId key => exact consistent.snapshotRead txnId key
  | commit now txId =>
    have logged : Store.SameData t.db.store
        (Store.append X (Wal.makeRecord now .commit txId [] none) t.db.store).2 :=
      Store.sameData_onWal _ _
    exact consistent.ended logged (TransactionManager.get_commit txId t.db.txnManager)
  | rollback now txId =>
    have logged : Store.SameData t.db.store
        (Store.append X (Wal.makeRecord now .rollback txId [] none) t.db.store).2 :=
      Store.sameData_onWal _ _
    rw [Traced.step, rollbackTxn_snd]
    exact consistent.ended logged (TransactionManager.get_rollback txId t.db.txnManager)

end Steps

/-! ## Repeatable reads -/

/-- A new store, on which no transaction has begun. -/
def new [BoundedCache C PageId Page] (config : StorageConfig) : Traced C where
  db := { store := Store.start config }

variable [BoundedCache C PageId Page]

/-- **Reads repeat while nobody writes what was read.** -/
theorem repeatable_run {X : Extern} (laws : X.SnappyLaws) (config : StorageConfig)
    {calls : List Call}
    (undisturbed : Run.Each (step X) (Undisturbed X) (new config : Traced C) calls) :
    ∀ t ∈ Run.states (step X) (new config : Traced C) calls, Repeatable t := by
  have start : Consistent X (new config : Traced C) :=
    ⟨Store.Traced.denotes_start X config, fun _ _ _ _ _ member => by cases member⟩
  have held := undisturbed.invariant (fun _ _ consistent => consistent.step laws) start
  exact fun t member => (held t member).repeatable

/-- A transaction reads, another key is written, it reads again, writes itself, reads
its own write and commits. -/
theorem repeatable_run_other :
    Run.Always (step Extern.literal) Repeatable (new {} : Traced (RecencyCache PageId Page))
      [.store (.write (.set 0 [1] [10])), .begin .snapshot, .snapshotRead 1 [1],
        .store (.write (.set 0 [2] [20])), .snapshotRead 1 [1], .registerWrite 1 [1] (some [11]),
        .snapshotRead 1 [1], .commit 0 1] := by
  refine repeatable_run Extern.snappyLaws_literal {} ⟨undisturbed_of_unread (Store.not_fills ?_) ?_,
    trivial, trivial, undisturbed_of_unread (Store.not_fills ?_) ?_, trivial, trivial, trivial,
    trivial, trivial⟩
  · decide +kernel
  · exact fun op member txnId => rfl
  · decide +kernel
  · intro op member txnId
    rw [List.mem_singleton.mp member]
    simp [step, restart, new, snapshotRead, WriteOperation.record, Wal.makeRecord]

/-- A write between two reads of a serializable transaction shows in the second. -/
theorem not_repeatable :
    ¬ ∀ t ∈ Run.states (step Extern.literal) (new {} : Traced (RecencyCache PageId Page))
        [.begin .serializable, .snapshotRead 1 [1], .store (.write (.set 0 [1] [10])),
          .snapshotRead 1 [1]], Repeatable t := by
  intro repeatable
  let last : Traced (RecencyCache PageId Page) :=
    [.begin .serializable, .snapshotRead 1 [1], .store (.write (.set 0 [1] [10])),
      .snapshotRead 1 [1]].foldl (step Extern.literal) (new {})
  have active : (last.db.txnManager.get 1).map Transaction.isolation = some .serializable := by
    decide +kernel
  obtain ⟨txn, found, serializable⟩ := Option.map_eq_some_iff.mp active
  have same := repeatable last (Run.foldl_mem_states _ _) 1 txn [1]
    ⟨found, by rw [serializable]; decide⟩ (.ok none) (by decide +kernel) (.ok (some [10]))
    (by decide +kernel)
  cases same

end Traced

end TxnStore

end NovaRuntime.Storage
