/-
# NovaRuntime.Storage.TxnConcurrent — transactional writes that interleave

`register_write` looks at the transaction under a read lock and pushes the write
under a write lock taken afterwards; `commit_txn` takes the transaction out of the
manager and then appends a record to the log. Other threads can pass between the two
locks of either. `Threads` is a store with the calls that stand there.

A write is acknowledged when its push returns. If no push finds that its transaction
was committed in the meantime, every acknowledged write is in the write set at the
moment of the commit; and if no commit returns before the store answers every key of
the write set with the last write of it, every committed write can be read
(`delivers_run`). Neither is up to the code: the push into a committed transaction is
acknowledged and lost, and a commit never applies the write set
(`not_delivers_run`).
-/
import NovaRuntime.Storage.TxnStore

namespace NovaRuntime.Storage

open NovaRuntime.Library

set_option autoImplicit false

namespace TransactionManager

/-! ## The two locks of `register_write` -/

/-- Under the read lock. -/
def checkWrite (txnId : UInt64) : Method TransactionManager Unit := do
  let tm ← Exec.get
  match tm.activeTxns[txnId]? with
  | none => Exec.lift (.err (notFound txnId))
  | some txn =>
    if txn.status ≠ .active then
      Exec.lift (.err (.transactionError "cannot write to inactive transaction"))
    else pure ()

/-- Under the write lock. A transaction that is gone is passed over. -/
def pushWrite (txnId : UInt64) (key : Key) (value : Option Value) : Method TransactionManager Unit :=
  Exec.modify fun tm =>
    { tm with
      activeTxns := tm.activeTxns.modify txnId fun txn =>
        { txn with writeSet := txn.writeSet ++ [(key, value)] } }

theorem checkWrite_snd (txnId : UInt64) (tm : TransactionManager) :
    (checkWrite txnId tm).2 = tm := by
  simp only [checkWrite, Exec.get_bind]
  cases tm.activeTxns[txnId]? with
  | none => rfl
  | some txn => by_cases inactive : txn.status ≠ .active <;> simp [inactive]

theorem get_pushWrite (txnId : UInt64) (key : Key) (value : Option Value) (tm : TransactionManager)
    (id : UInt64) :
    (pushWrite txnId key value tm).2.get id =
      if txnId = id then
        (tm.get id).map fun txn => { txn with writeSet := txn.writeSet ++ [(key, value)] }
      else tm.get id := by
  change (tm.activeTxns.modify txnId _)[id]? = _
  simp only [get, Std.TreeMap.getElem?_modify, Std.LawfulEqCmp.compare_eq_iff_eq]
  split
  · rename_i same
    rw [same]
  · rfl

end TransactionManager

/-! ## Reads and the log -/

/-- A read does not look at the log. -/
theorem Store.get_append {C : Type} [BoundedCache C PageId Page] (X : Extern) (record : WalRecord)
    (s : Store C) (key : Key) :
    (Store.get X key (Store.append X record s).2).1 = (Store.get X key s).1 := by
  rw [Store.append, Store.onWal]
  split
  · rfl
  · simp only [Store.get, Store.readMemtable, Exec.bind_apply, Exec.get_apply]
    cases s.memtableLocked with
    | true => rfl
    | false =>
      simp only [Bool.false_eq_true, if_false, Exec.pure_apply]
      cases s.memtable.getWithTombstone key with
      | some value => rfl
      | none =>
        simp only [Exec.bind_apply, Exec.get_apply, Exec.lift_apply]
        rcases Store.searchTables X s.disk.sstables key s.sstables.reverse with
          (_ | _) | _ | _ | _ <;> rfl

namespace TxnStore

variable {C : Type}

/-! ## Threads between their locks -/

/-- A `register_write` that has passed its check. An identifier can be used for
several transactions, so the number of the `begin` is kept with it. -/
structure Registering where
  txnId : UInt64
  serial : Nat
  key : Key
  value : Option Value

/-- A transaction taken out of the manager by a commit, with its write set. -/
structure Committing where
  txnId : UInt64
  serial : Nat
  writes : List (Key × Option Value)

/-- The transaction the write was checked in is the one that was committed. -/
def Registering.sameTxn (w : Registering) (c : Committing) : Prop :=
  w.txnId = c.txnId ∧ w.serial = c.serial

/-- A store with transactions, the calls between their locks, the writes that have
been acknowledged, the transactions that have been committed, and what the
`commit_txn` that has just returned `Ok` has committed. -/
structure Threads (C : Type) where
  db : TxnStore C
  begun : Nat := 0
  serial : UInt64 → Nat := fun _ => 0
  registering : List Registering := []
  committing : List Committing := []
  acknowledged : List Registering := []
  committed : List Committing := []
  returned : Option Committing := none

inductive LockStep where
  | store (call : StoreCall)
  | begin (isolation : IsolationLevel)
  | check (txnId : UInt64) (key : Key) (value : Option Value)
  | push (i : Nat)
  | commit (txnId : UInt64)
  | log (now : Int64) (i : Nat)
  | rollback (txnId : UInt64)

namespace Threads

/-- What a commit takes out of the manager; of an unknown transaction, nothing. -/
def taken (t : Threads C) (txnId : UInt64) : Committing where
  txnId
  serial := t.serial txnId
  writes := ((t.db.txnManager.get txnId).map Transaction.writeSet).getD []

def step (X : Extern) (t : Threads C) : LockStep → Threads C
  | .store call => { t with db := (onStore (Store.perform X call) t.db).2, returned := none }
  | .begin isolation =>
    { t with
      db := (beginTxn isolation t.db).2
      begun := t.begun + 1
      serial := Function.update t.serial t.db.txnManager.nextTxnId (t.begun + 1)
      returned := none }
  | .check txnId key value =>
    match onTxnManager (TransactionManager.checkWrite txnId) t.db with
    | (.ok (), db) =>
      { t with
        db
        registering := t.registering ++ [{ txnId, serial := t.serial txnId, key, value }]
        returned := none }
    | (_, db) => { t with db, returned := none }
  | .push i =>
    match t.registering[i]? with
    | none => { t with returned := none }
    | some w =>
      { t with
        db := (onTxnManager (TransactionManager.pushWrite w.txnId w.key w.value) t.db).2
        registering := t.registering.eraseIdx i
        acknowledged := t.acknowledged ++ [w]
        returned := none }
  | .commit txnId =>
    { t with
      db := (onTxnManager (TransactionManager.commit txnId) t.db).2
      committing := t.committing ++ [t.taken txnId]
      committed :=
        if (t.db.txnManager.get txnId).isSome then t.committed ++ [t.taken txnId]
        else t.committed
      returned := none }
  | .log now i =>
    match t.committing[i]? with
    | none => { t with returned := none }
    | some c =>
      match onStore (Store.append X (Wal.makeRecord now .commit c.txnId [] none)) t.db with
      | (.ok _, db) =>
        { t with db, committing := t.committing.eraseIdx i, returned := some c }
      | (_, db) => { t with db, committing := t.committing.eraseIdx i, returned := none }
  | .rollback txnId =>
    { t with db := (onTxnManager (TransactionManager.rollback txnId) t.db).2, returned := none }

/-- Every acknowledged write of a committed transaction was in its write set when it
was committed, and every write of the commit that has just returned can be read. -/
structure Delivers [BoundedCache C PageId Page] (X : Extern) (t : Threads C) : Prop where
  kept : ∀ w ∈ t.acknowledged, ∀ c ∈ t.committed, w.sameTxn c → (w.key, w.value) ∈ c.writes
  visible : ∀ c ∈ t.returned, ∀ key value, TransactionManager.lastWrite c.writes key = some value →
    (Store.get X key t.db.store).1 = .ok value

/-- A push finds its transaction not committed, and a commit about to return finds its
writes in the store. -/
def Careful [BoundedCache C PageId Page] (X : Extern) (t : Threads C) : LockStep → Prop
  | .push i => ∀ w ∈ t.registering[i]?, ∀ c ∈ t.committed, ¬ w.sameTxn c
  | .log _ i => ∀ c ∈ t.committing[i]?, ∀ key value,
      TransactionManager.lastWrite c.writes key = some value →
      (Store.get X key t.db.store).1 = .ok value
  | _ => True

/-! ## The invariant -/

/-- The transaction is in the manager. -/
def Active (t : Threads C) (txnId : UInt64) (serial : Nat) (txn : Transaction) : Prop :=
  t.db.txnManager.get txnId = some txn ∧ t.serial txnId = serial

/-- An acknowledged write is in the write set of its transaction as long as this is
active, and in what the commit took out afterwards. -/
structure Accounted (t : Threads C) : Prop where
  active : ∀ w ∈ t.acknowledged, ∀ txn, t.Active w.txnId w.serial txn →
    (w.key, w.value) ∈ txn.writeSet
  kept : ∀ w ∈ t.acknowledged, ∀ c ∈ t.committed, w.sameTxn c → (w.key, w.value) ∈ c.writes
  released : ∀ c ∈ t.committed, ∀ txn, ¬ t.Active c.txnId c.serial txn
  checked : ∀ w ∈ t.registering, w.serial ≤ t.begun
  acknowledged : ∀ w ∈ t.acknowledged, w.serial ≤ t.begun
  committed : ∀ c ∈ t.committed, c.serial ≤ t.begun
  serial : ∀ txnId, t.serial txnId ≤ t.begun

/-- A step that leaves the transactions alone. -/
theorem Accounted.congr {t t' : Threads C} (accounted : Accounted t)
    (manager : t'.db.txnManager = t.db.txnManager) (begun : t'.begun = t.begun)
    (serial : t'.serial = t.serial) (acknowledged : t'.acknowledged = t.acknowledged)
    (committed : t'.committed = t.committed)
    (checked : ∀ w ∈ t'.registering, w.serial ≤ t.begun) : Accounted t' := by
  have active : ∀ {txnId n txn}, t'.Active txnId n txn → t.Active txnId n txn := fun held =>
    ⟨manager ▸ held.1, serial ▸ held.2⟩
  constructor
  · rw [acknowledged]
    exact fun w member txn held => accounted.active w member txn (active held)
  · rw [acknowledged, committed]
    exact accounted.kept
  · rw [committed]
    exact fun c member txn held => accounted.released c member txn (active held)
  · rwa [begun]
  · rw [acknowledged, begun]
    exact accounted.acknowledged
  · rw [committed, begun]
    exact accounted.committed
  · rw [serial, begun]
    exact accounted.serial

theorem Accounted.begin {t : Threads C} (accounted : Accounted t) (X : Extern)
    (isolation : IsolationLevel) : Accounted (t.step X (.begin isolation)) := by
  have after := TransactionManager.get_begin isolation .optimistic t.db.txnManager
  -- the number of the new transaction is not one of an earlier write or commit
  have active : ∀ {txnId n txn}, n ≤ t.begun → (t.step X (.begin isolation)).Active txnId n txn →
      t.Active txnId n txn := by
    intro txnId n txn old held
    by_cases same : t.db.txnManager.nextTxnId = txnId
    · have fresh : t.begun + 1 = n := by
        have := held.2
        simpa [step, same] using this
      omega
    · refine ⟨?_, ?_⟩
      · rw [← held.1]
        exact ((after txnId).trans (if_neg same)).symm
      · rw [← held.2]
        exact (Function.update_of_ne (Ne.symm same) _ _).symm
  refine ⟨fun w member txn held => ?_, accounted.kept, fun c member txn held => ?_,
    fun w member => ?_, fun w member => ?_, fun c member => ?_, fun txnId => ?_⟩
  · exact accounted.active w member txn (active (accounted.acknowledged w member) held)
  · exact accounted.released c member txn (active (accounted.committed c member) held)
  · exact Nat.le_succ_of_le (accounted.checked w member)
  · exact Nat.le_succ_of_le (accounted.acknowledged w member)
  · exact Nat.le_succ_of_le (accounted.committed c member)
  · change Function.update t.serial t.db.txnManager.nextTxnId (t.begun + 1) txnId ≤ t.begun + 1
    rw [Function.update_apply]
    split
    · exact le_rfl
    · exact Nat.le_succ_of_le (accounted.serial txnId)

/-- **Step.** A push into a transaction that was not committed is accounted for. -/
theorem Accounted.push {t : Threads C} (accounted : Accounted t) [BoundedCache C PageId Page]
    {X : Extern} {i : Nat} (careful : Careful X t (.push i)) :
    Accounted (t.step X (.push i)) := by
  rw [step]
  cases found : t.registering[i]? with
  | none => exact accounted.congr rfl rfl rfl rfl rfl accounted.checked
  | some w =>
    have registered : w ∈ t.registering := List.mem_of_getElem? found
    have after := TransactionManager.get_pushWrite w.txnId w.key w.value t.db.txnManager
    have uncommitted := careful w found
    refine ⟨fun a member txn held => ?_, fun a member c committed same => ?_,
      fun c member txn held => ?_, fun a member => ?_, fun a member => ?_, accounted.committed,
      accounted.serial⟩
    · obtain ⟨active, serial⟩ := held
      replace active := (after a.txnId).symm.trans active
      split at active
      · rename_i same
        obtain ⟨old, wasActive, rfl⟩ := Option.map_eq_some_iff.mp active
        rcases List.mem_append.mp member with earlier | new
        · exact List.mem_append_left _ (accounted.active a earlier old ⟨wasActive, serial⟩)
        · rw [List.mem_singleton.mp new]
          exact List.mem_append_right _ (List.mem_singleton.mpr rfl)
      · rename_i other
        rcases List.mem_append.mp member with earlier | new
        · exact accounted.active a earlier txn ⟨active, serial⟩
        · exact absurd (congrArg Registering.txnId (List.mem_singleton.mp new)).symm other
    · rcases List.mem_append.mp member with earlier | new
      · exact accounted.kept a earlier c committed same
      · rw [List.mem_singleton.mp new] at same
        exact absurd same (uncommitted c committed)
    · obtain ⟨active, serial⟩ := held
      replace active := (after c.txnId).symm.trans active
      split at active
      · obtain ⟨old, wasActive, -⟩ := Option.map_eq_some_iff.mp active
        exact accounted.released c member old ⟨wasActive, serial⟩
      · exact accounted.released c member txn ⟨active, serial⟩
    · exact accounted.checked a (List.mem_of_mem_eraseIdx member)
    · rcases List.mem_append.mp member with earlier | new
      · exact accounted.acknowledged a earlier
      · rw [List.mem_singleton.mp new]
        exact accounted.checked w registered

/-- A step after which one transaction is gone. -/
theorem Active.of_ended (t t' : Threads C) {txnId : UInt64} (serial : t'.serial = t.serial)
    (after : ∀ id, t'.db.txnManager.get id =
      if txnId = id then none else t.db.txnManager.get id) {id : UInt64} {n : Nat}
    {txn : Transaction} (held : t'.Active id n txn) : id ≠ txnId ∧ t.Active id n txn := by
  obtain ⟨active, number⟩ := held
  rw [after] at active
  split at active
  · cases active
  · rename_i other
    exact ⟨Ne.symm other, active, serial ▸ number⟩

/-- **Step.** What a commit takes out holds every acknowledged write. -/
theorem Accounted.commit {t : Threads C} (accounted : Accounted t) (X : Extern) (txnId : UInt64) :
    Accounted (t.step X (.commit txnId)) := by
  have ended : ∀ {id n txn}, (t.step X (.commit txnId)).Active id n txn →
      id ≠ txnId ∧ t.Active id n txn := fun held =>
    Active.of_ended t (t.step X (.commit txnId)) rfl
      (TransactionManager.get_commit txnId t.db.txnManager) held
  have members : ∀ c ∈ (t.step X (.commit txnId)).committed, c ∈ t.committed ∨
      ∃ txn, t.db.txnManager.get txnId = some txn ∧
        c = { txnId, serial := t.serial txnId, writes := txn.writeSet } := by
    intro c member
    simp only [step] at member
    split at member
    · rename_i isActive
      obtain ⟨txn, active⟩ := Option.isSome_iff_exists.mp isActive
      rcases List.mem_append.mp member with earlier | new
      · exact .inl earlier
      · refine .inr ⟨txn, active, ?_⟩
        rw [List.mem_singleton.mp new, taken, active]
        rfl
    · exact .inl member
  refine ⟨fun w member txn held => accounted.active w member txn (ended held).2,
    fun w member c committed same => ?_, fun c member txn held => ?_, accounted.checked,
    accounted.acknowledged, fun c member => ?_, accounted.serial⟩
  · rcases members c committed with earlier | ⟨txn, active, rfl⟩
    · exact accounted.kept w member c earlier same
    · obtain ⟨id, serial⟩ := same
      exact accounted.active w member txn ⟨id ▸ active, by rw [serial, id]⟩
  · obtain ⟨other, active⟩ := ended held
    rcases members c member with earlier | ⟨own, -, rfl⟩
    · exact accounted.released c earlier txn active
    · exact other rfl
  · rcases members c member with earlier | ⟨own, -, rfl⟩
    · exact accounted.committed c earlier
    · exact accounted.serial txnId

/-- **Step.** Every careful step keeps the acknowledged writes accounted for. -/
theorem Accounted.step {t : Threads C} (accounted : Accounted t) [BoundedCache C PageId Page]
    {X : Extern} {move : LockStep} (careful : Careful X t move) : Accounted (t.step X move) := by
  cases move with
  | store call => exact accounted.congr rfl rfl rfl rfl rfl accounted.checked
  | begin isolation => exact accounted.begin X isolation
  | check txnId key value =>
    have same := TransactionManager.checkWrite_snd txnId t.db.txnManager
    rw [Threads.step, onTxnManager]
    rcases checked : TransactionManager.checkWrite txnId t.db.txnManager with
      ⟨_ | _ | _ | _, tm⟩ <;> rw [checked] at same
    · refine accounted.congr same rfl rfl rfl rfl fun w member => ?_
      rcases List.mem_append.mp member with earlier | new
      · exact accounted.checked w earlier
      · rw [List.mem_singleton.mp new]
        exact accounted.serial txnId
    all_goals exact accounted.congr same rfl rfl rfl rfl accounted.checked
  | push i => exact accounted.push careful
  | commit txnId => exact accounted.commit X txnId
  | log now i =>
    rw [Threads.step]
    cases t.committing[i]? with
    | none => exact accounted.congr rfl rfl rfl rfl rfl accounted.checked
    | some c =>
      simp only [onStore]
      rcases Store.append X (Wal.makeRecord now .commit c.txnId [] none) t.db.store with
        ⟨_ | _ | _ | _, _⟩
      all_goals exact accounted.congr rfl rfl rfl rfl rfl accounted.checked
  | rollback txnId =>
    have ended : ∀ {id n txn}, (t.step X (.rollback txnId)).Active id n txn → t.Active id n txn :=
      fun held => (Active.of_ended t (t.step X (.rollback txnId)) rfl
        (TransactionManager.get_rollback txnId t.db.txnManager) held).2
    exact ⟨fun w member txn held => accounted.active w member txn (ended held), accounted.kept,
      fun c member txn held => accounted.released c member txn (ended held), accounted.checked,
      accounted.acknowledged, accounted.committed, accounted.serial⟩

theorem accounted_start (db : TxnStore C) : Accounted { db } :=
  ⟨nofun, nofun, nofun, nofun, nofun, nofun, fun _ => Nat.le_refl 0⟩

/-! ## Delivery -/

variable [BoundedCache C PageId Page]

/-- **Step.** A commit that returns finds its writes in the store, and leaves them there. -/
theorem visible_step {X : Extern} {t : Threads C} {move : LockStep} (careful : Careful X t move) :
    ∀ c ∈ (t.step X move).returned, ∀ key value,
      TransactionManager.lastWrite c.writes key = some value →
      (Store.get X key (t.step X move).db.store).1 = .ok value := by
  intro c returned key value last
  cases move with
  | store call | begin isolation => cases returned
  | check txnId key value =>
    rw [step, onTxnManager] at returned
    rcases checked : TransactionManager.checkWrite txnId t.db.txnManager with
      ⟨_ | _ | _ | _, tm⟩ <;> rw [checked] at returned <;> cases returned
  | push i =>
    rw [step] at returned
    cases found : t.registering[i]? with
    | none | some w => rw [found] at returned; cases returned
  | commit txnId => cases returned
  | log now i =>
    rw [step] at returned ⊢
    cases found : t.committing[i]? with
    | none => rw [found] at returned; cases returned
    | some own =>
      rw [found] at returned
      have unchanged := Store.get_append X (Wal.makeRecord now .commit own.txnId [] none) t.db.store key
      simp only [onStore] at returned ⊢
      rcases appended : Store.append X (Wal.makeRecord now .commit own.txnId [] none) t.db.store with
        ⟨_ | _ | _ | _, store⟩ <;> rw [appended] at returned unchanged
      · cases returned
        exact unchanged.trans (careful _ found key value last)
      all_goals cases returned
  | rollback txnId => cases returned

/-- **Acknowledged writes are delivered** in every run whose pushes find their
transaction uncommitted and whose commits find their writes in the store. -/
theorem delivers_run (X : Extern) (config : StorageConfig) {moves : List LockStep}
    (careful : Run.Each (step X) (Careful X)
      ({ db := { store := Store.start config } } : Threads C) moves) :
    ∀ t ∈ Run.states (step X) ({ db := { store := Store.start config } } : Threads C) moves,
      Delivers X t := by
  have start : Accounted ({ db := { store := Store.start config } } : Threads C) ∧
      Delivers X ({ db := { store := Store.start config } } : Threads C) :=
    ⟨accounted_start _, nofun, nofun⟩
  refine fun t member => (careful.invariant (I := fun t => Accounted t ∧ Delivers X t)
    (fun t move held careful => ?_) start t member).2
  have accounted : Accounted (t.step X move) := held.1.step careful
  exact ⟨accounted, accounted.kept, visible_step careful⟩

/-- Two transactions: one registers a write twice over, is overtaken by the store and
commits; the other is rolled back between the locks of its write. -/
theorem delivers_run_interleaved :
    Run.Always (step Extern.literal) (Delivers Extern.literal)
      ({ db := { store := Store.start {} } } : Threads (RecencyCache PageId Page))
      [.begin .snapshot, .begin .readCommitted, .check 1 [1] none, .check 2 [2] (some [20]),
        .check 1 [1] (some [10]), .rollback 2, .push 0, .push 1, .push 0,
        .store (.write (.set 0 [1] [10])), .commit 1, .log 0 0] := by
  refine delivers_run Extern.literal {} ⟨trivial, trivial, trivial, trivial, trivial, trivial,
    nofun, nofun, nofun, trivial, trivial, ?_, trivial⟩
  intro c isCommitting key value last
  have writes : c.writes = [([1], none), ([1], some [10])] := by
    cases isCommitting
    rfl
  rw [writes] at last
  by_cases here : key = [1]
  · subst here
    cases last
    decide +kernel
  · simp [TransactionManager.lastWrite, lookup_cons_ite, here] at last

/-- A push that finds its transaction committed is acknowledged and lost, and a commit
returns without a write of its write set having reached the store. -/
theorem not_delivers_run :
    (¬ ∀ t ∈ Run.states (step Extern.literal)
        ({ db := { store := Store.start {} } } : Threads (RecencyCache PageId Page))
        [.begin .snapshot, .check 1 [1] (some [10]), .commit 1, .push 0],
      Delivers Extern.literal t) ∧
    ¬ ∀ t ∈ Run.states (step Extern.literal)
        ({ db := { store := Store.start {} } } : Threads (RecencyCache PageId Page))
        [.begin .snapshot, .check 1 [1] (some [10]), .push 0, .commit 1, .log 0 0],
      Delivers Extern.literal t := by
  constructor
  · intro delivers
    have last := (delivers _ (Run.foldl_mem_states _ _)).kept
      { txnId := 1, serial := 1, key := [1], value := some [10] } (List.mem_singleton.mpr rfl)
      { txnId := 1, serial := 1, writes := [] } (List.mem_singleton.mpr rfl) ⟨rfl, rfl⟩
    cases last
  · intro delivers
    have last := (delivers _ (Run.foldl_mem_states _ _)).visible
      { txnId := 1, serial := 1, writes := [([1], some [10])] } rfl [1] (some [10]) rfl
    revert last
    decide +kernel

end Threads

end TxnStore

end NovaRuntime.Storage
