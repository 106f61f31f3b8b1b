/-
# NovaRuntime.Storage.Txn — `TransactionManager` of `txn.rs`

The manager keeps every active transaction with its write set, an append-only
list of `(key, value or deletion)`. `snapshotRead` answers from the write set of
the transaction and asks the store for a key the transaction has not written.

What a transaction has written is read off the events of a run (`writesOf`), not
off the manager: `Tracks` ties the two together at every reachable state. The
write set is searched from its front, so the read answers with the **first**
write of the key (`snapshotRead_eq`), and it is the transaction's latest write
exactly when the first and the last write of the key agree.
-/
import NovaRuntime.Storage.Types

namespace NovaRuntime.Storage

open NovaRuntime.Library

set_option autoImplicit false

inductive TxnStatus where
  | active
  | committing
  | committed
  | aborted
  deriving DecidableEq

inductive LockMode where
  | conservative
  | optimistic
  deriving DecidableEq

structure Snapshot where
  transactionId : UInt64
  sequence : UInt64
  deriving DecidableEq

structure Transaction where
  id : UInt64
  snapshot : Snapshot
  status : TxnStatus
  isolation : IsolationLevel
  lockMode : LockMode
  writeSet : List (Key × Option Value)
  deriving DecidableEq

structure TransactionManager where
  nextTxnId : UInt64 := 1
  activeTxns : Std.TreeMap UInt64 Transaction := ∅

namespace TransactionManager

def new : TransactionManager := {}

/-- Start a transaction. The identifier counter is an atomic `u64`: it wraps. -/
def begin (isolation : IsolationLevel) (lockMode : LockMode) :
    Method TransactionManager Transaction := do
  let tm ← Exec.get
  let id := tm.nextTxnId
  let txn : Transaction :=
    { id, snapshot := ⟨id, 0⟩, status := .active, isolation, lockMode, writeSet := [] }
  Exec.modify fun tm =>
    { nextTxnId := tm.nextTxnId + 1, activeTxns := tm.activeTxns.insert id txn }
  pure txn

def commit (txnId : UInt64) : Method TransactionManager Unit := do
  Exec.modify fun tm =>
    { tm with activeTxns := tm.activeTxns.modify txnId fun txn => { txn with status := .committed } }
  Exec.modify fun tm => { tm with activeTxns := tm.activeTxns.erase txnId }

def rollback (txnId : UInt64) : Method TransactionManager Unit :=
  Exec.modify fun tm => { tm with activeTxns := tm.activeTxns.erase txnId }

def get (tm : TransactionManager) (txnId : UInt64) : Option Transaction := tm.activeTxns[txnId]?

def notFound (txnId : UInt64) : RuntimeError :=
  .transactionError s!"transaction {txnId} not found"

def registerWrite (txnId : UInt64) (key : Key) (value : Option Value) :
    Method TransactionManager Unit := do
  let tm ← Exec.get
  match tm.activeTxns[txnId]? with
  | none => Exec.lift (.err (notFound txnId))
  | some txn =>
    if txn.status ≠ .active then
      Exec.lift (.err (.transactionError "cannot write to inactive transaction"))
    else
      Exec.modify fun tm =>
        { tm with
          activeTxns := tm.activeTxns.modify txnId fun txn =>
            { txn with writeSet := txn.writeSet ++ [(key, value)] } }

/-- The loop over the write set returns at the first entry for the key. -/
def snapshotRead (tm : TransactionManager) (txnId : UInt64) (key : Key)
    (storeRead : Key → Result (Option Value)) : Result (Option Value) :=
  match tm.activeTxns[txnId]? with
  | none => .err (notFound txnId)
  | some txn =>
    match txn.writeSet.find? fun write => write.1 == key with
    | some (_, value) => .ok value
    | none =>
      match txn.isolation with
      | .readCommitted => storeRead key
      | .repeatableRead | .snapshot | .serializable => storeRead key

/-! ## What each method does -/

theorem get_begin (isolation : IsolationLevel) (lockMode : LockMode) (tm : TransactionManager)
    (id : UInt64) :
    (begin isolation lockMode tm).2.get id =
      if tm.nextTxnId = id then
        some { id := tm.nextTxnId, snapshot := ⟨tm.nextTxnId, 0⟩, status := .active, isolation,
               lockMode, writeSet := [] }
      else tm.get id := by
  change (tm.activeTxns.insert _ _)[id]? = _
  simp only [Std.TreeMap.getElem?_insert, Std.LawfulEqCmp.compare_eq_iff_eq, get]

theorem get_commit (txnId : UInt64) (tm : TransactionManager) (id : UInt64) :
    (commit txnId tm).2.get id = if txnId = id then none else tm.get id := by
  change ((tm.activeTxns.modify txnId _).erase txnId)[id]? = _
  simp only [get, Std.TreeMap.getElem?_erase, Std.TreeMap.getElem?_modify,
    Std.LawfulEqCmp.compare_eq_iff_eq]
  split <;> rfl

theorem get_rollback (txnId : UInt64) (tm : TransactionManager) (id : UInt64) :
    (rollback txnId tm).2.get id = if txnId = id then none else tm.get id := by
  change (tm.activeTxns.erase txnId)[id]? = _
  simp only [get, Std.TreeMap.getElem?_erase, Std.LawfulEqCmp.compare_eq_iff_eq]

/-- A write is refused and changes nothing, or it is appended to the write set of an
active transaction. -/
theorem registerWrite_cases (txnId : UInt64) (key : Key) (value : Option Value)
    (tm : TransactionManager) :
    ((registerWrite txnId key value tm).1 ≠ .ok () ∧ (registerWrite txnId key value tm).2 = tm) ∨
    ∃ txn, tm.get txnId = some txn ∧ txn.status = .active ∧
      (registerWrite txnId key value tm).1 = .ok () ∧
      ∀ id, (registerWrite txnId key value tm).2.get id =
        if txnId = id then some { txn with writeSet := txn.writeSet ++ [(key, value)] }
        else tm.get id := by
  cases found : tm.activeTxns[txnId]? with
  | none => simp [registerWrite, found]
  | some txn =>
    by_cases active : txn.status = .active
    · refine .inr ⟨txn, found, active, by simp [registerWrite, found, active], fun id => ?_⟩
      simp only [registerWrite, Exec.get_bind, found, active, ne_eq, not_true_eq_false, if_false,
        Exec.modify_apply, get, Std.TreeMap.getElem?_modify, Std.LawfulEqCmp.compare_eq_iff_eq]
      split
      · simp [active]
      · rfl
    · simp [registerWrite, found, active]

/-! ## Runs -/

inductive Call where
  | begin (isolation : IsolationLevel) (lockMode : LockMode)
  | registerWrite (txnId : UInt64) (key : Key) (value : Option Value)
  | commit (txnId : UInt64)
  | rollback (txnId : UInt64)

/-- What a caller learns from a call that succeeded. -/
inductive Event where
  | began (txnId : UInt64)
  | wrote (txnId : UInt64) (key : Key) (value : Option Value)
  | ended (txnId : UInt64)

def Call.perform : Call → Method TransactionManager Event
  | .begin isolation lockMode => do
      let txn ← TransactionManager.begin isolation lockMode
      pure (.began txn.id)
  | .registerWrite txnId key value => do
      TransactionManager.registerWrite txnId key value
      pure (.wrote txnId key value)
  | .commit txnId => do
      TransactionManager.commit txnId
      pure (.ended txnId)
  | .rollback txnId => do
      TransactionManager.rollback txnId
      pure (.ended txnId)

/-- A manager and the events since it was created, oldest first. -/
structure Traced where
  manager : TransactionManager := new
  events : List Event := []

/-- A call that fails leaves no event. -/
def Traced.step (s : Traced) (call : Call) : Traced :=
  match call.perform s.manager with
  | (.ok event, manager) => { manager, events := s.events ++ [event] }
  | (_, manager) => { s with manager }

def Traced.run (calls : List Call) : Traced := calls.foldl Traced.step {}

/-! ## What a transaction has written -/

/-- The writes of one transaction after an event: `none` while it is not active. -/
def Event.track (txnId : UInt64) (writes : Option (List (Key × Option Value))) :
    Event → Option (List (Key × Option Value))
  | .began id => if id = txnId then some [] else writes
  | .wrote id key value => if id = txnId then writes.map (· ++ [(key, value)]) else writes
  | .ended id => if id = txnId then none else writes

/-- The writes of a transaction that is still active, oldest first. -/
def writesOf (txnId : UInt64) (events : List Event) : Option (List (Key × Option Value)) :=
  events.foldl (Event.track txnId) none

def firstWrite (writes : List (Key × Option Value)) (key : Key) : Option (Option Value) :=
  writes.lookup key

def lastWrite (writes : List (Key × Option Value)) (key : Key) : Option (Option Value) :=
  writes.reverse.lookup key

/-- The manager keeps for every transaction exactly what its events say, and
nothing but active transactions. -/
structure Tracks (s : Traced) : Prop where
  writes : ∀ txnId, (s.manager.get txnId).map Transaction.writeSet = writesOf txnId s.events
  active : ∀ txnId txn, s.manager.get txnId = some txn → txn.status = .active

theorem writesOf_snoc (txnId : UInt64) (events : List Event) (event : Event) :
    writesOf txnId (events ++ [event]) = event.track txnId (writesOf txnId events) := by
  simp [writesOf]

theorem tracks_new : Tracks {} := ⟨fun _ => by simp [get, new, writesOf], by simp [get, new]⟩

/-- One event follows one change to the transaction it names. -/
theorem Tracks.snoc {s : Traced} (tracked : Tracks s) {manager : TransactionManager} {event : Event}
    (writes : ∀ id, (manager.get id).map Transaction.writeSet =
      event.track id ((s.manager.get id).map Transaction.writeSet))
    (active : ∀ id txn, manager.get id = some txn → txn.status = .active) :
    Tracks { manager, events := s.events ++ [event] } where
  writes id := by rw [writesOf_snoc, ← tracked.writes id]; exact writes id
  active := active

theorem Tracks.began {s : Traced} (tracked : Tracks s) (isolation : IsolationLevel)
    (lockMode : LockMode) : Tracks (s.step (.begin isolation lockMode)) := by
  have after := get_begin isolation lockMode s.manager
  refine tracked.snoc (fun id => ?_) (fun id txn found => ?_)
  · refine (congrArg (Option.map Transaction.writeSet) (after id)).trans ?_
    rw [Event.track]
    split <;> rfl
  · replace found := (after id).symm.trans found
    split at found
    · cases found; rfl
    · exact tracked.active id txn found

/-- A call that takes a transaction out of the manager. -/
theorem Tracks.ended {s : Traced} (tracked : Tracks s) {txnId : UInt64}
    {manager : TransactionManager}
    (after : ∀ id, manager.get id = if txnId = id then none else s.manager.get id) :
    Tracks { manager, events := s.events ++ [.ended txnId] } := by
  refine tracked.snoc (fun id => ?_) (fun id txn found => ?_)
  · rw [after, Event.track]
    split <;> rfl
  · rw [after] at found
    split at found
    · cases found
    · exact tracked.active id txn found

theorem Tracks.wrote {s : Traced} (tracked : Tracks s) (txnId : UInt64) (key : Key)
    (value : Option Value) : Tracks (s.step (.registerWrite txnId key value)) := by
  simp only [Traced.step, Call.perform, Exec.bind_apply]
  rcases registerWrite_cases txnId key value s.manager with ⟨refused, same⟩ | ⟨txn, found, live, done, after⟩
  · rcases called : registerWrite txnId key value s.manager with ⟨_ | _ | _ | _, manager⟩ <;>
      rw [called] at refused same
    · exact absurd rfl refused
    all_goals
      subst same
      exact tracked
  · rcases called : registerWrite txnId key value s.manager with ⟨outcome, manager⟩
    rw [called] at done after
    cases done
    refine tracked.snoc (fun id => ?_) (fun id other member => ?_)
    · rw [after, Event.track]
      split
      · rename_i same
        rw [← same, found]
        rfl
      · rfl
    · rw [after] at member
      split at member
      · cases member
        exact live
      · exact tracked.active id other member

/-- **Step.** Every call keeps the manager and the events together. -/
theorem Tracks.step {s : Traced} (tracked : Tracks s) (call : Call) : Tracks (s.step call) := by
  cases call with
  | begin isolation lockMode => exact tracked.began isolation lockMode
  | registerWrite txnId key value => exact tracked.wrote txnId key value
  | commit txnId => exact tracked.ended (get_commit txnId s.manager)
  | rollback txnId => exact tracked.ended (get_rollback txnId s.manager)

/-- **Run.** They are together in every state a run reaches. -/
theorem tracks_run (calls : List Call) : Tracks (Traced.run calls) := by
  unfold Traced.run
  generalize startAt : ({} : Traced) = start
  have tracked : Tracks start := startAt ▸ tracks_new
  clear startAt
  induction calls generalizing start with
  | nil => exact tracked
  | cons call calls ih => exact ih _ (tracked.step call)

/-! ## Reads -/

/-- The read answers with the first write of the key, and asks the store for a
key that was not written. -/
theorem snapshotRead_of_found {tm : TransactionManager} {txnId : UInt64} {txn : Transaction}
    (found : tm.get txnId = some txn) (key : Key) (storeRead : Key → Result (Option Value)) :
    tm.snapshotRead txnId key storeRead =
      match firstWrite txn.writeSet key with
      | some value => .ok value
      | none => storeRead key := by
  have search : ∀ ws : List (Key × Option Value),
      (ws.find? fun write => write.1 == key).map Prod.snd = ws.lookup key := by
    intro ws
    induction ws with
    | nil => rfl
    | cons w ws ih =>
      rw [List.find?_cons, List.lookup_cons, BEq.comm (a := w.1)]
      cases key == w.1 <;> simp [ih]
  rw [get] at found
  simp only [snapshotRead, found, firstWrite, ← search]
  cases txn.writeSet.find? fun write => write.1 == key with
  | none => cases txn.isolation <;> rfl
  | some write => rfl

theorem snapshotRead_eq {s : Traced} (tracked : Tracks s) {txnId : UInt64}
    {writes : List (Key × Option Value)} (active : writesOf txnId s.events = some writes) (key : Key)
    (storeRead : Key → Result (Option Value)) :
    s.manager.snapshotRead txnId key storeRead =
      match firstWrite writes key with
      | some value => .ok value
      | none => storeRead key := by
  rw [← tracked.writes, Option.map_eq_some_iff] at active
  obtain ⟨txn, found, rfl⟩ := active
  exact snapshotRead_of_found found key storeRead

/-- Reading `key` in an active transaction gives the last value or deletion the
transaction registered for it, and asks the store exactly when there is none. -/
def ReadsOwnLatestWrite (s : Traced) (txnId : UInt64) (key : Key) : Prop :=
  ∀ writes, writesOf txnId s.events = some writes →
    ∀ storeRead, s.manager.snapshotRead txnId key storeRead =
      match lastWrite writes key with
      | some value => .ok value
      | none => storeRead key

/-- The first and the last write of `key` in the transaction agree. -/
def FirstWriteIsLast (s : Traced) (txnId : UInt64) (key : Key) : Prop :=
  ∀ writes, writesOf txnId s.events = some writes → firstWrite writes key = lastWrite writes key

theorem lastWrite_eq_none_iff {writes : List (Key × Option Value)} {key : Key} :
    lastWrite writes key = none ↔ firstWrite writes key = none := by
  simp [lastWrite, firstWrite, List.lookup_eq_none_iff]

/-- **The read is the latest write exactly when the first write is.** -/
theorem snapshotRead_latest_iff (calls : List Call) (txnId : UInt64) (key : Key) :
    ReadsOwnLatestWrite (Traced.run calls) txnId key ↔
      FirstWriteIsLast (Traced.run calls) txnId key := by
  refine forall_congr' fun writes => forall_congr' fun active => ?_
  simp only [snapshotRead_eq (tracks_run calls) active key]
  constructor
  · intro same
    cases first : firstWrite writes key with
    | none => exact (lastWrite_eq_none_iff.mpr first).symm
    | some value =>
      cases last : lastWrite writes key with
      | none => simp [lastWrite_eq_none_iff.mp last] at first
      | some value' =>
        have agree := same fun _ => .panic
        simp only [first, last, Outcome.ok.injEq] at agree
        rw [agree]
  · intro same storeRead
    rw [same]

/-- A transaction that sets a key and then deletes it still reads the value. -/
theorem snapshotRead_stale :
    ¬ ReadsOwnLatestWrite
      (Traced.run [.begin .readCommitted .optimistic, .registerWrite 1 [107] (some [118]),
        .registerWrite 1 [107] none]) 1 [107] := by
  intro latest
  have := latest [([107], some [118]), ([107], none)] rfl fun _ => .panic
  revert this
  decide

end TransactionManager

end NovaRuntime.Storage
