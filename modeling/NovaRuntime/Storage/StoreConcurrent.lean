/-
# NovaRuntime.Storage.StoreConcurrent — writers that interleave

`set` and `delete` take two locks, one after the other: the log is appended to under
the first, the memtable updated under the second. Between the two another writer can
pass. `Writers` is a store with the calls that stand between their locks, in the
order they were logged.

When no call stands there, replaying the log gives the live memtable, provided every
update was made in log order with respect to its own key (`replayAgrees_run`). Two
writers of one key that pass each other leave a log that says one thing and a
memtable that says the other (`not_replayAgrees`).
-/
import NovaRuntime.Storage.StoreRecovery

namespace NovaRuntime.Storage

open NovaRuntime.Library

set_option autoImplicit false

namespace Store

variable {C : Type}

/-- A store and the writes that are logged but not applied yet, oldest first. -/
structure Writers (C : Type) where
  store : Store C
  pending : List WriteOperation := []

/-- A step of some thread: a write is logged, or the update of a pending one is made. -/
inductive WriterStep where
  | log (op : WriteOperation)
  | update (i : Nat)

namespace Writers

variable {X : Extern} {t : Writers C}

/-- A write that is refused is over; an update that hangs leaves its thread where it is. -/
def step (X : Extern) (t : Writers C) : WriterStep → Writers C
  | .log op =>
    match append X op.record t.store with
    | (.ok _, store) => { store, pending := t.pending ++ [op] }
    | (_, store) => { t with store }
  | .update i =>
    match t.pending[i]? with
    | none => t
    | some op =>
      match writeMemtable X op t.store with
      | (.hang, store) => { t with store }
      | (_, store) => { store, pending := t.pending.eraseIdx i }

/-- Once no write is pending, the log is replayed to what the memtable says. -/
def ReplayAgrees (X : Extern) (t : Writers C) : Prop :=
  t.pending = [] → ∀ policy, ∃ mt dir,
    recover X (WalWriter.openDir t.store.disk.wal policy).writer.currentLsn 0
      (WalWriter.openDir t.store.disk.wal policy).dir = (.ok mt, dir) ∧
    ∀ key, mt.get key = t.store.memtable.get key

/-- An update is made when no write of the same key that was logged before is still
pending; a write that is logged has a length that does not wrap around. -/
def InOrder (X : Extern) (t : Writers C) : WriterStep → Prop
  | .log op => ¬ Garbles X op t.store
  | .update i => ∀ op ∈ t.pending[i]?, ∀ earlier ∈ t.pending.take i,
      earlier.record.key ≠ op.record.key

theorem inOrder {i : Nat}
    (first : ∀ op ∈ t.pending[i]?, ∀ earlier ∈ t.pending.take i, earlier.record.key ≠ op.record.key) :
    InOrder X t (.update i) := first

/-! ## Replay of the pending writes -/

/-- The memtable after writes in order. -/
def applyWrites (ops : List WriteOperation) (mt : MemTable) : MemTable :=
  applyAll (ops.map WriteOperation.record) mt

theorem applyWrites_append (front back : List WriteOperation) (mt : MemTable) :
    applyWrites (front ++ back) mt = applyWrites back (applyWrites front mt) := by
  rw [applyWrites, List.map_append, applyAll_append]
  rfl

/-- What writes leave under a key depends only on what was there under it. -/
theorem applyWrites_congr (ops : List WriteOperation) {mt mt' : MemTable} {key : Key}
    (same : mt.getWithTombstone key = mt'.getWithTombstone key) :
    (applyWrites ops mt).getWithTombstone key = (applyWrites ops mt').getWithTombstone key := by
  induction ops generalizing mt mt' with
  | nil => exact same
  | cons op ops ih =>
    refine ih ?_
    rw [getWithTombstone_applyTo, getWithTombstone_applyTo, same]

theorem applyWrites_of_not_mem {ops : List WriteOperation} {key : Key}
    (absent : ∀ op ∈ ops, op.record.key ≠ key) (mt : MemTable) :
    (applyWrites ops mt).getWithTombstone key = mt.getWithTombstone key := by
  induction ops generalizing mt with
  | nil => rfl
  | cons op ops ih =>
    obtain ⟨here, later⟩ := List.forall_mem_cons.mp absent
    refine (ih later (op.record.applyTo mt)).trans ?_
    rw [getWithTombstone_applyTo, if_neg here.symm]

/-- A write can be made before writes of other keys. -/
theorem applyWrites_comm {front : List WriteOperation} {op : WriteOperation}
    (other : ∀ earlier ∈ front, earlier.record.key ≠ op.record.key) (mt : MemTable) (key : Key) :
    (op.record.applyTo (applyWrites front mt)).getWithTombstone key =
      (applyWrites front (op.record.applyTo mt)).getWithTombstone key := by
  by_cases here : key = op.record.key
  · subst here
    rw [applyWrites_of_not_mem other, getWithTombstone_applyTo, getWithTombstone_applyTo, if_pos rfl,
      if_pos rfl]
  · rw [getWithTombstone_applyTo, if_neg here]
    exact applyWrites_congr front (by rw [getWithTombstone_applyTo, if_neg here])

/-! ## The invariant -/

/-- Either the memtable's lock will never be free again, with a write still pending,
or the log replays to the memtable with the pending writes applied. -/
def Replays (X : Extern) (t : Writers C) : Prop :=
  ∃ mt, Logs X t.store mt ∧
    ((t.store.memtableLocked = true ∧ t.pending ≠ []) ∨
      (t.store.memtableLocked = false ∧ ∀ key, mt.getWithTombstone key =
        (applyWrites t.pending t.store.memtable).getWithTombstone key))

/-- Everything the update of a write can do to a store whose lock is free. -/
theorem writeMemtable_cases (X : Extern) {s : Store C} (unlocked : s.memtableLocked = false)
    (op : WriteOperation) :
    writeMemtable X op s = (.ok (), { s with memtable := op.record.applyTo s.memtable }) ∨
    ∃ s', writeMemtable X op s = (.hang, s') ∧ s'.memtableLocked = true ∧ logPart s' = logPart s := by
  cases op with
  | set now key value =>
    by_cases full : s.config.memtableSize ≤ (s.memtable.insert key value).size
    · exact .inr ⟨_, setMemtable_fills X unlocked full, rfl, rfl⟩
    · refine .inl (writeMemtable_eq X unlocked fun now' key' value' same => ?_)
      cases same
      exact not_le.mp full
  | delete now key => exact .inl (writeMemtable_eq X unlocked fun _ _ _ same => by cases same)

theorem writeMemtable_locked (X : Extern) {s : Store C} (locked : s.memtableLocked = true)
    (op : WriteOperation) : writeMemtable X op s = (.hang, s) := by
  cases op with
  | set now key value => simp only [writeMemtable, setMemtable, withMemtable, locked, if_true]
  | delete now key =>
    simp only [writeMemtable, deleteMemtable, withMemtable, Exec.bind_apply, locked, if_true]

/-- **Step.** Logging a write adds it at the end of both. -/
theorem Replays.log (replays : Replays X t) {op : WriteOperation}
    (fits : ¬ Garbles X op t.store) : Replays X (t.step X (.log op)) := by
  obtain ⟨mt, logs, state⟩ := replays
  have same : SameData t.store (append X op.record t.store).2 := sameData_onWal _ t.store
  have appended := logs.append fun logged wraps => fits ⟨logged, wraps⟩
  rw [step]
  rcases outcome : append X op.record t.store with ⟨lsn | _ | _ | _, store⟩ <;>
    rw [outcome] at same appended
  · rcases appended with ⟨-, grown⟩ | ⟨notLogged, -⟩
    · refine ⟨_, grown, ?_⟩
      rcases state with ⟨locked, waiting⟩ | ⟨unlocked, agree⟩
      · exact .inl ⟨same.locked.trans locked, by simp⟩
      · refine .inr ⟨same.locked.trans unlocked, fun key => ?_⟩
        rw [applyWrites_append, same.memtable]
        change _ = (op.record.applyTo _).getWithTombstone key
        rw [getWithTombstone_applyTo, getWithTombstone_applyTo, agree]
    · exact absurd rfl (notLogged lsn)
  all_goals
    rcases appended with ⟨⟨lsn, logged⟩, -⟩ | ⟨-, kept⟩
    · cases logged
    · refine ⟨mt, kept, ?_⟩
      rw [same.locked, same.memtable]
      exact state

/-- **Step.** Updating in log order leaves the replay of the log where it was. -/
theorem Replays.update (replays : Replays X t) {i : Nat}
    (inOrder : InOrder X t (.update i)) : Replays X (t.step X (.update i)) := by
  obtain ⟨mt, logs, state⟩ := replays
  rw [step]
  cases found : t.pending[i]? with
  | none => exact ⟨mt, logs, state⟩
  | some op =>
    have waiting : t.pending ≠ [] := by
      rintro empty
      simp [empty] at found
    rcases state with ⟨locked, -⟩ | ⟨unlocked, agree⟩
    · simp only [writeMemtable_locked X locked op]
      exact ⟨mt, logs, .inl ⟨locked, waiting⟩⟩
    · rcases writeMemtable_cases X unlocked op with done | ⟨s', hung, locked, sameLog⟩
      · simp only [done]
        refine ⟨mt, logs.congr rfl, .inr ⟨unlocked, fun key => ?_⟩⟩
        obtain ⟨inside, isOp⟩ := List.getElem?_eq_some_iff.mp found
        -- the writes before this one are of other keys, so it can be made first
        have whole : t.pending = t.pending.take i ++ op :: t.pending.drop (i + 1) := by
          rw [← isOp, ← List.drop_eq_getElem_cons inside, List.take_append_drop]
        rw [agree, List.eraseIdx_eq_take_drop_succ, applyWrites_append]
        conv_lhs => rw [whole, applyWrites_append]
        exact applyWrites_congr _ (applyWrites_comm (inOrder op found) _ key)
      · simp only [hung]
        exact ⟨mt, logs.congr sameLog, .inl ⟨locked, waiting⟩⟩

theorem replays_start [BoundedCache C PageId Page] (X : Extern) (config : StorageConfig) :
    Replays X { store := (start config : Store C) } :=
  ⟨MemTable.new, logs_start X config, .inr ⟨rfl, fun _ => rfl⟩⟩

theorem Replays.replayAgrees (replays : Replays X t) :
    ReplayAgrees X t := by
  intro quiescent policy
  obtain ⟨mt, ⟨_, segs, writer, lays, -, readable, replayed⟩, state⟩ := replays
  refine ⟨mt, t.store.disk.wal, ?_, fun key => ?_⟩
  · rw [← replayed]
    exact recover_log X lays readable policy
  · rcases state with ⟨-, waiting⟩ | ⟨-, agree⟩
    · exact absurd quiescent waiting
    · rw [MemTable.get_eq, MemTable.get_eq, agree, quiescent]
      rfl

/-- **Log order is apply order** in every run of writers on a new store whose updates
are made in log order key by key: whenever no write is pending, replaying the log
gives every key what the memtable gives it. -/
theorem replayAgrees_run [BoundedCache C PageId Page] (X : Extern) (config : StorageConfig)
    {moves : List WriterStep}
    (inOrder : Run.Each (step X) (InOrder X) { store := (start config : Store C) } moves) :
    ∀ t ∈ Run.states (step X) { store := (start config : Store C) } moves, ReplayAgrees X t := by
  intro t member
  refine (inOrder.invariant (fun t move replays inOrder => ?_) (replays_start X config) t
    member).replayAgrees
  cases move with
  | log op => exact replays.log inOrder
  | update i => exact replays.update inOrder

/-- Two writers of one key in log order, and between them a third of another key that
is passed. -/
theorem replayAgrees_run_interleaved :
    Run.Always (step Extern.literal) (ReplayAgrees Extern.literal)
      { store := (start {} : Store (RecencyCache PageId Page)) }
      [.log (.set 0 [1] [10]), .log (.delete 0 [2]), .log (.set 0 [1] [11]), .update 1, .update 0,
        .update 0] := by
  refine replayAgrees_run Extern.literal {} ⟨fun wraps => absurd wraps.2 ?_,
    fun wraps => absurd wraps.2 ?_, fun wraps => absurd wraps.2 ?_, inOrder ?_, inOrder ?_,
    inOrder ?_, trivial⟩
  all_goals decide +kernel

/-- The second writer of a key passes the first between its two locks: the log ends in
the second value, the memtable in the first. -/
theorem not_replayAgrees :
    ¬ ∀ t ∈ Run.states (step Extern.literal)
        { store := (start {} : Store (RecencyCache PageId Page)) }
        [.log (.set 0 [1] [10]), .log (.set 0 [1] [11]), .update 1, .update 0],
      ReplayAgrees Extern.literal t := by
  intro agrees
  let last : Writers (RecencyCache PageId Page) :=
    [.log (.set 0 [1] [10]), .log (.set 0 [1] [11]), .update 1, .update 0].foldl
      (step Extern.literal) { store := start {} }
  obtain ⟨mt, dir, replayed, same⟩ := agrees last (Run.foldl_mem_states _ _) rfl .async
  have logged : ((recover Extern.literal
      (WalWriter.openDir last.store.disk.wal .async).writer.currentLsn 0
      (WalWriter.openDir last.store.disk.wal .async).dir).1 >>= fun mt => .ok (mt.get [1])) =
      (.ok (some [11]) : Result (Option Value)) := by decide +kernel
  have live : last.store.memtable.get [1] = some [10] := by decide +kernel
  rw [replayed, Outcome.ok_bind, same, live] at logged
  cases logged

end Writers

end Store

end NovaRuntime.Storage
