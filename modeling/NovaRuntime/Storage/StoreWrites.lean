/-
# NovaRuntime.Storage.StoreWrites — whether a set returns, and what a failed batch leaves

A set whose insertion brings the memtable to its limit flushes it while it holds the lock the
flush waits for. `set_completes_iff` says exactly which sets return. A batch is its writes one
after the other: an operation that the log refuses ends it, and what came before stays, in the
memtable and in the log. It is atomic exactly if what comes before a refused operation changes
nothing (`batch_atomic_iff`).
-/
import NovaRuntime.Storage.StoreRecovery

namespace NovaRuntime.Storage

open NovaRuntime.Library

set_option autoImplicit false

namespace Store

variable {C : Type}

/-! ## The log takes a record -/

/-- The log is open, and its counter has room for so many more records. -/
def Open (n : Nat) (s : Store C) : Prop := ∃ w, s.wal = some w ∧ w.currentLsn + n < 2 ^ 64

section

variable {X : Extern} {s : Store C} {record : WalRecord}

/-- **What the log does** with a record: it takes it, refuses it, or panics. -/
theorem append_cases (X : Extern) (s : Store C) (record : WalRecord) :
    (¬ Open 1 s ∧ append X record s = (.panic, s)) ∨
      (Open 1 s ∧ ¬ Wal.Accepted record ∧
        (append X record s).1 = .err (.invalidArgument "WAL record payload too large")) ∨
      (Open 1 s ∧ Wal.Accepted record ∧ ∃ lsn, (append X record s).1 = .ok lsn) := by
  cases opened : s.wal with
  | none =>
    refine .inl ⟨?_, by simp only [append, onWal, opened]⟩
    rintro ⟨w, here, -⟩
    rw [opened] at here
    cases here
  | some w =>
    have onLog := append_of_open (X := X) opened record
    rcases Wal.append_cases X record { dir := s.disk.wal, writer := w } with
      ⟨full, panicked⟩ | ⟨room, refused, rejected⟩ | ⟨room, accepted, written⟩
    · refine .inl ⟨?_, ?_⟩
      · rintro ⟨w', here, room⟩
        cases opened.symm.trans here
        exact absurd room (not_lt.mpr full)
      · rw [onLog, panicked]
        simp only [← opened]
    · exact .inr (.inl ⟨⟨w, opened, room⟩, refused, by rw [onLog, rejected]⟩)
    · exact .inr (.inr ⟨⟨w, opened, room⟩, accepted, _, by rw [onLog, written]⟩)

/-- A record takes one from the counter. -/
theorem open_append {n : Nat} (isOpen : Open 1 s) (X : Extern) (record : WalRecord) :
    Open n (append X record s).2 ↔ Open (n + 1) s := by
  obtain ⟨w, opened, room⟩ := isOpen
  have counter : (WalWriter.append X record { dir := s.disk.wal, writer := w }).2.writer.currentLsn =
      w.currentLsn + 1 := by
    rcases Wal.append_cases X record { dir := s.disk.wal, writer := w } with
      ⟨full, -⟩ | ⟨-, -, rejected⟩ | ⟨-, -, written⟩
    · exact absurd room (not_lt.mpr full)
    · rw [rejected]
    · rw [written]
  rw [Open, Open, append_of_open opened, opened]
  simp only [Option.some.injEq, exists_eq_left']
  rw [counter, Nat.add_assoc, Nat.add_comm 1 n]

/-- The counter has room for fewer records, too. -/
theorem Open.of_succ {n : Nat} (isOpen : Open (n + 1) s) : Open 1 s := by
  obtain ⟨w, opened, room⟩ := isOpen
  exact ⟨w, opened, by omega⟩

/-- A set that fills the memtable waits for its own lock. -/
theorem write_hangs {layers : List (List SSTable.Entry)} (rep : Represents X s layers) {op : WriteOperation}
    (fills : Fills X op s) : (write X op s).1 = .hang := by
  cases op with
  | delete now key => exact fills.elim
  | set now key value =>
    obtain ⟨⟨lsn, logged⟩, full⟩ := fills
    have same : SameData s (append X (WriteOperation.set now key value).record s).2 := sameData_onWal _ s
    have unlocked := (rep.append (WriteOperation.set now key value).record).unlocked
    rw [← same.memtable, ← same.config] at full
    rw [write_eq, Exec.bind_of_ok (Exec.eq_ok_of_fst logged)]
    simp only [writeMemtable, setMemtable_fills X unlocked full]

end

/-! ## A set -/

variable [BoundedCache C PageId Page]

/-- The set returns, and its value is read. -/
def Completes (X : Extern) (now : Int64) (key : Key) (value : Value) (s : Store C) : Prop :=
  (set X now key value s).1 = .ok () ∧ (get X key (set X now key value s).2).1 = .ok (some value)

/-- **A set returns** exactly if the log is open and the insertion leaves the memtable below
its limit. -/
theorem set_completes_iff {X : Extern} (laws : X.SnappyLaws) {s : Store C} (reachable : Reachable X s) (now : Int64)
    {key : Key} {value : Value}
    (fits : (Wal.encodePayload (Wal.makeRecord now .insert 0 key (some value))).length ≤ Wal.maxPayloadSize) :
    Completes X now key value s ↔ Open 1 s ∧ (s.memtable.insert key value).size < s.config.memtableSize := by
  obtain ⟨layers, rep⟩ := reachable.represented laws
  have accepted : Wal.Accepted (WriteOperation.set now key value).record := by
    refine le_trans (Nat.mod_le _ _) fits
  have same : (set X now key value s) = write X (.set now key value) s := rfl
  constructor
  · rintro ⟨done, -⟩
    rw [same] at done
    rcases write_cases rep (.set now key value) with ⟨-, refused, -⟩ | ⟨⟨lsn, logged⟩, -, -⟩ | ⟨-, hangs⟩
    · exact absurd done refused
    · have isOpen : Open 1 s := by
        rcases append_cases X s (WriteOperation.set now key value).record with ⟨-, panics⟩ | ⟨isOpen, -⟩ | ⟨isOpen, -⟩
        · rw [panics] at logged
          cases logged
        · exact isOpen
        · exact isOpen
      refine ⟨isOpen, not_le.mp fun full => ?_⟩
      have fills : Fills X (.set now key value) s := ⟨⟨lsn, logged⟩, full⟩
      rw [write_hangs rep fills] at done
      cases done
    · rw [hangs] at done
      cases done
  · rintro ⟨isOpen, room⟩
    have fillsNot : ¬ Fills X (.set now key value) s := fun fills => absurd fills.2 (not_le.mpr room)
    have denotes : Denotes X s fun key => answer (s.contents layers) key := ⟨layers, rep, fun _ => rfl⟩
    rcases denotes.write fillsNot with ⟨done, layers', rep', holds⟩ | ⟨refused, -⟩
    · refine ⟨done, ?_⟩
      rw [same, get_eq rep', holds]
      exact congrArg Outcome.ok (Function.update_self ..)
    · exfalso
      rcases write_cases rep (.set now key value) with ⟨notLogged, -, -⟩ | ⟨-, done, -⟩ | ⟨fills, -⟩
      · rcases append_cases X s (WriteOperation.set now key value).record with
          ⟨shut, -⟩ | ⟨-, notAccepted, -⟩ | ⟨-, -, lsn, logged⟩
        · exact shut isOpen
        · exact notAccepted accepted
        · exact notLogged lsn logged
      · exact refused done
      · exact fillsNot fills

/-- A store that keeps its memtable after one set. -/
theorem set_completes_small :
    let s : Store (RecencyCache PageId Page) := start { memtableSize := 1000 }
    Completes Extern.literal 0 [1] [2] s ↔ Open 1 s ∧ (s.memtable.insert [1] [2]).size < s.config.memtableSize :=
  set_completes_iff Extern.snappyLaws_literal (.opened (openDisk_empty Extern.literal _)) 0 (by decide)

/-- **A set that fills the memtable** never returns. -/
theorem set_stuck : ¬ ∀ (X : Extern) (s : Store (RecencyCache PageId Page)) (now : Int64) (key : Key) (value : Value),
    X.SnappyLaws → Reachable X s →
      (Wal.encodePayload (Wal.makeRecord now .insert 0 key (some value))).length ≤ Wal.maxPayloadSize →
        Completes X now key value s := by
  intro completes
  have opened : Reachable Extern.literal (start { memtableSize := 1 } : Store (RecencyCache PageId Page)) :=
    .opened (openDisk_empty Extern.literal _)
  have done := (completes _ _ 0 [1] [2] Extern.snappyLaws_literal opened (by decide)).1
  revert done
  decide +kernel

/-! ## One write of a batch -/

/-- The write leaves the memtable below the limit. -/
def Fits (limit : Nat) (mt : MemTable) : WriteOperation → Prop
  | .set _ key value => (mt.insert key value).size < limit
  | .delete _ _ => True

/-- Every write does, one after the other. -/
def Room (limit : Nat) : MemTable → List WriteOperation → Prop
  | _, [] => True
  | mt, op :: ops => Fits limit mt op ∧ Room limit (op.record.applyTo mt) ops

namespace Traced

variable {X : Extern} {map : Key → Option Value} {s : Store C}

omit [BoundedCache C PageId Page] in
/-- **Everything a write does** to a store that agrees with its log: it is applied, it is
refused, or it does not return to the batch. -/
theorem Agreed.write_cases (agreed : Agreed X s map) {op : WriteOperation} (short : ¬ Wal.Wraps op.record) :
    (Open 1 s ∧ Wal.Accepted op.record ∧ Fits s.config.memtableSize s.memtable op ∧ (write X op s).1 = .ok () ∧
      Agreed X (write X op s).2 (update map op) ∧ (write X op s).2.memtable = op.record.applyTo s.memtable ∧
      (write X op s).2.config = s.config ∧ ∀ n, Open n (write X op s).2 ↔ Open (n + 1) s) ∨
    (Open 1 s ∧ ¬ Wal.Accepted op.record ∧
      (write X op s).1 = .err (.invalidArgument "WAL record payload too large") ∧ Agreed X (write X op s).2 map) ∨
    (¬ (Open 1 s ∧ (Wal.Accepted op.record → Fits s.config.memtableSize s.memtable op)) ∧
      ((write X op s).1 = .panic ∨ (write X op s).1 = .hang)) := by
  obtain ⟨layers, rep, -⟩ := agreed.1
  have garblesNot : ¬ Garbles X op s := fun garbles => short garbles.2
  rcases append_cases X s op.record with ⟨shut, panics⟩ | ⟨isOpen, refused, rejected⟩ | ⟨isOpen, accepted, lsn, logged⟩
  · refine .inr (.inr ⟨fun held => shut held.1, .inl ?_⟩)
    rw [write_eq, Exec.bind_apply, panics]
  · have fillsNot : ¬ Fills X op s := by
      cases op with
      | set now key value =>
        rintro ⟨⟨lsn, logged⟩, -⟩
        rw [rejected] at logged
        cases logged
      | delete now key => exact id
    have ended : (write X op s).1 = .err (.invalidArgument "WAL record payload too large") := by
      rw [write_eq, Exec.bind_apply]
      rcases logged : append X op.record s with ⟨outcome, s'⟩
      rw [logged] at rejected
      cases rejected
      rfl
    refine .inr (.inl ⟨isOpen, refused, ended, ?_⟩)
    rcases agreed.1.write fillsNot with ⟨done, -⟩ | ⟨-, denotes⟩
    · rw [ended] at done
      cases done
    rcases Durable.write agreed.1 agreed.2 fillsNot garblesNot with ⟨done, -⟩ | ⟨-, durable⟩
    · rw [ended] at done
      cases done
    exact ⟨denotes, durable⟩
  · by_cases fits : Fits s.config.memtableSize s.memtable op
    · have fillsNot : ¬ Fills X op s := by
        cases op with
        | set now key value => exact fun fills => absurd fills.2 (not_le.mpr fits)
        | delete now key => exact id
      rcases Store.write_cases rep op with ⟨notLogged, -, -⟩ | ⟨-, done, after⟩ | ⟨fills, -⟩
      · exact absurd logged (notLogged lsn)
      · refine .inl ⟨isOpen, accepted, fits, done, ?_, by rw [after], ?_, fun n => ?_⟩
        · rcases agreed.1.write fillsNot with ⟨-, denotes⟩ | ⟨refused, -⟩
          · rcases Durable.write agreed.1 agreed.2 fillsNot garblesNot with ⟨-, durable⟩ | ⟨refused, -⟩
            · exact ⟨denotes, durable⟩
            · exact absurd done refused
          · exact absurd done refused
        · rw [after]
          exact (sameData_onWal (WalWriter.append X op.record) s).config
        · rw [after, ← open_append isOpen X op.record]
          exact Iff.rfl
      · exact absurd fills fillsNot
    · refine .inr (.inr ⟨fun held => fits (held.2 accepted), .inr (write_hangs rep ?_)⟩)
      cases op with
      | set now key value => exact ⟨⟨lsn, logged⟩, not_lt.mp fits⟩
      | delete now key => exact absurd trivial fits

/-! ## The writes of a batch -/

/-- The batch comes to `op` behind `front`, and the log refuses it. -/
structure Refused (s : Store C) (front : List WriteOperation) (op : WriteOperation) : Prop where
  isOpen : Open (front.length + 1) s
  accepted : ∀ o ∈ front, Wal.Accepted o.record
  room : Room s.config.memtableSize s.memtable front
  refused : ¬ Wal.Accepted op.record

omit [BoundedCache C PageId Page] in
/-- **A batch that comes to a refused operation** fails there, and what came before stays. -/
theorem Agreed.batch_refused (agreed : Agreed X s map)
    {front back : List WriteOperation} {op : WriteOperation} (short : ∀ o ∈ front ++ op :: back, ¬ Wal.Wraps o.record)
    (refused : Refused s front op) :
    (∃ e, (batch X (front ++ op :: back) s).1 = .err e) ∧
      Agreed X (batch X (front ++ op :: back) s).2 (front.foldl update map) := by
  induction front generalizing s map with
  | nil =>
    have step := agreed.write_cases (short op (.head _))
    rcases step with ⟨-, accepted, -⟩ | ⟨-, -, ended, after⟩ | ⟨stuck, -⟩
    · exact absurd accepted refused.refused
    · rw [List.nil_append, batch_cons, Exec.bind_apply]
      rcases wrote : write X op s with ⟨outcome, s'⟩
      rw [wrote] at ended after
      cases ended
      exact ⟨⟨_, rfl⟩, after⟩
    · exact absurd ⟨refused.isOpen, fun accepted => absurd accepted refused.refused⟩ stuck
  | cons first front ih =>
    have step := agreed.write_cases (short first (.head _))
    rcases step with ⟨-, -, -, done, after, memtable, config, counter⟩ | ⟨-, notAccepted, -⟩ | ⟨stuck, -⟩
    · rw [List.cons_append, batch_cons, Exec.bind_of_ok (Exec.eq_ok_of_fst done)]
      refine ih after (fun o member => short o (.tail _ member)) ⟨?_, ?_, ?_, refused.refused⟩
      · exact (counter _).mpr refused.isOpen
      · exact fun o member => refused.accepted o (.tail _ member)
      · rw [memtable, config]
        exact refused.room.2
    · exact absurd (refused.accepted first (.head _)) notAccepted
    · exact absurd ⟨refused.isOpen.of_succ, fun _ => refused.room.1⟩ stuck

omit [BoundedCache C PageId Page] in
/-- **How a batch ends**: all its writes are applied, or it has come to a refused one. -/
theorem Agreed.batch_cases (agreed : Agreed X s map)
    {ops : List WriteOperation} (short : ∀ o ∈ ops, ¬ Wal.Wraps o.record) :
    ((batch X ops s).1 = .ok () → Agreed X (batch X ops s).2 (ops.foldl update map)) ∧
      ∀ e, (batch X ops s).1 = .err e → ∃ front op back, ops = front ++ op :: back ∧ Refused s front op := by
  induction ops generalizing s map with
  | nil => exact ⟨fun _ => agreed, fun e failed => by cases failed⟩
  | cons op ops ih =>
    have step := agreed.write_cases (short op (.head _))
    rw [batch_cons]
    rcases step with ⟨isOpen, accepted, fits, done, after, memtable, config, counter⟩ |
      ⟨isOpen, notAccepted, ended, -⟩ | ⟨-, stuck⟩
    · rw [Exec.bind_of_ok (Exec.eq_ok_of_fst done)]
      obtain ⟨all, fails⟩ := ih after fun o member => short o (.tail _ member)
      refine ⟨all, fun e failed => ?_⟩
      obtain ⟨front, last, back, rfl, refused⟩ := fails e failed
      refine ⟨op :: front, last, back, rfl, (counter _).mp refused.isOpen, ?_, ⟨fits, ?_⟩, refused.refused⟩
      · intro o member
        rcases List.mem_cons.mp member with rfl | later
        · exact accepted
        · exact refused.accepted o later
      · rw [← memtable, ← config]
        exact refused.room
    · rw [Exec.bind_apply]
      rcases wrote : write X op s with ⟨outcome, s'⟩
      rw [wrote] at ended
      cases ended
      exact ⟨fun done => (by cases done), fun e _ => ⟨[], op, ops, rfl, isOpen, fun o absent =>
        absurd absent List.not_mem_nil, trivial, notAccepted⟩⟩
    · rw [Exec.bind_apply]
      rcases wrote : write X op s with ⟨outcome, s'⟩
      rw [wrote] at stuck
      rcases stuck with panics | hangs
      · cases panics
        exact ⟨fun done => (by cases done), fun e failed => (by cases failed)⟩
      · cases hangs
        exact ⟨fun done => (by cases done), fun e failed => (by cases failed)⟩

/-! ## Atomic batches -/

/-- A batch that fails leaves every read and the replay of the log as they were, and one that
succeeds has taken effect in list order. -/
structure BatchAtomic (X : Extern) (ops : List WriteOperation) (t : Traced C) : Prop where
  reads : ∀ e, (batch X ops t.store).1 = .err e →
    ∀ key, (get X key (batch X ops t.store).2).1 = (get X key t.store).1
  replays : ∀ e, (batch X ops t.store).1 = .err e → ∀ config, ∃ store : Store C,
    (openDisk X config (batch X ops t.store).2.disk).1 = .ok store ∧
      ∀ key, (get X key store).1 = (get X key t.store).1
  done : (batch X ops t.store).1 = .ok () →
    ∀ key, (get X key (batch X ops t.store).2).1 = .ok (ops.foldl update t.map key)

/-- What comes before a refused operation changes nothing. -/
def Undivided (ops : List WriteOperation) (t : Traced C) : Prop :=
  ∀ front op back, ops = front ++ op :: back → Refused t.store front op → front.foldl update t.map = t.map

theorem Agreed.get (agreed : Agreed X s map) (key : Key) :
    (get X key s).1 = .ok (map key) := by
  obtain ⟨layers, rep, holds⟩ := agreed.1
  rw [get_eq rep, holds]

theorem Agreed.batchAtomic_iff {t : Traced C} (agreed : Agreed X t.store t.map)
    {ops : List WriteOperation} (short : ∀ o ∈ ops, ¬ Wal.Wraps o.record) :
    BatchAtomic X ops t ↔ Undivided ops t := by
  constructor
  · rintro atomic front op back rfl refused
    obtain ⟨⟨e, failed⟩, after⟩ := agreed.batch_refused short refused
    funext key
    have same := atomic.reads e failed key
    rw [after.get key, agreed.get key] at same
    exact Outcome.ok.inj same
  · intro undivided
    obtain ⟨all, fails⟩ := agreed.batch_cases short
    have kept : ∀ e, (batch X ops t.store).1 = .err e → Agreed X (batch X ops t.store).2 t.map := by
      intro e failed
      obtain ⟨front, op, back, rfl, refused⟩ := fails e failed
      rw [← undivided front op back rfl refused]
      exact (agreed.batch_refused short refused).2
    refine ⟨fun e failed key => ?_, fun e failed config => ?_, fun done key => (all done).get key⟩
    · rw [(kept e failed).get key, agreed.get key]
    · obtain ⟨store, opened, agreed'⟩ := agreed_opened (kept e failed).2 config
      exact ⟨store, opened, fun key => by rw [agreed'.get key, agreed.get key]⟩

/-- **A batch is atomic** exactly if what comes before a refused operation changes nothing, in
every state of a safe run. -/
theorem batch_atomic_iff {X : Extern} (laws : X.SnappyLaws) (config : StorageConfig) {calls : List SessionCall}
    (safe : Run.Each (sessionStep X) (SessionSafe X) { store := (start config : Store C) } calls) :
    ∀ t ∈ Run.states (sessionStep X) { store := (start config : Store C) } calls,
      ∀ ops : List WriteOperation, (∀ o ∈ ops, ¬ Wal.Wraps o.record) → (BatchAtomic X ops t ↔ Undivided ops t) := by
  have held := safe.invariant (fun _ _ agreed => agreed_sessionStep laws agreed) (agreed_start X config)
  exact fun t member ops short => Agreed.batchAtomic_iff (held t member) short

/-- A batch of a set and a deletion on a new store. -/
theorem batch_atomic_start :
    let t : Traced (RecencyCache PageId Page) := { store := start {} }
    BatchAtomic Extern.literal [.set 0 [1] [1], .delete 0 [2]] t ↔ Undivided [.set 0 [1] [1], .delete 0 [2]] t :=
  batch_atomic_iff Extern.snappyLaws_literal {}
    (show Run.Each (sessionStep Extern.literal) (SessionSafe Extern.literal) _ [] from trivial) _
    (List.mem_singleton.mpr rfl) _ (by decide)

/-- A value that no record takes. -/
def largeValue : Value := List.replicate 65536 0

/-- **A batch whose second write is too large** fails, and its first write stays. -/
theorem batch_divided : ¬ ∀ (X : Extern) (config : StorageConfig) (calls : List SessionCall), X.SnappyLaws →
    Run.Each (sessionStep X) (SessionSafe X) { store := (start config : Store (RecencyCache PageId Page)) } calls →
      ∀ t ∈ Run.states (sessionStep X) { store := (start config : Store (RecencyCache PageId Page)) } calls,
        ∀ ops : List WriteOperation, (∀ o ∈ ops, ¬ Wal.Wraps o.record) → BatchAtomic X ops t := by
  intro atomic
  obtain ⟨value, size⟩ : ∃ value : Value, value.length = 65536 := ⟨largeValue, List.length_replicate⟩
  have large : (Wal.encodePayload (WriteOperation.set 0 [2] value).record).length = 65561 := by
    simp [Wal.encodePayload, WriteOperation.record, Wal.makeRecord, size]
  have short : ∀ o ∈ [WriteOperation.set 0 [1] [1], .set 0 [2] value], ¬ Wal.Wraps o.record := by
    intro o member
    rcases List.mem_cons.mp member with rfl | last
    · decide
    · rw [List.mem_singleton.mp last, Wal.Wraps, large]
      decide
  have whole := atomic Extern.literal {} [] Extern.snappyLaws_literal trivial _ (List.mem_singleton.mpr rfl) _ short
  have agreed : Agreed Extern.literal (start {} : Store (RecencyCache PageId Page)) fun _ => none :=
    agreed_start Extern.literal {}
  have undivided := (Agreed.batchAtomic_iff agreed short).mp whole
  have changed := undivided [.set 0 [1] [1]] (.set 0 [2] value) [] rfl ⟨⟨_, rfl, by decide⟩, by decide, ⟨?_, trivial⟩, ?_⟩
  · have here := congrFun changed [1]
    revert here
    decide
  · show (MemTable.insert _ _ _).size < _
    decide +kernel
  · rw [Wal.Accepted, large]
    decide

end Traced

end Store

end NovaRuntime.Storage
