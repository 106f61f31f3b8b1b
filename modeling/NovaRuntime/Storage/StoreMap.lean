/-
# NovaRuntime.Storage.StoreMap — a store refines a map

`Traced` keeps beside a store the map its successful writes describe. A store
denotes a map when every key's answer is the map's (`Denotes`). A call keeps the two
together if it is `Safe`:

* a `set` must not fill the memtable, since it then waits for a lock it holds;
* a table must not have more blocks than its footer can count;
* a compaction must not find a live key at or beyond its stop in the tables, since
  it reads only what is below and deletes the rest.

`agrees_run` is the refinement over runs of safe calls, `lost_by_compaction` and
`stuck_by_set` are runs without.
-/
import NovaRuntime.Storage.StoreCalls

namespace NovaRuntime.Storage

open NovaRuntime.Library

set_option autoImplicit false

namespace Store

open SSTable (Entry inRange blockCount)

variable {C : Type}
variable {X : Extern} {map : Key → Option Value} {ops : List WriteOperation} {s : Store C}

/-! ## The map of a store -/

/-- The store holds the map, as the entries of its memtable and its tables. -/
def Denotes (X : Extern) (s : Store C) (map : Key → Option Value) : Prop :=
  ∃ layers, Represents X s layers ∧ ∀ key, answer (s.contents layers) key = map key

/-- What a write does to the map. -/
def update (map : Key → Option Value) (op : WriteOperation) : Key → Option Value :=
  Function.update map op.record.key op.record.value

/-- The map after a batch: the writes before the first that fails. -/
def batchMap (X : Extern) : List WriteOperation → Store C → (Key → Option Value) → Key → Option Value
  | [], _, map => map
  | op :: ops, s, map =>
    match write X op s with
    | (.ok (), s') => batchMap X ops s' (update map op)
    | _ => map

/-- A batch changes the map at the keys it writes only. -/
theorem batchMap_of_not_mem (X : Extern) {key : Key}
    (absent : ∀ op ∈ ops, key ≠ op.record.key) (s : Store C) (map : Key → Option Value) :
    batchMap X ops s map key = map key := by
  induction ops generalizing s map with
  | nil => rfl
  | cons op ops ih =>
    obtain ⟨here, later⟩ := List.forall_mem_cons.mp absent
    rw [batchMap]
    rcases write X op s with ⟨_ | _ | _ | _, s'⟩
    · exact (ih later s' (update map op)).trans (Function.update_of_ne here _ _)
    · rfl
    · rfl
    · rfl

/-- A write changes the answer of its own key. -/
theorem getWithTombstone_applyTo (op : WriteOperation) (mt : MemTable) (key : Key) :
    (op.record.applyTo mt).getWithTombstone key =
      if key = op.record.key then some op.record.value else mt.getWithTombstone key := by
  cases op with
  | set now k value => exact MemTable.getWithTombstone_insert mt k value key
  | delete now k => exact MemTable.getWithTombstone_delete mt k key

theorem answer_contents (s : Store C) (layers : List (List Entry)) (key : Key) :
    answer (s.contents layers) key =
      ((s.memtable.getWithTombstone key).or (layers.reverse.flatten.lookup key)).join := by
  rw [answer, lookup_contents]

theorem Denotes.sameData {s' : Store C}
    (denotes : Denotes X s map) (same : SameData s s') : Denotes X s' map := by
  obtain ⟨layers, rep, holds⟩ := denotes
  exact ⟨layers, rep.sameData same, fun key => by rw [← holds, contents, contents, same.memtable]⟩

/-- **Step.** A write that succeeds updates the map, one that is refused does not. -/
theorem Denotes.write (denotes : Denotes X s map) {op : WriteOperation} (room : ¬ Fills X op s) :
    ((write X op s).1 = .ok () ∧ Denotes X (write X op s).2 (update map op)) ∨
    ((write X op s).1 ≠ .ok () ∧ Denotes X (write X op s).2 map) := by
  obtain ⟨layers, rep, holds⟩ := denotes
  rcases write_cases rep op with ⟨-, refused, after⟩ | ⟨-, done, after⟩ | ⟨fills, -⟩
  · rw [after]
    exact .inr ⟨refused, Denotes.sameData ⟨layers, rep, holds⟩ (sameData_onWal _ s)⟩
  · refine .inl ⟨done, layers, ?_, fun key => ?_⟩
    · rw [after]
      exact (rep.append op.record).withMemtable _
    · rw [after, answer_contents, getWithTombstone_applyTo, update]
      by_cases here : key = op.record.key
      · subst here
        simp
      · rw [if_neg here, Function.update_of_ne here, ← holds, answer_contents]
  · exact absurd fills room

/-- A write after which the memtable is below its limit does not fill it. -/
theorem not_fills {op : WriteOperation}
    (room : (op.record.applyTo s.memtable).size < s.config.memtableSize) : ¬ Fills X op s := by
  cases op with
  | set now key value => exact fun fills => absurd fills.2 (not_le.mpr room)
  | delete now key => exact id

/-- Every write the batch comes to meets the condition in the store it is made on. -/
def EachWrite (X : Extern) (meets : WriteOperation → Store C → Prop) :
    List WriteOperation → Store C → Prop
  | [], _ => True
  | op :: ops, s =>
    meets op s ∧ ((write X op s).1 = .ok () → EachWrite X meets ops (write X op s).2)

theorem EachWrite.and {p q : WriteOperation → Store C → Prop}
    (left : EachWrite X p ops s) (right : EachWrite X q ops s) :
    EachWrite X (fun op s => p op s ∧ q op s) ops s := by
  induction ops generalizing s with
  | nil => trivial
  | cons op ops ih =>
    exact ⟨⟨left.1, right.1⟩, fun done => ih (left.2 done) (right.2 done)⟩

/-- A batch is the sequence of its writes up to the first that fails. -/
theorem batch_induction {meets : WriteOperation → Store C → Prop}
    {Q : Store C → (Key → Option Value) → Prop}
    (step : ∀ s map op, Q s map → meets op s →
      ((write X op s).1 = .ok () ∧ Q (write X op s).2 (update map op)) ∨
      ((write X op s).1 ≠ .ok () ∧ Q (write X op s).2 map)) (held : Q s map)
    (each : EachWrite X meets ops s) : Q (batch X ops s).2 (batchMap X ops s map) := by
  induction ops generalizing s map with
  | nil => exact held
  | cons op ops ih =>
    have later := each.2
    rw [batch_cons, Exec.bind_apply, batchMap]
    rcases step s map op held each.1 with ⟨done, updated⟩ | ⟨failed, kept⟩
    · rcases wrote : write X op s with ⟨outcome, s₁⟩
      rw [wrote] at done updated later
      cases done
      exact ih updated (later rfl)
    · rcases wrote : write X op s with ⟨_ | _ | _ | _, s₁⟩ <;> rw [wrote] at failed kept
      · exact absurd rfl failed
      all_goals exact kept

theorem Denotes.batch (denotes : Denotes X s map) (room : EachWrite X (fun op s => ¬ Fills X op s) ops s) :
    Denotes X (batch X ops s).2 (batchMap X ops s map) :=
  batch_induction (fun _ _ _ held room => held.write room) denotes room

/-- **Step.** A flush of the memtable changes no answer. -/
theorem Denotes.flushMemtable (laws : X.SnappyLaws) (denotes : Denotes X s map)
    (few : blockCount s.memtable.iterWithTombstones < 2 ^ 32) :
    Denotes X (flushMemtable X s).2 map := by
  obtain ⟨layers, rep, holds⟩ := denotes
  rcases flushMemtable_cases laws rep with ⟨same, rep'⟩ | ⟨emptied, es, rep', -, all⟩
  · exact ⟨layers, rep', fun key => by rw [← holds, contents, contents, same]⟩
  · refine ⟨_, rep', fun key => ?_⟩
    have moved : contents (Store.flushMemtable X s).2 (layers ++ [es]) = contents s layers := by
      rw [contents, contents, emptied, all few, MemTable.iterWithTombstones_eq_nil_of_isEmpty rfl]
      simp
    rw [moved, holds]

/-- A flush whose table can count its blocks leaves a memtable that can be flushed. -/
theorem denotes_flushMemtable (laws : X.SnappyLaws) (map : Key → Option Value) :
    Exec.Keeps (fun s : Store C =>
      Denotes X s map ∧ blockCount s.memtable.iterWithTombstones < 2 ^ 32) (flushMemtable X) := by
  rintro s ⟨denotes, few⟩
  refine ⟨denotes.flushMemtable laws few, ?_⟩
  obtain ⟨layers, rep, -⟩ := denotes
  rcases flushMemtable_cases laws rep with ⟨same, -⟩ | ⟨emptied, -⟩
  · rwa [same]
  · rw [emptied, MemTable.iterWithTombstones_eq_nil_of_isEmpty rfl]
    exact Nat.two_pow_pos 32

/-- The compaction loses nothing: no key at or beyond the stop is live in the
tables, and the new table can count its blocks. -/
structure CompactsAll (X : Extern) (s : Store C) (map : Key → Option Value) : Prop where
  below : ∀ key, compactionStop ≤ key → s.memtable.getWithTombstone key = none → map key = none
  few : blockCount (compacted (compactionInput X s)) < 2 ^ 32

/-- A compaction keeps the answers of the entries it reads. -/
theorem answer_compacted (es : List Entry) (key : Key) :
    answer (compacted es) key = answer es key := by
  have mapped : ∀ table : List (Key × Value),
      (table.map fun e => (e.1, some e.2)).lookup key = (table.lookup key).map some := by
    intro table
    induction table with
    | nil => rfl
    | cons e table ih =>
      rw [List.map_cons, lookup_cons_ite, lookup_cons_ite, ih]
      split <;> rfl
  rw [answer, compacted, mapped, lookup_live]
  cases answer es key <;> rfl

/-- **Step.** A compaction that loses nothing changes no answer. -/
theorem Denotes.compact (laws : X.SnappyLaws) (denotes : Denotes X s map)
    (safe : 4 ≤ s.sstables.length → CompactsAll X s map) : Denotes X (compact X s).2 map := by
  obtain ⟨layers, rep, holds⟩ := denotes
  obtain ⟨same, rep' | ⟨many, es, rep', -, all⟩⟩ := compact_cases laws rep
  · exact ⟨layers, rep', fun key => by rw [← holds, contents, contents, same]⟩
  · refine ⟨_, rep', fun key => ?_⟩
    rw [answer_contents, same, all (safe many).few]
    simp only [List.reverse_singleton, List.flatten_cons, List.flatten_nil, List.append_nil]
    have before := holds key
    rw [answer_contents] at before
    cases found : s.memtable.getWithTombstone key with
    | some value => rw [← before, found]; rfl
    | none =>
      rw [found, Option.none_or] at before
      rw [Option.none_or]
      change answer (compacted (compactionInput X s)) key = _
      rw [answer_compacted, compactionInput_eq rep, answer, lookup_inRange]
      by_cases below : key < compactionStop
      · have inside : [] ≤ key ∧ key < compactionStop := ⟨not_lt.mp (List.not_lt_nil key), below⟩
        rw [if_pos inside, before]
      · have absent := (safe many).below key (not_lt.mp below) found
        rw [if_neg fun inside => below inside.2, absent]
        rfl

/-! ## Runs -/

/-- A store and the map its successful writes describe. -/
structure Traced (C : Type) where
  store : Store C
  map : Key → Option Value := fun _ => none

namespace Traced

def step (X : Extern) (t : Traced C) (call : StoreCall) : Traced C where
  store := (perform X call t.store).2
  map := batchMap X call.writes t.store t.map

/-- Every point read gives what the map says. -/
def Agrees [BoundedCache C PageId Page] (X : Extern) (t : Traced C) : Prop := ∀ key, (get X key t.store).1 = .ok (t.map key)

/-- The call does not reach one of the three branches that lose a write. -/
def Safe (X : Extern) (t : Traced C) : StoreCall → Prop
  | .write op => ¬ Fills X op t.store
  | .batch ops => EachWrite X (fun op s => ¬ Fills X op s) ops t.store
  | .checkpoint _ | .close => blockCount t.store.memtable.iterWithTombstones < 2 ^ 32
  | .compact => 4 ≤ t.store.sstables.length → CompactsAll X t.store t.map
  | _ => True

theorem safe_checkpoint {X : Extern} {t : Traced C} (now : Int64)
    (few : blockCount t.store.memtable.iterWithTombstones < 2 ^ 32) : Safe X t (.checkpoint now) := few

theorem safe_close {X : Extern} {t : Traced C}
    (few : blockCount t.store.memtable.iterWithTombstones < 2 ^ 32) : Safe X t .close := few

/-- **Step.** A safe call keeps the store and the map together. -/
theorem denotes_step {X : Extern} (laws : X.SnappyLaws) {t : Traced C}
    (denotes : Denotes X t.store t.map) {call : StoreCall} (safe : Safe X t call) :
    Denotes X (t.step X call).store (t.step X call).map := by
  have closed : Closed X fun s : Store C => Denotes X s t.map :=
    Closed.of_sameData fun _ _ same held => held.sameData same
  have closedFew : Closed X fun s : Store C =>
      Denotes X s t.map ∧ blockCount s.memtable.iterWithTombstones < 2 ^ 32 :=
    Closed.of_sameData fun _ _ same held => ⟨held.1.sameData same, by rw [same.memtable]; exact held.2⟩
  have memtable := denotes_flushMemtable (C := C) laws t.map
  cases call with
  | write op =>
    have single := Denotes.batch denotes (show EachWrite X _ [op] t.store from ⟨safe, fun _ => trivial⟩)
    rwa [batch_singleton] at single
  | batch ops => exact denotes.batch safe
  | flush => exact closed.keeps_flush t.store denotes
  | sync => exact closed.keeps_sync t.store denotes
  | checkpoint now =>
    exact (((closedFew.keeps_checkpoint memtable now).bind fun _ => Exec.keeps_pure _ ()) t.store
      ⟨denotes, safe⟩).1
  | compact => exact denotes.compact laws safe
  | commit now txId =>
    exact ((closed.keeps_commit now txId).bind fun _ => Exec.keeps_pure _ ()) t.store denotes
  | rollback now txId => exact closed.keeps_rollback now txId t.store denotes
  | close => exact (closedFew.keeps_close memtable t.store ⟨denotes, safe⟩).1

theorem denotes_start [BoundedCache C PageId Page] (X : Extern) (config : StorageConfig) :
    Denotes X (start config : Store C) fun _ => none :=
  ⟨[], represents_opened (openDisk_empty X config), fun _ => rfl⟩

variable [BoundedCache C PageId Page]

/-- **A store refines a map.** In every state of a run of safe calls from an empty
store, every key's point read gives the value of its last successful `set`, unless a
`delete` succeeded since. -/
theorem agrees_run {X : Extern} (laws : X.SnappyLaws) (config : StorageConfig)
    {calls : List StoreCall}
    (safe : Run.Each (step X) (Safe X) { store := (start config : Store C) } calls) :
    ∀ t ∈ Run.states (step X) { store := (start config : Store C) } calls, Agrees X t := by
  have held := safe.invariant (fun _ _ denotes => denotes_step laws denotes) (denotes_start X config)
  intro t member key
  obtain ⟨layers, rep, holds⟩ := held t member
  rw [get_eq rep, holds]

/-- Four tables and their compaction, with a deletion and a batch on the way. -/
theorem agrees_run_compacted :
    let s : Store (RecencyCache PageId Page) := start { memtableSize := 1000 }
    let calls : List StoreCall := [.write (.set 0 [1] [10]), .checkpoint 0, .write (.delete 0 [1]),
      .checkpoint 0, .write (.set 0 [2] [20]), .checkpoint 0,
      .batch [.set 0 [3] [], .delete 0 [2]], .checkpoint 0, .compact, .close]
    ∀ t ∈ Run.states (step Extern.literal) { store := s } calls, Agrees Extern.literal t := by
  intro s calls
  refine agrees_run Extern.snappyLaws_literal { memtableSize := 1000 } ?_
  refine ⟨not_fills ?_, safe_checkpoint 0 ?_, not_fills ?_, safe_checkpoint 0 ?_, not_fills ?_,
    safe_checkpoint 0 ?_, ⟨not_fills ?_, fun _ => ⟨id, fun _ => trivial⟩⟩, safe_checkpoint 0 ?_,
    fun _ => ⟨fun key beyond _ => ?_, ?_⟩, safe_close ?_, trivial⟩
  case refine_9 =>
    -- no key written so far is beyond the stop
    have frame : ∀ (t : Traced (RecencyCache PageId Page)) (call : StoreCall),
        (∀ op ∈ call.writes, op.record.key < compactionStop) →
        (t.step Extern.literal call).map key = t.map key := fun t call below =>
      batchMap_of_not_mem _ (fun op member same => absurd (same ▸ beyond)
        (not_le.mpr (below op member))) _ _
    rw [frame, frame, frame, frame, frame, frame, frame, frame]
    all_goals simp only [StoreCall.writes, List.mem_cons, List.not_mem_nil, or_false, forall_eq,
      false_imp_iff, implies_true, forall_eq_or_imp]
    all_goals decide +kernel
  all_goals decide +kernel

/-- Four tables, the oldest of which holds the first key beyond the stop. -/
def fourTables : List StoreCall :=
  [.write (.set 0 compactionStop [1]), .checkpoint 0, .write (.set 0 [1] [1]), .checkpoint 0,
    .write (.set 0 [2] [2]), .checkpoint 0, .write (.set 0 [3] [3]), .checkpoint 0]

/-- A compaction loses a key beyond its stop, and no read returns after a `set` that
fills the memtable. -/
theorem not_agrees_run :
    (¬ ∀ t ∈ Run.states (step Extern.literal)
        { store := (start {} : Store (RecencyCache PageId Page)) } (fourTables ++ [.compact]),
      Agrees Extern.literal t) ∧
    ¬ ∀ t ∈ Run.states (step Extern.literal)
        { store := (start { memtableSize := 1 } : Store (RecencyCache PageId Page)) }
        [.write (.set 0 [1] [1])], Agrees Extern.literal t := by
  constructor
  · intro agrees
    have last := agrees _ (Run.foldl_mem_states _ _) compactionStop
    revert last
    decide +kernel
  · intro agrees
    have last := agrees _ (Run.foldl_mem_states _ _) [1]
    revert last
    decide +kernel

end Traced

end Store

end NovaRuntime.Storage
