/-
# NovaRuntime.Sql.AutoIncrement — the identifiers a table gives out

A row that leaves an AUTO_INCREMENT column out is given the counter of its table plus
one. The counter is raised by every row that goes in and by the explicit identifiers of
an INSERT, but not by those of an UPDATE; it is cast from and to `i64` without a check;
and it is not in the store, so a restart makes it anew from the rows that are left.

`Turn` records each value row that was evaluated, with the table as it was then.
`regular_run` says that the identifiers of a run are positive, new and increasing as long
as the counter stays where it belongs; `not_regular_run` gives an INSERT that moves it.
-/
import NovaRuntime.Sql.RoundTrip

namespace NovaRuntime.Sql

open NovaRuntime.Library

set_option autoImplicit false

variable {X : Extern} {name : Text} {tables : TableStore} {d : TableData}

/-! ## Casts -/

theorem toInt_toInt64 {n : UInt64} (small : n.toNat < 2 ^ 63) : n.toInt64.toInt = n.toNat := by
  have value : n.toBitVec.toNat = n.toNat := rfl
  have cond := BitVec.toInt_eq_toNat_cond n.toBitVec
  rw [value, if_pos (by omega)] at cond
  exact cond

theorem toUInt64_cases (v : Int64) : (v.toUInt64.toNat : Int) = v.toInt ∨
    v.toInt < 0 ∧ (v.toUInt64.toNat : Int) = v.toInt + 2 ^ 64 := by
  have value : v.toBitVec.toNat = v.toUInt64.toNat := rfl
  have same : v.toBitVec.toInt = v.toInt := rfl
  have bound := v.toUInt64.toNat_lt
  have cond := BitVec.toInt_eq_toNat_cond v.toBitVec
  rw [value, same] at cond
  split at cond <;> omega

theorem toInt_le_toUInt64 (v : Int64) : v.toInt ≤ v.toUInt64.toNat := by
  have cases := toUInt64_cases v
  omega

theorem toNat_succ {n : UInt64} (room : n.toNat + 1 < 2 ^ 64) : (n + 1).toNat = n.toNat + 1 := by
  rw [UInt64.toNat_add]
  exact Nat.mod_eq_of_lt room

theorem increment_of_room {n : UInt64} (room : n.toNat + 1 < 2 ^ 64) :
    increment X n = .ok (n + 1) := by
  rw [increment, if_neg]
  rintro ⟨-, full⟩
  omega

/-! ## The record of a run -/

/-- A value row that was evaluated: its table as it was then, and the identifier it was
given, if it went in with one. -/
structure Turn where
  table : Text
  before : TableData
  id : Option Int64

/-- The identifier of a row that is given one. -/
def generatedId (X : Extern) (d : TableData) (given : List (Option LiteralValue)) : Option Int64 :=
  if needsId d.schema given then (increment X d.nextRowId).elim (fun id => some id.toInt64) none
  else none

/-- The turns of the loop of an INSERT. -/
def turns (X : Extern) (name : Text) (schema : Schema) (colIndices : List Nat) :
    List (List Expr) → TableStore → List Turn
  | [], _ => []
  | exprs :: rest, tables =>
    match tables.lookup name, valueRow X schema colIndices exprs with
    | some d, .ok given =>
      match insertValueRow X name schema colIndices exprs tables with
      | (.ok _, tables') =>
        ⟨name, d, generatedId X d given⟩ :: turns X name schema colIndices rest tables'
      | _ => [⟨name, d, none⟩]
    | _, _ => []

def insertTurns (X : Extern) (e : SQLEngine) (ins : InsertStatement) : List Turn :=
  match e.tables.lookup ins.table.text with
  | some d => (columnIndices d.schema ins.columns).elim
      (fun colIndices => turns X ins.table.text d.schema colIndices ins.values e.tables) []
  | none => []

def statementTurns (X : Extern) (e : SQLEngine) : Statement → List Turn
  | .insert ins => insertTurns X e ins
  | .update _ => []
  | .delete _ => []
  | .createTable _ => []
  | .dropTable _ => []

/-- An engine, and the turns it has taken so far. -/
structure Watched where
  engine : SQLEngine
  log : List Turn

inductive Action where
  | statement (stmt : Statement)
  | restart

def Watched.step (X : Extern) (w : Watched) : Action → Watched
  | .statement stmt => ⟨w.engine.step X stmt, w.log ++ statementTurns X w.engine stmt⟩
  | .restart => ⟨(reopen X w.engine).elim id w.engine, w.log⟩

/-- An AUTO_INCREMENT column of the table holds the identifier. -/
def HoldsId (d : TableData) (v : Int64) : Prop :=
  ∃ row ∈ d.rows, ∃ (idx : Nat) (col : ColumnInfo), d.schema.columns[idx]? = some col ∧
    col.autoIncrement = true ∧ row.values[idx]? = some (some (.integer v))

/-- The identifiers are positive, new and increasing, and the counter has room. -/
structure Regular (log : List Turn) : Prop where
  room : ∀ t ∈ log, t.before.nextRowId.toNat + 1 < 2 ^ 64
  positive : ∀ t ∈ log, ∀ i, t.id = some i → 0 < i.toInt
  fresh : ∀ t ∈ log, ∀ i, t.id = some i → ¬ HoldsId t.before i
  increasing : log.Pairwise fun t u => t.table = u.table →
    ∀ i j, t.id = some i → u.id = some j → i.toInt < j.toInt

/-- The counter can be moved on by one, and stays an `i64` where an identifier is made of it. -/
def Turn.Roomy (t : Turn) : Prop :=
  t.before.nextRowId.toNat + 1 < 2 ^ 64 ∧ (t.id.isSome = true → t.before.nextRowId.toNat + 1 < 2 ^ 63)

instance : DecidablePred Turn.Roomy := fun _ => inferInstanceAs (Decidable (_ ∧ (_ → _)))

/-- What the run needs of an action. DROP TABLE is not one of these runs. -/
def Tame (X : Extern) (w : Watched) : Action → Prop
  | .statement (.insert ins) => ∀ t ∈ insertTurns X w.engine ins, t.Roomy
  | .statement (.update upd) => ∀ d updated, w.engine.tables.lookup upd.table.text = some d →
      d.rows.mapM (updateRow X d.schema upd) = .ok updated →
      ∀ v, HoldsId { d with rows := updated.map Prod.fst } v → v.toInt ≤ d.nextRowId.toNat
  | .statement (.delete _) => True
  | .statement (.createTable _) => True
  | .statement (.dropTable _) => False
  | .restart => Stored X w.engine ∧ ∀ name d, w.engine.tables.lookup name = some d →
      (∀ v, HoldsId d v → 0 ≤ v.toInt) ∧
      ∀ t ∈ w.log, t.table = name → ∀ i, t.id = some i →
        i.toInt ≤ d.rows.length ∨ ∃ v, HoldsId d v ∧ i.toInt ≤ v.toInt

/-! ## One value row -/

/-- The counters are at or above every identifier, in the tables and in the record. -/
structure Level (tables : TableStore) (log : List Turn) : Prop where
  counted : ∀ name d, tables.lookup name = some d → ∀ v, HoldsId d v → v.toInt ≤ d.nextRowId.toNat
  known : ∀ t ∈ log, ∀ i, t.id = some i →
    ∃ d, tables.lookup t.table = some d ∧ i.toInt ≤ d.nextRowId.toNat
  regular : Regular log

theorem explicitId_covers {schema : Schema} {rowValues : List (Option LiteralValue)} {idx : Nat}
    {col : ColumnInfo} {v : Int64} (column : schema.columns[idx]? = some col)
    (auto : col.autoIncrement = true) (value : rowValues[idx]? = some (some (.integer v))) :
    v.toUInt64 ∈ (schema.columns.zip rowValues).flatMap explicitId := by
  refine List.mem_flatMap.mpr ⟨(col, some (.integer v)), ?_, ?_⟩
  · exact List.mem_iff_getElem?.mpr ⟨idx, List.getElem?_zip_eq_some.mpr ⟨column, value⟩⟩
  · simp [explicitId, auto]

theorem Regular.snoc {log : List Turn} (regular : Regular log) {t : Turn}
    (room : t.before.nextRowId.toNat + 1 < 2 ^ 64)
    (given : ∀ i, t.id = some i → 0 < i.toInt ∧ ¬ HoldsId t.before i ∧
      ∀ u ∈ log, u.table = t.table → ∀ j, u.id = some j → j.toInt < i.toInt) :
    Regular (log ++ [t]) where
  room u member := by
    rcases List.mem_append.mp member with old | new
    · exact regular.room u old
    · rw [List.mem_singleton.mp new]
      exact room
  positive u member i gave := by
    rcases List.mem_append.mp member with old | new
    · exact regular.positive u old i gave
    · rw [List.mem_singleton.mp new] at gave
      exact (given i gave).1
  fresh u member i gave := by
    rcases List.mem_append.mp member with old | new
    · exact regular.fresh u old i gave
    · obtain rfl := List.mem_singleton.mp new
      exact (given i gave).2.1
  increasing := by
    refine List.pairwise_append.mpr ⟨regular.increasing, List.pairwise_singleton _ _, ?_⟩
    intro u old v new same i j gave gave'
    obtain rfl := List.mem_singleton.mp new
    exact (given j gave').2.2 u old same i gave

namespace Level

variable {log : List Turn}

/-- A turn that puts no row in. -/
theorem pass (level : Level tables log) (d : TableData) (room : d.nextRowId.toNat + 1 < 2 ^ 64) :
    Level tables (log ++ [⟨name, d, none⟩]) where
  counted := level.counted
  known t member i given := by
    rcases List.mem_append.mp member with old | new
    · exact level.known t old i given
    · rw [List.mem_singleton.mp new] at given
      cases given
  regular := level.regular.snoc room (by rintro i ⟨⟩)

/-- A turn that puts a row in, with an identifier or without. -/
theorem advance (level : Level tables log) (found : tables.lookup name = some d)
    {rowValues : List (Option LiteralValue)} {rid : UInt64} {id : Option Int64}
    (roomy : Turn.Roomy ⟨name, d, id⟩) (numbered : ∀ i, id = some i → i = (d.nextRowId + 1).toInt64)
    (raised : Raised (d.nextRowId + 1) ((d.schema.columns.zip rowValues).flatMap explicitId) rid)
    {tables' : TableStore}
    (puts : Puts tables name { d with rows := d.rows ++ [⟨rowValues⟩], nextRowId := rid } tables') :
    Level tables' (log ++ [⟨name, d, id⟩]) := by
  obtain ⟨room, small⟩ := roomy
  have above : d.nextRowId.toNat + 1 ≤ rid.toNat := by
    have kept := raised.kept
    rwa [toNat_succ room] at kept
  have value : ∀ i, id = some i → i.toInt = d.nextRowId.toNat + 1 := by
    intro i given
    have next : (d.nextRowId + 1).toNat = d.nextRowId.toNat + 1 := toNat_succ room
    have low : d.nextRowId.toNat + 1 < 2 ^ 63 := small (by rw [given]; rfl)
    rw [numbered i given, toInt_toInt64 (by omega), next]
    omega
  refine ⟨fun other d' here v holds => ?_, fun t member i given => ?_, ?_⟩
  · rw [puts other] at here
    split at here
    · cases here
      obtain ⟨row, member, idx, col, column, auto, held⟩ := holds
      rcases List.mem_append.mp member with old | new
      · have below := level.counted name d found v ⟨row, old, idx, col, column, auto, held⟩
        show v.toInt ≤ rid.toNat
        omega
      · obtain rfl := List.mem_singleton.mp new
        have covered := raised.covers _ (explicitId_covers column auto held)
        have cast := toInt_le_toUInt64 v
        show v.toInt ≤ rid.toNat
        omega
    · exact level.counted other d' here v holds
  · rcases List.mem_append.mp member with old | new
    · obtain ⟨d', here, below⟩ := level.known t old i given
      by_cases same : t.table = name
      · rw [same, found] at here
        cases here
        refine ⟨_, (puts t.table).trans (if_pos same), ?_⟩
        show i.toInt ≤ rid.toNat
        omega
      · exact ⟨d', (puts t.table).trans ((if_neg same).trans here), below⟩
    · obtain rfl := List.mem_singleton.mp new
      refine ⟨_, puts.lookup, ?_⟩
      have number := value i given
      show i.toInt ≤ rid.toNat
      omega
  · refine level.regular.snoc room fun i given => ?_
    have number := value i given
    refine ⟨by omega, fun holds => ?_, fun t old same j gave => ?_⟩
    · have below := level.counted name d found i holds
      omega
    · obtain ⟨d', here, below⟩ := level.known t old j gave
      rw [same, found] at here
      cases here
      omega

end Level

/-- **Step: the loop of an INSERT**, turn by turn. -/
theorem Level.insertValueRows {log : List Turn} (level : Level tables log)
    (found : tables.lookup name = some d) {colIndices : List Nat} {values : List (List Expr)}
    (tame : ∀ t ∈ turns X name d.schema colIndices values tables, t.Roomy) :
    Level (Sql.insertValueRows X name d.schema colIndices values tables).2
      (log ++ turns X name d.schema colIndices values tables) := by
  induction values generalizing tables d log with
  | nil =>
    rw [turns, List.append_nil]
    exact level
  | cons exprs rest ih =>
    rw [Sql.insertValueRows, Exec.bind_apply]
    rw [turns, found] at tame ⊢
    rcases insertValueRow_cases (X := X) found colIndices exprs with
      ⟨still, notOk⟩ | ⟨rowValues, o, tables', rid, accepted, ran, ends, puts⟩
    · -- the row is refused, and the loop ends there
      revert still notOk tame
      rcases insertValueRow X name d.schema colIndices exprs tables with ⟨a | _ | _ | _, tables'⟩
      · exact fun _ _ notOk => absurd rfl (notOk a)
      all_goals
        rintro tame rfl -
        revert tame
        cases valueRow X d.schema colIndices exprs with
        | ok given => exact fun tame => level.pass d (tame _ (List.mem_singleton.mpr rfl)).1
        | _ =>
          intro _
          rw [List.append_nil]
          exact level
    · obtain ⟨given, evaluated, numbered⟩ := accepted.given
      rw [evaluated, ran] at tame
      rw [evaluated, ran]
      rcases ends with ⟨rfl, next, counted, raised⟩ | ⟨rfl, overflow⟩
      · dsimp only at tame ⊢
        have roomy := tame _ (.head _)
        rw [increment_of_room roomy.1] at counted
        cases counted
        have numbered' : ∀ i, generatedId X d given = some i → i = (d.nextRowId + 1).toInt64 := by
          intro i gave
          rw [generatedId, increment_of_room roomy.1] at gave
          split at gave
          · exact (Option.some.inj gave).symm
          · cases gave
        have later := ih (level.advance found roomy numbered' raised puts) puts.lookup
          fun t member => tame t (.tail _ member)
        rw [List.append_assoc] at later
        exact later
      · dsimp only at tame
        have roomy := tame _ (.head _)
        rw [increment_of_room roomy.1] at overflow
        cases overflow

/-! ## The other actions -/

/-- A table whose rows are written over, with its counter. -/
theorem Level.puts {log : List Turn} (level : Level tables log) {tables' : TableStore}
    {d' : TableData} (puts : Puts tables name d' tables')
    (counted : ∀ v, HoldsId d' v → v.toInt ≤ d'.nextRowId.toNat)
    (kept : ∀ d, tables.lookup name = some d → d.nextRowId.toNat ≤ d'.nextRowId.toNat) :
    Level tables' log where
  counted other e here v holds := by
    rw [puts other] at here
    split at here
    · cases here
      exact counted v holds
    · exact level.counted other e here v holds
  known t member i given := by
    obtain ⟨e, here, below⟩ := level.known t member i given
    by_cases same : t.table = name
    · rw [same] at here
      have higher := kept e here
      exact ⟨d', (puts t.table).trans (if_pos same), by omega⟩
    · exact ⟨e, (puts t.table).trans ((if_neg same).trans here), below⟩
  regular := level.regular

section Fold

variable {A : Type} {f : UInt64 → A → UInt64} (above : ∀ m a, m.toNat ≤ (f m a).toNat)
include above

theorem le_foldl (xs : List A) (start : UInt64) : start.toNat ≤ (xs.foldl f start).toNat := by
  induction xs generalizing start with
  | nil => exact le_rfl
  | cons x xs ih => exact (above start x).trans (ih (f start x))

/-- A fold that never falls stays above what one item raises it to. -/
theorem le_foldl_of_mem {xs : List A} {a : A} (member : a ∈ xs) {n : Nat}
    (raises : ∀ m, n ≤ (f m a).toNat) (start : UInt64) : n ≤ (xs.foldl f start).toNat := by
  induction xs generalizing start with
  | nil => cases member
  | cons x xs ih =>
    rw [List.foldl_cons]
    rcases List.mem_cons.mp member with rfl | later
    · exact (raises start).trans (le_foldl above xs (f start a))
    · exact ih later (f start x)

end Fold

theorem le_maxId {rows : List Row} {idx : Nat} {row : Row} {v : Int64} (member : row ∈ rows)
    (value : row.values[idx]? = some (some (.integer v))) :
    v.toUInt64.toNat ≤ (SQLEngine.maxId rows idx).toNat := by
  unfold SQLEngine.maxId
  refine le_foldl_of_mem (fun max row => ?_) member (fun max => ?_) 0
  · split
    · split
      · rename_i less
        exact (UInt64.lt_iff_toNat_lt.mp less).le
      · exact le_rfl
    · exact le_rfl
  · simp only [value]
    split
    · exact le_rfl
    · rename_i notLess
      exact not_lt.mp (UInt64.lt_iff_toNat_lt.not.mp notLess)

/-- The counter of a table that is loaded is at or above the identifiers in it. -/
theorem Restored.counted {schema : Schema} {rows : List Row} {rid : UInt64}
    (restored : Restored schema rows rid) (nonneg : ∀ v, HoldsId ⟨schema, rows, rid⟩ v → 0 ≤ v.toInt)
    (v : Int64) (holds : HoldsId ⟨schema, rows, rid⟩ v) : v.toInt ≤ rid.toNat := by
  obtain ⟨start, -, raised⟩ := restored
  have cast := toUInt64_cases v
  have low := nonneg v holds
  obtain ⟨row, member, idx, col, column, auto, value⟩ := holds
  have reached : v.toUInt64.toNat ≤ (SQLEngine.maxId rows idx).toNat := le_maxId member value
  have covered := raised.covers (SQLEngine.maxId rows idx) (List.mem_flatMap.mpr ⟨(col, idx),
    List.mem_zipIdx_iff_getElem?.mpr column, by simp [restoredId, auto]⟩)
  omega

/-- **Step: a restart** on a store that gives the tables, where the greatest identifiers
given out are still there or the rows are as many. -/
theorem Level.restart {w : Watched} (level : Level w.engine.tables w.log)
    (tame : Tame X w .restart) : Level (w.step X .restart).engine.tables w.log := by
  obtain ⟨stored, left⟩ := tame
  obtain ⟨tables', opened, loaded, others⟩ := stored.reopens
  rw [Watched.step, opened]
  show Level tables' w.log
  -- every table comes back with a counter made anew
  have back : ∀ name d', tables'.lookup name = some d' → ∃ d, w.engine.tables.lookup name = some d ∧
      d'.schema = d.schema ∧ d'.rows = d.rows ∧ Restored d.schema d.rows d'.nextRowId := by
    intro name d' here
    cases found : w.engine.tables.lookup name with
    | none => exact absurd (here.symm.trans (others name found)) (by simp)
    | some d =>
      obtain ⟨rid, restored, there⟩ := loaded name d found
      cases here.symm.trans there
      exact ⟨d, rfl, rfl, rfl, restored⟩
  refine ⟨fun name d' here v holds => ?_, fun t member i given => ?_, level.regular⟩
  · obtain ⟨d, found, schema, rows, restored⟩ := back name d' here
    obtain ⟨s, r, rid⟩ := d'
    obtain rfl : s = d.schema := schema
    obtain rfl : r = d.rows := rows
    exact restored.counted (fun u held => (left name d found).1 u held) v holds
  · obtain ⟨d, found, -⟩ := level.known t member i given
    obtain ⟨rid, restored, there⟩ := loaded t.table d found
    refine ⟨_, there, ?_⟩
    show i.toInt ≤ rid.toNat
    obtain ⟨nonneg, kept⟩ := left t.table d found
    rcases kept t member rfl i given with few | ⟨v, holds, below⟩
    · obtain ⟨start, length, raised⟩ := restored
      have higher := raised.kept
      omega
    · have counted : v.toInt ≤ rid.toNat := restored.counted nonneg v holds
      omega

theorem insertTurns_of_known {e : SQLEngine} {ins : InsertStatement} {colIndices : List Nat}
    (found : e.tables.lookup ins.table.text = some d)
    (known : columnIndices d.schema ins.columns = .ok colIndices) : insertTurns X e ins =
      turns X ins.table.text d.schema colIndices ins.values e.tables := by
  rw [insertTurns, found]
  dsimp only
  rw [known]
  rfl

/-- **Step: INSERT.** -/
theorem Level.insert {w : Watched} (level : Level w.engine.tables w.log) {ins : InsertStatement}
    (tame : Tame X w (.statement (.insert ins))) :
    Level (SQLEngine.executeInsert X ins w.engine).2.tables
      (w.log ++ insertTurns X w.engine ins) := by
  change ∀ t ∈ insertTurns X w.engine ins, t.Roomy at tame
  have go : ∀ d colIndices, w.engine.tables.lookup ins.table.text = some d →
      columnIndices d.schema ins.columns = .ok colIndices →
      Level (SQLEngine.executeInsert X ins w.engine).2.tables
        (w.log ++ insertTurns X w.engine ins) := by
    intro d colIndices found known
    rw [insertTurns_of_known found known] at tame
    rw [tables_executeInsert_of_known X w.engine found known, insertTurns_of_known found known]
    exact level.insertValueRows found tame
  rcases executeInsert_cases X w.engine ins with refused | ⟨d, colIndices, found, known, -⟩
  · -- the table or a column is not there, so no row was evaluated
    have still : insertTurns X w.engine ins = [] → Level (SQLEngine.executeInsert X ins w.engine).2.tables
        (w.log ++ insertTurns X w.engine ins) := by
      intro none
      rw [refused.1, none, List.append_nil]
      exact level
    cases found : w.engine.tables.lookup ins.table.text with
    | none => exact still (by simp only [insertTurns, found])
    | some d =>
      cases known : columnIndices d.schema ins.columns with
      | ok colIndices => exact go d colIndices found known
      | _ => exact still (by simp only [insertTurns, found, known, Outcome.elim])
  · exact go d colIndices found known

/-- **Step.** A tame action keeps the counters at or above every identifier. -/
theorem Level.step {w : Watched} (level : Level w.engine.tables w.log) {a : Action}
    (tame : Tame X w a) : Level (w.step X a).engine.tables (w.step X a).log := by
  cases a with
  | restart => exact level.restart tame
  | statement stmt =>
    cases stmt with
    | insert ins => exact level.insert tame
    | update upd =>
      simp only [Watched.step, statementTurns, List.append_nil]
      rcases tables_executeUpdate X w.engine upd with same | ⟨d, updated, found, ran, replaced⟩
      · exact same ▸ level
      · show Level (SQLEngine.executeUpdate X upd w.engine).2.tables w.log
        rw [replaced]
        refine level.puts (.insert _ _ _) (tame d updated found ran) fun d₁ here => ?_
        cases found.symm.trans here
        exact le_rfl
    | delete del =>
      simp only [Watched.step, statementTurns, List.append_nil]
      rcases tables_executeDelete X w.engine del with same | ⟨d, marks, found, ran, replaced⟩
      · exact same ▸ level
      · show Level (SQLEngine.executeDelete X del w.engine).2.tables w.log
        rw [replaced]
        refine level.puts (.insert _ _ _) (fun v holds => ?_) fun d₁ here => ?_
        · obtain ⟨row, member, column⟩ := holds
          exact level.counted _ d found v ⟨row, (deleteMarks_sublist ran).subset member, column⟩
        · cases found.symm.trans here
          exact le_rfl
    | createTable ct =>
      simp only [Watched.step, statementTurns, List.append_nil]
      rcases tables_executeCreateTable X w.engine ct with same | ⟨absent, made⟩
      · exact same ▸ level
      · show Level (SQLEngine.executeCreateTable X ct w.engine).2.tables w.log
        rw [made]
        refine level.puts (.insert _ _ _) (fun v holds => ?_) fun d₁ here => ?_
        · obtain ⟨row, member, -⟩ := holds
          cases member
        · exact absurd (absent.symm.trans here) (by simp)
    | dropTable dt => cases tame

/-- **The identifiers of a run are positive, new and increasing**, and no counter overflows. -/
theorem regular_run (X : Extern) (storage : Option (KeyValue Json)) (actions : List Action)
    (tame : Run.Each (Watched.step X) (Tame X) ⟨⟨∅, storage⟩, []⟩ actions) :
    ∀ w ∈ Run.states (Watched.step X) ⟨⟨∅, storage⟩, []⟩ actions, Regular w.log := by
  intro w member
  have level := Run.Each.invariant (I := fun w : Watched => Level w.engine.tables w.log)
    (fun w a held meets => held.step meets)
    ⟨by rintro name d ⟨⟩, by simp, by simp, by simp, by simp, .nil⟩ tame w member
  exact level.regular

/-- `CREATE TABLE c (id INTEGER AUTO_INCREMENT, v INTEGER)`. -/
def numberedTable : Identifier := ⟨['c'], by decide⟩

def createNumbered : Action :=
  .statement (.createTable ⟨numberedTable, [⟨['i', 'd'], .integer, true, none, false, false, true⟩,
    ⟨['v'], .integer, true, none, false, false, false⟩]⟩)

/-- `INSERT INTO c (v) VALUES (0)`. -/
def insertNext : Action :=
  .statement (.insert ⟨numberedTable, [['v']], [[.literal (.integer 0)]]⟩)

/-- `INSERT INTO c (id) VALUES (i)`. -/
def insertId (i : Int64) : Action :=
  .statement (.insert ⟨numberedTable, [['i', 'd']], [[.literal (.integer i)]]⟩)

theorem regular_run_sample : Run.Always (Watched.step .ascii) (fun w => Regular w.log)
    ⟨⟨∅, none⟩, []⟩ [createNumbered, insertNext, insertId 7, insertNext] :=
  regular_run .ascii none _ ⟨trivial,
    show ∀ t ∈ insertTurns .ascii _ _, t.Roomy by decide +kernel,
    show ∀ t ∈ insertTurns .ascii _ _, t.Roomy by decide +kernel,
    show ∀ t ∈ insertTurns .ascii _ _, t.Roomy by decide +kernel, trivial⟩

/-- **A negative identifier turns the counter**: it is cast to an `u64` near the top, and
the next identifier is negative. -/
theorem not_regular_run : ¬ ∀ (X : Extern) (storage : Option (KeyValue Json))
    (actions : List Action), ∀ w ∈ Run.states (Watched.step X) ⟨⟨∅, storage⟩, []⟩ actions,
      Regular w.log := by
  intro all
  have regular := all .ascii none [createNumbered, insertId (-5), insertNext] _
    (Run.foldl_mem_states _ _)
  have given : ∃ t ∈ ([createNumbered, insertId (-5), insertNext].foldl (Watched.step .ascii)
      ⟨⟨∅, none⟩, []⟩).log, t.id = some (-4) := by decide +kernel
  obtain ⟨t, member, negative⟩ := given
  exact absurd (regular.positive t member (-4) negative) (by decide)

end NovaRuntime.Sql
