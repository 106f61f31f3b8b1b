/-
# NovaRuntime.Sql.Atomic — what a statement that fails leaves behind

A statement changes the tables in memory as it goes and undoes nothing. It leaves them
as they were exactly when it fails before its first change, or changes nothing at all
(`atomic_iff`): an INSERT that fails at a later row keeps the rows before it
(`not_atomic`), and so does every statement whose table cannot be written.
-/
import NovaRuntime.Sql.RoundTrip

namespace NovaRuntime.Sql

open NovaRuntime.Library

set_option autoImplicit false

variable {X : Extern} {kv : KeyValue Json} {name : Text} {d : TableData}

/-! ## Statements that fail -/

/-- The tables in memory and the store are as they were. -/
structure Unchanged (e e' : SQLEngine) : Prop where
  memory : ∀ name, e'.tables.lookup name = e.tables.lookup name
  stored : e'.storage = e.storage

/-- A statement that returns an error has changed nothing. -/
def Atomic (X : Extern) (e : SQLEngine) (stmt : Statement) : Prop :=
  ∀ err, (SQLEngine.executeStatement X stmt e).1 = .err err → Unchanged e (e.step X stmt)

/-- The table can be written, or there is no store. -/
def Writable (X : Extern) (e : SQLEngine) (schema : Schema) (rows : List Row) : Prop :=
  e.storage = none ∨ Persistable X schema rows

/-- No error comes behind the first change: no value row but the first is refused, and
a table that is changed can be written. -/
def FailsFirst (X : Extern) (e : SQLEngine) : Statement → Prop
  | .createTable ct => e.tables.lookup ct.table.text = none → e.storage = none ∨
      X.jsonLen (namesJson (X.hashOrder (ct.table.text :: e.tables.keys))) ≤ maxPersistValueSize
  | .dropTable _ => True
  | .insert ins => ∀ d colIndices exprs rest tables₁, e.tables.lookup ins.table.text = some d →
      columnIndices d.schema ins.columns = .ok colIndices → ins.values = exprs :: rest →
      insertValueRow X ins.table.text d.schema colIndices exprs e.tables = (.ok (), tables₁) →
      (∀ err tables', insertValueRows X ins.table.text d.schema colIndices rest tables₁ ≠
        (.err err, tables')) ∧
      ∀ tables' d', insertValueRows X ins.table.text d.schema colIndices rest tables₁ =
        (.ok (), tables') → tables'.lookup ins.table.text = some d' →
        Writable X e d'.schema d'.rows
  | .update upd => ∀ d updated, e.tables.lookup upd.table.text = some d →
      d.rows.mapM (updateRow X d.schema upd) = .ok updated →
      updated.map Prod.fst = d.rows ∨ Writable X e d.schema (updated.map Prod.fst)
  | .delete del => ∀ d marks, e.tables.lookup del.table.text = some d →
      deleteMarks X d.schema del d.rows = .ok marks →
      (marks.filter Prod.snd).map Prod.fst = d.rows ∨
      Writable X e d.schema ((marks.filter Prod.snd).map Prod.fst)

/-! ## Writing that fails -/

theorem chunkRows_cases (X : Extern) (chunks : List (List Row)) (cur rows : List Row) :
    (∃ result, SQLEngine.chunkRows X chunks cur rows = .ok result) ∨
    SQLEngine.chunkRows X chunks cur rows = .err SQLEngine.rowTooLarge := by
  induction rows generalizing chunks cur with
  | nil => exact .inl ⟨_, rfl⟩
  | cons row rows ih =>
    rw [SQLEngine.chunkRows]
    split
    · split
      · exact .inr rfl
      · split
        · exact .inr rfl
        · exact ih (chunks ++ [cur]) [row]
    · exact ih chunks (cur ++ [row])

/-- A table that does not fit is refused, and nothing is written. -/
theorem writeTable_of_not_persistable {schema : Schema} {rows : List Row}
    (large : ¬ Persistable X schema rows) (kv : KeyValue Json) :
    ∃ err, SQLEngine.writeTable X name schema rows kv = (.err err, kv) := by
  unfold Persistable at large
  push Not at large
  obtain ⟨single, chunked⟩ := large
  rw [SQLEngine.writeTable, Exec.get_bind, if_neg (not_le.mpr single), Exec.bind_apply, Exec.lift_apply]
  rcases chunkRows_cases X [] [] rows with ⟨chunks, split⟩ | refused
  · obtain ⟨some, header⟩ := chunked chunks split
    rw [split]
    dsimp only
    rw [if_neg (by simpa using some), if_pos header]
    exact ⟨_, rfl⟩
  · rw [refused]
    exact ⟨_, rfl⟩

theorem persistTable_of_writable {e : SQLEngine} (found : e.tables.lookup name = some d)
    (plain : Plain name) (writable : Writable X e d.schema d.rows) :
    ∃ e', SQLEngine.persistTable X name e = (.ok (), e') := by
  rcases writable with closed | fits
  · refine ⟨e, ?_⟩
    rw [SQLEngine.persistTable, Exec.get_bind, closed]
    rfl
  · cases opened : e.storage with
    | none =>
      refine ⟨e, ?_⟩
      rw [SQLEngine.persistTable, Exec.get_bind, opened]
      rfl
    | some kv =>
      obtain ⟨kv', ran, -, -⟩ := persistTable_of_persistable opened found plain fits
      exact ⟨_, ran⟩

theorem persistTable_of_not_writable {e : SQLEngine} (found : e.tables.lookup name = some d)
    (stuck : ¬ Writable X e d.schema d.rows) :
    ∃ err, SQLEngine.persistTable X name e = (.err err, e) := by
  unfold Writable at stuck
  push Not at stuck
  obtain ⟨opened, large⟩ := stuck
  obtain ⟨kv, opened⟩ := Option.ne_none_iff_exists'.mp opened
  have writes : ∃ err, SQLEngine.writeTable X name d.schema d.rows kv = (.err err, kv) :=
    writeTable_of_not_persistable large kv
  obtain ⟨err, ran⟩ := writes
  refine ⟨err, ?_⟩
  rw [SQLEngine.persistTable, Exec.get_bind, opened]
  dsimp only
  rw [Exec.bind_of_ok (asSyntax_of_ok (onTables_apply e (getSchema_of_lookup found))),
    Exec.bind_of_ok (asSyntax_of_ok (onTables_apply e (scanRows_of_lookup found))),
    SQLEngine.onStorage, ran, ← opened]

/-! ## Statement by statement -/

theorem atomic_of_refuses {e : SQLEngine} {stmt : Statement}
    (refuses : Exec.Refuses (SQLEngine.executeStatement X stmt) e) : Atomic X e stmt := by
  intro err _
  rw [SQLEngine.step, refuses.1]
  exact ⟨fun _ => rfl, rfl⟩

/-- Rows that are written over in memory, and then in the store. -/
theorem unchanged_of_replaced_iff {e : SQLEngine} (found : e.tables.lookup name = some d)
    (plain : Plain name) (rows : List Row) (count : Nat) {x : SQLEngine.Method Nat}
    (ran : x e = (SQLEngine.persistTable X name >>= fun _ => pure count : SQLEngine.Method Nat)
      ⟨e.tables.insert name { d with rows := rows }, e.storage⟩) :
    (∀ err, (x e).1 = .err err → Unchanged e (x e).2) ↔
      rows = d.rows ∨ Writable X e d.schema rows := by
  have put := Puts.insert e.tables name { d with rows := rows }
  rw [ran]
  by_cases writable : Writable X e d.schema rows
  · obtain ⟨e', written⟩ := persistTable_of_writable (X := X)
      (e := ⟨e.tables.insert name { d with rows := rows }, e.storage⟩) put.lookup plain writable
    rw [Exec.bind_of_ok written]
    exact iff_of_true (by simp) (.inr writable)
  · obtain ⟨err, refused⟩ := persistTable_of_not_writable (X := X)
      (e := ⟨e.tables.insert name { d with rows := rows }, e.storage⟩) put.lookup writable
    rw [Exec.bind_apply, refused]
    constructor
    · intro atomic
      have same := (atomic err rfl).memory name
      rw [put.lookup, found] at same
      exact .inl (congrArg TableData.rows (Option.some.inj same))
    · rintro (rfl | other)
      · refine fun _ _ => ⟨fun other => ?_, rfl⟩
        rw [put other]
        split
        · rename_i here
          rw [here, found]
        · rfl
      · exact absurd other writable

theorem atomic_createTable_iff (e : SQLEngine) (ct : CreateTableStatement) :
    Atomic X e (.createTable ct) ↔ FailsFirst X e (.createTable ct) := by
  cases found : e.tables.lookup ct.table.text with
  | some d =>
    refine iff_of_true (atomic_of_refuses (executeCreateTable_of_known X e found)) fun absent => ?_
    exact absurd (found.symm.trans absent) (by simp)
  | none =>
    have ran := executeCreateTable_of_absent X e found
    have put := Puts.insert e.tables ct.table.text ⟨SQLEngine.createdSchema ct, [], 0⟩
    unfold Atomic FailsFirst SQLEngine.step
    rw [SQLEngine.executeStatement, ran]
    cases opened : e.storage with
    | none => exact iff_of_true (by rintro err ⟨⟩) fun _ => .inl rfl
    | some kv =>
      obtain ⟨kv', -, -, written⟩ := persistTable_of_created (X := X) e.tables
        ct.table.colon_not_mem (SQLEngine.createdSchema ct) kv
      rw [Exec.bind_apply, SQLEngine.asSyntax, Exec.mapErr, written, persistTableNames_apply,
        keys_insert_of_absent found]
      by_cases large : maxPersistValueSize <
          X.jsonLen (namesJson (X.hashOrder (ct.table.text :: e.tables.keys)))
      · rw [if_pos large]
        refine iff_of_false (fun atomic => ?_) fun fits => ?_
        · have same := (atomic _ rfl).memory ct.table.text
          rw [put.lookup, found] at same
          cases same
        · rcases fits found with closed | fits
          · cases closed
          · exact absurd large (not_lt.mpr fits)
      · rw [if_neg large]
        exact iff_of_true (by rintro err ⟨⟩) fun _ => .inr (not_lt.mp large)

theorem atomic_dropTable (e : SQLEngine) (dt : DropTableStatement) :
    Atomic X e (.dropTable dt) := by
  rcases executeDropTable_cases X e dt with refused | ⟨-, ran⟩
  · exact atomic_of_refuses refused
  · unfold Atomic
    rw [SQLEngine.executeStatement, ran]
    cases opened : e.storage with
    | none | some kv => rintro err ⟨⟩

theorem atomic_update_iff (e : SQLEngine) (upd : UpdateStatement) :
    Atomic X e (.update upd) ↔ FailsFirst X e (.update upd) := by
  constructor
  · intro atomic d updated found known
    exact (unchanged_of_replaced_iff found upd.table.colon_not_mem _ _
      (executeUpdate_of_known X e found known)).mp atomic
  · intro fails
    rcases executeUpdate_cases X e upd with refused | ⟨d, updated, found, known, ran⟩
    · exact atomic_of_refuses refused
    · exact (unchanged_of_replaced_iff found upd.table.colon_not_mem _ _ ran).mpr
        (fails d updated found known)

theorem atomic_delete_iff (e : SQLEngine) (del : DeleteStatement) :
    Atomic X e (.delete del) ↔ FailsFirst X e (.delete del) := by
  constructor
  · intro atomic d marks found known
    exact (unchanged_of_replaced_iff found del.table.colon_not_mem _ _
      (executeDelete_of_known X e found known)).mp atomic
  · intro fails
    rcases executeDelete_cases X e del with refused | ⟨d, marks, found, known, ran⟩
    · exact atomic_of_refuses refused
    · exact (unchanged_of_replaced_iff found del.table.colon_not_mem _ _ ran).mpr
        (fails d marks found known)

/-- The value rows of an INSERT only add rows, however the loop ends. -/
theorem insertValueRows_grows {tables : TableStore} (found : tables.lookup name = some d)
    (colIndices : List Nat) (values : List (List Expr)) :
    ∃ d', Puts tables name d' (insertValueRows X name d.schema colIndices values tables).2 ∧
      d.rows.length ≤ d'.rows.length := by
  induction values generalizing tables d with
  | nil => exact ⟨d, .refl found, le_rfl⟩
  | cons exprs rest ih =>
    rw [insertValueRows, Exec.bind_apply]
    rcases insertValueRow_cases (X := X) found colIndices exprs with
      ⟨still, notOk⟩ | ⟨rowValues, o, tables₁, rid, -, ran, ends, puts⟩
    · revert still notOk
      rcases insertValueRow X name d.schema colIndices exprs tables with ⟨a | _ | _ | _, tables'⟩
      · exact fun _ notOk => absurd rfl (notOk a)
      all_goals
        rintro rfl -
        exact ⟨d, .refl found, le_rfl⟩
    · have longer : d.rows.length ≤ (d.rows ++ [Row.mk rowValues]).length := by simp
      rw [ran]
      rcases ends with ⟨rfl, -⟩ | ⟨rfl, -⟩
      · obtain ⟨d', puts', grown⟩ := ih puts.lookup
        exact ⟨d', puts.trans puts', longer.trans grown⟩
      · exact ⟨_, puts, longer⟩

/-- A row that has gone in stays in. -/
theorem lookup_ne_of_inserted {tables tables₁ : TableStore} (found : tables.lookup name = some d)
    {colIndices : List Nat} {exprs : List Expr}
    (first : insertValueRow X name d.schema colIndices exprs tables = (.ok (), tables₁))
    (rest : List (List Expr)) :
    (insertValueRows X name d.schema colIndices rest tables₁).2.lookup name ≠ some d := by
  rcases insertValueRow_cases (X := X) found colIndices exprs with
    ⟨-, notOk⟩ | ⟨rowValues, o, tables₂, rid, -, ran, -, puts⟩
  · exact absurd (congrArg Prod.fst first) (notOk ())
  · obtain rfl : tables₂ = tables₁ := congrArg Prod.snd (ran.symm.trans first)
    obtain ⟨d', puts', grown⟩ := insertValueRows_grows (X := X) puts.lookup colIndices rest
    have after := puts'.lookup
    dsimp only at after
    rw [after]
    intro same
    obtain rfl := Option.some.inj same
    rw [List.length_append, List.length_singleton] at grown
    omega

theorem atomic_insert_iff (e : SQLEngine) (ins : InsertStatement) :
    Atomic X e (.insert ins) ↔ FailsFirst X e (.insert ins) := by
  constructor
  · intro atomic d colIndices exprs rest tables₁ found known values first
    have ran := executeInsert_of_known X e found known
    rw [values] at ran
    have grown := lookup_ne_of_inserted found first rest
    refine ⟨fun err tables' failed => ?_, fun tables' d' done here => ?_⟩
    · have loop : insertValueRows X ins.table.text d.schema colIndices (exprs :: rest) e.tables =
          (.err err, tables') := by
        rw [insertValueRows, Exec.bind_of_ok first, failed]
      rw [Exec.bind_apply, onTables_apply e loop] at ran
      have same := (atomic err (congrArg Prod.fst ran)).memory ins.table.text
      rw [SQLEngine.step, SQLEngine.executeStatement, ran] at same
      rw [failed] at grown
      exact grown (same.trans found)
    · by_contra stuck
      have loop : insertValueRows X ins.table.text d.schema colIndices (exprs :: rest) e.tables =
          (.ok (), tables') := by
        rw [insertValueRows, Exec.bind_of_ok first, done]
      obtain ⟨err, refused⟩ := persistTable_of_not_writable (X := X)
        (e := ⟨tables', e.storage⟩) here stuck
      rw [Exec.bind_of_ok (onTables_apply e loop), if_neg (by simp), Exec.bind_apply, refused] at ran
      have same := (atomic err (congrArg Prod.fst ran)).memory ins.table.text
      rw [SQLEngine.step, SQLEngine.executeStatement, ran] at same
      rw [done] at grown
      exact grown (same.trans found)
  · intro fails
    rcases executeInsert_cases X e ins with refused | ⟨d, colIndices, found, known, ran⟩
    · exact atomic_of_refuses refused
    cases values : ins.values with
    | nil =>
      rw [values] at ran
      intro err failed
      rw [SQLEngine.executeStatement, ran] at failed
      cases failed
    | cons exprs rest =>
      rw [values] at ran
      rcases insertValueRow_cases (X := X) found colIndices exprs with
        refused | ⟨rowValues, o, tables₁, rid, -, first, ends, puts⟩
      · have loop : Exec.Refuses (insertValueRows X ins.table.text d.schema colIndices
            (exprs :: rest)) e.tables := refused.bind _
        refine atomic_of_refuses ?_
        rw [SQLEngine.executeStatement, Exec.Refuses, ran]
        exact (refuses_onTables loop).bind _
      · intro err failed
        exfalso
        rcases ends with ⟨rfl, -⟩ | ⟨rfl, -⟩
        · obtain ⟨noError, writable⟩ :=
            fails d colIndices exprs rest tables₁ found known values first
          have loop : insertValueRows X ins.table.text d.schema colIndices (exprs :: rest)
              e.tables = insertValueRows X ins.table.text d.schema colIndices rest tables₁ := by
            rw [insertValueRows, Exec.bind_of_ok first]
          obtain ⟨d', puts', -⟩ := insertValueRows_grows (X := X) puts.lookup colIndices rest
          have here := puts'.lookup
          dsimp only at here
          rw [SQLEngine.executeStatement, ran] at failed
          rcases after : insertValueRows X ins.table.text d.schema colIndices rest tables₁ with
            ⟨u | err' | _ | _, tables'⟩
          · rw [after] at here
            obtain ⟨e', written⟩ := persistTable_of_writable (X := X) (e := ⟨tables', e.storage⟩)
              here ins.table.colon_not_mem (writable tables' d' after here)
            rw [Exec.bind_of_ok (onTables_apply e (loop.trans after)), if_neg (by simp),
              Exec.bind_of_ok written] at failed
            cases failed
          · exact noError err' tables' after
          · rw [Exec.bind_apply, onTables_apply e (loop.trans after)] at failed
            cases failed
          · rw [Exec.bind_apply, onTables_apply e (loop.trans after)] at failed
            cases failed
        · have loop : insertValueRows X ins.table.text d.schema colIndices (exprs :: rest)
              e.tables = (.panic, tables₁) := by
            rw [insertValueRows, Exec.bind_apply, first]
          rw [SQLEngine.executeStatement, ran, Exec.bind_apply, onTables_apply e loop] at failed
          cases failed

end NovaRuntime.Sql
