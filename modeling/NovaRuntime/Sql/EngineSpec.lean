/-
# NovaRuntime.Sql.EngineSpec — what a statement does to the tables in memory

Writing to the store leaves the tables alone (`tables_persistTable` and its siblings).
What is left of a statement is a change of one table: `Puts tables name d tables'`
says that `tables'` is `tables` with `d` under `name`. A value row of an INSERT either
changes nothing or puts one row behind the others, after it has passed both checks
(`insertValueRow_cases`).
-/
import NovaRuntime.Sql.Engine

namespace NovaRuntime.Sql

open NovaRuntime.Library

set_option autoImplicit false

variable {X : Extern} {name : Text} {tables : TableStore} {d : TableData}

/-! ## Changes of one table -/

/-- The tables with `d` under `name`. -/
def Puts (tables : TableStore) (name : Text) (d : TableData) (tables' : TableStore) : Prop :=
  ∀ other, tables'.lookup other = if other = name then some d else tables.lookup other

namespace Puts

theorem insert (tables : TableStore) (name : Text) (d : TableData) :
    Puts tables name d (tables.insert name d) :=
  fun other => TableStore.lookup_insert_ite tables name other d

theorem refl (found : tables.lookup name = some d) : Puts tables name d tables := by
  intro other
  split
  · rename_i here
    rw [here, found]
  · rfl

theorem trans {tables' tables'' : TableStore} {d' : TableData} (first : Puts tables name d tables')
    (next : Puts tables' name d' tables'') : Puts tables name d' tables'' := by
  intro other
  rw [next other, first other]
  split <;> rfl

theorem lookup {tables' : TableStore} (puts : Puts tables name d tables') :
    tables'.lookup name = some d := by
  rw [puts name, if_pos rfl]

end Puts

/-! ## Calls on the tables -/

/-- The counter is raised to the greatest of some identifiers, where it is below it. -/
structure Raised (start : UInt64) (ids : List UInt64) (rid : UInt64) : Prop where
  kept : start.toNat ≤ rid.toNat
  covers : ∀ id ∈ ids, id.toNat ≤ rid.toNat
  source : rid = start ∨ rid ∈ ids

namespace Raised

theorem refl (start : UInt64) : Raised start [] start := ⟨le_rfl, by simp, .inl rfl⟩

theorem trans {start mid rid : UInt64} {ids ids' : List UInt64} (first : Raised start ids mid)
    (next : Raised mid ids' rid) : Raised start (ids ++ ids') rid where
  kept := first.kept.trans next.kept
  covers id member := by
    rcases List.mem_append.mp member with here | later
    · exact (first.covers id here).trans next.kept
    · exact next.covers id later
  source := by
    rcases next.source with rfl | later
    · exact first.source.imp_right (List.mem_append_left ids')
    · exact .inr (List.mem_append_right ids later)

end Raised

theorem increment_cases (X : Extern) (n : UInt64) :
    increment X n = .panic ∨ ∃ m, increment X n = .ok m := by
  rw [increment]
  split
  · exact .inl rfl
  · exact .inr ⟨_, rfl⟩

section

variable (found : tables.lookup name = some d)

include found

theorem getSchema_of_lookup : TableStore.getSchema name tables = (.ok d.schema, tables) := by
  rw [TableStore.getSchema, Exec.bind_of_ok (TableStore.data_of_lookup found), Exec.pure_apply]

theorem scanRows_of_lookup : TableStore.scanRows name tables = (.ok d.rows, tables) := by
  rw [TableStore.scanRows, Exec.bind_of_ok (TableStore.data_of_lookup found), Exec.pure_apply]

theorem currentRowId_of_lookup : TableStore.currentRowId name tables = (.ok d.nextRowId, tables) := by
  rw [TableStore.currentRowId, Exec.bind_of_ok (TableStore.data_of_lookup found), Exec.pure_apply]

theorem replaceRows_of_lookup (rows : List Row) : TableStore.replaceRows name rows tables =
      (.ok (), tables.insert name { d with rows := rows }) := by
  rw [TableStore.replaceRows, Exec.bind_of_ok (TableStore.data_of_lookup found)]
  rfl

theorem ensureNextRowId_of_lookup (min : UInt64) :
    ∃ tables' rid, TableStore.ensureNextRowId name min tables = (.ok (), tables') ∧
      Raised d.nextRowId [min] rid ∧ Puts tables name { d with nextRowId := rid } tables' := by
  rw [TableStore.ensureNextRowId, Exec.bind_of_ok (TableStore.data_of_lookup found)]
  split
  · rename_i less
    have below := UInt64.lt_iff_toNat_lt.mp less
    exact ⟨_, min, rfl, ⟨below.le, by simp, .inr (by simp)⟩, .insert tables name _⟩
  · rename_i notLess
    have above := not_lt.mp (UInt64.lt_iff_toNat_lt.not.mp notLess)
    exact ⟨tables, d.nextRowId, rfl, ⟨le_rfl, by simpa using above, .inl rfl⟩, .refl found⟩

/-- A row that is refused changes nothing; one that goes in goes behind the others, also
where the counter of identifiers overflows after it. -/
theorem insertRow_of_lookup (row : Row) : Exec.Refuses (TableStore.insertRow X name row) tables ∨
    (row.values.length = d.schema.len ∧ d.rows.length < vecMax ∧
      ∃ o tables' rid, TableStore.insertRow X name row tables = (o, tables') ∧
        (o = .ok () ∧ increment X d.nextRowId = .ok rid ∨
          o = .panic ∧ increment X d.nextRowId = .panic) ∧
        Puts tables name { d with rows := d.rows ++ [row], nextRowId := rid } tables') := by
  rw [Exec.Refuses, TableStore.insertRow, Exec.bind_of_ok (TableStore.data_of_lookup found)]
  by_cases width : row.values.length = d.schema.len
  · rw [if_neg (not_not.mpr width)]
    by_cases room : vecMax ≤ d.rows.length
    · rw [if_pos room]
      exact .inl ⟨rfl, by simp⟩
    · rw [if_neg room]
      refine .inr ⟨width, not_le.mp room, ?_⟩
      rw [TableStore.store, Exec.modify_bind, Exec.bind_apply, Exec.lift_apply]
      have put := Puts.insert tables name { d with rows := d.rows ++ [row] }
      rcases increment_cases X d.nextRowId with overflow | ⟨rid, next⟩
      · rw [overflow]
        exact ⟨_, _, d.nextRowId, rfl, .inr ⟨rfl, rfl⟩, put⟩
      · rw [next]
        exact ⟨_, _, rid, rfl, .inl ⟨rfl, rfl⟩, put.trans (.insert _ name _)⟩
  · rw [if_pos width]
    exact .inl ⟨rfl, by simp⟩

/-- The identifier a cell gives its table. -/
def explicitId : ColumnInfo × Option LiteralValue → List UInt64
  | (col, some (.integer v)) => if col.autoIncrement then [v.toUInt64] else []
  | _ => []

theorem trackCell_of_lookup (cell : ColumnInfo × Option LiteralValue) :
    ∃ tables' rid, trackCell name cell tables = (.ok (), tables') ∧
      Raised d.nextRowId (explicitId cell) rid ∧
      Puts tables name { d with nextRowId := rid } tables' := by
  have still : ∃ tables' rid, (pure () : TableStore.Method Unit) tables = (.ok (), tables') ∧
      Raised d.nextRowId [] rid ∧ Puts tables name { d with nextRowId := rid } tables' :=
    ⟨tables, d.nextRowId, rfl, .refl _, .refl found⟩
  obtain ⟨col, v⟩ := cell
  rcases v with _ | _ | _ | v | _ | _
  case some.integer =>
    by_cases auto : col.autoIncrement = true
    · simp only [trackCell, explicitId, if_pos auto]
      rw [Exec.bind_of_ok (currentRowId_of_lookup found)]
      split
      · exact ensureNextRowId_of_lookup found _
      · rename_i notLess
        have above := not_lt.mp (UInt64.lt_iff_toNat_lt.not.mp notLess)
        exact ⟨tables, d.nextRowId, rfl, ⟨le_rfl, by simpa using above, .inl rfl⟩, .refl found⟩
    · simp only [trackCell, explicitId, if_neg auto]
      exact still
  all_goals exact still

theorem trackExplicit_of_lookup (cells : List (ColumnInfo × Option LiteralValue)) :
    ∃ tables' rid, trackExplicit name cells tables = (.ok (), tables') ∧
      Raised d.nextRowId (cells.flatMap explicitId) rid ∧
      Puts tables name { d with nextRowId := rid } tables' := by
  induction cells generalizing tables d with
  | nil => exact ⟨tables, d.nextRowId, rfl, .refl _, .refl found⟩
  | cons cell rest ih =>
    obtain ⟨tables₁, rid₁, ran₁, raised₁, puts₁⟩ := trackCell_of_lookup found cell
    obtain ⟨tables₂, rid₂, ran₂, raised₂, puts₂⟩ := ih puts₁.lookup
    refine ⟨tables₂, rid₂, ?_, ?_, puts₁.trans puts₂⟩
    · rw [trackExplicit, Exec.bind_of_ok ran₁]
      exact ran₂
    · rw [List.flatMap_cons]
      exact raised₁.trans raised₂

/-! ## One value row -/

/-- The values of a row that goes in: with its identifier, where it needs one. -/
def identified (X : Extern) (d : TableData) (defaulted : List (Option LiteralValue)) :
    Result (List (Option LiteralValue)) :=
  if needsId d.schema defaulted then
    increment X d.nextRowId >>= fun id => .ok (autoIncrement d.schema id defaulted)
  else .ok defaulted

theorem identifyRow_of_lookup (defaulted : List (Option LiteralValue)) :
    identifyRow X name d.schema defaulted tables = (identified X d defaulted, tables) := by
  rw [identifyRow, identified]
  split
  · rw [Exec.bind_of_ok (currentRowId_of_lookup found), Exec.bind_apply, Exec.lift_apply]
    cases increment X d.nextRowId <;> rfl
  · rfl

/-- A row that goes into a table: it has its identifiers and has passed both checks. -/
structure Accepted (X : Extern) (d : TableData) (colIndices : List Nat) (exprs : List Expr)
    (rowValues : List (Option LiteralValue)) : Prop where
  given : ∃ defaulted, valueRow X d.schema colIndices exprs = .ok defaulted ∧
    identified X d defaulted = .ok rowValues
  filled : checkNotNull d.schema rowValues = .ok ()
  unique : checkUnique d.schema d.rows rowValues = .ok ()
  width : rowValues.length = d.schema.len
  room : d.rows.length < vecMax

/-- **One value row.** It fails and changes nothing, or it has passed both checks and is
put behind the rows of its table. -/
theorem insertValueRow_cases (colIndices : List Nat) (exprs : List Expr) :
    Exec.Refuses (insertValueRow X name d.schema colIndices exprs) tables ∨
    ∃ rowValues o tables' rid, Accepted X d colIndices exprs rowValues ∧
      insertValueRow X name d.schema colIndices exprs tables = (o, tables') ∧
      ((o = .ok () ∧ ∃ next, increment X d.nextRowId = .ok next ∧
        Raised next ((d.schema.columns.zip rowValues).flatMap explicitId) rid) ∨
        o = .panic ∧ increment X d.nextRowId = .panic) ∧
      Puts tables name { d with rows := d.rows ++ [⟨rowValues⟩], nextRowId := rid } tables' := by
  rw [Exec.Refuses, insertValueRow]
  rcases Exec.bind_of_still (x := Exec.lift (valueRow X d.schema colIndices exprs)) (s := tables)
    rfl _ with failed | ⟨defaulted, given, step₁⟩
  · exact .inl failed
  rw [step₁]
  rcases Exec.bind_of_still (x := identifyRow X name d.schema defaulted) (s := tables)
    (by rw [identifyRow_of_lookup found]) _ with failed | ⟨rowValues, numbered, step₂⟩
  · exact .inl failed
  rw [step₂]
  rcases Exec.bind_of_still (x := Exec.lift (checkNotNull d.schema rowValues)) (s := tables)
    rfl _ with failed | ⟨u, filled, step₃⟩
  · exact .inl failed
  rw [step₃, Exec.bind_of_ok (scanRows_of_lookup found)]
  rcases Exec.bind_of_still (x := Exec.lift (checkUnique d.schema d.rows rowValues)) (s := tables)
    rfl _ with failed | ⟨u', unique, step₄⟩
  · exact .inl failed
  rw [step₄]
  rcases insertRow_of_lookup (X := X) found ⟨rowValues⟩ with
    ⟨still, notOk⟩ | ⟨width, room, o, tables₁, rid₁, ran, ends, puts⟩
  · refine .inl ?_
    rcases Exec.bind_of_still still _ with failed | ⟨a, done, -⟩
    · exact failed
    · exact absurd (congrArg Prod.fst done) (notOk a)
  have accepted : Accepted X d colIndices exprs rowValues := {
    given := ⟨defaulted, congrArg Prod.fst given,
      congrArg Prod.fst ((identifyRow_of_lookup found defaulted).symm.trans numbered)⟩
    filled := congrArg Prod.fst filled
    unique := congrArg Prod.fst unique
    width := width
    room := room }
  rw [Exec.bind_apply, ran]
  refine .inr ⟨rowValues, ?_⟩
  rcases ends with ⟨rfl, next⟩ | ⟨rfl, overflow⟩
  · obtain ⟨tables₂, rid₂, tracked, raised, puts₂⟩ :=
      trackExplicit_of_lookup puts.lookup (d.schema.columns.zip rowValues)
    exact ⟨_, tables₂, rid₂, accepted, tracked, .inl ⟨rfl, rid₁, next, raised⟩, puts.trans puts₂⟩
  · exact ⟨_, tables₁, rid₁, accepted, rfl, .inr ⟨rfl, overflow⟩, puts⟩

end

/-! ## Rows of an UPDATE and of a DELETE -/

theorem assignRow_width {schema : Schema} {assignments : List Assignment}
    {row row' : Row} (ran : assignRow X schema row assignments = .ok row') :
    row'.values.length = row.values.length := by
  induction assignments generalizing row with
  | nil =>
    cases ran
    rfl
  | cons assignment rest ih =>
    rw [assignRow] at ran
    split at ran
    · cases ran
    · split at ran
      · cases ran
      · obtain ⟨val, -, ran⟩ := Outcome.bind_eq_ok.mp ran
        obtain ⟨val', -, ran⟩ := Outcome.bind_eq_ok.mp ran
        rw [ih ran, List.length_set]

/-- A row after an UPDATE has its width, and is the same where it was not selected. -/
theorem updateRow_ok {schema : Schema} {upd : UpdateStatement} {row row' : Row}
    {selected : Bool} (ran : updateRow X schema upd row = .ok (row', selected)) :
    row'.values.length = row.values.length ∧ (selected = false → row' = row) := by
  rw [updateRow] at ran
  obtain ⟨chosen, -, ran⟩ := Outcome.bind_eq_ok.mp ran
  split at ran
  · obtain ⟨row'', assigned, ran⟩ := Outcome.bind_eq_ok.mp ran
    cases ran
    exact ⟨assignRow_width assigned, nofun⟩
  · cases ran
    exact ⟨rfl, fun _ => rfl⟩

/-- The rows a DELETE keeps are rows of the table, in order. -/
theorem deleteMarks_sublist {schema : Schema} {del : DeleteStatement}
    {rows : List Row} {marks : List (Row × Bool)}
    (ran : deleteMarks X schema del rows = .ok marks) :
    ((marks.filter Prod.snd).map Prod.fst).Sublist rows := by
  have each := Outcome.mapM_eq_ok ran
  have same : marks.map Prod.fst = rows := by
    clear ran
    induction each with
    | nil => rfl
    | cons marked rest ih =>
      obtain ⟨keep, -, marked⟩ := Outcome.bind_eq_ok.mp marked
      cases marked
      rw [List.map_cons, ih]
  have fewer : ((marks.filter Prod.snd).map Prod.fst).Sublist (marks.map Prod.fst) :=
    List.filter_sublist.map Prod.fst
  rwa [same] at fewer

/-! ## Writing to the store -/

section Store

open SQLEngine

variable {t : TableStore}

theorem keeps_onTables {α : Type} {x : TableStore.Method α} (still : ∀ tables, (x tables).2 = tables) :
    Exec.Keeps (fun e : SQLEngine => e.tables = t) (onTables x) := fun e held =>
  (still e.tables).trans held

theorem keeps_onStorage {α : Type} (storage : KeyValue Json) (x : Exec SQLError (KeyValue Json) α) :
    Exec.Keeps (fun e : SQLEngine => e.tables = t) (onStorage storage x) := fun _ => id

theorem keeps_asSyntax {α : Type} {x : Method α}
    (keeps : Exec.Keeps (fun e : SQLEngine => e.tables = t) x) :
    Exec.Keeps (fun e : SQLEngine => e.tables = t) (asSyntax x) := fun e held => keeps e held

theorem getSchema_snd (name : Text) (tables : TableStore) :
    (TableStore.getSchema name tables).2 = tables := by
  cases found : tables.lookup name with
  | some d => rw [getSchema_of_lookup found]
  | none => rw [TableStore.getSchema, Exec.bind_apply, TableStore.data_of_absent found]

theorem scanRows_snd (name : Text) (tables : TableStore) :
    (TableStore.scanRows name tables).2 = tables := by
  cases found : tables.lookup name with
  | some d => rw [scanRows_of_lookup found]
  | none => rw [TableStore.scanRows, Exec.bind_apply, TableStore.data_of_absent found]

theorem keeps_persistTable (X : Extern) (name : Text) :
    Exec.Keeps (fun e : SQLEngine => e.tables = t) (persistTable X name) := by
  refine Exec.keeps_get_bind fun e => ?_
  cases e.storage with
  | none => exact Exec.keeps_pure _ _
  | some storage =>
    refine (keeps_asSyntax (keeps_onTables (getSchema_snd name))).bind fun schema => ?_
    exact (keeps_asSyntax (keeps_onTables (scanRows_snd name))).bind fun rows =>
      keeps_onStorage storage _

theorem keeps_persistTableNames (X : Extern) :
    Exec.Keeps (fun e : SQLEngine => e.tables = t) (persistTableNames X) := by
  refine Exec.keeps_get_bind fun e => ?_
  cases e.storage with
  | none => exact Exec.keeps_pure _ _
  | some storage =>
    refine (keeps_onTables fun _ => rfl).bind fun names => ?_
    split
    · exact Exec.keeps_lift _ _
    · exact keeps_onStorage storage _

theorem keeps_persistCreateTable (X : Extern) (name : Text) :
    Exec.Keeps (fun e : SQLEngine => e.tables = t) (persistCreateTable X name) := by
  refine Exec.keeps_get_bind fun e => ?_
  cases e.storage with
  | none => exact Exec.keeps_pure _ _
  | some storage => exact (keeps_persistTable X name).bind fun _ => keeps_persistTableNames X

theorem keeps_persistDropTable (X : Extern) (name : Text) :
    Exec.Keeps (fun e : SQLEngine => e.tables = t) (persistDropTable X name) := by
  refine Exec.keeps_get_bind fun e => ?_
  cases e.storage with
  | none => exact Exec.keeps_pure _ _
  | some storage => exact (keeps_onTables fun _ => rfl).bind fun names => keeps_onStorage storage _

end Store

/-! ## Statements -/

section Statements

open SQLEngine

variable (X) (e : SQLEngine)

theorem onTables_apply {α : Type} {x : TableStore.Method α} {tables' : TableStore}
    {o : Result α} (ran : x e.tables = (o, tables')) :
    onTables x e = (o, { e with tables := tables' }) := by
  rw [onTables, Exec.zoom_apply, ran]

/-- What comes after the change in memory leaves the tables alone. -/
theorem tables_of_keeps {α : Type} {x : Method α} {tables : TableStore}
    (keeps : Exec.Keeps (fun e : SQLEngine => e.tables = tables) x) (storage : Option (KeyValue Json)) :
    (x ⟨tables, storage⟩).2.tables = tables := keeps _ rfl

theorem refuses_onTables {e : SQLEngine} {α : Type} {x : TableStore.Method α}
    (refuses : Exec.Refuses x e.tables) : Exec.Refuses (onTables x) e := by
  rw [Exec.Refuses, onTables, Exec.zoom_apply]
  refine ⟨?_, refuses.2⟩
  rw [refuses.1]

theorem refuses_of_absent {α β : Type} {x : TableStore.Method α} (err : SQLError)
    (absent : x e.tables = (.err err, e.tables)) (f : α → Method β) :
    Exec.Refuses (onTables x >>= f) e := by
  refine (refuses_onTables ⟨?_, ?_⟩).bind f
  · rw [absent]
  · rw [absent]
    simp

theorem getSchema_of_absent (absent : tables.lookup name = none) :
    TableStore.getSchema name tables = (.err (.tableNotFound name), tables) := by
  rw [TableStore.getSchema, Exec.bind_apply, TableStore.data_of_absent absent]

theorem executeCreateTable_of_known {ct : CreateTableStatement} {d : TableData}
    (found : e.tables.lookup ct.table.text = some d) : Exec.Refuses (executeCreateTable X ct) e := by
  refine refuses_of_absent e (.ofMessage ("table already exists: ".toList ++ ct.table.text)) ?_ _
  rw [TableStore.createTable, Exec.get_bind, found]
  rfl

/-- A new table is empty. -/
theorem executeCreateTable_of_absent {ct : CreateTableStatement}
    (absent : e.tables.lookup ct.table.text = none) : executeCreateTable X ct e =
      (asSyntax (persistCreateTable X ct.table.text) >>= fun _ => pure 0 : Method Nat)
        ⟨e.tables.insert ct.table.text ⟨createdSchema ct, [], 0⟩, e.storage⟩ := by
  have created : TableStore.createTable ct.table.text (createdSchema ct) e.tables =
      (.ok (), e.tables.insert ct.table.text ⟨createdSchema ct, [], 0⟩) := by
    rw [TableStore.createTable, Exec.get_bind, absent]
    rfl
  exact Exec.bind_of_ok (onTables_apply e created) _

theorem executeCreateTable_cases (ct : CreateTableStatement) :
    Exec.Refuses (executeCreateTable X ct) e ∨
    e.tables.lookup ct.table.text = none ∧ executeCreateTable X ct e =
      (asSyntax (persistCreateTable X ct.table.text) >>= fun _ => pure 0 : Method Nat)
        ⟨e.tables.insert ct.table.text ⟨createdSchema ct, [], 0⟩, e.storage⟩ := by
  cases found : e.tables.lookup ct.table.text with
  | some d => exact .inl (executeCreateTable_of_known X e found)
  | none => exact .inr ⟨rfl, executeCreateTable_of_absent X e found⟩

theorem executeDropTable_cases (dt : DropTableStatement) :
    Exec.Refuses (executeDropTable X dt) e ∨
    (∃ d, e.tables.lookup dt.table.text = some d) ∧ executeDropTable X dt e =
      (asSyntax (persistDropTable X dt.table.text) >>= fun _ => pure 0 : Method Nat)
        ⟨e.tables.erase dt.table.text, e.storage⟩ := by
  cases found : e.tables.lookup dt.table.text with
  | some d =>
    have dropped : TableStore.dropTable dt.table.text e.tables =
        (.ok (), e.tables.erase dt.table.text) := by
      rw [TableStore.dropTable, Exec.bind_of_ok (TableStore.data_of_lookup found)]
      rfl
    exact .inr ⟨⟨d, rfl⟩, Exec.bind_of_ok (onTables_apply e dropped) _⟩
  | none =>
    refine .inl (refuses_of_absent e (.tableNotFound dt.table.text) ?_ _)
    rw [TableStore.dropTable, Exec.bind_apply, TableStore.data_of_absent found]

/-- An INSERT is the loop over its value rows, and then the writing. -/
theorem executeInsert_of_known {ins : InsertStatement} {d : TableData} {colIndices : List Nat}
    (found : e.tables.lookup ins.table.text = some d)
    (known : columnIndices d.schema ins.columns = .ok colIndices) : executeInsert X ins e =
      (onTables (insertValueRows X ins.table.text d.schema colIndices ins.values) >>= fun _ =>
        if ins.values.isEmpty then pure 0
        else persistTable X ins.table.text >>= fun _ => pure ins.values.length : Method Nat) e := by
  rw [executeInsert, Exec.bind_of_ok (onTables_apply e (getSchema_of_lookup found)), known]
  rfl

theorem executeInsert_cases (ins : InsertStatement) :
    Exec.Refuses (executeInsert X ins) e ∨
    ∃ d colIndices, e.tables.lookup ins.table.text = some d ∧
      columnIndices d.schema ins.columns = .ok colIndices ∧ executeInsert X ins e =
        (onTables (insertValueRows X ins.table.text d.schema colIndices ins.values) >>= fun _ =>
          if ins.values.isEmpty then pure 0
          else persistTable X ins.table.text >>= fun _ => pure ins.values.length : Method Nat) e := by
  cases found : e.tables.lookup ins.table.text with
  | none => exact .inl (refuses_of_absent e _ (getSchema_of_absent found) _)
  | some d =>
    rcases Exec.bind_of_still (x := Exec.lift (columnIndices d.schema ins.columns)) (s := e)
      rfl _ with failed | ⟨colIndices, known, -⟩
    · refine .inl ?_
      rw [Exec.Refuses, executeInsert, Exec.bind_of_ok (onTables_apply e (getSchema_of_lookup found))]
      exact failed
    · have known := congrArg Prod.fst known
      exact .inr ⟨d, colIndices, rfl, known, executeInsert_of_known X e found known⟩

/-- An UPDATE replaces the rows of one table by its updated rows. -/
theorem executeUpdate_of_known {upd : UpdateStatement} {d : TableData} {updated : List (Row × Bool)}
    (found : e.tables.lookup upd.table.text = some d)
    (known : d.rows.mapM (updateRow X d.schema upd) = .ok updated) : executeUpdate X upd e =
      (persistTable X upd.table.text >>= fun _ => pure (updated.countP Prod.snd) : Method Nat)
        ⟨e.tables.insert upd.table.text { d with rows := updated.map Prod.fst }, e.storage⟩ := by
  rw [executeUpdate, Exec.bind_of_ok (onTables_apply e (getSchema_of_lookup found)),
    Exec.bind_of_ok (onTables_apply e (scanRows_of_lookup found)), known, Exec.bind_apply,
    Exec.lift_apply]
  exact Exec.bind_of_ok (onTables_apply e (replaceRows_of_lookup found _)) _

theorem executeUpdate_cases (upd : UpdateStatement) :
    Exec.Refuses (executeUpdate X upd) e ∨
    ∃ d updated, e.tables.lookup upd.table.text = some d ∧
      d.rows.mapM (updateRow X d.schema upd) = .ok updated ∧ executeUpdate X upd e =
        (persistTable X upd.table.text >>= fun _ => pure (updated.countP Prod.snd) : Method Nat)
          ⟨e.tables.insert upd.table.text { d with rows := updated.map Prod.fst }, e.storage⟩ := by
  cases found : e.tables.lookup upd.table.text with
  | none => exact .inl (refuses_of_absent e _ (getSchema_of_absent found) _)
  | some d =>
    rcases Exec.bind_of_still (x := Exec.lift (d.rows.mapM (updateRow X d.schema upd))) (s := e)
      rfl _ with failed | ⟨updated, known, -⟩
    · refine .inl ?_
      rw [Exec.Refuses, executeUpdate, Exec.bind_of_ok (onTables_apply e (getSchema_of_lookup found)),
        Exec.bind_of_ok (onTables_apply e (scanRows_of_lookup found))]
      exact failed
    · have known := congrArg Prod.fst known
      exact .inr ⟨d, updated, rfl, known, executeUpdate_of_known X e found known⟩

/-- A DELETE keeps some of the rows, in order. -/
theorem executeDelete_of_known {del : DeleteStatement} {d : TableData} {marks : List (Row × Bool)}
    (found : e.tables.lookup del.table.text = some d)
    (known : deleteMarks X d.schema del d.rows = .ok marks) : executeDelete X del e =
      (persistTable X del.table.text >>= fun _ =>
          pure (d.rows.length - ((marks.filter Prod.snd).map Prod.fst).length) : Method Nat)
        ⟨e.tables.insert del.table.text { d with rows := (marks.filter Prod.snd).map Prod.fst },
          e.storage⟩ := by
  rw [executeDelete, Exec.bind_of_ok (onTables_apply e (getSchema_of_lookup found)),
    Exec.bind_of_ok (onTables_apply e (scanRows_of_lookup found)), known, Exec.bind_apply,
    Exec.lift_apply]
  exact Exec.bind_of_ok (onTables_apply e (replaceRows_of_lookup found _)) _

theorem executeDelete_cases (del : DeleteStatement) :
    Exec.Refuses (executeDelete X del) e ∨
    ∃ d marks, e.tables.lookup del.table.text = some d ∧
      deleteMarks X d.schema del d.rows = .ok marks ∧ executeDelete X del e =
        (persistTable X del.table.text >>= fun _ =>
            pure (d.rows.length - ((marks.filter Prod.snd).map Prod.fst).length) : Method Nat)
          ⟨e.tables.insert del.table.text { d with rows := (marks.filter Prod.snd).map Prod.fst },
            e.storage⟩ := by
  cases found : e.tables.lookup del.table.text with
  | none => exact .inl (refuses_of_absent e _ (getSchema_of_absent found) _)
  | some d =>
    rcases Exec.bind_of_still (x := Exec.lift (deleteMarks X d.schema del d.rows)) (s := e)
      rfl _ with failed | ⟨marks, known, -⟩
    · refine .inl ?_
      rw [Exec.Refuses, executeDelete, Exec.bind_of_ok (onTables_apply e (getSchema_of_lookup found)),
        Exec.bind_of_ok (onTables_apply e (scanRows_of_lookup found))]
      exact failed
    · have known := congrArg Prod.fst known
      exact .inr ⟨d, marks, rfl, known, executeDelete_of_known X e found known⟩

/-! ## The tables after a statement -/

theorem tables_executeCreateTable (ct : CreateTableStatement) :
    (executeCreateTable X ct e).2.tables = e.tables ∨
    e.tables.lookup ct.table.text = none ∧ (executeCreateTable X ct e).2.tables =
      e.tables.insert ct.table.text ⟨createdSchema ct, [], 0⟩ := by
  rcases executeCreateTable_cases X e ct with refused | ⟨absent, ran⟩
  · exact .inl (congrArg SQLEngine.tables refused.1)
  · rw [ran]
    exact .inr ⟨absent, tables_of_keeps ((keeps_asSyntax (keeps_persistCreateTable X _)).bind
      fun _ => Exec.keeps_pure _ _) e.storage⟩

theorem tables_executeDropTable (dt : DropTableStatement) :
    (executeDropTable X dt e).2.tables = e.tables ∨
    (executeDropTable X dt e).2.tables = e.tables.erase dt.table.text := by
  rcases executeDropTable_cases X e dt with refused | ⟨-, ran⟩
  · exact .inl (congrArg SQLEngine.tables refused.1)
  · rw [ran]
    exact .inr (tables_of_keeps ((keeps_asSyntax (keeps_persistDropTable X _)).bind
      fun _ => Exec.keeps_pure _ _) e.storage)

theorem tables_executeInsert_of_known {ins : InsertStatement} {d : TableData}
    {colIndices : List Nat} (found : e.tables.lookup ins.table.text = some d)
    (known : columnIndices d.schema ins.columns = .ok colIndices) :
    (executeInsert X ins e).2.tables =
      (insertValueRows X ins.table.text d.schema colIndices ins.values e.tables).2 := by
  rw [executeInsert_of_known X e found known, Exec.bind_apply, onTables, Exec.zoom_apply]
  rcases insertValueRows X ins.table.text d.schema colIndices ins.values e.tables with
    ⟨_ | _ | _ | _, tables'⟩
  · dsimp only
    split
    · rfl
    · exact tables_of_keeps ((keeps_persistTable X _).bind fun _ => Exec.keeps_pure _ _) e.storage
  all_goals rfl

theorem tables_executeInsert (ins : InsertStatement) :
    (executeInsert X ins e).2.tables = e.tables ∨
    ∃ d colIndices, e.tables.lookup ins.table.text = some d ∧
      columnIndices d.schema ins.columns = .ok colIndices ∧
      (executeInsert X ins e).2.tables =
        (insertValueRows X ins.table.text d.schema colIndices ins.values e.tables).2 := by
  rcases executeInsert_cases X e ins with refused | ⟨d, colIndices, found, known, -⟩
  · exact .inl (congrArg SQLEngine.tables refused.1)
  · exact .inr ⟨d, colIndices, found, known, tables_executeInsert_of_known X e found known⟩

theorem tables_executeUpdate (upd : UpdateStatement) :
    (executeUpdate X upd e).2.tables = e.tables ∨
    ∃ d updated, e.tables.lookup upd.table.text = some d ∧
      d.rows.mapM (updateRow X d.schema upd) = .ok updated ∧
      (executeUpdate X upd e).2.tables =
        e.tables.insert upd.table.text { d with rows := updated.map Prod.fst } := by
  rcases executeUpdate_cases X e upd with refused | ⟨d, updated, found, known, ran⟩
  · exact .inl (congrArg SQLEngine.tables refused.1)
  · rw [ran]
    exact .inr ⟨d, updated, found, known,
      tables_of_keeps ((keeps_persistTable X _).bind fun _ => Exec.keeps_pure _ _) e.storage⟩

theorem tables_executeDelete (del : DeleteStatement) :
    (executeDelete X del e).2.tables = e.tables ∨
    ∃ d marks, e.tables.lookup del.table.text = some d ∧
      deleteMarks X d.schema del d.rows = .ok marks ∧
      (executeDelete X del e).2.tables = e.tables.insert del.table.text
        { d with rows := (marks.filter Prod.snd).map Prod.fst } := by
  rcases executeDelete_cases X e del with refused | ⟨d, marks, found, known, ran⟩
  · exact .inl (congrArg SQLEngine.tables refused.1)
  · rw [ran]
    exact .inr ⟨d, marks, found, known,
      tables_of_keeps ((keeps_persistTable X _).bind fun _ => Exec.keeps_pure _ _) e.storage⟩

end Statements

end NovaRuntime.Sql
