/-
# NovaRuntime.Sql.Constraints — NOT NULL, UNIQUE and PRIMARY KEY over runs of statements

`Constrained` is what the constraints of a schema promise of the rows of a table. An
INSERT checks a row against both kinds before it puts it in; an UPDATE checks neither,
and to the check of an INSERT an explicit NULL is a value like others, equal to every
other explicit NULL. `constrained_run` keeps the constraints in the runs whose UPDATEs
would pass an INSERT's checks and in which no UNIQUE column is given an explicit NULL.

A row shares a value with another when the code's `==` says so: a NaN is not shared.
-/
import NovaRuntime.Sql.EngineSpec

namespace NovaRuntime.Sql

open NovaRuntime.Library

set_option autoImplicit false

variable {X : Extern} {rowValues : List (Option LiteralValue)} {d : TableData}

/-! ## The constraints -/

/-- The value of a column in a row, where a missing one is NULL. -/
def Row.valueAt (row : Row) (idx : Nat) : LiteralValue := row.values[idx]?.join.getD .null

/-- UNIQUE, or a PRIMARY KEY. -/
def ColumnInfo.isUnique (col : ColumnInfo) : Bool := col.unique || col.isPrimaryKey

/-- Two rows hold the same value, which is not NULL, in a column. -/
def Shares (idx : Nat) (r r' : Row) : Prop :=
  r.valueAt idx ≠ .null ∧ (r.valueAt idx).eq (r'.valueAt idx) = true

theorem Shares.symm {idx : Nat} {r r' : Row} (shares : Shares idx r r') : Shares idx r' r := by
  obtain ⟨notNull, same⟩ := shares
  refine ⟨fun null => notNull ?_, LiteralValue.eq_comm _ _ ▸ same⟩
  rw [null] at same
  exact (LiteralValue.eq_null _).mp same

/-- **The constraints of a table.** Nulls never make a duplicate: a row that shares no
value passes the check, whatever nulls it and the rows of the table hold. -/
structure Constrained (d : TableData) : Prop where
  filled : ∀ row ∈ d.rows, ∀ (idx : Nat) (col : ColumnInfo), d.schema.columns[idx]? = some col →
    (col.nullable = false ∨ col.isPrimaryKey = true) → row.valueAt idx ≠ .null
  distinct : ∀ (idx : Nat) (col : ColumnInfo), d.schema.columns[idx]? = some col → col.isUnique = true →
    d.rows.Pairwise fun r r' => ¬ Shares idx r r'
  admits : ∀ rowValues, (∀ (idx : Nat) (col : ColumnInfo), d.schema.columns[idx]? = some col → col.isUnique = true →
    ∀ row ∈ d.rows, ¬ Shares idx row ⟨rowValues⟩) → checkUnique d.schema d.rows rowValues = .ok ()

/-- A row holds an explicit NULL in no column that is UNIQUE. -/
def NoNullKey (schema : Schema) (rowValues : List (Option LiteralValue)) : Prop :=
  ∀ (idx : Nat) (col : ColumnInfo), schema.columns[idx]? = some col → col.isUnique = true →
    rowValues[idx]? ≠ some (some .null)

/-- The statements after which the constraints still hold. -/
def Checked (X : Extern) (e : SQLEngine) : Statement → Prop
  | .createTable ct => ∀ c ∈ ct.columns, c.isPrimaryKey = true → c.nullable = false
  | .dropTable _ | .delete _ => True
  | .insert ins => ∀ d colIndices, e.tables.lookup ins.table.text = some d →
      columnIndices d.schema ins.columns = .ok colIndices →
        ∀ exprs ∈ ins.values, ∀ given, valueRow X d.schema colIndices exprs = .ok given →
          ∀ (idx : Nat) (col : ColumnInfo), d.schema.columns[idx]? = some col → col.isUnique = true →
            col.nullable = true → col.autoIncrement = false → given[idx]? ≠ some (some .null)
  | .update upd => ∀ d updated, e.tables.lookup upd.table.text = some d →
      d.rows.mapM (updateRow X d.schema upd) = .ok updated →
        ∀ (i : Nat) row, updated[i]? = some (row, true) →
          checkNotNull d.schema row.values = .ok () ∧
          checkUnique d.schema ((updated.map Prod.fst).eraseIdx i) row.values = .ok () ∧
          NoNullKey d.schema row.values

/-! ## The checks of an INSERT -/

theorem isNull_eq_false {v : Option LiteralValue} : isNull v = false ↔ v.getD .null ≠ .null := by
  cases v with
  | none => simp [isNull]
  | some val => cases val <;> simp [isNull]

theorem checkNotNull_eq_ok {schema : Schema}
    (width : rowValues.length = schema.len) : checkNotNull schema rowValues = .ok () ↔
      ∀ (idx : Nat) (col : ColumnInfo), schema.columns[idx]? = some col → col.nullable = false →
        Row.valueAt ⟨rowValues⟩ idx ≠ .null := by
  have ends : checkNotNull schema rowValues = .ok () ↔ (schema.columns.zip rowValues).find?
      (fun cell => ! cell.1.nullable && isNull cell.2) = none := by
    unfold checkNotNull
    split
    · rename_i col v found
      refine iff_of_false (by simp) fun none => ?_
      exact absurd (found.symm.trans none) (by simp)
    · rename_i found
      exact iff_of_true rfl found
  rw [ends, List.find?_eq_none]
  constructor
  · intro passed idx col here notNull
    have inside : idx < rowValues.length := by
      rw [width]
      exact (List.getElem?_eq_some_iff.mp here).1
    have cell := passed (col, rowValues[idx]) (List.mem_iff_getElem?.mpr ⟨idx,
      List.getElem?_zip_eq_some.mpr ⟨here, List.getElem?_eq_getElem inside⟩⟩)
    simp only [notNull, Bool.not_false, Bool.true_and, Bool.not_eq_true] at cell
    rw [Row.valueAt, List.getElem?_eq_getElem inside]
    exact isNull_eq_false.mp cell
  · rintro filled ⟨col, v⟩ member both
    obtain ⟨idx, here⟩ := List.mem_iff_getElem?.mp member
    obtain ⟨column, value⟩ := List.getElem?_zip_eq_some.mp here
    simp only [Bool.and_eq_true, Bool.not_eq_true'] at both
    refine filled idx col column both.1 ?_
    rw [Row.valueAt, value]
    by_contra notNull
    have written : isNull v = false := isNull_eq_false.mpr notNull
    rw [written] at both
    exact Bool.false_ne_true both.2

theorem checkUnique_eq_ok {schema : Schema} {rows : List Row}
    : checkUnique schema rows rowValues = .ok () ↔
      ∀ (idx : Nat) (col : ColumnInfo) v, schema.columns[idx]? = some col → rowValues[idx]? = some v →
        isDuplicate rows col v idx = false := by
  have ends : checkUnique schema rows rowValues = .ok () ↔
      (schema.columns.zip rowValues).zipIdx.find? (fun cell =>
        isDuplicate rows cell.1.1 cell.1.2 cell.2) = none := by
    unfold checkUnique
    split
    · rename_i found
      refine iff_of_false (by simp) fun none => ?_
      exact absurd (found.symm.trans none) (by simp)
    · rename_i found
      exact iff_of_true rfl found
  rw [ends, List.find?_eq_none]
  constructor
  · intro passed idx col v column value
    have cell := passed ((col, v), idx) (List.mem_zipIdx_iff_getElem?.mpr
      (List.getElem?_zip_eq_some.mpr ⟨column, value⟩))
    simpa using cell
  · rintro none ⟨⟨col, v⟩, idx⟩ member
    obtain ⟨column, value⟩ := List.getElem?_zip_eq_some.mp (List.mem_zipIdx_iff_getElem?.mp member)
    simpa using none idx col v column value

/-- Against a value that is not NULL a row is a duplicate when it shares it. -/
theorem holdsValue_iff {val : LiteralValue} {idx : Nat} {row : Row} (notNull : val ≠ .null) :
    holdsValue val idx row = true ↔ (row.valueAt idx).eq val = true := by
  unfold holdsValue Row.valueAt
  cases row.values[idx]? with
  | none => cases val <;> simp_all [LiteralValue.eq]
  | some v => cases v <;> cases val <;> simp_all [LiteralValue.eq]

/-- A row that passes the check shares no value with the rows it was checked against. -/
theorem not_shares_of_checkUnique {schema : Schema} {rows : List Row}
    (passed : checkUnique schema rows rowValues = .ok ())
    {idx : Nat} {col : ColumnInfo} (column : schema.columns[idx]? = some col)
    (unique : col.isUnique = true) : ∀ row ∈ rows, ¬ Shares idx row ⟨rowValues⟩ := by
  intro row member shares
  obtain ⟨notNull, same⟩ := shares.symm
  cases value : rowValues[idx]? with
  | none => exact notNull (by simp [Row.valueAt, value])
  | some v =>
    cases v with
    | none => exact notNull (by simp [Row.valueAt, value])
    | some val =>
      have here : Row.valueAt ⟨rowValues⟩ idx = val := by simp [Row.valueAt, value]
      rw [here] at notNull same
      have free := checkUnique_eq_ok.mp passed idx col (some val) column value
      have holds : holdsValue val idx row = true :=
        (holdsValue_iff notNull).mpr (LiteralValue.eq_comm _ _ ▸ same)
      have duplicate : isDuplicate rows col (some val) idx = true := by
        simp only [isDuplicate, Bool.and_eq_true, List.any_eq_true]
        exact ⟨unique, row, member, holds⟩
      rw [duplicate] at free
      cases free

/-! ## The invariant -/

/-- What the statements of `Checked` keep of a table. -/
structure Sound (d : TableData) : Prop where
  width : ∀ row ∈ d.rows, row.values.length = d.schema.len
  keys : ∀ col ∈ d.schema.columns, col.isPrimaryKey = true → col.nullable = false
  filled : ∀ row ∈ d.rows, checkNotNull d.schema row.values = .ok ()
  noNullKey : ∀ row ∈ d.rows, NoNullKey d.schema row.values
  distinct : ∀ (idx : Nat) (col : ColumnInfo), d.schema.columns[idx]? = some col →
    col.isUnique = true → d.rows.Pairwise fun r r' => ¬ Shares idx r r'

namespace Sound

variable {d : TableData}

/-- **The invariant implies the constraints.** -/
theorem constrained (sound : Sound d) : Constrained d where
  filled row member idx col column promised := by
    have notNull : col.nullable = false :=
      promised.elim id (sound.keys col (List.mem_iff_getElem?.mpr ⟨idx, column⟩))
    exact (checkNotNull_eq_ok (sound.width row member)).mp (sound.filled row member) idx col column
      notNull
  distinct := sound.distinct
  admits rowValues free := by
    refine checkUnique_eq_ok.mpr fun idx col v column value => ?_
    by_contra duplicate
    simp only [Bool.not_eq_false, isDuplicate, Bool.and_eq_true] at duplicate
    obtain ⟨unique, held⟩ := duplicate
    cases v with
    | none => simp at held
    | some val =>
      obtain ⟨row, member, holds⟩ := List.any_eq_true.mp held
      by_cases null : val = .null
      · -- an explicit NULL equals only an explicit NULL, and no row holds one
        subst null
        refine sound.noNullKey row member idx col column unique ?_
        revert holds
        unfold holdsValue
        split
        · rename_i existing here
          rw [here]
          exact fun same => congrArg (some ∘ some) ((LiteralValue.eq_null existing).mp same)
        · simp
      · have here : Row.valueAt ⟨rowValues⟩ idx = val := by simp [Row.valueAt, value]
        refine free idx col column unique row member (Shares.symm ⟨here ▸ null, ?_⟩)
        rw [here, LiteralValue.eq_comm]
        exact (holdsValue_iff null).mp holds

theorem empty {schema : Schema} {rid : UInt64}
    (keys : ∀ col ∈ schema.columns, col.isPrimaryKey = true → col.nullable = false) :
    Sound ⟨schema, [], rid⟩ where
  width := nofun
  keys := keys
  filled := nofun
  noNullKey := nofun
  distinct _ _ _ _ := .nil

theorem nextRowId (sound : Sound d) (rid : UInt64) : Sound { d with nextRowId := rid } :=
  ⟨sound.width, sound.keys, sound.filled, sound.noNullKey, sound.distinct⟩

theorem sublist (sound : Sound d) {rows : List Row} (fewer : rows.Sublist d.rows) :
    Sound { d with rows := rows } where
  width row member := sound.width row (fewer.subset member)
  keys := sound.keys
  filled row member := sound.filled row (fewer.subset member)
  noNullKey row member := sound.noNullKey row (fewer.subset member)
  distinct idx col column unique := (sound.distinct idx col column unique).sublist fewer

/-- A row that has passed both checks. -/
theorem append (sound : Sound d) {rowValues : List (Option LiteralValue)}
    (width : rowValues.length = d.schema.len) (filled : checkNotNull d.schema rowValues = .ok ())
    (unique : checkUnique d.schema d.rows rowValues = .ok ())
    (noNullKey : NoNullKey d.schema rowValues) :
    Sound { d with rows := d.rows ++ [⟨rowValues⟩] } where
  width row member := by
    rcases List.mem_append.mp member with old | new
    · exact sound.width row old
    · rw [List.mem_singleton.mp new]
      exact width
  keys := sound.keys
  filled row member := by
    rcases List.mem_append.mp member with old | new
    · exact sound.filled row old
    · rw [List.mem_singleton.mp new]
      exact filled
  noNullKey row member := by
    rcases List.mem_append.mp member with old | new
    · exact sound.noNullKey row old
    · rw [List.mem_singleton.mp new]
      exact noNullKey
  distinct idx col column isUnique := by
    refine List.pairwise_append.mpr ⟨sound.distinct idx col column isUnique,
      List.pairwise_singleton _ _, fun row member new isNew => ?_⟩
    rw [List.mem_singleton.mp isNew]
    exact not_shares_of_checkUnique unique column isUnique row member

end Sound

/-! ## INSERT -/

/-- A row that goes in holds no explicit NULL in a UNIQUE column: where the column is
not nullable the check saw to it, and an identifier is not NULL. -/
theorem Accepted.noNullKey {colIndices : List Nat} {exprs : List Expr}
    (accepted : Accepted X d colIndices exprs rowValues)
    (checked : ∀ given, valueRow X d.schema colIndices exprs = .ok given →
      ∀ (idx : Nat) (col : ColumnInfo), d.schema.columns[idx]? = some col → col.isUnique = true →
        col.nullable = true → col.autoIncrement = false → given[idx]? ≠ some (some .null)) :
    NoNullKey d.schema rowValues := by
  intro idx col column unique written
  obtain ⟨given, evaluated, numbered⟩ := accepted.given
  cases nullable : col.nullable with
  | false =>
    refine (checkNotNull_eq_ok accepted.width).mp accepted.filled idx col column nullable ?_
    simp [Row.valueAt, written]
  | true =>
    have plain := checked given evaluated idx col column unique nullable
    rw [identified] at numbered
    split at numbered
    · obtain ⟨id, -, numbered⟩ := Outcome.bind_eq_ok.mp numbered
      cases numbered
      rw [autoIncrement, List.getElem?_zipWith, column] at written
      cases value : given[idx]? with
      | none => simp [value] at written
      | some v =>
        simp only [value, Option.some.injEq] at written
        split at written
        · cases written
        · rename_i kept
          cases auto : col.autoIncrement with
          | false => exact plain auto (value.trans (congrArg some written))
          | true => simp [auto, written, isNull] at kept
    · rename_i noId
      cases numbered
      cases auto : col.autoIncrement with
      | false => exact plain auto written
      | true =>
        refine noId (List.any_eq_true.mpr ⟨(col, some .null), ?_, ?_⟩)
        · exact List.mem_iff_getElem?.mpr ⟨idx, List.getElem?_zip_eq_some.mpr ⟨column, written⟩⟩
        · simp [auto, isNull]

/-- The tables all of which are sound. -/
def AllSound (tables : TableStore) : Prop :=
  ∀ name d, tables.lookup name = some d → Sound d

theorem AllSound.puts {tables tables' : TableStore} {name : Text}
    (all : AllSound tables) (puts : Puts tables name d tables') (sound : Sound d) :
    AllSound tables' := by
  intro other d' found
  rw [puts other] at found
  split at found
  · cases found
    exact sound
  · exact all other d' found

/-- **Step.** The loop of an INSERT, row by row. -/
theorem AllSound.insertValueRows {name : Text} {tables : TableStore}
    (all : AllSound tables) (found : tables.lookup name = some d) {colIndices : List Nat}
    {values : List (List Expr)}
    (checked : ∀ exprs ∈ values, ∀ given, valueRow X d.schema colIndices exprs = .ok given →
      ∀ (idx : Nat) (col : ColumnInfo), d.schema.columns[idx]? = some col → col.isUnique = true →
        col.nullable = true → col.autoIncrement = false → given[idx]? ≠ some (some .null)) :
    AllSound (Sql.insertValueRows X name d.schema colIndices values tables).2 := by
  induction values generalizing tables d with
  | nil => exact all
  | cons exprs rest ih =>
    rw [Sql.insertValueRows, Exec.bind_apply]
    rcases insertValueRow_cases (X := X) found colIndices exprs with
      ⟨still, notOk⟩ | ⟨rowValues, o, tables', rid, accepted, ran, ends, puts⟩
    · revert still notOk
      rcases insertValueRow X name d.schema colIndices exprs tables with ⟨a | _ | _ | _, tables'⟩
      · exact fun _ notOk => absurd rfl (notOk a)
      all_goals
        rintro rfl -
        exact all
    · have sound := ((all name d found).append accepted.width accepted.filled accepted.unique
        (accepted.noNullKey (checked exprs (.head _)))).nextRowId rid
      rw [ran]
      rcases ends with ⟨rfl, -⟩ | ⟨rfl, -⟩
      · have later := ih (all.puts puts sound) puts.lookup
          fun later member => checked later (List.mem_cons_of_mem exprs member)
        exact later
      · exact all.puts puts sound

/-! ## UPDATE and DELETE -/

/-- **Step.** The rows of an UPDATE, those it rewrites passing the checks of an INSERT. -/
theorem Sound.update (sound : Sound d) {upd : UpdateStatement}
    {updated : List (Row × Bool)} (ran : d.rows.mapM (updateRow X d.schema upd) = .ok updated)
    (checked : ∀ (i : Nat) row, updated[i]? = some (row, true) →
      checkNotNull d.schema row.values = .ok () ∧
      checkUnique d.schema ((updated.map Prod.fst).eraseIdx i) row.values = .ok () ∧
      NoNullKey d.schema row.values) :
    Sound { d with rows := updated.map Prod.fst } := by
  have each := Outcome.mapM_eq_ok ran
  have length := each.length_eq
  -- a row of the new table is rewritten, or is the old one at its place
  have cases : ∀ (i : Nat) row, (updated.map Prod.fst)[i]? = some row →
      row.values.length = d.schema.len ∧
        (updated[i]? = some (row, true) ∨ d.rows[i]? = some row) := by
    intro i row here
    rw [List.getElem?_map, Option.map_eq_some_iff] at here
    obtain ⟨⟨row', selected⟩, new, rfl⟩ := here
    obtain ⟨inNew, atNew⟩ := List.getElem?_eq_some_iff.mp new
    have inOld : i < d.rows.length := length ▸ inNew
    have related := each.get inOld inNew
    simp only [List.get_eq_getElem, atNew] at related
    obtain ⟨width, kept⟩ := updateRow_ok related
    refine ⟨width.trans (sound.width _ (List.getElem_mem inOld)), ?_⟩
    cases selected with
    | true => exact .inl new
    | false =>
      rw [kept rfl]
      exact .inr (List.getElem?_eq_getElem inOld)
  have members : ∀ row ∈ updated.map Prod.fst, row.values.length = d.schema.len ∧
      checkNotNull d.schema row.values = .ok () ∧ NoNullKey d.schema row.values := by
    intro row member
    obtain ⟨i, here⟩ := List.mem_iff_getElem?.mp member
    obtain ⟨width, rewritten | old⟩ := cases i row here
    · exact ⟨width, (checked i row rewritten).1, (checked i row rewritten).2.2⟩
    · have was := List.mem_of_getElem? old
      exact ⟨width, sound.filled row was, sound.noNullKey row was⟩
  refine ⟨fun row member => (members row member).1, sound.keys,
    fun row member => (members row member).2.1, fun row member => (members row member).2.2, ?_⟩
  intro idx col column unique
  refine List.pairwise_iff_getElem.mpr fun i j inI inJ less shares => ?_
  have atI := List.getElem?_eq_getElem inI
  have atJ := List.getElem?_eq_getElem inJ
  obtain ⟨-, rewrittenI | oldI⟩ := cases i _ atI
  · refine not_shares_of_checkUnique (checked i _ rewrittenI).2.1 column unique _ ?_ shares.symm
    exact List.mem_eraseIdx_iff_getElem?.mpr ⟨j, less.ne', atJ⟩
  · obtain ⟨-, rewrittenJ | oldJ⟩ := cases j _ atJ
    · refine not_shares_of_checkUnique (checked j _ rewrittenJ).2.1 column unique _ ?_ shares
      exact List.mem_eraseIdx_iff_getElem?.mpr ⟨i, less.ne, atI⟩
    · obtain ⟨wasI, sameI⟩ := List.getElem?_eq_some_iff.mp oldI
      obtain ⟨wasJ, sameJ⟩ := List.getElem?_eq_some_iff.mp oldJ
      refine List.pairwise_iff_getElem.mp (sound.distinct idx col column unique) i j wasI wasJ less ?_
      rw [sameI, sameJ]
      exact shares

/-! ## Runs -/

/-- **Step.** A statement that is checked leaves every table sound. -/
theorem AllSound.step {e : SQLEngine} (all : AllSound e.tables) {stmt : Statement}
    (checked : Checked X e stmt) : AllSound (e.step X stmt).tables := by
  rw [SQLEngine.step]
  cases stmt with
  | createTable ct =>
    rcases tables_executeCreateTable X e ct with same | ⟨-, made⟩
    · exact same ▸ all
    · have keys : ∀ col ∈ (SQLEngine.createdSchema ct).columns, col.isPrimaryKey = true →
          col.nullable = false := by
        intro col member
        obtain ⟨⟨c, i⟩, listed, rfl⟩ := List.mem_map.mp member
        exact checked c (List.mem_of_getElem? (List.mem_zipIdx_iff_getElem?.mp listed))
      exact made ▸ all.puts (.insert _ _ _) (.empty keys)
  | dropTable dt =>
    rcases tables_executeDropTable X e dt with same | dropped
    · exact same ▸ all
    · rw [SQLEngine.executeStatement, dropped]
      intro name d found
      rw [TableStore.lookup_erase_ite] at found
      split at found
      · cases found
      · exact all name d found
  | insert ins =>
    rcases tables_executeInsert X e ins with same | ⟨d, colIndices, found, known, ran⟩
    · exact same ▸ all
    · exact ran ▸ all.insertValueRows found (checked d colIndices found known)
  | update upd =>
    rcases tables_executeUpdate X e upd with same | ⟨d, updated, found, ran, replaced⟩
    · exact same ▸ all
    · exact replaced ▸ all.puts (.insert _ _ _)
        ((all _ d found).update ran (checked d updated found ran))
  | delete del =>
    rcases tables_executeDelete X e del with same | ⟨d, marks, found, ran, replaced⟩
    · exact same ▸ all
    · exact replaced ▸ all.puts (.insert _ _ _) ((all _ d found).sublist (deleteMarks_sublist ran))

/-- **The constraints hold in every state of a run** whose statements are checked. -/
theorem constrained_run (X : Extern) (storage : Option (KeyValue Json)) (stmts : List Statement)
    (checked : Run.Each (SQLEngine.step X) (Checked X) ⟨∅, storage⟩ stmts) :
    ∀ e ∈ Run.states (SQLEngine.step X) ⟨∅, storage⟩ stmts,
      ∀ name d, e.tables.lookup name = some d → Constrained d := by
  intro e member name d found
  have all := Run.Each.invariant (I := fun e : SQLEngine => AllSound e.tables)
    (fun e stmt held meets => held.step meets) (by rintro name d ⟨⟩) checked e member
  exact (all name d found).constrained

/-- `CREATE TABLE t (k INTEGER PRIMARY KEY, u INTEGER UNIQUE)`. -/
def sampleTable : Identifier := ⟨['t'], by decide⟩

def sampleCreate : Statement :=
  .createTable ⟨sampleTable, [⟨['k'], .integer, false, none, false, true, false⟩,
    ⟨['u'], .integer, true, none, true, false, false⟩]⟩

/-- `INSERT INTO t (k) VALUES (1), (2)`. -/
def sampleInsert : Statement :=
  .insert ⟨sampleTable, [['k']], [[.literal (.integer 1)], [.literal (.integer 2)]]⟩

/-- `UPDATE t SET k = i WHERE k = 1`, or on every row. -/
def sampleUpdate (i : Int64) (whereClause : Option Expr) : Statement :=
  .update ⟨sampleTable, [⟨['k'], .literal (.integer i)⟩], whereClause⟩

def sampleSchema : Schema :=
  ⟨[⟨['k'], .integer, false, none, 0, true, true, false⟩,
    ⟨['u'], .integer, true, none, 1, true, false, false⟩]⟩

def sampleRow (i : Int64) : Row := ⟨[some (.integer i), none]⟩

theorem constrained_run_sample : Run.Always (SQLEngine.step .ascii)
    (fun e => ∀ name d, e.tables.lookup name = some d → Constrained d) ⟨∅, none⟩
    [sampleCreate, sampleInsert,
      sampleUpdate 3 (some (.binaryOp (.column ['k']) .eq (.literal (.integer 1))))] := by
  refine constrained_run .ascii none _ ⟨?_, ?_, ?_, trivial⟩
  · intro c member
    simp only [List.mem_cons, List.not_mem_nil, or_false] at member
    rcases member with rfl | rfl <;> simp
  · intro d colIndices found known exprs member given evaluated idx col column unique nullable auto
    have table : d = ⟨sampleSchema, [], 0⟩ :=
      Option.some.inj (found.symm.trans (by decide +kernel))
    subst table
    have first : colIndices = [0] := Outcome.ok.inj (known.symm.trans (by decide +kernel))
    subst first
    simp only [List.mem_cons, List.not_mem_nil, or_false] at member
    rcases member with rfl | rfl
    · have row : given = [some (.integer 1), none] :=
        Outcome.ok.inj (evaluated.symm.trans (by decide +kernel))
      subst row
      rcases idx with _ | _ | idx <;> simp
    · have row : given = [some (.integer 2), none] :=
        Outcome.ok.inj (evaluated.symm.trans (by decide +kernel))
      subst row
      rcases idx with _ | _ | idx <;> simp
  · intro d updated found ran i row rewritten
    have table : d = ⟨sampleSchema, [sampleRow 1, sampleRow 2], 2⟩ :=
      Option.some.inj (found.symm.trans (by decide +kernel))
    subst table
    have rows : updated = [(sampleRow 3, true), (sampleRow 2, false)] :=
      Outcome.ok.inj (ran.symm.trans (by decide +kernel))
    subst rows
    rcases i with _ | _ | i
    · cases rewritten
      refine ⟨by decide +kernel, by decide +kernel, fun idx col _ _ => ?_⟩
      rcases idx with _ | _ | idx <;> simp [sampleRow]
    · cases rewritten
    · cases rewritten

/-- **An UPDATE breaks a PRIMARY KEY**: it gives every row the same key. -/
theorem not_constrained_run : ¬ ∀ (X : Extern) (storage : Option (KeyValue Json))
    (stmts : List Statement), ∀ e ∈ Run.states (SQLEngine.step X) ⟨∅, storage⟩ stmts,
      ∀ name d, e.tables.lookup name = some d → Constrained d := by
  intro all
  let stmts := [sampleCreate, sampleInsert, sampleUpdate 1 none]
  have held := all .ascii none stmts _ (Run.foldl_mem_states _ _) ['t']
    ⟨sampleSchema, [sampleRow 1, sampleRow 1], 2⟩ (by decide +kernel)
  have apart := held.distinct 0 _ rfl rfl
  refine List.rel_of_pairwise_cons apart (List.mem_singleton.mpr rfl) ⟨?_, ?_⟩ <;> decide

end NovaRuntime.Sql
