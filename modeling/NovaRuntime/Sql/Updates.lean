/-
# NovaRuntime.Sql.Updates — the assignments of an UPDATE

An UPDATE should give every assigned column the value that its right-hand side has on the row as it was
(`UpdatesAtOnce`). `execute_update` assigns in turn, on the row as the earlier assignments left it. The
two agree where no right-hand side changes its value through the assignments before it, and where the
statement can be carried out in neither way (`updates_at_once_iff`). `SET a = b, b = a` is no exchange
(`no_exchange`).
-/
import NovaRuntime.Library.Assignments
import NovaRuntime.Sql.EngineSpec
import NovaRuntime.Sql.Readings

namespace NovaRuntime.Sql

open NovaRuntime.Library SQLEngine

set_option autoImplicit false

variable {X : Extern} {schema : Schema} {upd : UpdateStatement} {row row' : Row} {e : SQLEngine} {d : TableData}

/-! ## At once -/

def target (schema : Schema) (a : Assignment) : Option Nat := schema.findIndex a.column

/-- What an assignment puts into its column: the value of the right-hand side, as the type of the column. -/
def newValue (X : Extern) (schema : Schema) (values : List (Option LiteralValue)) (a : Assignment) :
    Option (Option LiteralValue) :=
  ((target schema a).bind fun idx => schema.columns[idx]?).bind fun col =>
    (evaluateExpr X values schema a.value >>= fun val => coerceValue X val col.sqlType).elim
      (fun val => some (some val)) none

/-- A row after the UPDATE: as it was where it is not selected, assigned at once where it is. -/
def UpdatedRow (X : Extern) (schema : Schema) (upd : UpdateStatement) (row row' : Row) : Prop :=
  (selects X schema upd.whereClause row = .ok false ∧ row' = row) ∨
    (selects X schema upd.whereClause row = .ok true ∧
      AtOnce (target schema) (newValue X schema) row.values upd.assignments row'.values)

/-- The UPDATE assigns at once; where a value it needs does not exist the table stays. -/
def UpdatesAtOnce (X : Extern) (e : SQLEngine) (upd : UpdateStatement) (d : TableData) : Prop :=
  (∃ rows', List.Forall₂ (UpdatedRow X d.schema upd) d.rows rows' ∧
      (SQLEngine.executeUpdate X upd e).2.tables.lookup upd.table.text = some { d with rows := rows' }) ∨
    ((¬ ∃ rows', List.Forall₂ (UpdatedRow X d.schema upd) d.rows rows') ∧
      (SQLEngine.executeUpdate X upd e).2.tables.lookup upd.table.text = some d)

/-! ## The condition -/

/-- All right-hand sides have a value on the row. -/
def Valued (X : Extern) (schema : Schema) (upd : UpdateStatement) (row : Row) : Prop :=
  ∀ a ∈ upd.assignments, ∃ i v, target schema a = some i ∧ newValue X schema row.values a = some v

/-- On every selected row all right-hand sides have a value, and keep it through the assignments before. -/
def SteadyRows (X : Extern) (d : TableData) (upd : UpdateStatement) : Prop :=
  ∀ row ∈ d.rows, selects X d.schema upd.whereClause row = .ok false ∨
    (selects X d.schema upd.whereClause row = .ok true ∧ Valued X d.schema upd row ∧
      Steady (target d.schema) (newValue X d.schema) row.values row.values upd.assignments)

/-- The predicate has no value on some row; or on some selected row a right-hand side has none, and on some
selected row one has none when its turn comes. -/
def Impossible (X : Extern) (d : TableData) (upd : UpdateStatement) : Prop :=
  (∃ row ∈ d.rows, ∀ chosen, selects X d.schema upd.whereClause row ≠ .ok chosen) ∨
    ((∃ row ∈ d.rows, selects X d.schema upd.whereClause row = .ok true ∧ ¬ Valued X d.schema upd row) ∧
      ∃ row ∈ d.rows, selects X d.schema upd.whereClause row = .ok true ∧
        inTurn (target d.schema) (newValue X d.schema) row.values upd.assignments = none)

/-! ## One row -/

theorem findIndex_name {name : Text} {idx : Nat} (found : schema.findIndex name = some idx) :
    ∃ col, schema.columns[idx]? = some col ∧ col.name = name := by
  obtain ⟨inside, same, -⟩ := List.findIdx?_eq_some_iff_getElem.mp found
  exact ⟨schema.columns[idx], List.getElem?_eq_getElem inside, by simpa using same⟩

theorem target_lt {a : Assignment} {idx : Nat} (found : target schema a = some idx) : idx < schema.len :=
  Schema.findIndex_lt found

/-- Distinct names are distinct columns. -/
theorem apart_of_names {assignments : List Assignment} (distinct : (assignments.map (·.column)).Nodup) :
    Apart (target schema) assignments := by
  rw [List.Nodup, List.pairwise_map] at distinct
  apply distinct.imp
  intro a b differ i here there
  obtain ⟨col, at', named⟩ := findIndex_name here
  obtain ⟨col', at'', named'⟩ := findIndex_name there
  rw [at', Option.some.injEq] at at''
  subst at''
  exact differ (named.symm.trans named')

theorem assignRow_eq_ok {assignments : List Assignment} :
    assignRow X schema row assignments = .ok row' ↔
      inTurn (target schema) (newValue X schema) row.values assignments = some row'.values := by
  induction assignments generalizing row with
  | nil =>
    rw [assignRow, inTurn, Outcome.ok.injEq, Option.some.injEq]
    constructor
    · rintro rfl
      rfl
    · intro same
      cases row
      cases row'
      exact congrArg Row.mk same
  | cons a rest ih =>
    rw [assignRow, inTurn, target]
    cases here : schema.findIndex a.column with
    | none => simp
    | some idx =>
      obtain ⟨col, at', -⟩ := findIndex_name here
      have value : newValue X schema row.values a =
          (evaluateExpr X row.values schema a.value >>= fun val => coerceValue X val col.sqlType).elim
            (fun val => some (some val)) none := by
        rw [newValue, target, here, Option.bind_some, at', Option.bind_some]
      simp only [at', Option.bind_some, value]
      cases given : evaluateExpr X row.values schema a.value with
      | ok val =>
        rw [Outcome.ok_bind, Outcome.ok_bind]
        cases coerced : coerceValue X val col.sqlType with
        | ok val' => exact ih
        | _ => simp [Outcome.elim]
      | _ => simp [Outcome.elim]

theorem updateRow_of_false (skipped : selects X schema upd.whereClause row = .ok false) :
    updateRow X schema upd row = .ok (row, false) := by
  rw [updateRow, skipped]
  rfl

theorem updateRow_of_true (chosen : selects X schema upd.whereClause row = .ok true)
    (ran : assignRow X schema row upd.assignments = .ok row') :
    updateRow X schema upd row = .ok (row', true) := by
  rw [updateRow, chosen]
  show (assignRow X schema row upd.assignments >>= fun row' => pure (row', true)) = _
  rw [ran]
  rfl

theorem updateRow_eq_ok {selected : Bool} :
    updateRow X schema upd row = .ok (row', selected) ↔
      (selects X schema upd.whereClause row = .ok false ∧ row' = row ∧ selected = false) ∨
        (selects X schema upd.whereClause row = .ok true ∧ selected = true ∧
          inTurn (target schema) (newValue X schema) row.values upd.assignments = some row'.values) := by
  constructor
  · intro ran
    rw [updateRow] at ran
    obtain ⟨chosen, selected', ran⟩ := Outcome.bind_eq_ok.mp ran
    cases chosen with
    | false =>
      cases ran
      exact .inl ⟨selected', rfl, rfl⟩
    | true =>
      obtain ⟨row'', assigned, ran⟩ := Outcome.bind_eq_ok.mp ran
      cases ran
      exact .inr ⟨selected', rfl, assignRow_eq_ok.mp assigned⟩
  · rintro (⟨skipped, rfl, rfl⟩ | ⟨chosen, rfl, ran⟩)
    · exact updateRow_of_false skipped
    · exact updateRow_of_true chosen (assignRow_eq_ok.mpr ran)

section Row

variable (wide : row.values.length = schema.len) (distinct : (upd.assignments.map (·.column)).Nodup)

include wide in
theorem targets_inside : ∀ a ∈ upd.assignments, ∀ i, target schema a = some i → i < row.values.length := by
  intro a _ i here
  rw [wide]
  exact target_lt here

include wide distinct in
/-- A row with steady values is assigned as at once. -/
theorem updateRow_of_steady (steady : selects X schema upd.whereClause row = .ok false ∨
      (selects X schema upd.whereClause row = .ok true ∧ Valued X schema upd row ∧
        Steady (target schema) (newValue X schema) row.values row.values upd.assignments)) :
    ∃ row' selected, updateRow X schema upd row = .ok (row', selected) ∧ UpdatedRow X schema upd row row' := by
  rcases steady with skipped | ⟨chosen, valued, steady⟩
  · exact ⟨row, false, updateRow_of_false skipped, .inl ⟨skipped, rfl⟩⟩
  · obtain ⟨after, ran, placed⟩ :=
      inTurn_of_steady (apart_of_names distinct) (targets_inside wide) valued steady
    exact ⟨⟨after⟩, true, updateRow_eq_ok.mpr (.inr ⟨chosen, rfl, ran⟩), .inr ⟨chosen, placed⟩⟩

include distinct in
/-- A row that is assigned as at once has steady values. -/
theorem steady_of_updated {selected : Bool} (ran : updateRow X schema upd row = .ok (row', selected))
    (updated : UpdatedRow X schema upd row row') :
    selects X schema upd.whereClause row = .ok false ∨
      (selects X schema upd.whereClause row = .ok true ∧ Valued X schema upd row ∧
        Steady (target schema) (newValue X schema) row.values row.values upd.assignments) := by
  rcases updated with ⟨skipped, -⟩ | ⟨chosen, once⟩
  · exact .inl skipped
  · rcases updateRow_eq_ok.mp ran with ⟨skipped, -, -⟩ | ⟨-, -, turns⟩
    · rw [chosen] at skipped
      cases skipped
    · refine .inr ⟨chosen, fun a among => ?_, (inTurn_iff_steady (apart_of_names distinct) once).mp turns⟩
      obtain ⟨i, v, here, given, -⟩ := once.assigned a among
      exact ⟨i, v, here, given⟩

include wide distinct in
/-- A row with values on it has a row after the UPDATE. -/
theorem exists_updated (chosen : selects X schema upd.whereClause row = .ok true)
    (valued : Valued X schema upd row) : ∃ row', UpdatedRow X schema upd row row' := by
  obtain ⟨after, placed⟩ := exists_placed (s := row.values) (apart_of_names distinct) (targets_inside wide) valued
  exact ⟨⟨after⟩, .inr ⟨chosen, placed⟩⟩

include wide distinct in
/-- A row that the code leaves as it was is also left at once, and the other way round. -/
theorem updateRow_self_iff :
    (∃ selected, updateRow X schema upd row = .ok (row, selected)) ↔ UpdatedRow X schema upd row row := by
  have same : inTurn (target schema) (newValue X schema) row.values upd.assignments = some row.values ↔
      AtOnce (target schema) (newValue X schema) row.values upd.assignments row.values :=
    inTurn_self_iff (apart_of_names distinct) (targets_inside wide)
  constructor
  · rintro ⟨selected, ran⟩
    rcases updateRow_eq_ok.mp ran with ⟨skipped, -, -⟩ | ⟨chosen, -, turns⟩
    · exact .inl ⟨skipped, rfl⟩
    · exact .inr ⟨chosen, same.mp turns⟩
  · rintro (⟨skipped, -⟩ | ⟨chosen, once⟩)
    · exact ⟨false, updateRow_of_false skipped⟩
    · exact ⟨true, updateRow_eq_ok.mpr (.inr ⟨chosen, rfl, same.mpr once⟩)⟩

end Row

/-! ## What a value depends on -/

section Congr

variable {values values' : List (Option LiteralValue)}

/-- The rows agree on the columns that some expressions name. -/
def AgreeOn (schema : Schema) (values values' : List (Option LiteralValue)) (named : List Expr) : Prop :=
  ∀ name, .column name ∈ named → ∀ i, schema.findIndex name = some i → values[i]? = values'[i]?

/-- An expression has one value on rows that agree on the columns it names. -/
theorem evaluateExpr_congr (e : Expr) (agree : AgreeOn schema values values' (parts e)) :
    evaluateExpr X values schema e = evaluateExpr X values' schema e := by
  rw [← valueOf_row, ← valueOf_row]
  refine valueOf_agree e ⟨fun name among => ?_, fun _ _ _ => rfl⟩
  show evaluateExpr X values schema (.column name) = evaluateExpr X values' schema (.column name)
  rw [evaluateExpr, evaluateExpr]
  cases found : schema.findIndex name with
  | none => rfl
  | some i => simp only [agree name among i found]

end Congr

/-- No assignment reads a column that one before it assigns. -/
def Unread (assignments : List Assignment) : Prop :=
  assignments.Pairwise fun a b => .column a.column ∉ parts b.value

/-- Then every value is steady. -/
theorem steady_of_unread {s current : List (Option LiteralValue)} {assignments : List Assignment}
    (unread : Unread assignments)
    (agree : ∀ a ∈ assignments, AgreeOn schema current s (parts a.value)) :
    Steady (target schema) (newValue X schema) s current assignments := by
  induction assignments generalizing current with
  | nil => trivial
  | cons a rest ih =>
    obtain ⟨apart, unread⟩ := List.pairwise_cons.mp unread
    obtain ⟨first, others⟩ := List.forall_mem_cons.mp agree
    refine ⟨by rw [newValue, newValue, evaluateExpr_congr a.value first], fun i v here _ => ih unread ?_⟩
    intro b among name named j found
    rw [← others b among name named j found]
    apply List.getElem?_set_ne
    rintro rfl
    obtain ⟨col, at', same⟩ := findIndex_name here
    obtain ⟨col', at'', same'⟩ := findIndex_name found
    rw [at', Option.some.injEq] at at''
    subst at''
    exact apart b among (same.symm.trans same' ▸ named)

/-! ## All rows -/

theorem exists_forall₂ {α β : Type} {R : α → β → Prop} (xs : List α) (each : ∀ x ∈ xs, ∃ y, R x y) :
    ∃ ys, List.Forall₂ R xs ys := by
  induction xs with
  | nil => exact ⟨[], .nil⟩
  | cons x xs ih =>
    obtain ⟨first, rest⟩ := List.forall_mem_cons.mp each
    obtain ⟨y, related⟩ := first
    obtain ⟨ys, others⟩ := ih rest
    exact ⟨y :: ys, .cons related others⟩

theorem forall₂_self {α : Type} {R : α → α → Prop} {xs : List α} :
    List.Forall₂ R xs xs ↔ ∀ x ∈ xs, R x x := by
  induction xs with
  | nil => simp
  | cons x xs ih => rw [List.forall₂_cons, ih, List.forall_mem_cons]

theorem forall₂_mem {α β : Type} {R S : α → β → Prop} {xs : List α} {ys : List β} (each : List.Forall₂ R xs ys)
    (next : ∀ x ∈ xs, ∀ y, R x y → S x y) : List.Forall₂ S xs ys := by
  induction each with
  | nil => exact .nil
  | cons related _ ih =>
    obtain ⟨first, rest⟩ := List.forall_mem_cons.mp next
    exact .cons (first _ related) (ih rest)

theorem forall₂_both {α β : Type} {R S : α → β → Prop} {xs : List α} {ys : List β} (one : List.Forall₂ R xs ys)
    (other : List.Forall₂ S xs ys) : ∀ x ∈ xs, ∃ y, R x y ∧ S x y := by
  induction one with
  | nil => simp
  | cons related _ ih =>
    cases other with
    | cons related' rest => exact List.forall_mem_cons.mpr ⟨⟨_, related, related'⟩, ih rest⟩

/-- The rows after an UPDATE, or the ones before. -/
theorem executeUpdate_rows (found : e.tables.lookup upd.table.text = some d) :
    (∃ updated, d.rows.mapM (updateRow X d.schema upd) = .ok updated ∧
        (SQLEngine.executeUpdate X upd e).2.tables.lookup upd.table.text =
          some { d with rows := updated.map Prod.fst }) ∨
      ((∀ updated, d.rows.mapM (updateRow X d.schema upd) ≠ .ok updated) ∧
        (SQLEngine.executeUpdate X upd e).2.tables.lookup upd.table.text = some d) := by
  by_cases succeeds : ∃ updated, d.rows.mapM (updateRow X d.schema upd) = .ok updated
  · obtain ⟨updated, ran⟩ := succeeds
    refine .inl ⟨updated, ran, ?_⟩
    rw [executeUpdate_of_known X e found ran, tables_of_keeps
      ((keeps_persistTable X upd.table.text).bind fun _ => Exec.keeps_pure _ (updated.countP Prod.snd)),
      AList.lookup_insert]
  · rw [not_exists] at succeeds
    refine .inr ⟨succeeds, ?_⟩
    rcases tables_executeUpdate X e upd with same | ⟨d', updated, found', ran, -⟩
    · rw [same, found]
    · rw [found, Option.some.injEq] at found'
      subst found'
      exact absurd ran (succeeds updated)

theorem rows_of_same {rows rows' : List Row} (same : some { d with rows } = some { d with rows := rows' }) :
    rows = rows' := congrArg TableData.rows (Option.some.inj same)

/-- Where every row can be updated. -/
theorem once_iff_of_updated {updated : List (Row × Bool)}
    (each : List.Forall₂ (fun row p => updateRow X d.schema upd row = .ok p) d.rows updated)
    (after : (SQLEngine.executeUpdate X upd e).2.tables.lookup upd.table.text =
      some { d with rows := updated.map Prod.fst })
    (wide : ∀ row ∈ d.rows, row.values.length = d.schema.len)
    (distinct : (upd.assignments.map (·.column)).Nodup) :
    UpdatesAtOnce X e upd d ↔ SteadyRows X d upd ∨ Impossible X d upd := by
  rw [UpdatesAtOnce, after]
  constructor
  · rintro (⟨rows', once, same⟩ | ⟨none, same⟩)
    · rw [← rows_of_same same, List.forall₂_map_right_iff] at once
      refine .inl fun row among => ?_
      obtain ⟨⟨row', selected⟩, ran, updatedRow⟩ := forall₂_both each once row among
      exact steady_of_updated distinct ran updatedRow
    · -- nothing changed, so at once nothing would have changed either
      have still : updated.map Prod.fst = d.rows := rows_of_same same
      have itself : ∀ row ∈ d.rows, UpdatedRow X d.schema upd row row := by
        have firsts : List.Forall₂ (fun row row' => ∃ selected, updateRow X d.schema upd row = .ok (row', selected))
            d.rows d.rows := by
          rw [← still, List.forall₂_map_right_iff, still]
          exact each.imp fun row p ran => ⟨p.2, ran⟩
        intro row among
        exact (updateRow_self_iff (wide row among) distinct).mp (forall₂_self.mp firsts row among)
      exact absurd ⟨d.rows, forall₂_self.mpr itself⟩ none
  · rintro (steady | impossible)
    · refine .inl ⟨_, ?_, rfl⟩
      rw [List.forall₂_map_right_iff]
      apply forall₂_mem each
      intro row among p ran
      obtain ⟨row', selected, ran', once⟩ := updateRow_of_steady (wide row among) distinct (steady row among)
      rw [ran, Outcome.ok.injEq] at ran'
      rw [ran']
      exact once
    · rcases impossible with ⟨row, among, unknown⟩ | ⟨-, row, among, chosen, stuck⟩
      · obtain ⟨p, ran, -⟩ := forall₂_both each each row among
        rcases updateRow_eq_ok.mp ran with ⟨skipped, -⟩ | ⟨taken, -⟩
        · exact absurd skipped (unknown false)
        · exact absurd taken (unknown true)
      · obtain ⟨p, ran, -⟩ := forall₂_both each each row among
        rcases updateRow_eq_ok.mp ran with ⟨skipped, -⟩ | ⟨-, -, turns⟩
        · rw [chosen] at skipped
          cases skipped
        · rw [stuck] at turns
          cases turns

theorem not_updatedRow {row : Row} (unknown : ∀ chosen, selects X schema upd.whereClause row ≠ .ok chosen)
    (row' : Row) : ¬ UpdatedRow X schema upd row row' := by
  rintro (⟨skipped, -⟩ | ⟨taken, -⟩)
  · exact unknown false skipped
  · exact unknown true taken

/-- Where some row cannot. -/
theorem once_iff_of_failed (failed : ∀ updated, d.rows.mapM (updateRow X d.schema upd) ≠ .ok updated)
    (after : (SQLEngine.executeUpdate X upd e).2.tables.lookup upd.table.text = some d)
    (wide : ∀ row ∈ d.rows, row.values.length = d.schema.len)
    (distinct : (upd.assignments.map (·.column)).Nodup) :
    UpdatesAtOnce X e upd d ↔ SteadyRows X d upd ∨ Impossible X d upd := by
  rw [UpdatesAtOnce, after]
  have refused : ¬ ∀ row ∈ d.rows, ∃ result, updateRow X d.schema upd row = .ok result := by
    intro each
    obtain ⟨updated, ran⟩ := exists_forall₂ d.rows each
    exact failed updated (Outcome.mapM_of_forall₂ ran)
  constructor
  · rintro (⟨rows', once, same⟩ | ⟨none, -⟩)
    · rw [← rows_of_same same, forall₂_self] at once
      refine absurd (fun row among => ?_) refused
      obtain ⟨selected, ran⟩ := (updateRow_self_iff (wide row among) distinct).mpr (once row among)
      exact ⟨_, ran⟩
    · by_cases unknown : ∃ row ∈ d.rows, ∀ chosen, selects X d.schema upd.whereClause row ≠ .ok chosen
      · exact .inr (.inl unknown)
      · simp only [not_exists, not_and, not_forall, not_not] at unknown
        refine .inr (.inr ⟨?_, ?_⟩)
        · by_contra valued
          apply none
          apply exists_forall₂
          intro row among
          obtain ⟨chosen, known⟩ := unknown row among
          cases chosen with
          | false => exact ⟨row, .inl ⟨known, rfl⟩⟩
          | true =>
            apply exists_updated (wide row among) distinct known
            by_contra unvalued
            exact valued ⟨row, among, known, unvalued⟩
        · by_contra turns
          apply refused
          intro row among
          obtain ⟨chosen, known⟩ := unknown row among
          cases chosen with
          | false => exact ⟨_, updateRow_of_false known⟩
          | true =>
            cases ran : inTurn (target d.schema) (newValue X d.schema) row.values upd.assignments with
            | none => exact absurd ⟨row, among, known, ran⟩ turns
            | some after => exact ⟨(⟨after⟩, true), updateRow_eq_ok.mpr (.inr ⟨known, rfl, ran⟩)⟩
  · rintro (steady | impossible)
    · refine absurd (fun row among => ?_) refused
      obtain ⟨row', selected, ran, -⟩ := updateRow_of_steady (wide row among) distinct (steady row among)
      exact ⟨_, ran⟩
    · refine .inr ⟨?_, rfl⟩
      rintro ⟨rows', once⟩
      rcases impossible with ⟨row, among, unknown⟩ | ⟨⟨row, among, chosen, unvalued⟩, -⟩
      · obtain ⟨row', updatedRow, -⟩ := forall₂_both once once row among
        exact not_updatedRow unknown row' updatedRow
      · obtain ⟨row', updatedRow, -⟩ := forall₂_both once once row among
        rcases updatedRow with ⟨skipped, -⟩ | ⟨-, placed⟩
        · rw [chosen] at skipped
          cases skipped
        · apply unvalued
          intro a inside
          obtain ⟨i, v, here, given, -⟩ := placed.assigned a inside
          exact ⟨i, v, here, given⟩

/-- **When an UPDATE assigns at once**: where no right-hand side on a selected row loses its value to the
assignments before it, and where there is no update either way. -/
theorem updates_at_once_iff (X : Extern) (e : SQLEngine) (upd : UpdateStatement) (d : TableData)
    (found : e.tables.lookup upd.table.text = some d)
    (wide : ∀ row ∈ d.rows, row.values.length = d.schema.len)
    (distinct : (upd.assignments.map (·.column)).Nodup) :
    UpdatesAtOnce X e upd d ↔ SteadyRows X d upd ∨ Impossible X d upd := by
  rcases executeUpdate_rows (X := X) found with ⟨updated, ran, after⟩ | ⟨failed, after⟩
  · exact once_iff_of_updated (Outcome.mapM_eq_ok ran) after wide distinct
  · exact once_iff_of_failed failed after wide distinct

/-! ## Two columns that change places -/

def pairColumn (name : Char) : ColumnInfo := ⟨[name], .integer, true, none, 0, false, false, false⟩

/-- A table `t` of the columns `a` and `b` with the row (1, 2). -/
def pair : TableData := ⟨⟨[pairColumn 'a', pairColumn 'b']⟩, [⟨[some (.integer 1), some (.integer 2)]⟩], 1⟩

def pairEngine : SQLEngine := ⟨AList.singleton ['t'] pair, none⟩

def pairUpdate (assignments : List Assignment) : UpdateStatement := ⟨⟨['t'], Eq.refl true⟩, assignments, none⟩

/-- `SET a = 5, b = b` reads no column that it has assigned. -/
theorem updates_at_once_pair :
    UpdatesAtOnce .ascii pairEngine
      (pairUpdate [⟨['a'], .literal (.integer 5)⟩, ⟨['b'], .column ['b']⟩]) pair := by
  apply (updates_at_once_iff .ascii pairEngine _ pair (by decide +kernel) (by decide) (by decide)).mpr
  refine .inl fun row among => .inr ?_
  rw [List.mem_singleton.mp among]
  refine ⟨rfl, ?_, steady_of_unread ?_ fun a _ name _ i _ => rfl⟩
  · intro a inside
    simp only [pairUpdate, List.mem_cons, List.not_mem_nil, or_false] at inside
    rcases inside with rfl | rfl
    · exact ⟨0, some (.integer 5), by decide, by decide +kernel⟩
    · exact ⟨1, some (.integer 2), by decide, by decide +kernel⟩
  · simp [Unread, pairUpdate, parts]

/-- `SET a = b, b = a` on (1, 2) leaves (2, 2). -/
theorem no_exchange :
    ¬ UpdatesAtOnce .ascii pairEngine
      (pairUpdate [⟨['a'], .column ['b']⟩, ⟨['b'], .column ['a']⟩]) pair := by
  intro once
  have each : List.Forall₂ (fun row p => updateRow .ascii pair.schema
      (pairUpdate [⟨['a'], .column ['b']⟩, ⟨['b'], .column ['a']⟩]) row = .ok p) pair.rows
      [(⟨[some (.integer 2), some (.integer 2)]⟩, true)] := .cons (by decide +kernel) .nil
  rcases (once_iff_of_updated each (by decide +kernel) (by decide) (by decide)).mp once with
    steady | ⟨row, -, unknown⟩ | ⟨-, row, among, -, stuck⟩
  · rcases steady _ (.head _) with skipped | ⟨-, -, -, others⟩
    · cases skipped
    · have reads := (others 0 (some (.integer 2)) (by decide) (by decide +kernel)).1
      exact absurd reads (by decide +kernel)
  · exact unknown true rfl
  · rw [List.mem_singleton.mp among] at stuck
    exact absurd stuck (by decide +kernel)

end NovaRuntime.Sql
