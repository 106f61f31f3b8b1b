/-
# NovaRuntime.Sql.Documents — the documents of the store and what is read back from them

A table is written as a tree and read back from it. Everything comes back as it was but
a float: one that is not finite is written as `null`, which does not read as a float, and
of a finite one comes back what `serde_json` makes of its digits. `Exact` says of a value
that it survives this.

The two layouts are told apart by trial (`PersistedTable.ofJson_meta`,
`PersistedTableMeta.ofJson_single`), and the keys of different tables are different
because a table's name holds no colon.
-/
import NovaRuntime.Sql.Persist

namespace NovaRuntime.Sql

open NovaRuntime.Library

set_option autoImplicit false

variable {X : Extern}

/-! ## Values that survive -/

/-- The value is read back as it was written. -/
def Exact (X : Extern) : LiteralValue → Prop
  | .float f => f.isFinite = true ∧ X.jsonFloat f = f
  | _ => True

def Row.Exact (X : Extern) (row : Row) : Prop := ∀ v, some v ∈ row.values → Sql.Exact X v

def Schema.Exact (X : Extern) (schema : Schema) : Prop :=
  ∀ col ∈ schema.columns, ∀ v, col.default = some v → Sql.Exact X v

namespace LiteralValue

theorem ofJson_toJson {v : LiteralValue} (exact : Exact X v) : ofJson X v.toJson = some v := by
  cases v with
  | null => rfl
  | boolean b => rfl
  | integer i =>
    simp only [toJson, ofJson]
    rw [if_pos ⟨i.le_toInt, i.toInt_lt⟩, Int64.ofInt_toInt]
  | float f =>
    simp only [toJson, if_pos exact.1, ofJson, exact.2]
  | string s => rfl

theorem toJson_ne_null (v : LiteralValue) : v.toJson ≠ .null := by
  cases v <;> simp [toJson]

theorem option_ofJson_toJson {v : Option LiteralValue} (exact : ∀ w, v = some w → Exact X w) :
    optionOfJson (ofJson X) (optionJson toJson v) = some v := by
  cases v with
  | none => rfl
  | some w =>
    have read := ofJson_toJson (exact w rfl)
    have notNull := toJson_ne_null w
    simp only [optionJson]
    revert read notNull
    cases w.toJson with
    | null => exact fun _ notNull => absurd rfl notNull
    | _ =>
      intro read _
      simp only [optionOfJson, read, Option.map_some]

end LiteralValue

theorem SQLType.ofJson_toJson (t : SQLType) : SQLType.ofJson t.toJson = some t := by
  cases t <;> decide

theorem Json.asNat_int (n : Nat) : Json.asNat (.int n) = some n := rfl

theorem ColumnInfo.ofJson_toJson {c : ColumnInfo} (exact : ∀ v, c.default = some v → Exact X v) :
    ColumnInfo.ofJson X c.toJson = some c := by
  have default := LiteralValue.option_ofJson_toJson (X := X) exact
  simp [ColumnInfo.ofJson, ColumnInfo.toJson, Json.member, Json.asText, Json.asBool,
    Json.asNat_int, SQLType.ofJson_toJson, default]

theorem Schema.ofJson_toJson {schema : Schema} (exact : schema.Exact X) :
    Schema.ofJson X schema.toJson = some schema := by
  have columns : Json.items (ColumnInfo.ofJson X) (.arr (schema.columns.map ColumnInfo.toJson)) =
      some schema.columns := Json.items_map fun col member => ColumnInfo.ofJson_toJson (exact col member)
  simp [Schema.ofJson, Schema.toJson, Json.member, columns]

theorem Row.ofJson_toJson {row : Row} (exact : row.Exact X) : Row.ofJson X row.toJson = some row := by
  have values : Json.items (optionOfJson (LiteralValue.ofJson X))
      (.arr (row.values.map (optionJson LiteralValue.toJson))) = some row.values :=
    Json.items_map fun v member =>
      LiteralValue.option_ofJson_toJson fun w same => exact w (same ▸ member)
  simp [Row.ofJson, Row.toJson, Json.member, values]

/-- **A chunk is read back as it was written.** -/
theorem rowsOfJson_rowsJson {rows : List Row} (exact : ∀ row ∈ rows, row.Exact X) :
    rowsOfJson X (rowsJson rows) = some rows :=
  Json.items_map fun row member => Row.ofJson_toJson (exact row member)

theorem namesOfJson_namesJson (names : List Text) : namesOfJson (namesJson names) = some names :=
  Json.items_map fun _ _ => rfl

namespace PersistedTable

/-- **A single document is read back as it was written.** -/
theorem ofJson_toJson {t : PersistedTable} (schema : t.schema.Exact X)
    (rows : ∀ row ∈ t.rows, row.Exact X) : ofJson X t.toJson = some t := by
  simp [ofJson, toJson, Json.member, Schema.ofJson_toJson schema, rowsOfJson_rowsJson rows]

/-- The document of a chunked table is not taken for a single one. -/
theorem ofJson_meta (m : PersistedTableMeta) : ofJson X m.toJson = none := by
  simp [ofJson, PersistedTableMeta.toJson, Json.member]

end PersistedTable

namespace PersistedTableMeta

theorem ofJson_toJson {m : PersistedTableMeta} (schema : m.schema.Exact X) :
    ofJson X m.toJson = some m := by
  simp [ofJson, toJson, Json.member, Schema.ofJson_toJson schema, Json.asNat_int]

end PersistedTableMeta

/-! ## Keys -/

theorem decimal_injective : Function.Injective decimal := by
  intro m n same
  have back := congrArg (fun digits => Nat.ofDigitChars 10 digits 0) same
  simpa only [decimal, Nat.ofDigitChars_ten_toDigits] using back

theorem tableKey_inj {name name' : Text} : tableKey name = tableKey name' ↔ name = name' :=
  ⟨fun same => List.append_cancel_left (utf8_injective same), fun same => same ▸ rfl⟩

/-- The name of a table, which no separator is in. -/
def Plain (name : Text) : Prop := ':' ∉ name

theorem tableChunkKey_inj {name name' : Text} (plain : Plain name) (plain' : Plain name')
    {idx idx' : Nat} :
    tableChunkKey name idx = tableChunkKey name' idx' ↔ name = name' ∧ idx = idx' := by
  constructor
  · intro same
    have texts := List.append_cancel_left (utf8_injective same)
    have colon : ∀ (name : Text) (idx : Nat), name ++ ":chunk:".toList ++ decimal idx =
        name ++ ':' :: ("chunk:".toList ++ decimal idx) := by
      intro name idx
      rw [List.append_assoc]
      rfl
    rw [colon, colon] at texts
    obtain ⟨rfl, later⟩ := (append_sep_inj_left plain plain').mp texts
    exact ⟨rfl, decimal_injective (List.append_cancel_left later)⟩
  · rintro ⟨rfl, rfl⟩
    rfl

theorem tableKey_ne_chunkKey {name : Text} (plain : Plain name) (name' : Text) (idx : Nat) :
    tableKey name ≠ tableChunkKey name' idx := by
  intro same
  have texts := List.append_cancel_left (utf8_injective same)
  refine plain (texts ▸ ?_)
  simp

theorem tableKey_ne_names (name : Text) : tableKey name ≠ tableNamesKey := by
  intro same
  have tenth := congrArg (fun t : Text => t[9]?) (utf8_injective same)
  simp at tenth

theorem tableChunkKey_ne_names (name : Text) (idx : Nat) : tableChunkKey name idx ≠ tableNamesKey := by
  intro same
  have tenth := congrArg (fun t : Text => t[9]?) (utf8_injective same)
  simp at tenth

end NovaRuntime.Sql
