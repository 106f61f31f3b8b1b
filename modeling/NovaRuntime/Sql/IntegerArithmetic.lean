/-
# NovaRuntime.Sql.IntegerArithmetic — integer expressions and their exact values

`exact` is the value of an integer expression in the integers, none where it divides by zero or
reads a column that is not there. The evaluator computes with `i64` values and looks at a zero
divisor only. `exactOrError_iff` says what else it would have to look at: a result that is no
`i64` value, and the remainder of the least one by `-1`.
-/
import NovaRuntime.Sql.Parts

namespace NovaRuntime.Sql

open NovaRuntime.Library

set_option autoImplicit false

/-! ## Exact values -/

/-- An `i64` value. -/
def InRange (n : Int) : Prop := -2 ^ 63 ≤ n ∧ n < 2 ^ 63

instance (n : Int) : Decidable (InRange n) := inferInstanceAs (Decidable (-2 ^ 63 ≤ n ∧ n < 2 ^ 63))

theorem inRange_toInt (i : Int64) : InRange i.toInt := ⟨i.le_toInt, i.toInt_lt⟩

def BinaryOperator.IsArithmetic : BinaryOperator → Prop
  | .plus | .minus | .multiply | .divide | .modulo => True
  | _ => False

/-- Quotients are rounded towards zero, and a remainder has the sign of the dividend. -/
def exactOp (op : BinaryOperator) (a b : Int) : Option Int :=
  match op with
  | .plus => some (a + b)
  | .minus => some (a - b)
  | .multiply => some (a * b)
  | .divide => if b = 0 then none else some (a.tdiv b)
  | .modulo => if b = 0 then none else some (a.tmod b)
  | _ => none

/-- The value in a cell of a row of integers. -/
def integerAt (row : List (Option LiteralValue)) (idx : Nat) : Option Int :=
  match row[idx]? with
  | some (some (.integer i)) => some i.toInt
  | _ => none

/-- **The value of an integer expression**, in the integers. -/
def exact (row : List (Option LiteralValue)) (schema : Schema) : Expr → Option Int
  | .literal (.integer i) => some i.toInt
  | .column name => (schema.findIndex name).bind (integerAt row)
  | .unaryOp .neg e => (exact row schema e).map fun n => -n
  | .binaryOp left op right =>
    (exact row schema left).bind fun a => (exact row schema right).bind fun b => exactOp op a b
  | _ => none

/-- An expression over `+`, `-`, `*`, `/`, `%` and unary minus, on integer literals and columns. -/
inductive Arithmetic : Expr → Prop where
  | literal (i : Int64) : Arithmetic (.literal (.integer i))
  | column (name : Text) : Arithmetic (.column name)
  | neg {e : Expr} (operand : Arithmetic e) : Arithmetic (.unaryOp .neg e)
  | binary {left right : Expr} {op : BinaryOperator} (arithmetic : op.IsArithmetic)
      (inLeft : Arithmetic left) (inRight : Arithmetic right) : Arithmetic (.binaryOp left op right)

/-- A row of `i64` values, as many as the schema has columns. -/
structure IntegerRow (row : List (Option LiteralValue)) (schema : Schema) : Prop where
  integers : ∀ cell ∈ row, ∃ i, cell = some (.integer i)
  complete : row.length = schema.len

/-! ## What an evaluation owes -/

/-- An error, or the exact value. -/
def ExactOr (res : Result LiteralValue) (value : Option Int) : Prop :=
  (∃ e, res = .err e) ∨ ∃ i : Int64, res = .ok (.integer i) ∧ value = some i.toInt

/-- **The evaluator returns the exact integer or an error**: it neither panics nor wraps. -/
def ExactOrError (X : Extern) (row : List (Option LiteralValue)) (schema : Schema) (e : Expr) : Prop :=
  ExactOr (evaluateExpr X row schema e) (exact row schema e)

/-- The exact value of an expression is an `i64` value, and it is not the remainder of the least
one by `-1`. -/
def Fits (row : List (Option LiteralValue)) (schema : Schema) : Expr → Prop
  | .binaryOp left .modulo right =>
    ¬ (exact row schema left = some (-2 ^ 63) ∧ exact row schema right = some (-1))
  | e => ∀ n, exact row schema e = some n → InRange n

/-- The evaluation ends as the exact value has it: an error where there is none. -/
def Tracks (res : Result LiteralValue) : Option Int → Prop
  | none => ∃ e, res = .err e
  | some n => ∃ i : Int64, i.toInt = n ∧ res = .ok (.integer i)

theorem Tracks.exactOr {res : Result LiteralValue} {value : Option Int} (tracks : Tracks res value) :
    ExactOr res value := by
  cases value with
  | none => exact .inl tracks
  | some n =>
    obtain ⟨i, rfl, ended⟩ := tracks
    exact .inr ⟨i, ended, rfl⟩

/-! ## One operator -/

section Operators

variable (X : Extern)

theorem integerResult_of_inRange {n : Int} (fits : InRange n) : Tracks (integerResult X n) (some n) := by
  refine ⟨.ofInt n, Int64.toInt_ofInt_of_le fits.1 fits.2, ?_⟩
  rw [integerResult, if_neg]
  rintro ⟨-, leaves⟩
  exact leaves fits

/-- Out of range the result panics or wraps. -/
theorem not_exactOr_of_leaves {n : Int} (leaves : ¬ InRange n) : ¬ ExactOr (integerResult X n) (some n) := by
  rintro (⟨e, failed⟩ | ⟨i, -, value⟩)
  · rw [integerResult] at failed
    split at failed <;> cases failed
  · cases value
    exact leaves (inRange_toInt i)

theorem not_exactOr_panic (value : Option Int) : ¬ ExactOr .panic value := by
  rintro (⟨e, failed⟩ | ⟨i, ended, -⟩)
  · cases failed
  · cases ended

theorem toInt_eq_zero {j : Int64} : j.toInt = 0 ↔ j = 0 := by
  rw [← Int64.toInt_zero, Int64.toInt_inj]

theorem toInt_eq_minusOne {j : Int64} : j.toInt = -1 ↔ j = -1 := by
  rw [← Int64.toInt_inj]
  rfl

theorem toInt_eq_min {i : Int64} : i.toInt = -2 ^ 63 ↔ i = Int64.minValue := by
  rw [← Int64.toInt_inj]
  rfl

/-- The two operands fit an operator. -/
def OpFits (op : BinaryOperator) (a b : Int) : Prop :=
  match op with
  | .modulo => ¬ (a = -2 ^ 63 ∧ b = -1)
  | op => ∀ n, exactOp op a b = some n → InRange n

theorem divide_integers (i j : Int64) :
    (OpFits .divide i.toInt j.toInt →
      Tracks (evalBinaryOp X .divide (.integer i) (.integer j)) (exactOp .divide i.toInt j.toInt)) ∧
    (¬ OpFits .divide i.toInt j.toInt →
      ¬ ExactOr (evalBinaryOp X .divide (.integer i) (.integer j)) (exactOp .divide i.toInt j.toInt)) := by
  simp only [evalBinaryOp, coerceNumericPair, Outcome.ok_bind, OpFits, exactOp, toInt_eq_zero]
  by_cases zero : j = 0
  · simp [zero, Tracks]
  rw [if_neg zero, if_neg zero]
  by_cases leaves : i = Int64.minValue ∧ j = -1
  · obtain ⟨rfl, rfl⟩ := leaves
    have quotient : ¬ InRange (Int64.minValue.toInt.tdiv (-1 : Int64).toInt) := by decide
    exact ⟨fun fits => absurd (fits _ rfl) quotient, fun _ => not_exactOr_panic _⟩
  · have value : (i / j).toInt = i.toInt.tdiv j.toInt := by
      rcases not_and_or.mp leaves with least | minusOne
      · exact Int64.toInt_div_of_ne_left i j least
      · exact Int64.toInt_div_of_ne_right i j minusOne
    rw [if_neg leaves]
    refine ⟨fun _ => ⟨i / j, value, rfl⟩, fun unfit => absurd ?_ unfit⟩
    rintro n ⟨⟩
    exact value ▸ inRange_toInt (i / j)

theorem modulo_integers (i j : Int64) :
    (OpFits .modulo i.toInt j.toInt →
      Tracks (evalBinaryOp X .modulo (.integer i) (.integer j)) (exactOp .modulo i.toInt j.toInt)) ∧
    (¬ OpFits .modulo i.toInt j.toInt →
      ¬ ExactOr (evalBinaryOp X .modulo (.integer i) (.integer j)) (exactOp .modulo i.toInt j.toInt)) := by
  simp only [evalBinaryOp, coerceNumericPair, Outcome.ok_bind, OpFits, exactOp, toInt_eq_zero, toInt_eq_min,
    toInt_eq_minusOne]
  by_cases zero : j = 0
  · simp [zero, Tracks]
  rw [if_neg zero, if_neg zero]
  by_cases leaves : i = Int64.minValue ∧ j = -1
  · rw [if_pos leaves]
    exact ⟨fun fits => absurd leaves fits, fun _ => not_exactOr_panic _⟩
  · rw [if_neg leaves]
    exact ⟨fun _ => ⟨i % j, Int64.toInt_mod i j, rfl⟩, fun unfit => absurd leaves unfit⟩

/-- **One operator on two `i64` values** ends as the exact value has it where the operands fit, and
nowhere else. -/
theorem evalBinaryOp_integers {op : BinaryOperator} (known : op.IsArithmetic) (i j : Int64) :
    (OpFits op i.toInt j.toInt →
      Tracks (evalBinaryOp X op (.integer i) (.integer j)) (exactOp op i.toInt j.toInt)) ∧
    (¬ OpFits op i.toInt j.toInt →
      ¬ ExactOr (evalBinaryOp X op (.integer i) (.integer j)) (exactOp op i.toInt j.toInt)) := by
  cases op with
  | divide => exact divide_integers X i j
  | modulo => exact modulo_integers X i j
  | plus | minus | multiply =>
    refine ⟨fun fits => integerResult_of_inRange X (fits _ rfl), fun unfit => ?_⟩
    refine not_exactOr_of_leaves X fun inRange => unfit ?_
    rintro n ⟨⟩
    exact inRange
  | _ => cases known

end Operators

/-! ## Expressions -/

section Expressions

variable {X : Extern} {row : List (Option LiteralValue)} {schema : Schema}

/-- The evaluation of an expression ends as its exact value has it. -/
def TracksAt (X : Extern) (row : List (Option LiteralValue)) (schema : Schema) (e : Expr) : Prop :=
  Tracks (evaluateExpr X row schema e) (exact row schema e)

theorem fits_binary_iff {left right : Expr} {op : BinaryOperator} {a b : Int}
    (leftValue : exact row schema left = some a) (rightValue : exact row schema right = some b) :
    Fits row schema (.binaryOp left op right) ↔ OpFits op a b := by
  cases op <;> simp [Fits, OpFits, exact, leftValue, rightValue]

theorem fits_of_none {left right : Expr} {op : BinaryOperator}
    (failed : exact row schema left = none ∨ exact row schema right = none) :
    Fits row schema (.binaryOp left op right) := by
  have noValue : exact row schema (.binaryOp left op right) = none := by
    rcases failed with failed | failed
    · simp [exact, failed]
    · simp [exact, failed]
  cases op
  case modulo =>
    rintro ⟨leftValue, rightValue⟩
    simp [leftValue, rightValue] at failed
  all_goals simp [Fits, noValue]

/-- **One binary node**, over operands that evaluate exactly. -/
theorem binary_node {left right : Expr} {op : BinaryOperator} (known : op.IsArithmetic)
    (inLeft : TracksAt X row schema left) (inRight : TracksAt X row schema right) :
    (Fits row schema (.binaryOp left op right) → TracksAt X row schema (.binaryOp left op right)) ∧
    (¬ Fits row schema (.binaryOp left op right) → ¬ ExactOrError X row schema (.binaryOp left op right)) := by
  rw [TracksAt] at inLeft inRight
  rw [TracksAt, ExactOrError, evaluateExpr, exact]
  cases leftValue : exact row schema left with
  | none =>
    rw [leftValue] at inLeft
    obtain ⟨e, failed⟩ := inLeft
    refine ⟨fun _ => ⟨e, by rw [failed, Outcome.err_bind]⟩, fun unfit => absurd (fits_of_none (.inl leftValue)) unfit⟩
  | some a =>
    rw [leftValue] at inLeft
    obtain ⟨i, rfl, evaluated⟩ := inLeft
    rw [evaluated, Outcome.ok_bind]
    cases rightValue : exact row schema right with
    | none =>
      rw [rightValue] at inRight
      obtain ⟨e, failed⟩ := inRight
      refine ⟨fun _ => ⟨e, by rw [failed, Outcome.err_bind]⟩, fun unfit => absurd (fits_of_none (.inr rightValue)) unfit⟩
    | some b =>
      rw [rightValue] at inRight
      obtain ⟨j, rfl, evaluated'⟩ := inRight
      rw [evaluated', Outcome.ok_bind, fits_binary_iff leftValue rightValue]
      exact evalBinaryOp_integers X known i j

theorem neg_node {e : Expr} (operand : TracksAt X row schema e) :
    (Fits row schema (.unaryOp .neg e) → TracksAt X row schema (.unaryOp .neg e)) ∧
    (¬ Fits row schema (.unaryOp .neg e) → ¬ ExactOrError X row schema (.unaryOp .neg e)) := by
  rw [TracksAt] at operand
  rw [TracksAt, ExactOrError, Fits, evaluateExpr, exact]
  cases value : exact row schema e with
  | none =>
    rw [value] at operand
    obtain ⟨error, failed⟩ := operand
    exact ⟨fun _ => ⟨error, by rw [failed, Outcome.err_bind]⟩, fun unfit => absurd (by simp) unfit⟩
  | some a =>
    rw [value] at operand
    obtain ⟨i, rfl, evaluated⟩ := operand
    rw [evaluated, Outcome.ok_bind]
    refine ⟨fun fits => integerResult_of_inRange X (fits _ rfl), fun unfit => ?_⟩
    refine not_exactOr_of_leaves X fun inRange => unfit ?_
    rintro n ⟨⟩
    exact inRange
  · rintro _ _ ⟨⟩

theorem column_tracks (rows : IntegerRow row schema) (name : Text) : TracksAt X row schema (.column name) := by
  rw [TracksAt, evaluateExpr, exact]
  cases found : schema.findIndex name with
  | none => exact ⟨_, rfl⟩
  | some idx =>
    have inside : idx < row.length := rows.complete ▸ Schema.findIndex_lt found
    obtain ⟨i, cell⟩ := rows.integers row[idx] (List.getElem_mem inside)
    have held : row[idx]? = some (some (.integer i)) := by rw [List.getElem?_eq_getElem inside, cell]
    simp [integerAt, held, Tracks]

/-- What holds of all parts, for one node. -/
theorem parts_of_node {e : Expr}
    (node : (∀ part ∈ below e, Fits row schema part) →
      (Fits row schema e → TracksAt X row schema e) ∧ (¬ Fits row schema e → ¬ ExactOrError X row schema e))
    (under : (∀ part ∈ below e, ExactOrError X row schema part) ↔ ∀ part ∈ below e, Fits row schema part) :
    ((∀ part ∈ parts e, ExactOrError X row schema part) ↔ ∀ part ∈ parts e, Fits row schema part) ∧
    ((∀ part ∈ parts e, Fits row schema part) → TracksAt X row schema e) := by
  rw [parts_eq, List.forall_mem_cons, List.forall_mem_cons, under]
  refine ⟨and_congr_left fun fitBelow => ⟨fun exactly => ?_, fun fits => ?_⟩, fun fits => (node fits.2).1 fits.1⟩
  · by_contra unfit
    exact (node fitBelow).2 unfit exactly
  · exact Tracks.exactOr ((node fitBelow).1 fits)

/-- **Every part is exact or an error where every part fits**, and then the whole is exact. -/
theorem exactOrError_and_tracks (rows : IntegerRow row schema) {e : Expr} (arithmetic : Arithmetic e) :
    ((∀ part ∈ parts e, ExactOrError X row schema part) ↔ ∀ part ∈ parts e, Fits row schema part) ∧
    ((∀ part ∈ parts e, Fits row schema part) → TracksAt X row schema e) := by
  induction arithmetic with
  | literal i =>
    refine parts_of_node (fun _ => ⟨fun _ => ⟨i, rfl, rfl⟩, fun unfit => absurd ?_ unfit⟩) (by simp [below, parts])
    rintro n ⟨⟩
    exact inRange_toInt i
  | column name =>
    have tracks : TracksAt X row schema (.column name) := column_tracks rows name
    refine parts_of_node (fun _ => ⟨fun _ => tracks, fun unfit => absurd ?_ unfit⟩) (by simp [below, parts])
    intro n value
    rw [TracksAt, value] at tracks
    obtain ⟨i, rfl, -⟩ := tracks
    exact inRange_toInt i
  | neg operand ih => exact parts_of_node (fun fits => neg_node (ih.2 fits)) ih.1
  | @binary left right op known inLeft inRight ihLeft ihRight =>
    have apart {P : Expr → Prop} : (∀ part ∈ below (.binaryOp left op right), P part) ↔
        (∀ part ∈ parts left, P part) ∧ ∀ part ∈ parts right, P part := by
      simp only [below, parts, List.tail_cons, List.forall_mem_append]
    refine parts_of_node (fun fits => ?_) (by rw [apart, apart, ihLeft.1, ihRight.1])
    rw [apart] at fits
    exact binary_node known (ihLeft.2 fits.1) (ihRight.2 fits.2)

end Expressions

/-- **Integer arithmetic is exact or an error at every part of an expression if and only if every part
fits.** -/
theorem exactOrError_iff (X : Extern) {row : List (Option LiteralValue)} {schema : Schema}
    (rows : IntegerRow row schema) {e : Expr} (arithmetic : Arithmetic e) :
    (∀ part ∈ parts e, ExactOrError X row schema part) ↔ ∀ part ∈ parts e, Fits row schema part :=
  (exactOrError_and_tracks rows arithmetic).1

/-- The least `i64` value, divided by minus one. -/
def leastByMinusOne : Expr := .binaryOp (.literal (.integer Int64.minValue)) .divide (.literal (.integer (-1)))

theorem exactOrError_leastByMinusOne :
    (∀ part ∈ parts leastByMinusOne, ExactOrError Extern.ascii [] ⟨[]⟩ part) ↔
      ∀ part ∈ parts leastByMinusOne, Fits [] ⟨[]⟩ part := by
  have noCells : IntegerRow [] ⟨[]⟩ := ⟨by simp, rfl⟩
  exact exactOrError_iff Extern.ascii noCells (.binary trivial (.literal _) (.literal _))

/-- The division panics. -/
theorem least_by_minus_one_panics : evaluateExpr Extern.ascii [] ⟨[]⟩ leastByMinusOne = .panic ∧
    ¬ ExactOrError Extern.ascii [] ⟨[]⟩ leastByMinusOne := by
  have panics : evaluateExpr Extern.ascii [] ⟨[]⟩ leastByMinusOne = .panic := by decide +kernel
  refine ⟨panics, ?_⟩
  rw [ExactOrError, panics]
  exact not_exactOr_panic _

end NovaRuntime.Sql
