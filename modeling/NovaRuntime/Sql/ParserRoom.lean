/-
# NovaRuntime.Sql.ParserRoom — a parser with more room for calls

With more room the parser does the same, only where it would overflow it goes on (`calls_le`). What is
said of `reads` is therefore said of the parser with any room that is enough.
-/
import NovaRuntime.Sql.ParserSpec

namespace NovaRuntime.Sql

open NovaRuntime.Library NovaRuntime.Library.Exec

set_option autoImplicit false

namespace Parser

/-- The functions of `frames` return nowhere else than those of `more`. -/
structure Calls.Below (frames more : Calls) : Prop where
  parseExpression : Exec.Below frames.parseExpression more.parseExpression
  parseOr : Exec.Below frames.parseOr more.parseOr
  parseAnd : Exec.Below frames.parseAnd more.parseAnd
  parseEquality : Exec.Below frames.parseEquality more.parseEquality
  parseComparison : Exec.Below frames.parseComparison more.parseComparison
  parseTerm : Exec.Below frames.parseTerm more.parseTerm
  parseFactor : Exec.Below frames.parseFactor more.parseFactor
  parseUnary : Exec.Below frames.parseUnary more.parseUnary
  parsePrimary : Exec.Below frames.parsePrimary more.parsePrimary
  parseCase : Exec.Below frames.parseCase more.parseCase
  parseCast : Exec.Below frames.parseCast more.parseCast
  parseAggregateFunction : Exec.Below frames.parseAggregateFunction more.parseAggregateFunction
  parseExists : Exec.Below frames.parseExists more.parseExists
  parseSelect : Exec.Below frames.parseSelect more.parseSelect

section Lists

variable {α : Type} {item item' : Method α}

theorem below_commaLoop (each : Below item item') (turns : Nat) :
    Below (commaLoop item turns) (commaLoop item' turns) := by
  induction turns with
  | zero => exact .refl _
  | succ turns ih => exact (Below.refl _).bind fun _ => .ite (each.bind fun _ => ih.bind fun _ => .refl _) (.refl _)

theorem below_parseCommaSeparated (each : Below item item') :
    Below (parseCommaSeparated item) (parseCommaSeparated item') :=
  each.bind fun _ => (Below.refl _).bind fun _ => (below_commaLoop each _).bind fun _ => .refl _

theorem below_optional (start : Keyword) (each : Below item item') :
    Below (optional start item) (optional start item') :=
  (Below.refl _).bind fun _ => .ite (each.bind fun _ => .refl _) (.refl _)

theorem below_parseBy (X : Extern) (start : Keyword) (each : Below item item') :
    Below (parseBy X start item) (parseBy X start item') :=
  (Below.refl _).bind fun _ =>
    .ite ((Below.refl _).bind fun _ => below_parseCommaSeparated each) (.refl _)

end Lists

section Levels

variable {op : Token → Option BinaryOperator} {operand operand' : Method Expr}

theorem below_leftAssocLoop (each : Below operand operand') (turns : Nat) (left : Expr) :
    Below (leftAssocLoop op operand turns left) (leftAssocLoop op operand' turns left) := by
  induction turns generalizing left with
  | zero => exact .refl _
  | succ turns ih =>
    refine (Below.refl _).bind fun t => ?_
    cases op t with
    | none => exact .refl _
    | some operator => exact (Below.refl _).bind fun _ => each.bind fun _ => ih _

theorem below_leftAssoc (each : Below operand operand') : Below (leftAssoc op operand) (leftAssoc op operand') :=
  each.bind fun _ => (Below.refl _).bind fun _ => below_leftAssocLoop each _ _

end Levels

section Functions

variable {X : Extern} {frames more : Calls} (below : frames.Below more)

include below

theorem below_parseExpression : Below (parseExpression frames) (parseExpression more) := by
  intro s returns
  rw [parseExpression] at returns
  rw [parseExpression, parseExpression]
  split
  · rfl
  · rename_i shallow
    rw [if_neg shallow] at returns
    rw [below.parseOr _ returns]

theorem below_parseUnary : Below (parseUnary frames) (parseUnary more) :=
  (Below.refl _).bind fun _ => .ite (below.parseUnary.bind fun _ => .refl _) <|
    (Below.refl _).bind fun _ => .ite (below.parseUnary.bind fun _ => .refl _) below.parsePrimary

theorem below_parseArguments : Below (parseArguments X frames) (parseArguments X more) :=
  (below_parseCommaSeparated below.parseExpression).bind fun _ => .refl _

theorem below_parseInfix (expr : Expr) : Below (parseInfix X frames expr) (parseInfix X more expr) := by
  refine (Below.refl _).bind fun t => ?_
  split
  · exact (Below.refl _).bind fun _ => (Below.refl _).bind fun _ =>
      (below_parseArguments below).bind fun _ => .refl _
  · exact (Below.refl _).bind fun _ => below.parseComparison.bind fun _ => (Below.refl _).bind fun _ =>
      below.parseExpression.bind fun _ => .refl _
  · exact (Below.refl _).bind fun _ => below.parseExpression.bind fun _ => .refl _
  · exact (Below.refl _).bind fun _ => below.parseExpression.bind fun _ => .refl _
  · exact .refl _

theorem below_parsePredicate (expr : Expr) :
    Below (parsePredicate X frames expr) (parsePredicate X more expr) :=
  (Below.refl _).bind fun _ => (Below.refl _).bind fun _ =>
    .ite ((below_parseInfix below expr).bind fun _ => .refl _) <|
      (Below.refl _).bind fun _ => .ite (.refl _) ((below_parseInfix below expr).bind fun _ => .refl _)

theorem below_parseNamed (name : Text) : Below (parseNamed X frames name) (parseNamed X more name) :=
  (Below.refl _).bind fun _ => .ite ((below_parseArguments below).bind fun _ => .refl _) <|
    (Below.refl _).bind fun _ => .ite (.refl _) (below_parsePredicate below _)

theorem below_parsePrimary : Below (parsePrimary X frames) (parsePrimary X more) := by
  refine (Below.refl _).bind fun t => ?_
  split
  · exact (Below.refl _).bind fun _ => below.parseExpression.bind fun _ => .refl _
  · exact (Below.refl _).bind fun _ => below.parseCase
  · exact (Below.refl _).bind fun _ => below.parseCast
  iterate 5 · exact below.parseAggregateFunction
  · exact below.parseExists
  · exact .refl _
  · exact .refl _
  · exact .refl _
  · exact .refl _
  · exact .refl _
  · exact (Below.refl _).bind fun _ => below_parseNamed below _
  · exact .refl _

theorem below_caseLoop (turns : Nat) (whens : List (Expr × Expr)) (elseVal : Option Expr) :
    Below (caseLoop X frames turns whens elseVal) (caseLoop X more turns whens elseVal) := by
  induction turns generalizing whens elseVal with
  | zero => exact .refl _
  | succ turns ih =>
    exact (Below.refl _).bind fun _ => .ite
      (below.parseExpression.bind fun _ => (Below.refl _).bind fun _ =>
        below.parseExpression.bind fun _ => ih _ _) <|
      (Below.refl _).bind fun _ => .ite (below.parseExpression.bind fun _ => ih _ _) (.refl _)

theorem below_parseCase : Below (parseCase X frames) (parseCase X more) :=
  (Below.refl _).bind fun _ => (below_caseLoop below _ _ _).bind fun _ => .refl _

theorem below_parseCast : Below (parseCast X frames) (parseCast X more) :=
  (Below.refl _).bind fun _ => below.parseExpression.bind fun _ => .refl _

theorem below_parseAggregateFunction : Below (parseAggregateFunction X frames) (parseAggregateFunction X more) := by
  refine (Below.refl _).bind fun t => ?_
  cases aggregateName t with
  | none => exact .refl _
  | some name =>
    exact (Below.refl _).bind fun _ => (Below.refl _).bind fun _ => (Below.refl _).bind fun _ =>
      .ite (.refl _) <| (Below.refl _).bind fun _ =>
        .ite (below.parseExpression.bind fun _ => .refl _) ((below_parseArguments below).bind fun _ => .refl _)

theorem below_parseExists : Below (parseExists X frames) (parseExists X more) :=
  (Below.refl _).bind fun _ => (Below.refl _).bind fun _ => below.parseSelect.bind fun _ => .refl _

theorem below_parseSelectItem : Below (parseSelectItem X frames) (parseSelectItem X more) :=
  (Below.refl _).bind fun _ => .ite (.refl _) (below.parseExpression.bind fun _ => .refl _)

theorem below_joinLoop (turns : Nat) : Below (joinLoop X frames turns) (joinLoop X more turns) := by
  induction turns with
  | zero => exact .refl _
  | succ turns ih =>
    exact (Below.refl _).bind fun _ => .ite
      ((Below.refl _).bind fun _ => (Below.refl _).bind fun _ => .ite
        (below.parseExpression.bind fun _ => ih.bind fun _ => .refl _)
        ((Below.refl _).bind fun _ => .ite (ih.bind fun _ => .refl _) (.refl _)))
      (.refl _)

theorem below_parseOrderByExpr : Below (parseOrderByExpr frames) (parseOrderByExpr more) :=
  below.parseExpression.bind fun _ => .refl _

theorem below_parseSelect : Below (parseSelect X frames) (parseSelect X more) :=
  (Below.refl _).bind fun _ => (Below.refl _).bind fun _ =>
    (below_parseCommaSeparated (below_parseSelectItem below)).bind fun _ => (Below.refl _).bind fun _ =>
    (Below.refl _).bind fun _ => (Below.refl _).bind fun _ => (below_joinLoop below _).bind fun _ =>
    (below_optional _ below.parseExpression).bind fun _ => (below_parseBy X _ below.parseExpression).bind fun _ =>
    (below_optional _ below.parseExpression).bind fun _ =>
    (below_parseBy X _ (below_parseOrderByExpr below)).bind fun _ => .refl _

end Functions

/-- One more call changes nothing but an overflow. -/
theorem calls_succ (X : Extern) (stack : Nat) : (calls X stack).Below (calls X (stack + 1)) := by
  induction stack with
  | zero =>
    exact ⟨below_hang _, below_hang _, below_hang _, below_hang _, below_hang _, below_hang _, below_hang _,
      below_hang _, below_hang _, below_hang _, below_hang _, below_hang _, below_hang _, below_hang _⟩
  | succ stack ih =>
    exact {
      parseExpression := below_parseExpression ih
      parseOr := below_leftAssoc ih.parseAnd
      parseAnd := below_leftAssoc ih.parseEquality
      parseEquality := below_leftAssoc ih.parseComparison
      parseComparison := below_leftAssoc ih.parseTerm
      parseTerm := below_leftAssoc ih.parseFactor
      parseFactor := below_leftAssoc ih.parseUnary
      parseUnary := below_parseUnary ih
      parsePrimary := below_parsePrimary ih
      parseCase := below_parseCase ih
      parseCast := below_parseCast ih
      parseAggregateFunction := below_parseAggregateFunction ih
      parseExists := below_parseExists ih
      parseSelect := below_parseSelect ih }

/-- A function of the parser does the same with more room, unless it overflowed. -/
theorem calls_le {α : Type} (X : Extern) (function : Calls → Method α)
    (below : ∀ {frames more : Calls}, frames.Below more → Below (function frames) (function more))
    {stack more : Nat} (le : stack ≤ more) : Below (function (calls X stack)) (function (calls X more)) := by
  induction le with
  | refl => exact .refl _
  | step _ ih => exact ih.trans (below (calls_succ X _))

end Parser

end NovaRuntime.Sql
