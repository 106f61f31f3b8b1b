/-
# NovaRuntime.Sql.ThreeValued — expressions under three-valued logic

`evaluate3` is the evaluator as SQL has it: an unknown operand makes AND, OR, IN, BETWEEN and LIKE
unknown, unless the others decide. The evaluator of the source takes an unknown operand of AND and
OR for false, and IN and BETWEEN that decide nothing are false, so `NOT` turns them into true.

`threeValued_iff` says that these are the only parts of an expression where the two differ.
-/
import NovaRuntime.Sql.Parts

namespace NovaRuntime.Sql

open NovaRuntime.Library

set_option autoImplicit false

/-! ## Kleene's connectives -/

/-- A truth value, or none where it is unknown. -/
abbrev Truth := Option Bool

namespace Truth

/-- False as soon as one is false. -/
def and : Truth → Truth → Truth
  | some false, _ | _, some false => some false
  | some true, some true => some true
  | _, _ => none

/-- True as soon as one is true. -/
def or : Truth → Truth → Truth
  | some true, _ | _, some true => some true
  | some false, some false => some false
  | _, _ => none

def not (a : Truth) : Truth := Option.map (! ·) a

example : and none (some false) = some false ∧ and none (some true) = none := by decide

end Truth

/-- The truth value of a value. -/
def truthOf (X : Extern) : LiteralValue → Result Truth
  | .boolean b => .ok (some b)
  | .null => .ok none
  | val => .err (.typeMismatch "BOOLEAN".toList (val.debug X))

def ofTruth : Truth → LiteralValue
  | some b => .boolean b
  | none => .null

/-! ## The operators -/

/-- A comparison with NULL is unknown. -/
def evalBinaryOp3 (X : Extern) (op : BinaryOperator) (left right : LiteralValue) : Result LiteralValue :=
  match op with
  | .and => do
      let l ← truthOf X left
      let r ← truthOf X right
      pure (ofTruth (l.and r))
  | .or => do
      let l ← truthOf X left
      let r ← truthOf X right
      pure (ofTruth (l.or r))
  | .eq | .notEq | .lt | .ltEq | .gt | .gtEq =>
    if left = .null ∨ right = .null then .ok .null else evalBinaryOp X op left right
  | op => evalBinaryOp X op left right

def evalUnaryOp3 (X : Extern) (op : UnaryOperator) (val : LiteralValue) : Result LiteralValue :=
  match op with
  | .not => do
      let v ← truthOf X val
      pure (ofTruth v.not)
  | .neg => evalUnaryOp X .neg val

/-- Both bounds hold. -/
def between3 (X : Extern) (val low high : LiteralValue) : Result LiteralValue := do
  let ge ← evalBinaryOp3 X .gtEq val low
  let le ← evalBinaryOp3 X .ltEq val high
  evalBinaryOp3 X .and ge le

def evalLike3 (X : Extern) (val pattern : LiteralValue) (caseInsensitive : Bool) : Result LiteralValue :=
  if val = .null ∨ pattern = .null then .ok .null else evalLike X val pattern caseInsensitive

mutual

/-- **The value of an expression under three-valued logic.** -/
def evaluate3 (X : Extern) (row : List (Option LiteralValue)) (schema : Schema) : Expr → Result LiteralValue
  | .column name => evaluateExpr X row schema (.column name)
  | .literal val => .ok val
  | .binaryOp left op right => do
      let leftVal ← evaluate3 X row schema left
      let rightVal ← evaluate3 X row schema right
      evalBinaryOp3 X op leftVal rightVal
  | .unaryOp op expr => do
      let val ← evaluate3 X row schema expr
      evalUnaryOp3 X op val
  | .function name args => do
      let argVals ← evaluateAll3 X row schema args
      evalFunction X name argVals
  | .isNull expr => do
      let val ← evaluate3 X row schema expr
      pure (.boolean (decide (val = .null)))
  | .isNotNull expr => do
      let val ← evaluate3 X row schema expr
      pure (.boolean (decide (val ≠ .null)))
  | .inList expr list => do
      let val ← evaluate3 X row schema expr
      -- nothing is equal to an unknown value
      if val = .null ∧ list ≠ [] then pure .null else evaluateIn3 X row schema val (some false) list
  | .between expr low high => do
      let val ← evaluate3 X row schema expr
      let lowVal ← evaluate3 X row schema low
      let highVal ← evaluate3 X row schema high
      between3 X val lowVal highVal
  | .like expr pattern => do
      let val ← evaluate3 X row schema expr
      let pat ← evaluate3 X row schema pattern
      evalLike3 X val pat false
  | .iLike expr pattern => do
      let val ← evaluate3 X row schema expr
      let pat ← evaluate3 X row schema pattern
      evalLike3 X val pat true
  | .caseWhen whens elseVal => evaluateCase3 X row schema (evaluateElse3 X row schema elseVal) whens
  | .cast expr targetType => do
      let val ← evaluate3 X row schema expr
      coerceValue X val targetType

def evaluateAll3 (X : Extern) (row : List (Option LiteralValue)) (schema : Schema) :
    List Expr → Result (List LiteralValue)
  | [] => .ok []
  | e :: rest => do
      let val ← evaluate3 X row schema e
      let vals ← evaluateAll3 X row schema rest
      pure (val :: vals)

/-- The items of IN: the value is equal to none so far, or it is unknown whether it is. -/
def evaluateIn3 (X : Extern) (row : List (Option LiteralValue)) (schema : Schema) (val : LiteralValue) :
    Truth → List Expr → Result LiteralValue
  | sofar, [] => .ok (ofTruth sofar)
  | sofar, item :: rest => do
      let itemVal ← evaluate3 X row schema item
      if val.eq itemVal then pure (.boolean true)
      else evaluateIn3 X row schema val (if itemVal = .null then none else sofar) rest

def evaluateWhen3 (X : Extern) (row : List (Option LiteralValue)) (schema : Schema) (later : Result LiteralValue) :
    Expr × Expr → Result LiteralValue
  | (cond, result) => do
      let condVal ← evaluate3 X row schema cond
      if condVal = .boolean true then evaluate3 X row schema result else later

def evaluateCase3 (X : Extern) (row : List (Option LiteralValue)) (schema : Schema) (other : Result LiteralValue) :
    List (Expr × Expr) → Result LiteralValue
  | [] => other
  | w :: rest => evaluateWhen3 X row schema (evaluateCase3 X row schema other rest) w

def evaluateElse3 (X : Extern) (row : List (Option LiteralValue)) (schema : Schema) : Option Expr → Result LiteralValue
  | some e => evaluate3 X row schema e
  | none => .ok .null

end

/-! ## The two evaluators -/

/-- The predicate selects the row. -/
def Selects (X : Extern) (row : List (Option LiteralValue)) (schema : Schema) (predicate : Expr) : Prop :=
  evaluateExpr X row schema predicate = .ok (.boolean true)

/-- **What three-valued logic asks** of the evaluator: its value, and that a predicate and its
negation never select the same row, and neither does where the predicate is unknown. -/
structure ThreeValued (X : Extern) (row : List (Option LiteralValue)) (schema : Schema) (e : Expr) : Prop where
  value : evaluateExpr X row schema e = evaluate3 X row schema e
  exclusive : ¬ (Selects X row schema e ∧ Selects X row schema (.unaryOp .not e))
  neither : evaluate3 X row schema e = .ok .null →
    ¬ Selects X row schema e ∧ ¬ Selects X row schema (.unaryOp .not e)

/-- An AND, an OR, an IN or a BETWEEN is not unknown, and a LIKE with a NULL pattern has a text or a
NULL on its left. -/
def NullSafe (X : Extern) (row : List (Option LiteralValue)) (schema : Schema) : Expr → Prop
  | .binaryOp left .and right => evaluate3 X row schema (.binaryOp left .and right) ≠ .ok .null
  | .binaryOp left .or right => evaluate3 X row schema (.binaryOp left .or right) ≠ .ok .null
  | .inList expr list => evaluate3 X row schema (.inList expr list) ≠ .ok .null
  | .between expr low high => evaluate3 X row schema (.between expr low high) ≠ .ok .null
  | .like expr pattern | .iLike expr pattern => ∀ val, evaluate3 X row schema expr = .ok val →
      evaluate3 X row schema pattern = .ok .null → val = .null ∨ ∃ s, val = .string s
  | _ => True

/-! ## One construct at a time -/

section Constructs

variable (X : Extern) (row : List (Option LiteralValue)) (schema : Schema)

/-- The evaluator gives what three-valued logic does. -/
def Agrees (e : Expr) : Prop := evaluateExpr X row schema e = evaluate3 X row schema e

/-- The source takes an unknown operand for false. -/
theorem coerceToBool_eq (val : LiteralValue) :
    coerceToBool X val = truthOf X val >>= fun truth => .ok (truth.getD false) := by
  cases val <;> rfl

theorem ofTruth_and_iff (l r : Truth) :
    LiteralValue.boolean (l.getD false && r.getD false) = ofTruth (l.and r) ↔ ofTruth (l.and r) ≠ .null := by
  rcases l with _ | _ | _ <;> rcases r with _ | _ | _ <;> decide

theorem ofTruth_or_iff (l r : Truth) :
    LiteralValue.boolean (l.getD false || r.getD false) = ofTruth (l.or r) ↔ ofTruth (l.or r) ≠ .null := by
  rcases l with _ | _ | _ <;> rcases r with _ | _ | _ <;> decide

theorem and_eq_iff (left right : LiteralValue) :
    evalBinaryOp X .and left right = evalBinaryOp3 X .and left right ↔
      evalBinaryOp3 X .and left right ≠ .ok .null := by
  simp only [evalBinaryOp, evalBinaryOp3, coerceToBool_eq]
  cases truthOf X left <;> cases truthOf X right <;> simp [ofTruth_and_iff]

theorem or_eq_iff (left right : LiteralValue) :
    evalBinaryOp X .or left right = evalBinaryOp3 X .or left right ↔
      evalBinaryOp3 X .or left right ≠ .ok .null := by
  simp only [evalBinaryOp, evalBinaryOp3, coerceToBool_eq]
  cases truthOf X left <;> cases truthOf X right <;> simp [ofTruth_or_iff]

/-- Every other operator is the same in both. -/
theorem evalBinaryOp_eq (op : BinaryOperator) (notAnd : op ≠ .and) (notOr : op ≠ .or)
    (left right : LiteralValue) : evalBinaryOp X op left right = evalBinaryOp3 X op left right := by
  by_cases unknown : left = .null ∨ right = .null
  · cases op <;> first
      | contradiction
      | simp only [evalBinaryOp, evalBinaryOp3, compareCoerced, if_pos unknown]
  · cases op <;> first
      | contradiction
      | simp only [evalBinaryOp3, if_neg unknown]

theorem evalUnaryOp_eq (op : UnaryOperator) (val : LiteralValue) :
    evalUnaryOp X op val = evalUnaryOp3 X op val := by
  cases op <;> cases val <;> rfl

/-- A comparison that ends gives a truth value. -/
theorem compareCoerced_truth {left right val : LiteralValue} {integers : Int64 → Int64 → Bool}
    {floats : F64 → F64 → Bool} {texts : Text → Text → Bool}
    (compared : compareCoerced X left right integers floats texts = .ok val) : ∃ t, val = ofTruth t := by
  rw [compareCoerced] at compared
  split at compared
  · exact ⟨none, (Outcome.ok.inj compared).symm⟩
  · obtain ⟨pair, -, compared⟩ := Outcome.bind_eq_ok.mp compared
    split at compared
    · exact ⟨some _, (Outcome.ok.inj compared).symm⟩
    · exact ⟨some _, (Outcome.ok.inj compared).symm⟩
    · exact ⟨some _, (Outcome.ok.inj compared).symm⟩
    · cases compared

/-- The two bounds of BETWEEN, joined as the source does. -/
def between (X : Extern) (val low high : LiteralValue) : Result LiteralValue := do
  let ge ← evalBinaryOp X .gtEq val low
  let le ← evalBinaryOp X .ltEq val high
  pure (.boolean (decide (ge = .boolean true) && decide (le = .boolean true)))

theorem both_hold_iff (l r : Truth) :
    LiteralValue.boolean (decide (ofTruth l = .boolean true) && decide (ofTruth r = .boolean true))
      = ofTruth (l.and r) ↔ ofTruth (l.and r) ≠ .null := by
  rcases l with _ | _ | _ <;> rcases r with _ | _ | _ <;> decide

theorem truthOf_ofTruth (t : Truth) : truthOf X (ofTruth t) = .ok t := by
  rcases t with _ | _ <;> rfl

theorem between_eq_iff (val low high : LiteralValue) :
    between X val low high = between3 X val low high ↔ between3 X val low high ≠ .ok .null := by
  have atLeast := evalBinaryOp_eq X .gtEq (by decide) (by decide) val low
  have atMost := evalBinaryOp_eq X .ltEq (by decide) (by decide) val high
  rw [between, between3, ← atLeast, ← atMost]
  cases lower : evalBinaryOp X .gtEq val low with
  | err _ | panic | hang => simp
  | ok ge =>
    cases upper : evalBinaryOp X .ltEq val high with
    | err _ | panic | hang => simp
    | ok le =>
      obtain ⟨l, rfl⟩ := compareCoerced_truth X lower
      obtain ⟨r, rfl⟩ := compareCoerced_truth X upper
      simp [evalBinaryOp3, truthOf_ofTruth, both_hold_iff]

/-- What LIKE needs of its operands to be unknown where one of them is. -/
theorem evalLike_eq_iff (val pattern : LiteralValue) (caseInsensitive : Bool) :
    evalLike X val pattern caseInsensitive = evalLike3 X val pattern caseInsensitive ↔
      (pattern = .null → val = .null ∨ ∃ s, val = .string s) := by
  cases val <;> cases pattern <;> simp [evalLike, evalLike3]

/-! ## Lists of expressions -/

theorem evaluateAll_eq (args : List Expr) (below : ∀ part ∈ partsAll args, Agrees X row schema part) :
    evaluateAll X row schema args = evaluateAll3 X row schema args := by
  induction args with
  | nil => rfl
  | cons e rest ih =>
    rw [partsAll, List.forall_mem_append] at below
    have here : evaluateExpr X row schema e = evaluate3 X row schema e := below.1 e (self_mem_parts e)
    rw [evaluateAll, evaluateAll3, here, ih below.2]

/-- **IN goes wrong where it is unknown**: no item matches, and one of them is NULL. -/
theorem evaluateIn_eq_iff (val : LiteralValue) (list : List Expr)
    (below : ∀ part ∈ partsAll list, Agrees X row schema part) {sofar : Truth} (noneMatched : sofar ≠ some true) :
    evaluateIn X row schema val list = evaluateIn3 X row schema val sofar list ↔
      evaluateIn3 X row schema val sofar list ≠ .ok .null := by
  induction list generalizing sofar with
  | nil =>
    rcases sofar with _ | _ | _
    · simp [evaluateIn, evaluateIn3, ofTruth]
    · simp [evaluateIn, evaluateIn3, ofTruth]
    · contradiction
  | cons item rest ih =>
    rw [partsAll, List.forall_mem_append] at below
    have here : evaluateExpr X row schema item = evaluate3 X row schema item :=
      below.1 item (self_mem_parts item)
    rw [evaluateIn, evaluateIn3, here]
    cases evaluate3 X row schema item with
    | err _ | panic | hang => simp
    | ok itemVal =>
      rw [Outcome.ok_bind, Outcome.ok_bind]
      split
      · simp
      · split
        · exact ih below.2 (by simp)
        · exact ih below.2 noneMatched

/-- With no value to look for, the source gives TRUE or FALSE all the same. -/
theorem evaluateIn_ne_null (val : LiteralValue) (list : List Expr) :
    evaluateIn X row schema val list ≠ .ok .null := by
  induction list with
  | nil => simp [evaluateIn]
  | cons item rest ih =>
    rw [evaluateIn]
    cases evaluateExpr X row schema item with
    | err _ | panic | hang => simp
    | ok itemVal =>
      rw [Outcome.ok_bind]
      split
      · simp
      · exact ih

theorem evaluateElse_eq (elseVal : Option Expr) (below : ∀ part ∈ partsElse elseVal, Agrees X row schema part) :
    evaluateElse X row schema elseVal = evaluateElse3 X row schema elseVal := by
  cases elseVal with
  | none => rfl
  | some e =>
    rw [evaluateElse, evaluateElse3]
    exact below e (self_mem_parts e)

theorem evaluateCase_eq (other : Result LiteralValue) (whens : List (Expr × Expr))
    (below : ∀ part ∈ partsWhens whens, Agrees X row schema part) :
    evaluateCase X row schema other whens = evaluateCase3 X row schema other whens := by
  induction whens with
  | nil => rfl
  | cons w rest ih =>
    obtain ⟨cond, result⟩ := w
    rw [partsWhens, partsWhen, List.forall_mem_append, List.forall_mem_append] at below
    obtain ⟨⟨inCond, inResult⟩, later⟩ := below
    have condition : evaluateExpr X row schema cond = evaluate3 X row schema cond :=
      inCond cond (self_mem_parts cond)
    have outcome : evaluateExpr X row schema result = evaluate3 X row schema result :=
      inResult result (self_mem_parts result)
    rw [evaluateCase, evaluateCase3, evaluateWhen, evaluateWhen3, condition, outcome, ih later]

/-! ## One node of an expression -/

/-- **Over parts that agree, an expression agrees where it is null-safe**, and nowhere else. -/
theorem agrees_iff_nullSafe (e : Expr) (agreed : ∀ part ∈ below e, Agrees X row schema part) :
    Agrees X row schema e ↔ NullSafe X row schema e := by
  rw [Agrees]
  cases e with
  | column name => simp [NullSafe, evaluate3]
  | literal val => simp [NullSafe, evaluate3, evaluateExpr]
  | binaryOp left op right =>
    have inLeft := agreed left (by simp [below, parts, self_mem_parts])
    have inRight := agreed right (by simp [below, parts, self_mem_parts])
    rw [Agrees] at inLeft inRight
    rw [evaluateExpr, inLeft, inRight]
    by_cases isAnd : op = .and
    · subst isAnd
      rw [NullSafe, evaluate3]
      cases evaluate3 X row schema left <;> cases evaluate3 X row schema right <;> simp [and_eq_iff]
    by_cases isOr : op = .or
    · subst isOr
      rw [NullSafe, evaluate3]
      cases evaluate3 X row schema left <;> cases evaluate3 X row schema right <;> simp [or_eq_iff]
    have safe : NullSafe X row schema (.binaryOp left op right) := by
      cases op <;> first | contradiction | trivial
    simp only [evaluate3, evalBinaryOp_eq X op isAnd isOr, safe]
  | unaryOp op expr =>
    have inner := agreed expr (by simp [below, parts, self_mem_parts])
    rw [Agrees] at inner
    simp [evaluateExpr, evaluate3, inner, evalUnaryOp_eq, NullSafe]
  | function name args =>
    have inner := evaluateAll_eq X row schema args agreed
    simp [evaluateExpr, evaluate3, inner, NullSafe]
  | isNull expr | isNotNull expr | cast expr targetType =>
    have inner := agreed expr (by simp [below, parts, self_mem_parts])
    rw [Agrees] at inner
    simp [evaluateExpr, evaluate3, inner, NullSafe]
  | inList expr list =>
    have inner := agreed expr (by simp [below, parts, self_mem_parts])
    have items : ∀ part ∈ partsAll list, Agrees X row schema part := fun part under =>
      agreed part (by simp [below, parts, under])
    rw [Agrees] at inner
    rw [NullSafe, evaluateExpr, evaluate3, inner]
    cases evaluate3 X row schema expr with
    | err _ | panic | hang => simp
    | ok val =>
      rw [Outcome.ok_bind, Outcome.ok_bind]
      split
      · simp [evaluateIn_ne_null]
      · exact evaluateIn_eq_iff X row schema val list items (by simp)
  | between expr low high =>
    have inner := agreed expr (by simp [below, parts, self_mem_parts])
    have lower := agreed low (by simp [below, parts, self_mem_parts])
    have upper := agreed high (by simp [below, parts, self_mem_parts])
    rw [Agrees] at inner lower upper
    rw [NullSafe, evaluateExpr, evaluate3, inner, lower, upper]
    cases evaluate3 X row schema expr with
    | err _ | panic | hang => simp
    | ok val =>
      cases evaluate3 X row schema low with
      | err _ | panic | hang => simp
      | ok lowVal =>
        cases evaluate3 X row schema high with
        | err _ | panic | hang => simp
        | ok highVal => exact between_eq_iff X val lowVal highVal
  | like expr pattern | iLike expr pattern =>
    have inner := agreed expr (by simp [below, parts, self_mem_parts])
    have matched := agreed pattern (by simp [below, parts, self_mem_parts])
    rw [Agrees] at inner matched
    rw [NullSafe, evaluateExpr, evaluate3, inner, matched]
    cases evaluate3 X row schema expr <;> cases evaluate3 X row schema pattern <;> simp [evalLike_eq_iff]
  | caseWhen whens elseVal =>
    have otherwise := evaluateElse_eq X row schema elseVal fun part under =>
      agreed part (by simp [below, parts, under])
    have cases := evaluateCase_eq X row schema (evaluateElse3 X row schema elseVal) whens fun part under =>
      agreed part (by simp [below, parts, under])
    simp [evaluateExpr, evaluate3, otherwise, cases, NullSafe]

/-- From what is below an expression to the expression. -/
theorem parts_iff_of_below {e : Expr} (under : (∀ part ∈ below e, Agrees X row schema part) ↔
    ∀ part ∈ below e, NullSafe X row schema part) :
    (∀ part ∈ parts e, Agrees X row schema part) ↔ ∀ part ∈ parts e, NullSafe X row schema part := by
  rw [parts_eq, List.forall_mem_cons, List.forall_mem_cons, ← under]
  exact and_congr_left fun agreed => agrees_iff_nullSafe X row schema e agreed

mutual

/-- **All parts agree where all are null-safe**, by induction on the expression. -/
theorem parts_iff : ∀ e : Expr, (∀ part ∈ parts e, Agrees X row schema part) ↔
    ∀ part ∈ parts e, NullSafe X row schema part
  | .column _ | .literal _ => parts_iff_of_below X row schema (by simp [below, parts])
  | .unaryOp _ expr | .isNull expr | .isNotNull expr | .cast expr _ =>
    parts_iff_of_below X row schema (parts_iff expr)
  | .binaryOp left _ right | .like left right | .iLike left right =>
    parts_iff_of_below X row schema (by
      simp only [below, parts, List.tail_cons, List.forall_mem_append, parts_iff left, parts_iff right])
  | .function _ args => parts_iff_of_below X row schema (partsAll_iff args)
  | .inList expr list => parts_iff_of_below X row schema (by
      simp only [below, parts, List.tail_cons, List.forall_mem_append, parts_iff expr, partsAll_iff list])
  | .between expr low high => parts_iff_of_below X row schema (by
      simp only [below, parts, List.tail_cons, List.forall_mem_append, parts_iff expr, parts_iff low,
        parts_iff high])
  | .caseWhen whens elseVal => parts_iff_of_below X row schema (by
      simp only [below, parts, List.tail_cons, List.forall_mem_append, partsWhens_iff whens,
        partsElse_iff elseVal])

theorem partsAll_iff : ∀ args : List Expr, (∀ part ∈ partsAll args, Agrees X row schema part) ↔
    ∀ part ∈ partsAll args, NullSafe X row schema part
  | [] => by simp [partsAll]
  | e :: rest => by simp only [partsAll, List.forall_mem_append, parts_iff e, partsAll_iff rest]

theorem partsWhen_iff : ∀ w : Expr × Expr, (∀ part ∈ partsWhen w, Agrees X row schema part) ↔
    ∀ part ∈ partsWhen w, NullSafe X row schema part
  | (cond, result) => by simp only [partsWhen, List.forall_mem_append, parts_iff cond, parts_iff result]

theorem partsWhens_iff : ∀ whens : List (Expr × Expr),
    (∀ part ∈ partsWhens whens, Agrees X row schema part) ↔
      ∀ part ∈ partsWhens whens, NullSafe X row schema part
  | [] => by simp [partsWhens]
  | w :: rest => by simp only [partsWhens, List.forall_mem_append, partsWhen_iff w, partsWhens_iff rest]

theorem partsElse_iff : ∀ elseVal : Option Expr, (∀ part ∈ partsElse elseVal, Agrees X row schema part) ↔
    ∀ part ∈ partsElse elseVal, NullSafe X row schema part
  | none => by simp [partsElse]
  | some e => parts_iff e

end

/-! ## A predicate and its negation -/

/-- NOT of a TRUE is FALSE, so no row is selected twice. -/
theorem not_both_selected (predicate : Expr) :
    ¬ (Selects X row schema predicate ∧ Selects X row schema (.unaryOp .not predicate)) := by
  rintro ⟨selected, negated⟩
  rw [Selects] at selected negated
  rw [evaluateExpr, selected] at negated
  cases negated

theorem threeValued_of_agrees {e : Expr} (agrees : Agrees X row schema e) : ThreeValued X row schema e where
  value := agrees
  exclusive := not_both_selected X row schema e
  neither := fun unknown => by
    have isNull : evaluateExpr X row schema e = .ok .null := agrees.trans unknown
    have notNull : evaluateExpr X row schema (.unaryOp .not e) = .ok .null := by
      rw [evaluateExpr, isNull]
      rfl
    constructor
    · intro selected
      cases isNull.symm.trans selected
    · intro selected
      cases notNull.symm.trans selected

end Constructs

/-- **Three-valued logic is what the evaluator computes at every part of an expression if and only if
every part is null-safe.** -/
theorem threeValued_iff (X : Extern) (row : List (Option LiteralValue)) (schema : Schema) (e : Expr) :
    (∀ part ∈ parts e, ThreeValued X row schema part) ↔ ∀ part ∈ parts e, NullSafe X row schema part := by
  rw [← parts_iff X row schema e]
  constructor
  · exact fun logic part under => (logic part under).value
  · exact fun agreed part under => threeValued_of_agrees X row schema (agreed part under)

/-- `NULL AND TRUE`, which is unknown. -/
def unknownAnd : Expr := .binaryOp (.literal .null) .and (.literal (.boolean true))

/-- `NOT (NULL AND TRUE)` selects every row. -/
theorem unknown_negation_selects : evaluate3 Extern.ascii [] ⟨[]⟩ unknownAnd = .ok .null ∧
    Selects Extern.ascii [] ⟨[]⟩ (.unaryOp .not unknownAnd) ∧ ¬ ThreeValued Extern.ascii [] ⟨[]⟩ unknownAnd := by
  have unknown : evaluate3 Extern.ascii [] ⟨[]⟩ unknownAnd = .ok .null := rfl
  have selected : Selects Extern.ascii [] ⟨[]⟩ (.unaryOp .not unknownAnd) := rfl
  exact ⟨unknown, selected, fun logic => (logic.neither unknown).2 selected⟩

end NovaRuntime.Sql
