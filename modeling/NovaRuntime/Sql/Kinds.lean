/-
# NovaRuntime.Sql.Kinds — what is known of a value before it is computed

A `Kind` is a type, whether NULL is among the values, and between which bounds an
integer lies. For every operator and function of the evaluator there is a rule: from the
kinds of the operands the kind of the result, or none. Each rule is proved twice, against
`evaluate_expr`, which then ends in a value of the kind (`binaryOp_sound`,
`function_sound`), and against `check_types`, which gives the type of the kind
(`checkBinaryOp_of_rule`, `checkFunction_of_rule`).

What the checker accepts and the rules leave out: an equality of operands that are
neither BOOLEAN nor NULL (its type is theirs, its value is a BOOLEAN), an order between
BOOLEANs, `||` of anything but text, arithmetic on text or on what may be NULL, a sum of
floats, `MIN` and `MAX` of several types, a `CASE` of several types, the casts
`coerce_value` refuses, a `LIKE` pattern the regex package may refuse, and integer
arithmetic that may leave the range of an `i64`.
-/
import Mathlib.Data.List.Forall2
import NovaRuntime.Sql.TypeChecker
import NovaRuntime.Library.Span

namespace NovaRuntime.Sql

open NovaRuntime.Library

set_option autoImplicit false

variable {X : Extern}

/-! ## Calls that end well -/

/-- A failure the checker does not rule out: a division by zero, or a CAST of a text
that cannot be read as the type it names. -/
def Tolerated (e : SQLError) : Prop :=
  e = divisionByZero ∨ ∃ expected text, e = .typeMismatch expected ("string: ".toList ++ text)

/-- The call ends in a value with the property, or in a tolerated failure. -/
def EndsIn {α : Type} (P : α → Prop) : Result α → Prop
  | .ok a => P a
  | .err e => Tolerated e
  | .panic => False
  | .hang => False

section EndsIn

variable {α β : Type} {P : α → Prop} {Q : β → Prop}

theorem EndsIn.bind_eq {o : Result α} {f : α → Result β} (first : EndsIn P o)
    (next : ∀ a, o = .ok a → P a → EndsIn Q (f a)) : EndsIn Q (o >>= f) := by
  cases o with
  | ok a => exact next a rfl first
  | err e | panic | hang => exact first

theorem EndsIn.bind {o : Result α} {f : α → Result β} (first : EndsIn P o)
    (next : ∀ a, P a → EndsIn Q (f a)) : EndsIn Q (o >>= f) := first.bind_eq fun a _ => next a

theorem EndsIn.mono {P' : α → Prop} {o : Result α} (ends : EndsIn P o) (weaker : ∀ a, P a → P' a) :
    EndsIn P' o := by
  cases o with
  | ok a => exact weaker a ends
  | err e | panic | hang => exact ends

end EndsIn

/-! ## Kinds -/

structure Kind where
  type : SQLType
  nullable : Bool
  range : Span
  deriving DecidableEq

/-- The values of a kind. -/
inductive Kind.Admits (k : Kind) : LiteralValue → Prop
  | null (nullable : k.nullable = true) : Admits k .null
  | boolean (b : Bool) (typed : k.type = .boolean) : Admits k (.boolean b)
  | integer (i : Int64) (typed : k.type = .integer) (inRange : i.toInt ∈ k.range) :
      Admits k (.integer i)
  | float (f : F64) (typed : k.type = .float) : Admits k (.float f)
  | string (s : Text) (typed : k.type = .text) : Admits k (.string s)

/-- What evaluates to a value of the kind. -/
abbrev Kind.Sound (k : Kind) (o : Result LiteralValue) : Prop := EndsIn k.Admits o

/-- All the numbers an `i64` can hold. -/
def i64 : Span := ⟨-2 ^ 63, 2 ^ 63 - 1⟩

theorem toInt_mem_i64 (i : Int64) : i.toInt ∈ i64 :=
  ⟨i.le_toInt, by have := i.toInt_lt; show i.toInt ≤ 2 ^ 63 - 1; omega⟩

/-- A kind of anything but integers. -/
def Kind.plain (type : SQLType) (nullable : Bool) : Kind := ⟨type, nullable, .point 0⟩

@[simp] theorem Kind.plain_nullable (type : SQLType) (nullable : Bool) :
    (Kind.plain type nullable).nullable = nullable := rfl

/-- The kind of a computed integer: where the bounds leave the range of an `i64` it
wraps, or there is none where the build makes that a panic. -/
def integerKind (X : Extern) (nullable : Bool) (range : Span) : Option Kind :=
  if i64.least ≤ range.least ∧ range.greatest ≤ i64.greatest then some ⟨.integer, nullable, range⟩
  else if X.overflowChecks then none
  else some ⟨.integer, nullable, i64⟩

namespace Kind

theorem Admits.typed {k : Kind} {v : LiteralValue} (admits : k.Admits v) :
    v = .null ∨ literalType v = k.type := by
  cases admits with
  | null _ => exact .inl rfl
  | boolean _ typed | integer _ typed _ | float _ typed | string _ typed => exact .inr typed.symm

/-- Only NULL is of the type of NULL. -/
theorem Admits.eq_null {k : Kind} {v : LiteralValue} (admits : k.Admits v) (typed : k.type = .null) :
    v = .null ∧ k.nullable = true := by
  cases admits <;> simp_all

/-- What is not NULL is of the type of its kind. -/
theorem Admits.type_eq {k : Kind} {v : LiteralValue} (admits : k.Admits v) (present : v ≠ .null) :
    k.type = literalType v := (admits.typed.resolve_left present).symm

theorem Admits.ne_null {k : Kind} {v : LiteralValue} (admits : k.Admits v)
    (never : k.nullable = false) : v ≠ .null := by
  cases admits <;> simp_all

/-- A value of a literal's own kind. -/
def ofLiteral (v : LiteralValue) : Kind :=
  ⟨literalType v, decide (v = .null), .point (match v with | .integer i => i.toInt | _ => 0)⟩

theorem ofLiteral_admits (v : LiteralValue) : (ofLiteral v).Admits v := by
  cases v with
  | null => exact .null rfl
  | boolean b => exact .boolean b rfl
  | integer i => exact .integer i rfl (Span.mem_point _)
  | float f => exact .float f rfl
  | string s => exact .string s rfl

end Kind

theorem integerKind_type {nullable : Bool} {range : Span} {k : Kind}
    (rule : integerKind X nullable range = some k) :
    k.type = .integer ∧ k.nullable = nullable := by
  unfold integerKind at rule
  split at rule
  · cases rule
    exact ⟨rfl, rfl⟩
  · split at rule
    · cases rule
    · cases rule
      exact ⟨rfl, rfl⟩

/-- **A computed integer is of its kind**, panic or not. -/
theorem integerResult_sound {nullable : Bool} {range : Span} {k : Kind} {x : Int}
    (rule : integerKind X nullable range = some k) (member : x ∈ range) :
    k.Sound (integerResult X x) := by
  obtain ⟨low, high⟩ := member
  unfold integerKind at rule
  unfold integerResult
  split at rule
  · next inside =>
      obtain ⟨least, greatest⟩ := inside
      change -2 ^ 63 ≤ range.least at least
      change range.greatest ≤ 2 ^ 63 - 1 at greatest
      have fits : -2 ^ 63 ≤ x ∧ x < 2 ^ 63 := by omega
      cases rule
      rw [if_neg (fun overflow => overflow.2 fits)]
      refine .integer _ rfl ?_
      rw [Int64.toInt_ofInt_of_le fits.1 fits.2]
      exact ⟨low, high⟩
  · split at rule
    · cases rule
    · next wraps =>
        cases rule
        rw [if_neg (fun overflow => wraps overflow.1)]
        exact .integer _ rfl (toInt_mem_i64 _)

/-! ## Rules of the operators -/

/-- What the two types unify to, where they do. -/
def unified (l r : Kind) : Option SQLType := (unifyTypes l.type r.type).elim some none

theorem unified_eq {l r : Kind} {t : SQLType} (unifies : unified l r = some t) :
    unifyTypes l.type r.type = .ok t := by
  unfold unified at unifies
  cases given : unifyTypes l.type r.type with
  | ok u =>
    rw [given] at unifies
    cases unifies
    rfl
  | err _ | panic | hang => rw [given] at unifies; cases unifies

def logicalKind (l r : Kind) : Option Kind :=
  if l.type = .boolean ∧ r.type = .boolean then some (.plain .boolean false) else none

/-- Between BOOLEANs, or where one side is always NULL. -/
def equalityKind (l r : Kind) : Option Kind :=
  if l.type = .null ∨ r.type = .null ∨ (l.type = .boolean ∧ r.type = .boolean) then
    (unified l r).map fun t => .plain t (l.nullable || r.nullable)
  else none

/-- The evaluator puts numbers in order, and texts, but not BOOLEANs. -/
def comparisonKind (l r : Kind) : Option Kind :=
  if l.type = .boolean ∧ r.type = .boolean then none
  else (unified l r).map fun _ => .plain .boolean (l.nullable || r.nullable)

def concatKind (l r : Kind) : Option Kind :=
  if unified l r = some .text then some (.plain .text false) else none

/-- `integers` is the rule of the operator where both sides are integers. Arithmetic
on NULL is a type mismatch for the evaluator. -/
def numericKind (l r : Kind) (floatNullable : Bool) (integers : Option Kind) : Option Kind :=
  if l.nullable ∨ r.nullable then none
  else match l.type, r.type with
    | .integer, .integer => integers
    | .integer, .float | .float, .integer | .float, .float => some (.plain .float floatNullable)
    | _, _ => none

/-- No quotient leaves the range: what is divided is not the least `i64`, or the
divisor is not -1. -/
def quotientKind (l r : Kind) : Option Kind :=
  if i64.least < l.range.least ∨ -1 ∉ r.range then
    some ⟨.integer, false, .around l.range.reach⟩
  else none

def binaryKind (X : Extern) (op : BinaryOperator) (l r : Kind) : Option Kind :=
  match op with
  | .and | .or => logicalKind l r
  | .eq | .notEq => equalityKind l r
  | .lt | .ltEq | .gt | .gtEq => comparisonKind l r
  | .concat => concatKind l r
  | .plus => numericKind l r false (integerKind X false (l.range.add r.range))
  | .minus => numericKind l r false (integerKind X false (l.range.sub r.range))
  | .multiply => numericKind l r false (integerKind X false (l.range.mul r.range))
  | .divide => numericKind l r false (quotientKind l r)
  -- The remainder of floats is NULL.
  | .modulo => numericKind l r true (quotientKind l r)

def unaryKind (X : Extern) (op : UnaryOperator) (k : Kind) : Option Kind :=
  match op, k.type with
  | .neg, .integer => integerKind X k.nullable k.range.neg
  | .neg, .float => some k
  | .neg, .null => some k
  | .not, .boolean => some k
  | .not, .null => some (.plain .boolean k.nullable)
  | _, _ => none

/-! ## The operators keep their rules -/

section Operators

variable {l r k : Kind} {a b : LiteralValue}
variable {op : BinaryOperator} {floatNullable : Bool} {integers : Option Kind}

/-- A BOOLEAN or NULL passes `coerce_to_bool`. -/
theorem coerceToBool_of_boolean (typed : l.type = .boolean) (admits : l.Admits a) :
    ∃ v, coerceToBool X a = .ok v := by
  cases admits with
  | null _ => exact ⟨false, rfl⟩
  | boolean v _ => exact ⟨v, rfl⟩
  | integer _ other _ | float _ other | string _ other => rw [typed] at other; cases other

theorem logical_sound (rule : logicalKind l r = some k) (left : l.Admits a) (right : r.Admits b) :
    k.Sound (evalBinaryOp X .and a b) ∧ k.Sound (evalBinaryOp X .or a b) := by
  unfold logicalKind at rule
  split at rule
  · next both =>
      cases rule
      obtain ⟨u, leftRead⟩ := coerceToBool_of_boolean (X := X) both.1 left
      obtain ⟨w, rightRead⟩ := coerceToBool_of_boolean (X := X) both.2 right
      simp only [evalBinaryOp, leftRead, rightRead, Outcome.ok_bind, Outcome.pure_eq]
      exact ⟨.boolean _ rfl, .boolean _ rfl⟩
  · cases rule

/-- A NULL on one side comes from a kind that allows it. -/
theorem nullable_of_absent (left : l.Admits a) (right : r.Admits b)
    (absent : a = .null ∨ b = .null) : (l.nullable || r.nullable) = true := by
  rcases absent with rfl | rfl
  · cases left with | null nullable => rw [nullable, Bool.true_or]
  · cases right with | null nullable => rw [nullable, Bool.or_true]

theorem equality_sound (rule : equalityKind l r = some k) (left : l.Admits a)
    (right : r.Admits b) :
    k.Sound (evalBinaryOp X .eq a b) ∧ k.Sound (evalBinaryOp X .notEq a b) := by
  unfold equalityKind at rule
  split at rule
  · next decided =>
      obtain ⟨t, unifies, rfl⟩ := Option.map_eq_some_iff.mp rule
      have same := unified_eq unifies
      by_cases absent : a = .null ∨ b = .null
      · have nullable := nullable_of_absent left right absent
        simp only [evalBinaryOp, if_pos absent]
        exact ⟨.null nullable, .null nullable⟩
      · have both : l.type = .boolean ∧ r.type = .boolean := by
          rcases decided with leftNull | rightNull | both
          · exact absurd (.inl (left.eq_null leftNull).1) absent
          · exact absurd (.inr (right.eq_null rightNull).1) absent
          · exact both
        rw [both.1, both.2, unifyTypes_self] at same
        cases same
        simp only [evalBinaryOp, if_neg absent]
        exact ⟨.boolean _ rfl, .boolean _ rfl⟩
  · cases rule

theorem unified_of_comparisonKind (rule : comparisonKind l r = some k) :
    ∃ t, unified l r = some t := by
  unfold comparisonKind at rule
  split at rule
  · cases rule
  · obtain ⟨t, unifies, _⟩ := Option.map_eq_some_iff.mp rule
    exact ⟨t, unifies⟩

/-- Two values that are not NULL and whose types unify, but two BOOLEANs, are made alike. -/
theorem coercePair_of_unified {t : SQLType} (same : unifyTypes l.type r.type = .ok t)
    (notBoth : ¬ (l.type = .boolean ∧ r.type = .boolean)) (left : l.Admits a) (right : r.Admits b)
    (present : ¬ (a = .null ∨ b = .null)) :
    (∃ i j, coercePair X a b = .ok (.integer i, .integer j)) ∨
      (∃ f g, coercePair X a b = .ok (.float f, .float g)) ∨
        ∃ u w, coercePair X a b = .ok (.string u, .string w) := by
  obtain ⟨leftPresent, rightPresent⟩ := not_or.mp present
  rw [left.type_eq leftPresent, right.type_eq rightPresent] at same notBoth
  cases a with
  | null => exact absurd rfl leftPresent
  | boolean u =>
    cases b with
    | boolean w => exact absurd ⟨rfl, rfl⟩ notBoth
    | null => exact absurd rfl rightPresent
    | _ => cases same
  | integer i =>
    cases b with
    | integer j => exact .inl ⟨i, j, rfl⟩
    | float g => exact .inr (.inl ⟨_, g, rfl⟩)
    | null => exact absurd rfl rightPresent
    | _ => cases same
  | float f =>
    cases b with
    | integer j => exact .inr (.inl ⟨f, _, rfl⟩)
    | float g => exact .inr (.inl ⟨f, g, rfl⟩)
    | null => exact absurd rfl rightPresent
    | _ => cases same
  | string u =>
    cases b with
    | string w => exact .inr (.inr ⟨u, w, rfl⟩)
    | null => exact absurd rfl rightPresent
    | _ => cases same

/-- **The orders**, on operands that unify and are not both BOOLEAN. -/
theorem compareCoerced_sound (rule : comparisonKind l r = some k) (left : l.Admits a)
    (right : r.Admits b) (integers : Int64 → Int64 → Bool) (floats : F64 → F64 → Bool)
    (texts : Text → Text → Bool) : k.Sound (compareCoerced X a b integers floats texts) := by
  unfold comparisonKind at rule
  unfold compareCoerced
  split at rule
  · cases rule
  · next notBoth =>
      obtain ⟨t, unifies, rfl⟩ := Option.map_eq_some_iff.mp rule
      by_cases absent : a = .null ∨ b = .null
      · rw [if_pos absent]
        exact .null (nullable_of_absent left right absent)
      · rw [if_neg absent]
        rcases coercePair_of_unified (X := X) (unified_eq unifies) notBoth left right absent with
          ⟨i, j, pair⟩ | ⟨f, g, pair⟩ | ⟨u, w, pair⟩
        all_goals
          rw [pair, Outcome.ok_bind]
          exact .boolean _ rfl

theorem concat_sound (rule : concatKind l r = some k) :
    k.Sound (evalBinaryOp X .concat a b) := by
  unfold concatKind at rule
  split at rule
  · cases rule
    exact .string _ rfl
  · cases rule

/-- The premises of `numericKind`, and which of the two ways its operands go. -/
theorem numericKind_cases (rule : numericKind l r floatNullable integers = some k) :
    l.nullable = false ∧ r.nullable = false ∧
      (l.type = .integer ∧ r.type = .integer ∧ integers = some k ∨
        (l.type = .float ∨ r.type = .float) ∧ (l.type = .integer ∨ l.type = .float) ∧
          (r.type = .integer ∨ r.type = .float) ∧ k = .plain .float floatNullable) := by
  unfold numericKind at rule
  split at rule
  · cases rule
  · next never =>
      simp only [not_or, Bool.not_eq_true] at never
      refine ⟨never.1, never.2, ?_⟩
      split at rule
      · next leftType rightType => exact .inl ⟨leftType, rightType, rule⟩
      · next leftType rightType =>
          exact .inr ⟨.inr rightType, .inl leftType, .inr rightType, (Option.some.inj rule).symm⟩
      · next leftType rightType =>
          exact .inr ⟨.inl leftType, .inr leftType, .inl rightType, (Option.some.inj rule).symm⟩
      · next leftType rightType =>
          exact .inr ⟨.inl leftType, .inr leftType, .inr rightType, (Option.some.inj rule).symm⟩
      · cases rule

/-- **Numbers that are never NULL** are two integers in their ranges, or become two
floats. -/
theorem coerceNumericPair_cases (rule : numericKind l r floatNullable integers = some k) (left : l.Admits a)
    (right : r.Admits b) :
    (∃ i j, coerceNumericPair X a b = .ok (.integer i, .integer j) ∧ i.toInt ∈ l.range ∧
        j.toInt ∈ r.range ∧ integers = some k) ∨
      ∃ f g, coerceNumericPair X a b = .ok (.float f, .float g) ∧
        k = .plain .float floatNullable := by
  obtain ⟨leftNever, rightNever, ways⟩ := numericKind_cases rule
  have leftPresent := left.ne_null leftNever
  have rightPresent := right.ne_null rightNever
  rw [left.type_eq leftPresent, right.type_eq rightPresent] at ways
  cases left with
  | null _ => exact absurd rfl leftPresent
  | integer i _ inLeft =>
    cases right with
    | null _ => exact absurd rfl rightPresent
    | integer j _ inRight => exact .inl ⟨i, j, rfl, inLeft, inRight, by simpa [literalType] using ways⟩
    | float g _ => exact .inr ⟨_, g, rfl, by simpa [literalType] using ways⟩
    | _ => simp [literalType] at ways
  | float f _ =>
    cases right with
    | null _ => exact absurd rfl rightPresent
    | integer j _ _ => exact .inr ⟨f, _, rfl, by simpa [literalType] using ways⟩
    | float g _ => exact .inr ⟨f, g, rfl, by simpa [literalType] using ways⟩
    | _ => simp [literalType] at ways
  | _ => simp [literalType] at ways

theorem arithmetic_sound {integers : Int → Int → Int} {range : Span} (floats : F64 → F64 → F64)
    (rule : numericKind l r false (integerKind X false range) = some k) (left : l.Admits a)
    (right : r.Admits b)
    (within : ∀ {x y : Int}, x ∈ l.range → y ∈ r.range → integers x y ∈ range) :
    k.Sound (arithmetic X a b integers floats) := by
  unfold arithmetic
  rcases coerceNumericPair_cases (X := X) rule left right with
    ⟨i, j, pair, inLeft, inRight, integral⟩ | ⟨f, g, pair, rfl⟩
  · rw [pair, Outcome.ok_bind]
    exact integerResult_sound integral (within inLeft inRight)
  · rw [pair, Outcome.ok_bind]
    exact .float _ rfl

theorem quotientKind_eq (rule : quotientKind l r = some k) :
    (i64.least < l.range.least ∨ -1 ∉ r.range) ∧
      k = ⟨.integer, false, .around l.range.reach⟩ := by
  unfold quotientKind at rule
  split at rule
  · next small => exact ⟨small, (Option.some.inj rule).symm⟩
  · cases rule

/-- The one division that leaves the range is ruled out. -/
theorem not_minValue_div {i j : Int64} (small : i64.least < l.range.least ∨ -1 ∉ r.range)
    (left : i.toInt ∈ l.range) (right : j.toInt ∈ r.range) :
    ¬ (i = Int64.minValue ∧ j = -1) := by
  rintro ⟨rfl, rfl⟩
  rcases small with above | outside
  · exact absurd left.1 (Int.not_le.mpr above)
  · exact outside right

theorem divide_sound (rule : numericKind l r false (quotientKind l r) = some k)
    (left : l.Admits a) (right : r.Admits b) : k.Sound (evalBinaryOp X .divide a b) := by
  unfold evalBinaryOp
  rcases coerceNumericPair_cases (X := X) rule left right with
    ⟨i, j, pair, inLeft, inRight, integral⟩ | ⟨f, g, pair, rfl⟩
  · obtain ⟨small, rfl⟩ := quotientKind_eq integral
    have possible := not_minValue_div small inLeft inRight
    simp only [pair, Outcome.ok_bind]
    by_cases zero : j = 0
    · rw [if_pos zero]
      exact .inl rfl
    · rw [if_neg zero, if_neg possible]
      refine .integer _ rfl ?_
      have exact : (i / j).toInt = i.toInt.tdiv j.toInt := by
        by_cases least : i = Int64.minValue
        · exact Int64.toInt_div_of_ne_right i j (fun divisor => possible ⟨least, divisor⟩)
        · exact Int64.toInt_div_of_ne_left i j least
      rw [exact]
      exact Span.tdiv_mem _ inLeft
  · simp only [pair, Outcome.ok_bind]
    split
    · exact .inl rfl
    · exact .float _ rfl

theorem modulo_sound (rule : numericKind l r true (quotientKind l r) = some k)
    (left : l.Admits a) (right : r.Admits b) : k.Sound (evalBinaryOp X .modulo a b) := by
  unfold evalBinaryOp
  rcases coerceNumericPair_cases (X := X) rule left right with
    ⟨i, j, pair, inLeft, inRight, integral⟩ | ⟨f, g, pair, rfl⟩
  · obtain ⟨small, rfl⟩ := quotientKind_eq integral
    simp only [pair, Outcome.ok_bind]
    by_cases zero : j = 0
    · rw [if_pos zero]
      exact .inl rfl
    · rw [if_neg zero, if_neg (not_minValue_div small inLeft inRight)]
      refine .integer _ rfl ?_
      rw [Int64.toInt_mod]
      exact Span.tmod_mem _ inLeft
  · simp only [pair, Outcome.ok_bind]
    exact .null rfl

/-- **Every binary operator keeps its rule.** -/
theorem binaryOp_sound (rule : binaryKind X op l r = some k)
    (left : l.Admits a) (right : r.Admits b) : k.Sound (evalBinaryOp X op a b) := by
  cases op with
  | and => exact (logical_sound rule left right).1
  | or => exact (logical_sound rule left right).2
  | eq => exact (equality_sound rule left right).1
  | notEq => exact (equality_sound rule left right).2
  | lt | ltEq | gt | gtEq => exact compareCoerced_sound rule left right ..
  | concat => exact concat_sound rule
  | plus => exact arithmetic_sound _ rule left right Span.add_mem
  | minus => exact arithmetic_sound _ rule left right Span.sub_mem
  | multiply => exact arithmetic_sound _ rule left right Span.mul_mem
  | divide => exact divide_sound rule left right
  | modulo => exact modulo_sound rule left right

theorem unaryOp_sound {op : UnaryOperator} (rule : unaryKind X op l = some k)
    (operand : l.Admits a) : k.Sound (evalUnaryOp X op a) := by
  unfold unaryKind at rule
  split at rule
  · next typed =>
      cases operand with
      | null nullable => exact .null ((integerKind_type rule).2.trans nullable)
      | integer i _ inRange => exact integerResult_sound rule (Span.neg_mem inRange)
      | boolean _ other | float _ other | string _ other => rw [typed] at other; cases other
  · next typed =>
      cases rule
      cases operand with
      | null nullable => exact .null nullable
      | float f _ => exact .float _ typed
      | boolean _ other | integer _ other _ | string _ other => rw [typed] at other; cases other
  · next typed =>
      cases rule
      obtain ⟨rfl, nullable⟩ := operand.eq_null typed
      exact .null nullable
  · next typed =>
      cases rule
      cases operand with
      | null nullable => exact .null nullable
      | boolean b _ => exact .boolean _ typed
      | float _ other | integer _ other _ | string _ other => rw [typed] at other; cases other
  · next typed =>
      cases rule
      obtain ⟨rfl, nullable⟩ := operand.eq_null typed
      exact .null nullable
  · cases rule

/-! ## The checker gives the types of the rules -/

theorem numericKind_unifies (rule : numericKind l r floatNullable integers = some k)
    (integral : integers = some k → k.type = .integer) :
    unifyTypes l.type r.type = .ok k.type ∧ (k.type = .integer ∨ k.type = .float) := by
  obtain ⟨_, _, ⟨leftType, rightType, given⟩ | ⟨oneFloat, leftType, rightType, rfl⟩⟩ :=
    numericKind_cases rule
  · rw [leftType, rightType, integral given]
    exact ⟨rfl, .inl rfl⟩
  · refine ⟨?_, .inr rfl⟩
    rcases leftType with leftType | leftType <;> rcases rightType with rightType | rightType
    · simp [leftType, rightType] at oneFloat
    all_goals rw [leftType, rightType]; rfl

theorem checkBinaryOp_of_numeric
    (isNumeric : op = .plus ∨ op = .minus ∨ op = .multiply ∨ op = .divide ∨ op = .modulo)
    (rule : numericKind l r floatNullable integers = some k)
    (integral : integers = some k → k.type = .integer) :
    checkBinaryOp op l.type r.type = .ok k.type := by
  obtain ⟨same, numeric⟩ := numericKind_unifies rule integral
  rcases isNumeric with rfl | rfl | rfl | rfl | rfl
  all_goals
    rw [checkBinaryOp, same, Outcome.ok_bind]
    rcases numeric with typed | typed <;> rw [typed] <;> rfl

theorem checkBinaryOp_of_logical (isLogical : op = .and ∨ op = .or)
    (rule : logicalKind l r = some k) : checkBinaryOp op l.type r.type = .ok k.type := by
  unfold logicalKind at rule
  split at rule
  · next both =>
      cases rule
      rw [both.1, both.2]
      rcases isLogical with rfl | rfl <;> rfl
  · cases rule

theorem checkBinaryOp_of_equality (isEquality : op = .eq ∨ op = .notEq)
    (rule : equalityKind l r = some k) : checkBinaryOp op l.type r.type = .ok k.type := by
  unfold equalityKind at rule
  split at rule
  · obtain ⟨t, unifies, rfl⟩ := Option.map_eq_some_iff.mp rule
    rcases isEquality with rfl | rfl <;> exact unified_eq unifies
  · cases rule

theorem checkBinaryOp_of_comparison (isOrder : op = .lt ∨ op = .ltEq ∨ op = .gt ∨ op = .gtEq)
    (rule : comparisonKind l r = some k) : checkBinaryOp op l.type r.type = .ok k.type := by
  unfold comparisonKind at rule
  split at rule
  · cases rule
  · obtain ⟨t, unifies, rfl⟩ := Option.map_eq_some_iff.mp rule
    rcases isOrder with rfl | rfl | rfl | rfl
    all_goals
      rw [checkBinaryOp, unified_eq unifies, Outcome.ok_bind]
      cases t <;> rfl

theorem checkBinaryOp_of_concat (rule : concatKind l r = some k) :
    checkBinaryOp .concat l.type r.type = .ok k.type := by
  unfold concatKind at rule
  split at rule
  · next unifies =>
      cases rule
      rw [checkBinaryOp, unified_eq unifies, Outcome.ok_bind]
      rfl
  · cases rule

theorem quotientKind_type (rule : quotientKind l r = some k) : k.type = .integer := by
  rw [(quotientKind_eq rule).2]

/-- **Every rule of a binary operator is one of the checker's.** -/
theorem checkBinaryOp_of_rule (rule : binaryKind X op l r = some k) :
    checkBinaryOp op l.type r.type = .ok k.type := by
  cases op with
  | and => exact checkBinaryOp_of_logical (.inl rfl) rule
  | or => exact checkBinaryOp_of_logical (.inr rfl) rule
  | eq => exact checkBinaryOp_of_equality (.inl rfl) rule
  | notEq => exact checkBinaryOp_of_equality (.inr rfl) rule
  | lt | ltEq | gt | gtEq => exact checkBinaryOp_of_comparison (by simp) rule
  | concat => exact checkBinaryOp_of_concat rule
  | plus | minus | multiply =>
    exact checkBinaryOp_of_numeric (by simp) rule fun given => (integerKind_type given).1
  | divide | modulo => exact checkBinaryOp_of_numeric (by simp) rule quotientKind_type

theorem checkUnaryOp_of_rule {op : UnaryOperator} (rule : unaryKind X op l = some k) :
    checkUnaryOp op l.type = .ok k.type := by
  unfold unaryKind at rule
  split at rule
  · next typed => rw [typed, (integerKind_type rule).1]; rfl
  · next typed => cases rule; rw [typed]; rfl
  · next typed => cases rule; rw [typed]; rfl
  · next typed => cases rule; rw [typed]; rfl
  · next typed => cases rule; rw [typed]; rfl
  · cases rule

end Operators

/-! ## Functions -/

/-- The sum of integers; of floats the evaluator makes the integer 0. -/
def sumKind (X : Extern) : List Kind → Option Kind
  | [] => none
  | first :: rest =>
    if first.type = .integer then
      integerKind X false (.sums (.point 0) ((first :: rest).map Kind.range))
    else none

def Kind.isNumeric (k : Kind) : Bool := k.type = .integer || k.type = .float

def avgKind : List Kind → Option Kind
  | [] => none
  | first :: rest =>
    if first.isNumeric then
      some (.plain .float (! (first :: rest).any fun k => ! k.nullable && k.isNumeric))
    else none

/-- `MIN` and `MAX`, of one type that has an order, or of one argument. -/
def bestKind : List Kind → Option Kind
  | [] => none
  | first :: rest =>
    if ∀ k ∈ rest, k.type = .null ∨ (k.type = first.type ∧ first.type ≠ .boolean) then
      some ⟨first.type, (first :: rest).all Kind.nullable,
        .hullAll ((first :: rest).map Kind.range)⟩
    else none

def functionKind (X : Extern) (name : Text) (args : List Kind) : Option Kind :=
  let lower := X.toLowercase name
  if lower = "count".toList then
    some ⟨.integer, false, if args.length < 2 ^ 63 then ⟨0, args.length⟩ else i64⟩
  else if lower = "sum".toList then sumKind X args
  else if lower = "avg".toList then avgKind args
  else if lower = "min".toList ∨ lower = "max".toList then bestKind args
  else some (.plain .null true)

section Functions

variable {kinds : List Kind} {k : Kind} {vals : List LiteralValue}

theorem Kind.Admits.weaken {k K : Kind} {v : LiteralValue} (admits : k.Admits v)
    (typed : v ≠ .null → k.type = K.type) (nullable : k.nullable = true → K.nullable = true)
    (range : ∀ x ∈ k.range, x ∈ K.range) : K.Admits v := by
  cases admits with
  | null allowed => exact .null (nullable allowed)
  | boolean b type => exact .boolean b ((typed (by simp)).symm.trans type)
  | integer i type inRange => exact .integer i ((typed (by simp)).symm.trans type) (range _ inRange)
  | float f type => exact .float f ((typed (by simp)).symm.trans type)
  | string s type => exact .string s ((typed (by simp)).symm.trans type)

theorem count_sound {count : Nat} (fewer : count ≤ kinds.length) :
    (⟨.integer, false, if kinds.length < 2 ^ 63 then ⟨0, kinds.length⟩ else i64⟩ : Kind).Admits
      (.integer (.ofNat count)) := by
  refine .integer _ rfl ?_
  show _ ∈ if kinds.length < 2 ^ 63 then (⟨0, kinds.length⟩ : Span) else i64
  split
  · next small =>
      rw [Int64.toInt_ofNat_of_lt (by omega)]
      show (0 : Int) ≤ count ∧ (count : Int) ≤ kinds.length
      omega
  · exact toInt_mem_i64 _

/-- While the sums fit, no step of `sum` leaves the range. -/
theorem sumIntegers_exact {start : Span} {total : Int64} (inStart : total.toInt ∈ start)
    (admitted : List.Forall₂ Kind.Admits kinds vals)
    (fits : i64.least ≤ (Span.sums start (kinds.map Kind.range)).least ∧
      (Span.sums start (kinds.map Kind.range)).greatest ≤ i64.greatest) :
    EndsIn (fun v => ∃ i, v = .integer i ∧ i.toInt ∈ Span.sums start (kinds.map Kind.range))
      (sumIntegers X total vals) := by
  induction admitted generalizing start total with
  | nil => exact ⟨total, rfl, inStart⟩
  | @cons k v kinds vals admits rest ih =>
    have kept : total.toInt ∈ start.add (k.range.hull (.point 0)) := by
      have added := Span.add_mem inStart (Span.mem_hull_zero k.range)
      rwa [Int.add_zero] at added
    cases admits with
    | null _ | boolean _ _ | float _ _ | string _ _ => exact ih kept fits
    | integer i _ inRange =>
      have added := Span.add_mem inStart (Span.mem_hull_left (t := .point 0) inRange)
      obtain ⟨low, high⟩ := Span.mem_sums_of_mem (kinds.map Kind.range) added
      obtain ⟨least, greatest⟩ := fits
      have inside : -2 ^ 63 ≤ total.toInt + i.toInt ∧ total.toInt + i.toInt < 2 ^ 63 := by
        constructor
        · exact Int.le_trans least low
        · exact Int.lt_of_le_of_lt (Int.le_trans high greatest) (by decide)
      rw [sumIntegers, integerResult, if_neg (fun overflow => overflow.2 inside),
        Outcome.ok_bind]
      refine ih ?_ ⟨least, greatest⟩
      rwa [Int64.toInt_ofInt_of_le inside.1 inside.2]

theorem sumIntegers_wraps (wraps : X.overflowChecks = false) (total : Int64)
    (vals : List LiteralValue) : EndsIn (fun v => ∃ i, v = .integer i) (sumIntegers X total vals) := by
  induction vals generalizing total with
  | nil => exact ⟨total, rfl⟩
  | cons v rest ih =>
    cases v with
    | integer i =>
      rw [sumIntegers, integerResult, if_neg (fun overflow => by simp [wraps] at overflow),
        Outcome.ok_bind]
      exact ih _
    | null | boolean _ | float _ | string _ => exact ih total

theorem sum_sound (rule : sumKind X kinds = some k)
    (admitted : List.Forall₂ Kind.Admits kinds vals) : k.Sound (sumIntegers X 0 vals) := by
  cases admitted with
  | nil => cases rule
  | @cons first v rest vals admits later =>
    rw [sumKind] at rule
    split at rule
    · unfold integerKind at rule
      split at rule
      · next fits =>
          cases rule
          refine (sumIntegers_exact (Span.mem_point 0) (.cons admits later) fits).mono ?_
          rintro _ ⟨i, rfl, inRange⟩
          exact .integer i rfl inRange
      · split at rule
        · cases rule
        · next wraps =>
            cases rule
            refine (sumIntegers_wraps (by simpa using wraps) 0 _).mono ?_
            rintro _ ⟨i, rfl⟩
            exact .integer i rfl (toInt_mem_i64 i)
    · cases rule

/-- What `avg` takes of an argument. -/
theorem filterMap_ne_nil {f : LiteralValue → Option F64}
    (numbers : ∀ v, (literalType v = .integer ∨ literalType v = .float) → (f v).isSome)
    (admitted : List.Forall₂ Kind.Admits kinds vals)
    (present : (kinds.any fun k => ! k.nullable && k.isNumeric) = true) :
    vals.filterMap f ≠ [] := by
  induction admitted with
  | nil => simp at present
  | @cons k v kinds vals admits rest ih =>
    rcases read : f v with _ | x
    · rw [List.filterMap_cons_none read]
      refine ih ?_
      rw [List.any_cons, Bool.or_eq_true] at present
      rcases present with here | later
      · -- A number that is never NULL is taken.
        simp only [Bool.and_eq_true, Bool.not_eq_true', Kind.isNumeric, Bool.or_eq_true,
          decide_eq_true_eq] at here
        have typed := admits.typed.resolve_left (admits.ne_null here.1)
        have taken := numbers v (by rw [typed]; exact here.2)
        rw [read] at taken
        cases taken
      · exact later
    · rw [List.filterMap_cons_some read]
      exact List.cons_ne_nil _ _

/-- **The best of some values** of one kind, where more than one can be put in order. -/
theorem pickBest_sound {op : BinaryOperator} (isOrder : op = .lt ∨ op = .gt) {best : LiteralValue}
    (present : k.Admits best ∧ best ≠ .null) (others : ∀ v ∈ vals, k.Admits v ∧ v ≠ .null)
    (ordered : k.type ≠ .boolean ∨ vals = []) : k.Sound (pickBest X op best vals) := by
  induction vals generalizing best with
  | nil => exact present.1
  | cons v rest ih =>
    have notBoolean : k.type ≠ .boolean := ordered.resolve_right (List.cons_ne_nil _ _)
    obtain ⟨here, later⟩ := List.forall_mem_cons.mp others
    have rule : comparisonKind k k = some (.plain .boolean (k.nullable || k.nullable)) := by
      rw [comparisonKind, if_neg (fun both => notBoolean both.1), unified, unifyTypes_self]
      rfl
    have compared : EndsIn (fun _ => True) (evalBinaryOp X op v best) := by
      rcases isOrder with rfl | rfl
      · exact (compareCoerced_sound rule here.1 present.1 ..).mono fun _ _ => trivial
      · exact (compareCoerced_sound rule here.1 present.1 ..).mono fun _ _ => trivial
    refine compared.bind fun better _ => ih ?_ later (.inl notBoolean)
    split
    · exact here
    · exact present

/-- The values of arguments of one type, or NULL, are of the kind of the best. -/
theorem admits_of_bestKind {first : Kind} {rest : List Kind}
    (alike : ∀ k ∈ rest, k.type = .null ∨ (k.type = first.type ∧ first.type ≠ .boolean))
    (admitted : List.Forall₂ Kind.Admits (first :: rest) vals) :
    ∀ v ∈ vals, v ≠ .null → (⟨first.type, (first :: rest).all Kind.nullable,
      .hullAll ((first :: rest).map Kind.range)⟩ : Kind).Admits v := by
  intro v member present
  obtain ⟨k, inKinds, admits⟩ := exists_of_mem_right admitted member
  have typed : k.type = first.type := by
    rcases List.mem_cons.mp inKinds with rfl | later
    · rfl
    · rcases alike k later with absent | ⟨same, _⟩
      · exact absurd (admits.eq_null absent).1 present
      · exact same
  cases admits with
  | null _ => exact absurd rfl present
  | boolean b type => exact .boolean b (typed.symm.trans type)
  | integer i type inRange =>
    exact .integer i (typed.symm.trans type)
      (Span.mem_hullAll (List.mem_map_of_mem inKinds) inRange)
  | float f type => exact .float f (typed.symm.trans type)
  | string s type => exact .string s (typed.symm.trans type)

/-- Where all values are NULL, every kind allows it. -/
theorem all_nullable (admitted : List.Forall₂ Kind.Admits kinds vals)
    (absent : ∀ v ∈ vals, v = .null) : kinds.all Kind.nullable = true := by
  induction admitted with
  | nil => rfl
  | @cons k v kinds vals admits rest ih =>
    obtain ⟨rfl, later⟩ := List.forall_mem_cons.mp absent
    cases admits with
    | null nullable => rw [List.all_cons, nullable, ih later]; rfl

/-- Arguments of which only the first has a type are NULL after it. -/
theorem later_null (untyped : ∀ k ∈ kinds, k.type = .null)
    (admitted : List.Forall₂ Kind.Admits kinds vals) : ∀ v ∈ vals, v = .null := by
  intro v member
  obtain ⟨k, inKinds, admits⟩ := exists_of_mem_right admitted member
  exact (admits.eq_null (untyped k inKinds)).1

theorem best_sound {op : BinaryOperator} (isOrder : op = .lt ∨ op = .gt)
    (rule : bestKind kinds = some k) (admitted : List.Forall₂ Kind.Admits kinds vals) :
    (vals.filter (fun a => decide (a ≠ .null)) = [] → k.Sound (.ok .null)) ∧
      ∀ first rest, vals.filter (fun a => decide (a ≠ .null)) = first :: rest →
        k.Sound (pickBest X op first rest) := by
  cases admitted with
  | nil => cases rule
  | @cons firstKind first restKinds restVals admits later =>
    rw [bestKind] at rule
    split at rule
    · next alike =>
        cases rule
        have each := admits_of_bestKind alike (.cons admits later)
        have present : ∀ v ∈ (first :: restVals).filter fun a => decide (a ≠ .null),
            v ∈ first :: restVals ∧ v ≠ .null := by
          intro v member
          obtain ⟨inVals, kept⟩ := List.mem_filter.mp member
          exact ⟨inVals, of_decide_eq_true kept⟩
        have few : firstKind.type = .boolean →
            ((first :: restVals).filter fun a => decide (a ≠ .null)).tail = [] := by
          intro isBoolean
          have absent : ∀ v ∈ restVals, v = .null := later_null (fun k inRest =>
            (alike k inRest).resolve_right fun same => same.2 isBoolean) later
          have none : restVals.filter (fun a => decide (a ≠ .null)) = [] :=
            List.filter_eq_nil_iff.mpr fun v member => by simp [absent v member]
          rw [List.filter_cons, none]
          split <;> rfl
        refine ⟨fun found => ?_, fun v rest found => ?_⟩
        · refine Kind.Admits.null (all_nullable (.cons admits later) fun v member => ?_)
          by_contra notNull
          have kept : v ∈ (first :: restVals).filter fun a => decide (a ≠ .null) :=
            List.mem_filter.mpr ⟨member, decide_eq_true notNull⟩
          rw [found] at kept
          cases kept
        · rw [found] at present few
          obtain ⟨here, others⟩ := List.forall_mem_cons.mp present
          refine pickBest_sound isOrder ⟨each v here.1 here.2, here.2⟩
            (fun w member => ⟨each w (others w member).1 (others w member).2, (others w member).2⟩) ?_
          by_cases isBoolean : firstKind.type = .boolean
          · exact .inr (few isBoolean)
          · exact .inl isBoolean
    · cases rule

theorem avg_sound {f : LiteralValue → Option F64} (average : List F64 → F64)
    (numbers : ∀ v, (literalType v = .integer ∨ literalType v = .float) → (f v).isSome)
    (rule : avgKind kinds = some k) (admitted : List.Forall₂ Kind.Admits kinds vals) :
    k.Sound (if (vals.filterMap f).isEmpty then .ok .null
      else .ok (.float (average (vals.filterMap f)))) := by
  cases admitted with
  | nil => cases rule
  | @cons firstKind first restKinds restVals admits later =>
    rw [avgKind] at rule
    split at rule
    · cases rule
      split
      · next empty =>
          refine .null ?_
          rw [Kind.plain_nullable, Bool.not_eq_true', Bool.eq_false_iff]
          intro someNumber
          exact filterMap_ne_nil numbers (.cons admits later) someNumber
            (List.isEmpty_iff.mp empty)
      · exact .float _ rfl
    · cases rule

/-- **Every function keeps its rule.** -/
theorem function_sound {name : Text} (rule : functionKind X name kinds = some k)
    (admitted : List.Forall₂ Kind.Admits kinds vals) : k.Sound (evalFunction X name vals) := by
  unfold functionKind at rule
  unfold evalFunction
  by_cases count : X.toLowercase name = "count".toList
  · rw [if_pos count] at rule ⊢
    cases rule
    refine count_sound ?_
    rw [admitted.length_eq]
    exact List.length_filter_le ..
  rw [if_neg count] at rule ⊢
  by_cases sum : X.toLowercase name = "sum".toList
  · rw [if_pos sum] at rule ⊢
    exact sum_sound rule admitted
  rw [if_neg sum] at rule ⊢
  by_cases avg : X.toLowercase name = "avg".toList
  · rw [if_pos avg] at rule ⊢
    refine avg_sound (fun nums => X.div (X.sum nums) (X.ofInt (.ofNat nums.length))) ?_ rule
      admitted
    intro v isNumber
    cases v <;> simp [literalType] at isNumber ⊢
  rw [if_neg avg] at rule ⊢
  by_cases min : X.toLowercase name = "min".toList
  · rw [if_pos (.inl min)] at rule
    rw [if_pos min]
    split
    · next absent => exact (best_sound (X := X) (.inl rfl) rule admitted).1 absent
    · next found => exact (best_sound (.inl rfl) rule admitted).2 _ _ found
  rw [if_neg min]
  by_cases max : X.toLowercase name = "max".toList
  · rw [if_pos (.inr max)] at rule
    rw [if_pos max]
    split
    · next absent => exact (best_sound (X := X) (.inr rfl) rule admitted).1 absent
    · next found => exact (best_sound (.inr rfl) rule admitted).2 _ _ found
  rw [if_neg (not_or.mpr ⟨min, max⟩)] at rule
  rw [if_neg max]
  cases rule
  exact .null rfl

/-- **Every rule of a function is one of the checker's.** -/
theorem checkFunction_of_rule {name : Text} (rule : functionKind X name kinds = some k) :
    checkFunction X name (kinds.head?.map fun first => .ok first.type) = .ok k.type := by
  unfold functionKind at rule
  unfold checkFunction
  by_cases count : X.toLowercase name = "count".toList
  · rw [if_pos count] at rule ⊢
    cases rule
    rfl
  rw [if_neg count] at rule ⊢
  by_cases sum : X.toLowercase name = "sum".toList
  · rw [if_pos sum] at rule
    rw [if_pos (.inl sum)]
    cases kinds with
    | nil => cases rule
    | cons first rest =>
      rw [sumKind] at rule
      split at rule
      · next typed =>
          have notAvg : X.toLowercase name ≠ "avg".toList := by rw [sum]; decide
          simp only [List.head?_cons, Option.map_some, Option.elim_some, Outcome.ok_bind,
            Outcome.pure_eq]
          rw [if_pos (.inl typed), if_neg notAvg, typed, (integerKind_type rule).1]
      · cases rule
  rw [if_neg sum] at rule
  by_cases avg : X.toLowercase name = "avg".toList
  · rw [if_pos avg] at rule
    rw [if_pos (.inr avg)]
    cases kinds with
    | nil => cases rule
    | cons first rest =>
      rw [avgKind] at rule
      split at rule
      · next numeric =>
          cases rule
          simp only [List.head?_cons, Option.map_some, Option.elim_some, Outcome.ok_bind,
            Outcome.pure_eq]
          rw [if_pos (by simpa [Kind.isNumeric] using numeric), if_pos avg]
          rfl
      · cases rule
  rw [if_neg avg] at rule
  rw [if_neg (not_or.mpr ⟨sum, avg⟩)]
  by_cases best : X.toLowercase name = "min".toList ∨ X.toLowercase name = "max".toList
  · rw [if_pos best] at rule ⊢
    cases kinds with
    | nil => cases rule
    | cons first rest =>
      rw [bestKind] at rule
      split at rule
      · cases rule
        rfl
      · cases rule
  rw [if_neg best] at rule ⊢
  cases rule
  rfl

end Functions

/-! ## The other forms -/

/-- The casts `coerce_value` makes, by the type of what is cast. -/
def castable : SQLType → SQLType → Bool
  | .null, _ => true
  | .boolean, target => target = .text
  | .integer, target => target ≠ .null
  | .float, target => target = .integer || target = .text
  | .text, target => target ≠ .null

def castKind (k : Kind) (target : SQLType) : Option Kind :=
  if k.type = target then some k
  else if castable k.type target then some ⟨target, k.nullable, i64⟩
  else none

/-- The pattern is a literal the regex package reads, or the match is not of two texts. -/
def PatternFits (X : Extern) (fold : Text → Text) (subject pattern : Kind) (e : Expr) : Prop :=
  subject.type ≠ .text ∨ pattern.type ≠ .text ∨
    ∃ p, e = .literal (.string p) ∧
      ∀ s, ∃ matched, X.isMatch (patToRegex (fold p)) s = .ok matched

def commonType (kinds : List Kind) : SQLType :=
  kinds.foldl (fun t k => if t = .null then k.type else t) .null

/-- `other` is the kind of the `ELSE`; without one a `CASE` may be NULL. -/
def caseKind (results : List Kind) (other : Option Kind) : Option Kind :=
  let kinds := results ++ other.toList
  if ∀ k ∈ kinds, k.type = .null ∨ k.type = commonType kinds then
    some ⟨commonType kinds, other.isNone || kinds.any Kind.nullable,
      .hullAll (kinds.map Kind.range)⟩
  else none

theorem caseKind_eq {results : List Kind} {other : Option Kind} {k : Kind}
    (rule : caseKind results other = some k) :
    (∀ k' ∈ results ++ other.toList,
        k'.type = .null ∨ k'.type = commonType (results ++ other.toList)) ∧
      k = ⟨commonType (results ++ other.toList),
        other.isNone || (results ++ other.toList).any Kind.nullable,
        .hullAll ((results ++ other.toList).map Kind.range)⟩ := by
  simp only [caseKind] at rule
  split at rule
  · next alike => exact ⟨alike, (Option.some.inj rule).symm⟩
  · cases rule

end NovaRuntime.Sql
