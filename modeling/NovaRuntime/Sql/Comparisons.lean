/-
# NovaRuntime.Sql.Comparisons — the comparison operators on one pair of values

The ordering operators make an integer and a float alike before they compare them. `=`, `<>` and IN
use the derived equality, which tells an integer from a float. `comparisonsAgree_iff` says that the
operators contradict each other on an integer and a float that are the same number, and on no other
values that can be ordered.
-/
import NovaRuntime.Sql.Evaluate
import Mathlib.Data.Char
import Mathlib.Data.List.Lex

namespace NovaRuntime.Sql

open NovaRuntime.Library

set_option autoImplicit false

/-! ## What the operators owe each other -/

/-- One of three answers is yes. -/
def ExactlyOne (a b c : Bool) : Prop :=
  (a = true ∧ b = false ∧ c = false) ∨ (a = false ∧ b = true ∧ c = false) ∨
    (a = false ∧ b = false ∧ c = true)

/-- The answers of the operators, where `less`, `equal` and `greater` are those of `<`, `=` and `>`. -/
structure Verdicts (X : Extern) (a b : LiteralValue) (less equal greater : Bool) : Prop where
  lt : evalBinaryOp X .lt a b = .ok (.boolean less)
  eq : evalBinaryOp X .eq a b = .ok (.boolean equal)
  gt : evalBinaryOp X .gt a b = .ok (.boolean greater)
  one : ExactlyOne less equal greater
  ltEq : evalBinaryOp X .ltEq a b = .ok (.boolean (less || equal))
  notEq : evalBinaryOp X .notEq a b = .ok (.boolean (! equal))
  isIn : ∀ row schema, evaluateExpr X row schema (.inList (.literal a) [.literal b]) = .ok (.boolean equal)

/-- **The comparison operators agree** on two values. -/
def ComparisonsAgree (X : Extern) (a b : LiteralValue) : Prop :=
  ∃ less equal greater, Verdicts X a b less equal greater

/-- A float is a finite number. -/
def LiteralValue.Finite : LiteralValue → Prop
  | .float f => f.isFinite = true
  | _ => True

/-- An integer and a float that the coercion makes equal. -/
def SameNumber (X : Extern) : LiteralValue → LiteralValue → Prop
  | .integer i, .float f | .float f, .integer i => (X.ofInt i).eq f = true
  | _, _ => False

/-! ## Values that are ordered as something else is -/

section Order

variable {α : Type} [LinearOrder α]

theorem exactlyOne_iff (x y : α) (equal : Bool) :
    ExactlyOne (decide (x < y)) equal (decide (y < x)) ↔ (equal = true ↔ x = y) := by
  rcases lt_trichotomy x y with less | rfl | greater
  · cases equal <;> simp [ExactlyOne, less, less.le, less.ne]
  · cases equal <;> simp [ExactlyOne]
  · cases equal <;> simp [ExactlyOne, greater, greater.le, greater.ne']

/-- The ordering operators compare `a` and `b` as `x` and `y` compare. -/
structure OrderedAs (X : Extern) (a b : LiteralValue) (x y : α) : Prop where
  left : a ≠ .null
  right : b ≠ .null
  lt : evalBinaryOp X .lt a b = .ok (.boolean (decide (x < y)))
  gt : evalBinaryOp X .gt a b = .ok (.boolean (decide (y < x)))
  ltEq : evalBinaryOp X .ltEq a b = .ok (.boolean (decide (x ≤ y)))

theorem isIn_single (X : Extern) (row : List (Option LiteralValue)) (schema : Schema) (a b : LiteralValue) :
    evaluateExpr X row schema (.inList (.literal a) [.literal b]) = .ok (.boolean (a.eq b)) := by
  simp only [evaluateExpr, evaluateIn, Outcome.ok_bind]
  cases a.eq b <;> rfl

/-- **The operators agree on ordered values** if and only if the derived equality is the one of the
order. -/
theorem OrderedAs.agree_iff {X : Extern} {a b : LiteralValue} {x y : α} (ordered : OrderedAs X a b x y) :
    ComparisonsAgree X a b ↔ (a.eq b = true ↔ x = y) := by
  have known : ¬ (a = .null ∨ b = .null) := not_or.mpr ⟨ordered.left, ordered.right⟩
  have equality : evalBinaryOp X .eq a b = .ok (.boolean (a.eq b)) := if_neg known
  constructor
  · rintro ⟨less, equal, greater, verdicts⟩
    obtain rfl : decide (x < y) = less := by simpa [ordered.lt] using verdicts.lt
    obtain rfl : a.eq b = equal := by simpa [equality] using verdicts.eq
    obtain rfl : decide (y < x) = greater := by simpa [ordered.gt] using verdicts.gt
    exact (exactlyOne_iff x y _).mp verdicts.one
  · intro agreed
    refine ⟨decide (x < y), a.eq b, decide (y < x), ?_⟩
    have joined : decide (x ≤ y) = (decide (x < y) || a.eq b) := by
      rw [Bool.eq_iff_iff]
      simp [le_iff_lt_or_eq, agreed]
    exact { lt := ordered.lt
            eq := equality
            gt := ordered.gt
            one := (exactlyOne_iff x y _).mpr agreed
            ltEq := by rw [ordered.ltEq, joined]
            notEq := if_neg known
            isIn := fun row schema => isIn_single X row schema a b }

end Order

/-! ## Each pair of kinds -/

section Kinds

variable (X : Extern)

theorem ordered_integers (a b : Int64) : OrderedAs X (.integer a) (.integer b) a.toInt b.toInt where
  left := by simp
  right := by simp
  lt := by
    rw [← decide_eq_decide.mpr Int64.lt_iff_toInt_lt]
    rfl
  gt := by
    rw [← decide_eq_decide.mpr Int64.lt_iff_toInt_lt]
    rfl
  ltEq := by
    rw [← decide_eq_decide.mpr Int64.le_iff_toInt_le]
    rfl

theorem ordered_texts (s t : Text) : OrderedAs X (.string s) (.string t) s t where
  left := by simp
  right := by simp
  lt := by
    rw [← decide_eq_decide.mpr (Iff.rfl : s < t ↔ _)]
    rfl
  gt := by
    rw [← decide_eq_decide.mpr (Iff.rfl : t < s ↔ _)]
    rfl
  ltEq := by
    have flipped : (! textLt t s) = decide (s ≤ t) := by
      rw [textLt, ← decide_not]
      exact decide_eq_decide.mpr not_lt
    rw [← flipped]
    rfl

/-- Finite floats are compared by where they stand, also those that were integers. -/
theorem ordered_floats {a b : LiteralValue} {f g : F64} (left : a ≠ .null) (right : b ≠ .null)
    (coerced : coercePair X a b = .ok (.float f, .float g)) (finiteLeft : f.isFinite = true)
    (finiteRight : g.isFinite = true) : OrderedAs X a b f.key g.key := by
  have known : ¬ (a = .null ∨ b = .null) := not_or.mpr ⟨left, right⟩
  have number := F64.isNaN_of_isFinite finiteLeft
  have number' := F64.isNaN_of_isFinite finiteRight
  constructor
  · exact left
  · exact right
  all_goals simp [evalBinaryOp, compareCoerced, known, coerced, F64.lt, F64.le, number, number']

theorem eq_eq_true {f g : F64} (finiteLeft : f.isFinite = true) (finiteRight : g.isFinite = true) :
    f.eq g = true ↔ f.key = g.key := by
  simp [F64.eq, F64.isNaN_of_isFinite finiteLeft, F64.isNaN_of_isFinite finiteRight]

/-- Finite floats, one of them an integer before: the derived equality has it that they differ. -/
theorem agree_mixed_iff {a b : LiteralValue} {f g : F64} (left : a ≠ .null) (right : b ≠ .null)
    (coerced : coercePair X a b = .ok (.float f, .float g)) (finiteLeft : f.isFinite = true)
    (finiteRight : g.isFinite = true) (apart : a.eq b = false) :
    ComparisonsAgree X a b ↔ ¬ f.eq g = true := by
  rw [(ordered_floats X left right coerced finiteLeft finiteRight).agree_iff, apart,
    eq_eq_true finiteLeft finiteRight]
  simp

end Kinds

/-- **The comparison operators agree on two values that can be ordered if and only if these are not an
integer and a float that are the same number.** -/
theorem comparisonsAgree_iff (X : Extern) (integers : ∀ i, (X.ofInt i).isFinite = true)
    {a b result : LiteralValue} (left : a ≠ .null) (right : b ≠ .null) (finiteLeft : a.Finite)
    (finiteRight : b.Finite) (compared : evalBinaryOp X .lt a b = .ok result) :
    ComparisonsAgree X a b ↔ ¬ SameNumber X a b := by
  have known : ¬ (a = .null ∨ b = .null) := not_or.mpr ⟨left, right⟩
  rw [evalBinaryOp, compareCoerced, if_neg known] at compared
  cases a <;> cases b <;> try contradiction
  case integer.integer i j =>
    rw [(ordered_integers X i j).agree_iff]
    simp [LiteralValue.eq, SameNumber, Int64.toInt_inj]
  case float.float f g =>
    rw [(ordered_floats X left right rfl finiteLeft finiteRight).agree_iff]
    simp [LiteralValue.eq, SameNumber, eq_eq_true finiteLeft finiteRight]
  case string.string s t =>
    rw [(ordered_texts X s t).agree_iff]
    simp [LiteralValue.eq, SameNumber]
  case integer.float i f =>
    exact agree_mixed_iff X left right rfl (integers i) finiteRight rfl
  case float.integer f i =>
    rw [agree_mixed_iff X left right rfl finiteLeft (integers i) rfl, F64.eq_comm]
    rfl

/-- Integers become floats as Rust has it. -/
def Extern.numbers : Extern := { Extern.ascii with ofInt := fun i => F64.ofInt i.toInt }

theorem Extern.numbers_finite (i : Int64) : (Extern.numbers.ofInt i).isFinite = true := by
  refine F64.isFinite_ofInt ?_
  have := i.toInt_lt
  have := i.le_toInt
  omega

/-- One and two and a half. -/
theorem one_and_a_greater_float : ComparisonsAgree Extern.numbers (.integer 1) (.float ⟨0x4004000000000000⟩) ↔
    ¬ SameNumber Extern.numbers (.integer 1) (.float ⟨0x4004000000000000⟩) := by
  have less : evalBinaryOp Extern.numbers .lt (.integer 1) (.float ⟨0x4004000000000000⟩) = .ok (.boolean true) := by
    decide +kernel
  exact comparisonsAgree_iff Extern.numbers Extern.numbers_finite (by simp) (by simp) trivial rfl less

/-- `1 <= 1.0`, and neither `1 < 1.0` nor `1 = 1.0`. -/
theorem one_is_not_one : ¬ ComparisonsAgree Extern.numbers (.integer 1) (.float ⟨0x3FF0000000000000⟩) := by
  rintro ⟨less, equal, greater, verdicts⟩
  have notLess : evalBinaryOp Extern.numbers .lt (.integer 1) (.float ⟨0x3FF0000000000000⟩) = .ok (.boolean false) := by
    decide +kernel
  have notEqual : evalBinaryOp Extern.numbers .eq (.integer 1) (.float ⟨0x3FF0000000000000⟩) = .ok (.boolean false) := by
    decide +kernel
  have atMost : evalBinaryOp Extern.numbers .ltEq (.integer 1) (.float ⟨0x3FF0000000000000⟩) = .ok (.boolean true) := by
    decide +kernel
  rw [verdicts.lt] at notLess
  rw [verdicts.eq] at notEqual
  rw [verdicts.ltEq] at atMost
  simp_all

end NovaRuntime.Sql
