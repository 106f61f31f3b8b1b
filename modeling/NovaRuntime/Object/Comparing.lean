/-
# NovaRuntime.Object.Comparing — what the comparison operators mean

The operators are read as numbers and derived equality have it (`SameValue`, `ReadsAsNumbers`).
`value_compare` has a branch for two integers of one width, for two floats of one width, for two
texts and for an `Int64` against a `Float64`. On all other pairs `Equals` looks at the variants
alone: two values of one kind are equal whatever they hold, and integers of two widths are
neither equal nor ordered. `readsAsNumbers_iff` says on which pairs the operators are right, and
`rejects_iff` when a range of integers rejects what is outside of it.
-/
import NovaRuntime.Object.Codec
import NovaRuntime.Object.Validation

namespace NovaRuntime.Object

open NovaRuntime.Library

set_option autoImplicit false

variable {a b : Value}

/-! ## What the operators should say -/

/-- The two are the same value: integers by their numbers, whatever their widths; an `Int64` and a
`Float64`, the one mixed pair that is ordered, if the float is that integer; any other two as the
derived equality has it. -/
def SameValue (a b : Value) : Prop :=
  match numeric a, numeric b with
  | some x, some y => x = y
  | _, _ =>
    match a, b with
    | .int64 x, .float64 f | .float64 f, .int64 x => f.IsInt x.toInt
    | a, b => a.eq b = true

/-- The operators mean what they say on two values. -/
structure ReadsAsNumbers (a b : Value) : Prop where
  equals : valueCompare a b .equals = true ↔ SameValue a b
  notEquals : valueCompare a b .notEquals = !valueCompare a b .equals
  /-- Of two integers one is less, or they are equal, or one is greater. -/
  integers : (numeric a).isSome → (numeric b).isSome →
    (valueCompare a b .lessThan).toNat + (valueCompare a b .equals).toNat +
      (valueCompare a b .greaterThan).toNat = 1
  lessThanOrEqual : (numeric a).isSome → (numeric b).isSome →
    valueCompare a b .lessThanOrEqual = (valueCompare a b .lessThan || valueCompare a b .equals)
  greaterThanOrEqual : (numeric a).isSome → (numeric b).isSome →
    valueCompare a b .greaterThanOrEqual = (valueCompare a b .greaterThan || valueCompare a b .equals)

/-- The operators are right on the pair: integers of one width; floats of one width that are numbers;
texts; an integer that keeps its value as a float, or a float it does not become; and else two
values of different kinds, or two equal ones. -/
def Comparable (a b : Value) : Prop :=
  match numeric a, numeric b with
  | some _, some _ => a.ctorIdx = b.ctorIdx
  | _, _ =>
    match a, b with
    | .int64 x, .float64 f | .float64 f, .int64 x =>
      (F64.ofInt x.toInt).IsInt x.toInt ∨ (F64.ofInt x.toInt).eq f = false
    | .float32 x, .float32 y => x.isNaN = false ∧ y.isNaN = false
    | .float64 x, .float64 y => x.isNaN = false ∧ y.isNaN = false
    | .string _, .string _ => True
    | a, b => a.ctorIdx = b.ctorIdx → a.eq b = true

/-! ## The operators against the order -/

theorem notEquals_eq (a b : Value) : valueCompare a b .notEquals = !valueCompare a b .equals := by
  unfold valueCompare
  cases partialOrder a b <;> rfl

theorem equals_of_order {o : Ordering} (ordered : partialOrder a b = some o) :
    valueCompare a b .equals = true ↔ o = .eq := by
  rw [valueCompare, ordered]
  exact beq_iff_eq

theorem equals_of_no_order (unordered : partialOrder a b = none) :
    valueCompare a b .equals = true ↔ a.ctorIdx = b.ctorIdx := by
  rw [valueCompare, unordered]
  exact beq_iff_eq

/-- Where the values are ordered the operators fit each other. -/
theorem readsAsNumbers_of_order {o : Ordering} (ordered : partialOrder a b = some o)
    (same : o = .eq ↔ SameValue a b) : ReadsAsNumbers a b where
  equals := (equals_of_order ordered).trans same
  notEquals := notEquals_eq a b
  integers _ _ := by
    simp only [valueCompare, ordered]
    cases o <;> rfl
  lessThanOrEqual _ _ := by
    simp only [valueCompare, ordered]
    cases o <;> rfl
  greaterThanOrEqual _ _ := by
    simp only [valueCompare, ordered]
    cases o <;> rfl

/-- Where only `Equals` is at stake. -/
theorem readsAsNumbers_iff_equals (mixed : ¬ ((numeric a).isSome ∧ (numeric b).isSome)) :
    ReadsAsNumbers a b ↔ (valueCompare a b .equals = true ↔ SameValue a b) where
  mp reads := reads.equals
  mpr equals :=
    { equals
      notEquals := notEquals_eq a b
      integers := fun left right => absurd ⟨left, right⟩ mixed
      lessThanOrEqual := fun left right => absurd ⟨left, right⟩ mixed
      greaterThanOrEqual := fun left right => absurd ⟨left, right⟩ mixed }

/-! ## Integers -/

theorem compare_natCast (m n : Nat) : compare (m : Int) (n : Int) = compare m n := by
  simp only [compare, compareOfLessAndEq, Int.ofNat_lt, Int.ofNat_inj]

/-- **Integers are ordered by their numbers if their widths are one.** -/
theorem partialOrder_integers {x y : Int} (left : numeric a = some x) (right : numeric b = some y) :
    partialOrder a b = if a.ctorIdx = b.ctorIdx then some (compare x y) else none := by
  cases a <;> cases left <;> cases b <;> cases right <;>
    first
    | rfl
    | exact congrArg some (compare_natCast _ _).symm

theorem readsAsNumbers_integers {x y : Int} (left : numeric a = some x) (right : numeric b = some y) :
    ReadsAsNumbers a b ↔ a.ctorIdx = b.ctorIdx := by
  have order := partialOrder_integers left right
  constructor
  · intro reads
    by_contra apart
    rw [if_neg apart] at order
    have one := reads.integers (by rw [left]; rfl) (by rw [right]; rfl)
    simp only [valueCompare, order, beq_eq_false_iff_ne.mpr apart] at one
    cases one
  · intro widths
    rw [if_pos widths] at order
    refine readsAsNumbers_of_order order ?_
    unfold SameValue
    rw [left, right]
    exact Std.compare_eq_iff_eq

/-! ## Values that are not two integers -/

/-- Equal values are of one kind. -/
theorem ctorIdx_of_eq (same : a.eq b = true) : a.ctorIdx = b.ctorIdx := by
  cases a
  all_goals
    unfold Value.eq at same
    split at same
    · rfl
    · contradiction

/-- Floats of one width: the order is the one of numbers, and there is none with a NaN. -/
theorem readsAsNumbers_floats {o : Option Ordering} (kinds : a.ctorIdx = b.ctorIdx)
    (mixed : ¬ ((numeric a).isSome ∧ (numeric b).isSome)) (ordered : partialOrder a b = o)
    (same : SameValue a b ↔ o = some .eq) : ReadsAsNumbers a b ↔ o.isSome := by
  rw [readsAsNumbers_iff_equals mixed, same]
  cases o with
  | none => simp [equals_of_no_order ordered, kinds]
  | some o => simp [equals_of_order ordered]

theorem readsAsNumbers_float32 (x y : F32) :
    ReadsAsNumbers (.float32 x) (.float32 y) ↔ x.isNaN = false ∧ y.isNaN = false := by
  have same : SameValue (.float32 x) (.float32 y) ↔ x.partialCmp y = some .eq :=
    F32.partialCmp_eq_some_eq.symm
  rw [readsAsNumbers_floats (a := .float32 x) (b := .float32 y) (o := x.partialCmp y) rfl (by simp [numeric]) rfl
    same, F32.partialCmp]
  cases x.isNaN <;> cases y.isNaN <;> simp

theorem readsAsNumbers_float64 (x y : F64) :
    ReadsAsNumbers (.float64 x) (.float64 y) ↔ x.isNaN = false ∧ y.isNaN = false := by
  have same : SameValue (.float64 x) (.float64 y) ↔ x.partialCmp y = some .eq :=
    F64.partialCmp_eq_some_eq.symm
  rw [readsAsNumbers_floats (a := .float64 x) (b := .float64 y) (o := x.partialCmp y) rfl (by simp [numeric]) rfl
    same, F64.partialCmp]
  cases x.isNaN <;> cases y.isNaN <;> simp

/-- An integer that becomes a float. -/
theorem rounded_iff (x : Int64) (f : F64) :
    ((F64.ofInt x.toInt).eq f = true ↔ f.IsInt x.toInt) ↔
      (F64.ofInt x.toInt).IsInt x.toInt ∨ (F64.ofInt x.toInt).eq f = false := by
  have bounded : x.toInt.natAbs < 2 ^ 64 := by
    have := x.toInt_lt
    have := x.le_toInt
    omega
  cases same : (F64.ofInt x.toInt).eq f with
  | true => simp [F64.isInt_congr same]
  | false =>
    have apart : ¬ f.IsInt x.toInt := fun whole =>
      absurd (same.symm.trans (F64.eq_ofInt whole bounded)) Bool.false_ne_true
    simp [apart]

/-- Of a mixed pair `Equals` says what the floats say. -/
theorem equals_mixed {f g : F64} (kinds : a.ctorIdx ≠ b.ctorIdx)
    (ordered : partialOrder a b = f.partialCmp g) : valueCompare a b .equals = true ↔ f.eq g = true := by
  rw [← F64.partialCmp_eq_some_eq, ← ordered]
  cases order : partialOrder a b with
  | none => simp [equals_of_no_order order, kinds]
  | some o => simp [equals_of_order order]

theorem readsAsNumbers_int64_float64 (x : Int64) (f : F64) : ReadsAsNumbers (.int64 x) (.float64 f) ↔
    (F64.ofInt x.toInt).IsInt x.toInt ∨ (F64.ofInt x.toInt).eq f = false := by
  rw [← rounded_iff, readsAsNumbers_iff_equals (by simp [numeric]),
    equals_mixed (f := F64.ofInt x.toInt) (g := f) (by simp [Value.ctorIdx]) rfl]
  rfl

theorem readsAsNumbers_float64_int64 (f : F64) (x : Int64) : ReadsAsNumbers (.float64 f) (.int64 x) ↔
    (F64.ofInt x.toInt).IsInt x.toInt ∨ (F64.ofInt x.toInt).eq f = false := by
  rw [← rounded_iff, readsAsNumbers_iff_equals (by simp [numeric]),
    equals_mixed (f := f) (g := F64.ofInt x.toInt) (by simp [Value.ctorIdx]) rfl, F64.eq_comm]
  rfl

theorem readsAsNumbers_strings (s t : Text) : ReadsAsNumbers (.string s) (.string t) := by
  refine readsAsNumbers_of_order rfl ?_
  rw [byteCmp_eq, utf8_injective.eq_iff]
  exact beq_iff_eq.symm

theorem readsAsNumbers_unordered (unordered : partialOrder a b = none)
    (mixed : ¬ ((numeric a).isSome ∧ (numeric b).isSome)) (same : SameValue a b ↔ a.eq b = true) :
    ReadsAsNumbers a b ↔ (a.ctorIdx = b.ctorIdx → a.eq b = true) := by
  rw [readsAsNumbers_iff_equals mixed, same, equals_of_no_order unordered]
  exact ⟨Iff.mp, fun forth => ⟨forth, ctorIdx_of_eq⟩⟩

/-! ## All pairs -/

/-- **The operators mean what they say on exactly the pairs they can compare.** -/
theorem readsAsNumbers_iff (a b : Value) : ReadsAsNumbers a b ↔ Comparable a b := by
  unfold Comparable
  split
  next x y left right => exact readsAsNumbers_integers left right
  next integers =>
    have mixed : ¬ ((numeric a).isSome ∧ (numeric b).isSome) := by
      rintro ⟨left, right⟩
      obtain ⟨x, left⟩ := Option.isSome_iff_exists.mp left
      obtain ⟨y, right⟩ := Option.isSome_iff_exists.mp right
      exact integers x y left right
    split
    · exact readsAsNumbers_int64_float64 _ _
    · exact readsAsNumbers_float64_int64 _ _
    · exact readsAsNumbers_float32 _ _
    · exact readsAsNumbers_float64 _ _
    · exact iff_of_true (readsAsNumbers_strings _ _) trivial
    next int64Float64 float64Int64 float32 float64 string =>
      refine readsAsNumbers_unordered ?_ mixed ?_
      · unfold partialOrder
        split
        all_goals
          first
          | exact absurd ⟨rfl, rfl⟩ mixed
          | exact (int64Float64 _ _ rfl rfl).elim
          | exact (float64Int64 _ _ rfl rfl).elim
          | exact (float32 _ _ rfl rfl).elim
          | exact (float64 _ _ rfl rfl).elim
          | exact (string _ _ rfl rfl).elim
          | rfl
      · unfold SameValue
        split
        next x y left right => exact absurd ⟨left ▸ rfl, right ▸ rfl⟩ mixed
        next =>
          split
          · exact (int64Float64 _ _ rfl rfl).elim
          · exact (float64Int64 _ _ rfl rfl).elim
          · exact Iff.rfl

/-! ## Ranges of integers -/

def IntegerBounds (min max : Option Value) : Prop :=
  (∀ bound ∈ min, (numeric bound).isSome) ∧ ∀ bound ∈ max, (numeric bound).isSome

/-- The number is below the least or above the greatest one. -/
def Outside (n : Int) (min max : Option Value) : Prop :=
  (∃ bound ∈ min, ∃ least, numeric bound = some least ∧ n < least) ∨
    ∃ bound ∈ max, ∃ most, numeric bound = some most ∧ most < n

/-- Every bound has the width of the value. -/
def SameWidths (value : Value) (min max : Option Value) : Prop :=
  (∀ bound ∈ min, value.ctorIdx = bound.ctorIdx) ∧ ∀ bound ∈ max, value.ctorIdx = bound.ctorIdx

/-- An integer against a bound: it is of the bound's width and on the right side. -/
theorem valueCompare_integers {value bound : Value} {n m : Int} (left : numeric value = some n)
    (right : numeric bound = some m) {op : ComparisonOp} (ordering : op ≠ .equals ∧ op ≠ .notEquals) :
    valueCompare value bound op = true ↔ value.ctorIdx = bound.ctorIdx ∧ op.holds (compare n m) = true := by
  unfold valueCompare
  rw [partialOrder_integers left right]
  by_cases widths : value.ctorIdx = bound.ctorIdx
  · rw [if_pos widths]
    exact (and_iff_right widths).symm
  · rw [if_neg widths]
    refine iff_of_false ?_ fun h => widths h.1
    cases op with
    | equals => exact absurd rfl ordering.1
    | notEquals => exact absurd rfl ordering.2
    | _ => exact Bool.false_ne_true

theorem boundErrors_eq_nil_iff {S : RuleSupport} {field words : Text} {value : Value} {n : Int}
    {op : ComparisonOp} {bound : Option Value} (ordering : op ≠ .equals ∧ op ≠ .notEquals)
    (integer : numeric value = some n) (integers : ∀ b ∈ bound, (numeric b).isSome) :
    boundErrors S field value op words bound = [] ↔ (∀ b ∈ bound, value.ctorIdx = b.ctorIdx) ∧
      ¬ ∃ b ∈ bound, ∃ m, numeric b = some m ∧ op.holds (compare n m) = false := by
  cases bound with
  | none => simp [boundErrors]
  | some b =>
    obtain ⟨m, number⟩ := Option.isSome_iff_exists.mp (integers b rfl)
    simp [boundErrors, valueCompare_integers integer number ordering, number]

/-- **A range passes an integer of its bounds' width that is not outside.** -/
theorem rangeErrors_eq_nil_iff {S : RuleSupport} {field : Text} {value : Value} {n : Int} {min max : Option Value}
    (integer : numeric value = some n) (bounds : IntegerBounds min max) :
    rangeErrors S field value min max = [] ↔ SameWidths value min max ∧ ¬ Outside n min max := by
  have below (least : Int) : ComparisonOp.holds (compare n least) .greaterThanOrEqual = false ↔ n < least := by
    rw [← Int.compare_eq_lt]
    show (compare n least != .lt) = false ↔ _
    cases compare n least <;> decide
  have above (most : Int) : ComparisonOp.holds (compare n most) .lessThanOrEqual = false ↔ most < n := by
    rw [← Int.compare_eq_gt]
    show (compare n most != .gt) = false ↔ _
    cases compare n most <;> decide
  rw [rangeErrors, List.append_eq_nil_iff, boundErrors_eq_nil_iff (by decide) integer bounds.1,
    boundErrors_eq_nil_iff (by decide) integer bounds.2, SameWidths, Outside, not_or]
  simp only [below, above]
  exact and_and_and_comm

/-- **Comparison rules mean what they say on what they can compare**: the operators on exactly the pairs
that are `Comparable`, and a range of integers on exactly the integers that are outside of it or of
the width of its bounds. -/
theorem comparisons_faithful_iff (S : RuleSupport) :
    (∀ a b, ReadsAsNumbers a b ↔ Comparable a b) ∧
    ∀ (doc : Document) (field : Text) (value : Value) (n : Int) (min max : Option Value),
      doc.data.lookup field = some value → numeric value = some n → IntegerBounds min max →
        ((validateRules S doc [.range field min max] ≠ [] ↔ Outside n min max) ↔
          Outside n min max ∨ SameWidths value min max) := by
  refine ⟨readsAsNumbers_iff, fun doc field value n min max found integer bounds => ?_⟩
  have errors : validateRules S doc [.range field min max] = rangeErrors S field value min max := by
    rw [validateRules, List.flatMap_singleton]
    simp only [ruleErrors, found]
  rw [errors, ne_eq, rangeErrors_eq_nil_iff integer bounds]
  by_cases outside : Outside n min max
  · simp [outside]
  · simp [outside]

/-- Rules without regular expressions, and values without text. -/
def RuleSupport.plain : RuleSupport where
  regex _ := .error []
  debug _ := []

def ageOf (value : Value) : Document := { data := [("age".toList, value)], updatedAt := 0 }

/-- Five is in the range of one to nine, and both are 64 bits wide. -/
theorem five_in_range :
    (validateRules RuleSupport.plain (ageOf (.int64 5)) [.range "age".toList (some (.int64 1)) (some (.int64 9))] ≠ [] ↔
        Outside 5 (some (.int64 1)) (some (.int64 9))) ↔
      Outside 5 (some (.int64 1)) (some (.int64 9)) ∨
        SameWidths (.int64 5) (some (.int64 1)) (some (.int64 9)) :=
  (comparisons_faithful_iff RuleSupport.plain).2 (ageOf (.int64 5)) "age".toList (.int64 5) 5 _ _ rfl rfl
    ⟨fun _ h => by cases h; rfl, fun _ h => by cases h; rfl⟩

/-- Two Booleans of one kind are equal, two integers of two widths neither less nor equal nor greater, and
five of 32 bits is not in the range of one to nine of 64. -/
theorem unlike_values_compared :
    ¬ ReadsAsNumbers (.bool true) (.bool false) ∧ ¬ ReadsAsNumbers (.int32 1) (.int64 2) ∧
    validateRules RuleSupport.plain (ageOf (.int32 5)) [.range "age".toList (some (.int64 1)) (some (.int64 9))] ≠ [] ∧
    ¬ Outside 5 (some (.int64 1)) (some (.int64 9)) := by
  refine ⟨fun reads => ?_, fun reads => ?_, by decide, ?_⟩
  · have same := reads.equals.mp rfl
    exact Bool.false_ne_true same
  · exact absurd (reads.integers rfl rfl) (by decide)
  · rintro (⟨_, ⟨⟩, _, ⟨⟩, below⟩ | ⟨_, ⟨⟩, _, ⟨⟩, above⟩)
    · exact absurd below (by decide)
    · exact absurd above (by decide)

end NovaRuntime.Object
