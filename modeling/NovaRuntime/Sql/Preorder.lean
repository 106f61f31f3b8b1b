/-
# NovaRuntime.Sql.Preorder — when `compare_values` orders

`sort_by` asks for a total preorder. Values of different kinds compare as equal here, and an integer
compares with a float as the float it rounds to. `preorders_iff` says for which values this is one: they are
of one kind or those of a kind are all alike, and no two integers round to a float among them.
-/
import NovaRuntime.Sql.Sorting

namespace NovaRuntime.Sql

open NovaRuntime.Library

set_option autoImplicit false

/-- What `sort_by` asks of a comparison, on some values. -/
structure Preorders {α : Type} (cmp : α → α → Ordering) (values : List α) : Prop where
  swap : ∀ a ∈ values, ∀ b ∈ values, cmp a b = (cmp b a).swap
  le_trans : ∀ a ∈ values, ∀ b ∈ values, ∀ c ∈ values, (cmp a b).isLE → (cmp b c).isLE → (cmp a c).isLE
  eq_trans : ∀ a ∈ values, ∀ b ∈ values, ∀ c ∈ values, cmp a b = .eq → cmp b c = .eq → cmp a c = .eq

inductive SortKind where
  | boolean
  | number
  | text
  deriving DecidableEq

/-- The kind of a value that is not NULL. -/
def sortKind : LiteralValue → Option SortKind
  | .null => none
  | .integer _ | .float _ => some .number
  | .boolean _ => some .boolean
  | .string _ => some .text

/-- Alike, for two values of a kind: an integer and a float if the one rounds to the other. -/
def Alike (X : Extern) : LiteralValue → LiteralValue → Prop
  | .integer i, .integer j => i = j
  | .integer i, .float f | .float f, .integer i => (X.ofInt i).totalKey = f.totalKey
  | .float f, .float g => f.totalKey = g.totalKey
  | a, b => a = b

/-- The kinds do not mix, or there is nothing to order in any; and a float has one integer at most. -/
structure OneOrder (X : Extern) (values : List LiteralValue) : Prop where
  kinds : (∀ a ∈ values, ∀ b ∈ values, a ≠ .null → b ≠ .null → sortKind a = sortKind b) ∨
    ∀ a ∈ values, ∀ b ∈ values, sortKind a = sortKind b → Alike X a b
  rounded : ∀ i j f, .integer i ∈ values → .integer j ∈ values → .float f ∈ values →
    (X.ofInt i).totalKey = f.totalKey → (X.ofInt j).totalKey = f.totalKey → i = j

variable {X : Extern} {nullsFirst : Option Bool} {values : List LiteralValue}

/-- Where a NULL stands, among the values. -/
def nullSide (nullsFirst : Option Bool) (v : LiteralValue) : Int :=
  if v = .null then (if nullsFirst.getD false then -1 else 1) else 0

theorem compareValues_eq_then (a b : LiteralValue) : compareValues X a b nullsFirst =
    (compare (nullSide nullsFirst a) (nullSide nullsFirst b)).then (compareSome X a b) := by
  cases a <;> cases b <;> simp only [compareValues, nullSide] <;> cases nullsFirst.getD false <;> rfl

/-- **Antisymmetry** holds of all values. -/
theorem compareValues_swap (a b : LiteralValue) :
    compareValues X a b nullsFirst = (compareValues X b a nullsFirst).swap := by
  have values : compareSome X a b = (compareSome X b a).swap := by
    cases a <;> cases b <;> first | rfl | exact @Std.OrientedCmp.eq_swap _ compare _ _ _
  rw [compareValues_eq_then, compareValues_eq_then, Ordering.swap_then, ← values]
  congr 1
  exact Std.OrientedCmp.eq_swap

/-- Values of different kinds are equal. -/
theorem compareSome_of_mixed {a b : LiteralValue} (mixed : sortKind a ≠ sortKind b) : compareSome X a b = .eq := by
  cases a <;> cases b <;> first | rfl | exact absurd rfl mixed

theorem compareSome_eq_iff {a b : LiteralValue} (kind : sortKind a = sortKind b) :
    compareSome X a b = .eq ↔ Alike X a b := by
  cases a <;> cases b <;> cases kind
  case null.null => exact iff_of_true rfl rfl
  case integer.integer i j => simp [compareSome, Alike, Int64.toInt_inj]
  case boolean.boolean x y => cases x <;> cases y <;> simp [compareSome, Alike]
  case string.string s t => simp [compareSome, Alike]
  case float.integer f i =>
    rw [Alike, compareSome, totalCmp, Int.compare_eq_eq]
    exact eq_comm
  all_goals simp [compareSome, Alike, totalCmp]

/-- Values of one kind are ordered, if no float between two integers is both of them. -/
theorem compareSome_trans (monotone : ∀ i j : Int64, i ≤ j → (X.ofInt i).totalKey ≤ (X.ofInt j).totalKey)
    {a b c : LiteralValue} (left : sortKind a = sortKind b) (right : sortKind b = sortKind c)
    (rounded : ∀ i j f, a = .integer i → b = .float f → c = .integer j →
      (X.ofInt i).totalKey = f.totalKey → (X.ofInt j).totalKey = f.totalKey → i = j)
    (first : (compareSome X a b).isLE) (second : (compareSome X b c).isLE) : (compareSome X a c).isLE := by
  have grows (i j : Int64) (le : i.toInt ≤ j.toInt) := monotone i j (Int64.le_iff_toInt_le.mpr le)
  cases a <;> cases b <;> cases left <;> cases c <;> cases right
  case boolean.boolean x y z => exact @Std.TransCmp.isLE_trans _ compare _ _ _ _ first second
  case string.string s t u => exact @Std.TransCmp.isLE_trans _ compare _ _ _ _ first second
  case null.null => rfl
  all_goals simp only [compareSome, totalCmp, Int.isLE_compare] at first second ⊢
  case integer.float.refl.integer.refl i f j =>
    by_contra more
    have back := grows j i (by omega)
    have same := rounded i j f rfl rfl rfl (by omega) (by omega)
    exact more (same ▸ le_rfl)
  case integer.integer.refl.float.refl i j f => exact (grows i j first).trans second
  case float.integer.refl.integer.refl f i j => exact first.trans (grows i j second)
  all_goals exact first.trans second

/-- **`compare_values` is a preorder** of some values exactly if one order is meant by it. -/
theorem preorders_iff (X : Extern) (nullsFirst : Option Bool) (values : List LiteralValue)
    (monotone : ∀ i j : Int64, i ≤ j → (X.ofInt i).totalKey ≤ (X.ofInt j).totalKey) :
    Preorders (fun a b => compareValues X a b nullsFirst) values ↔ OneOrder X values := by
  have ordered {a b : LiteralValue} (first : a ≠ .null) (second : b ≠ .null) :
      compareValues X a b nullsFirst = compareSome X a b := by
    rw [compareValues_eq_then, nullSide, nullSide, if_neg first, if_neg second]
    rfl
  have kindOf {a : LiteralValue} (isSome : a ≠ .null) : sortKind a ≠ none := by
    cases a <;> first | exact absurd rfl isSome | exact Option.some_ne_none _
  constructor
  · intro preorders
    refine ⟨or_iff_not_imp_left.mpr fun mixes c isC d isD same => ?_, fun i j f isI isJ isF roundI roundJ => ?_⟩
    · push Not at mixes
      obtain ⟨a, isA, b, isB, someA, someB, mixed⟩ := mixes
      -- one of the two is of another kind than `c` and `d`, and between them in both directions
      obtain ⟨e, isE, someE, other⟩ : ∃ e ∈ values, e ≠ .null ∧ sortKind e ≠ sortKind c := by
        by_cases here : sortKind a = sortKind c
        · exact ⟨b, isB, someB, fun same => mixed (here.trans same.symm)⟩
        · exact ⟨a, isA, someA, here⟩
      by_cases someC : c = .null
      · subst someC
        cases d <;> first | exact rfl | cases same
      have someD : d ≠ .null := by
        rintro rfl
        exact kindOf someC same
      rw [← compareSome_eq_iff same, ← ordered someC someD]
      refine preorders.eq_trans c isC e isE d isD ?_ ?_
      · exact (ordered someC someE).trans (compareSome_of_mixed other.symm)
      · exact (ordered someE someD).trans (compareSome_of_mixed (same ▸ other))
    · have equal := preorders.eq_trans _ isI _ isF _ isJ (Int.compare_eq_eq.mpr roundI)
        (Int.compare_eq_eq.mpr roundJ.symm)
      exact Int64.toInt_inj.mp (Int.compare_eq_eq.mp equal)
  · intro one
    have trans : ∀ a ∈ values, ∀ b ∈ values, ∀ c ∈ values, (compareValues X a b nullsFirst).isLE →
        (compareValues X b c nullsFirst).isLE → (compareValues X a c nullsFirst).isLE := by
      intro a isA b isB c isC first second
      rw [compareValues_eq_then, Ordering.isLE_then_iff_or, Int.compare_eq_lt, Int.compare_eq_eq] at first second ⊢
      rcases first with less | ⟨sameAB, first⟩
      · rcases second with more | ⟨same, -⟩
        · exact .inl (less.trans more)
        · exact .inl (same ▸ less)
      · rcases second with more | ⟨sameBC, second⟩
        · exact .inl (sameAB ▸ more)
        · refine .inr ⟨sameAB.trans sameBC, ?_⟩
          rcases one.kinds with kinds | alike
          · by_cases null : a = .null
            · subst null
              cases c <;> rfl
            · have apart {v w : LiteralValue} (same : nullSide nullsFirst v = nullSide nullsFirst w)
                  (isSome : v ≠ .null) : w ≠ .null := by
                rintro rfl
                rw [nullSide, nullSide, if_neg isSome, if_pos rfl] at same
                split at same <;> cases same
              have someB := apart sameAB null
              refine compareSome_trans monotone (kinds a isA b isB null someB)
                (kinds b isB c isC someB (apart sameBC someB)) ?_ first second
              rintro i j f rfl rfl rfl
              exact one.rounded i j f isA isC isB
          · by_cases kind : sortKind a = sortKind c
            · rw [(compareSome_eq_iff kind).mpr (alike a isA c isC kind)]
              rfl
            · rw [compareSome_of_mixed kind]
              rfl
    refine ⟨fun a _ b _ => compareValues_swap a b, trans, fun a isA b isB c isC first second => ?_⟩
    have forth := trans a isA b isB c isC (by simp [first]) (by simp [second])
    have back := trans c isC b isB a isA (by rw [compareValues_swap, second]; rfl)
      (by rw [compareValues_swap, first]; rfl)
    rw [compareValues_swap, Ordering.isLE_swap] at back
    exact Ordering.eq_eq_iff_isLE_and_isGE.mpr ⟨forth, back⟩

/-- The floats of zero and one are right. -/
def Extern.upToOne : Extern := { Extern.ascii with ofInt := fun i => if i ≤ 0 then ⟨0⟩ else ⟨0x3FF0000000000000⟩ }

/-- Zero, a half and one. -/
theorem numbers_preordered : Preorders (fun a b => compareValues Extern.upToOne a b none)
    [.integer 0, .float ⟨0x3FE0000000000000⟩, .null, .integer 1] := by
  refine (preorders_iff Extern.upToOne none _ fun i j le => ?_).mpr ⟨.inl (by decide), fun i j f _ _ isF low high => ?_⟩
  · simp only [Extern.upToOne]
    split <;> split <;> first | decide | (exfalso; grind)
  · simp at isF
    subst isF
    simp only [Extern.upToOne] at low
    split at low <;> exact absurd low (by decide)

/-- Two integers, and a text that is equal to both. -/
theorem text_between_integers : ¬ Preorders (fun a b => compareValues Extern.upToOne a b none)
    [.integer 1, .string [], .integer 2] :=
  fun preorders => absurd (preorders.eq_trans (.integer 1) (by decide) (.string []) (by decide) (.integer 2) (by decide) rfl rfl)
    (by decide)

end NovaRuntime.Sql
