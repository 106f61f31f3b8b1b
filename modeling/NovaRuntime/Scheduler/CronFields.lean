/-
# NovaRuntime.Scheduler.CronFields — what the fields of a cron expression denote

A field is a list of items: `*`, a number, a range, or one of them with a step. `Item.Denotes` is the
set of an item, and a field denotes the union. It is valid if its numbers are in the range of its
position, no range is reversed and no step is zero.

The parsers take another set of fields (`Field.Taken`): `parse_field` reads `*` only alone, numbers
below 256, and forgets what a range has outside of the position as long as some value is left;
`parse_field_i8`, for the day of the month, has no ranges and no steps, and stops at the first `*`.
Where a field is both valid and taken the values are the ones it denotes, so an expression is read as
it should exactly when "all fields are valid" and "all fields are taken" agree (`fields_read_iff`).
-/
import Mathlib.Data.List.Sort
import NovaRuntime.Scheduler.Cron

namespace NovaRuntime.Scheduler.CronSchedule

open NovaRuntime.Library

set_option autoImplicit false

/-! ## The grammar -/

/-- A number as it is written. -/
structure Numeral where
  digits : Text
  nonempty : digits ≠ []
  isDigit : ∀ c ∈ digits, c.isDigit = true

def Numeral.value (n : Numeral) : Nat := Nat.ofDigitChars 10 n.digits 0

inductive Item where
  | star
  | num (n : Numeral)
  | range (a b : Numeral)
  | starStep (s : Numeral)
  | rangeStep (a b s : Numeral)
  | numStep (n s : Numeral)

namespace Item

def spell : Item → Text
  | star => ['*']
  | num n => n.digits
  | range a b => a.digits ++ '-' :: b.digits
  | starStep s => '*' :: '/' :: s.digits
  | rangeStep a b s => (a.digits ++ '-' :: b.digits) ++ '/' :: s.digits
  | numStep n s => n.digits ++ '/' :: s.digits

/-- The values of an item. -/
def Denotes (min max : Nat) : Item → Nat → Prop
  | star, v => min ≤ v ∧ v ≤ max
  | num n, v => v = n.value
  | range a b, v => a.value ≤ v ∧ v ≤ b.value
  | starStep s, v => (min ≤ v ∧ v ≤ max) ∧ s.value ∣ v - min
  | rangeStep a b s, v => (a.value ≤ v ∧ v ≤ b.value) ∧ s.value ∣ v - a.value
  | numStep n s, v => (n.value ≤ v ∧ v ≤ max) ∧ s.value ∣ v - n.value

/-- Its numbers are in the range, `a ≤ b` and `s ≥ 1`. -/
def Valid (min max : Nat) : Item → Prop
  | star => True
  | num n => min ≤ n.value ∧ n.value ≤ max
  | range a b => min ≤ a.value ∧ a.value ≤ b.value ∧ b.value ≤ max
  | starStep s => 1 ≤ s.value
  | rangeStep a b s => (min ≤ a.value ∧ a.value ≤ b.value ∧ b.value ≤ max) ∧ 1 ≤ s.value
  | numStep n s => (min ≤ n.value ∧ n.value ≤ max) ∧ 1 ≤ s.value

/-- What `parse_field` takes as a part of a list. -/
def Taken (min max : Nat) : Item → Prop
  | star => False
  | num n => min ≤ n.value ∧ n.value ≤ max
  | range a b => a.value < 256 ∧ b.value < 256
  | starStep s => 1 ≤ s.value ∧ s.value < 256
  | rangeStep a b s => (a.value < 256 ∧ b.value < 256) ∧ 1 ≤ s.value ∧ s.value < 256
  | numStep n s => n.value < 256 ∧ 1 ≤ s.value ∧ s.value < 256

/-- It is `*`. -/
def IsStar : Item → Prop
  | star => True
  | _ => False

/-- It is a number of the range. -/
def IsNumber (min max : Nat) : Item → Prop
  | num n => min ≤ n.value ∧ n.value ≤ max
  | _ => False

end Item

structure Field where
  items : List Item
  nonempty : items ≠ []

def Field.spell (field : Field) : Text := [','].intercalate (field.items.map Item.spell)

inductive Position where
  | minute
  | hour
  | dayOfMonth
  | month
  | dayOfWeek
  deriving DecidableEq

namespace Position

def min : Position → Nat
  | minute => 0
  | hour => 0
  | dayOfMonth => 1
  | month => 1
  | dayOfWeek => 0

def max : Position → Nat
  | minute => 59
  | hour => 23
  | dayOfMonth => 31
  | month => 12
  | dayOfWeek => 6

/-- The positions in the order of an expression. -/
def all : List Position := [minute, hour, dayOfMonth, month, dayOfWeek]

end Position

def spell (fields : Position → Field) : Text := [' '].intercalate (Position.all.map fun p => (fields p).spell)

/-! ## What should be read -/

namespace Field

def Denotes (p : Position) (field : Field) (v : Nat) : Prop := ∃ item ∈ field.items, item.Denotes p.min p.max v

def Valid (p : Position) (field : Field) : Prop := ∀ item ∈ field.items, item.Valid p.min p.max

/-- `parse_field` takes it: it is `*`, or its items are taken and leave a value. -/
def TakenU8 (min max : Nat) (field : Field) : Prop :=
  (∃ item, field.items = [item] ∧ item.IsStar) ∨
    (∀ item ∈ field.items, item.Taken min max) ∧
      ∃ v, (min ≤ v ∧ v ≤ max) ∧ ∃ item ∈ field.items, item.Denotes min max v

/-- `parse_field_i8` takes it: numbers up to the end or the first `*`. -/
def TakenI8 (min max : Nat) (field : Field) : Prop :=
  (∀ item ∈ field.items, item.IsNumber min max) ∨
    ∃ before stop after, field.items = before ++ stop :: after ∧ stop.IsStar ∧
      ∀ item ∈ before, item.IsNumber min max

/-- The parser of the position takes it. -/
def Taken (p : Position) (field : Field) : Prop :=
  if p = .dayOfMonth then field.TakenI8 p.min p.max else field.TakenU8 p.min p.max

end Field

/-- The values a schedule has in a position. -/
def values (s : CronSchedule) : Position → List Int
  | .minute => s.minute.map Int.ofNat
  | .hour => s.hour.map Int.ofNat
  | .dayOfMonth => s.dayOfMonth
  | .month => s.month.map Int.ofNat
  | .dayOfWeek => s.dayOfWeek.map Int.ofNat

/-- The values are sorted, free of duplicates, and those that the fields denote. -/
def Means (s : CronSchedule) (fields : Position → Field) : Prop :=
  ∀ p, (s.values p).Pairwise (· < ·) ∧ ∀ v : Int, v ∈ s.values p ↔ ∃ n : Nat, v = n ∧ (fields p).Denotes p n

/-- An expression is parsed exactly when its fields are valid, and to what they denote. -/
def FieldsRead (fields : Position → Field) : Prop :=
  ((∀ p, (fields p).Valid p) → ∃ s, parse (spell fields) = .ok s ∧ s.Means fields) ∧
    ((¬ ∀ p, (fields p).Valid p) → ∃ e, parse (spell fields) = .error e)

/-! ## Numerals -/

namespace Numeral

variable (n : Numeral)

theorem free {c : Char} (notDigit : c.isDigit = false) : c ∉ n.digits := by
  intro inside
  rw [n.isDigit c inside] at notDigit
  exact absurd notDigit (by decide)

theorem head_ne {c : Char} (notDigit : c.isDigit = false) : n.digits.head? ≠ some c := by
  intro first
  exact n.free notDigit (List.mem_of_head? first)

theorem ofDigits_digits : ofDigits n.digits = some n.value := by
  have all : n.digits.all Char.isDigit = true := List.all_eq_true.mpr n.isDigit
  rw [ofDigits, all, Bool.not_true, Bool.or_false, if_neg (by simpa using n.nonempty), value]

theorem parseU8_digits : parseU8 n.digits = if n.value < 256 then some n.value else none := by
  rw [parseU8, if_neg (n.head_ne (by decide)), ofDigits_digits]
  by_cases small : n.value < 256 <;> simp [Option.filter, small]

theorem parseI8_digits : parseI8 n.digits = if n.value < 128 then some (n.value : Int) else none := by
  rw [parseI8, if_neg (n.head_ne (by decide)), if_neg (n.head_ne (by decide)), ofDigits_digits]
  by_cases small : n.value < 128 <;> simp [Option.filter, small]

theorem number_u8 (small : n.value < 256) : number (parseU8 n.digits) n.digits = .ok n.value := by
  rw [parseU8_digits, if_pos small, number]

theorem number_u8_large (large : ¬ n.value < 256) : ∃ e, number (parseU8 n.digits) n.digits = .error e := by
  rw [parseU8_digits, if_neg large]
  exact ⟨_, rfl⟩

end Numeral

/-! ## Parts -/

/-- Where a text is taken its values are those of the set; else there is an error. -/
def Gives {α : Type} (read : Except Text (List α)) (taken : Prop) (holds : α → Prop) : Prop :=
  (taken → ∃ vs, read = .ok vs ∧ ∀ v, v ∈ vs ↔ holds v) ∧ (¬ taken → ∃ e, read = .error e)

/-- The two sides of a separator. -/
theorem splitOn_pair {c : Char} {a b : Text} (left : c ∉ a) (right : c ∉ b) :
    (a ++ c :: b).splitOn c = [a, b] := by
  have pieces : ([c].intercalate [a, b]).splitOn c = [a, b] :=
    List.splitOn_intercalate c (by simp [left, right]) (by simp)
  simpa [List.intercalate, List.intersperse] using pieces

theorem rangeEnds_spell (a b : Numeral) (small : a.value < 256 ∧ b.value < 256) :
    rangeEnds (a.digits ++ '-' :: b.digits) = .ok (a.value, b.value) := by
  rw [rangeEnds, splitOn_pair (a.free (by decide)) (b.free (by decide))]
  simp only [a.number_u8 small.1, b.number_u8 small.2]
  rfl

theorem rangeEnds_spell_large (a b : Numeral) (large : ¬ (a.value < 256 ∧ b.value < 256)) :
    ∃ e, rangeEnds (a.digits ++ '-' :: b.digits) = .error e := by
  rw [rangeEnds, splitOn_pair (a.free (by decide)) (b.free (by decide))]
  by_cases left : a.value < 256
  · obtain ⟨e, failed⟩ := b.number_u8_large (fun right => large ⟨left, right⟩)
    exact ⟨e, by simp only [a.number_u8 left, failed]; rfl⟩
  · obtain ⟨e, failed⟩ := a.number_u8_large left
    exact ⟨e, by simp only [failed]; rfl⟩

theorem mem_stepped {min max a b step v : Nat} :
    v ∈ stepped min max (a, b) step ↔ (min ≤ v ∧ v ≤ max) ∧ (a ≤ v ∧ v ≤ b) ∧ step ∣ v - a := by
  simp only [stepped, List.mem_filter, List.mem_range'_1, Bool.and_eq_true, beq_iff_eq, decide_eq_true_eq,
    Nat.dvd_iff_mod_eq_zero]
  constructor
  · rintro ⟨⟨low, high⟩, ⟨whole, above⟩, below⟩
    exact ⟨⟨above, below⟩, ⟨low, by omega⟩, whole⟩
  · rintro ⟨⟨above, below⟩, ⟨low, high⟩, whole⟩
    exact ⟨⟨low, by omega⟩, ⟨whole, above⟩, below⟩

/-- A part with a step: what its ends are decides over the rest. -/
theorem parsePart_step {min max a b : Nat} {text : Text} {P : Prop} (s : Numeral) (free : '/' ∉ text)
    (ends : P → stepEnds min max text = .ok (a, b)) (fails : ¬ P → ∃ e, stepEnds min max text = .error e) :
    Gives (parsePart min max (text ++ '/' :: s.digits)) (P ∧ 1 ≤ s.value ∧ s.value < 256)
      (fun v => (min ≤ v ∧ v ≤ max) ∧ (a ≤ v ∧ v ≤ b) ∧ s.value ∣ v - a) := by
  rw [parsePart, if_pos (by simp), splitOn_pair free (s.free (by decide))]
  constructor
  · rintro ⟨known, positive, small⟩
    refine ⟨stepped min max (a, b) s.value, ?_, fun v => mem_stepped⟩
    obtain ⟨k, same⟩ : ∃ k, s.value = k + 1 := ⟨s.value - 1, by omega⟩
    have read : parseU8 s.digits = some (k + 1) := by rw [s.parseU8_digits, if_pos small, same]
    simp only [ends known, read, same]
    rfl
  · intro refused
    by_cases known : P
    · simp only [ends known, s.parseU8_digits]
      by_cases small : s.value < 256
      · have zero : s.value = 0 := by
          by_contra some
          exact refused ⟨known, Nat.one_le_iff_ne_zero.mpr some, small⟩
        rw [if_pos small, zero]
        exact ⟨_, rfl⟩
      · rw [if_neg small]
        exact ⟨_, rfl⟩
    · obtain ⟨e, failed⟩ := fails known
      exact ⟨e, by simp only [failed]; rfl⟩

theorem Numeral.ne_star (n : Numeral) : n.digits ≠ ['*'] := by
  intro same
  exact n.free (by decide : Char.isDigit '*' = false) (by simp [same])

theorem stepEnds_star (min max : Nat) : stepEnds min max ['*'] = .ok (min, max) := if_pos rfl

theorem stepEnds_range (min max : Nat) (a b : Numeral) :
    stepEnds min max (a.digits ++ '-' :: b.digits) = rangeEnds (a.digits ++ '-' :: b.digits) := by
  have other : a.digits ++ '-' :: b.digits ≠ ['*'] := by
    intro same
    have dash : '-' ∈ ['*'] := same ▸ List.mem_append_right _ List.mem_cons_self
    exact absurd dash (by decide)
  rw [stepEnds, if_neg other, if_pos (by simp)]

theorem stepEnds_num (min max : Nat) (n : Numeral) :
    stepEnds min max n.digits = (number (parseU8 n.digits) n.digits).map fun val => (val, max) := by
  rw [stepEnds, if_neg n.ne_star, if_neg (n.free (by decide))]
  cases number (parseU8 n.digits) n.digits <;> rfl

/-- What `parse_field` reads from a part. -/
theorem parsePart_spell (min max : Nat) (fits : max < 256) (item : Item) :
    Gives (parsePart min max item.spell) (item.Taken min max)
      (fun v => (min ≤ v ∧ v ≤ max) ∧ item.Denotes min max v) := by
  cases item with
  | star => exact ⟨False.elim, fun _ => ⟨_, rfl⟩⟩
  | num n =>
    rw [Item.spell, parsePart, if_neg (n.free (by decide)), if_neg (n.free (by decide))]
    constructor
    · intro inside
      refine ⟨[n.value], ?_, ?_⟩
      · rw [n.number_u8 (lt_of_le_of_lt inside.2 fits)]
        show (if n.value < min ∨ max < n.value then _ else _) = _
        rw [if_neg (by have := inside.1; have := inside.2; omega)]
        rfl
      · intro v
        rw [List.mem_singleton]
        constructor
        · rintro rfl
          exact ⟨inside, rfl⟩
        · rintro ⟨-, same⟩
          exact same
    · intro outside
      by_cases small : n.value < 256
      · rw [n.number_u8 small]
        show ∃ e, (if n.value < min ∨ max < n.value then _ else _) = _
        rw [if_pos (by rw [Item.Taken] at outside; omega)]
        exact ⟨_, rfl⟩
      · obtain ⟨e, failed⟩ := n.number_u8_large small
        exact ⟨e, by rw [failed]; rfl⟩
  | range a b =>
    have whole : '/' ∉ a.digits ++ '-' :: b.digits := by
      simp [a.free (by decide : Char.isDigit '/' = false), b.free (by decide : Char.isDigit '/' = false)]
    rw [Item.spell, parsePart, if_neg whole, if_pos (by simp)]
    constructor
    · intro small
      refine ⟨stepped min max (a.value, b.value) 1, by rw [rangeEnds_spell a b small]; rfl, ?_⟩
      intro v
      show v ∈ stepped min max (a.value, b.value) 1 ↔ (min ≤ v ∧ v ≤ max) ∧ a.value ≤ v ∧ v ≤ b.value
      rw [mem_stepped, and_iff_left (one_dvd _)]
    · intro large
      obtain ⟨e, failed⟩ := rangeEnds_spell_large a b large
      exact ⟨e, by rw [failed]; rfl⟩
  | starStep s =>
    have read : Gives (parsePart min max (['*'] ++ '/' :: s.digits)) (True ∧ 1 ≤ s.value ∧ s.value < 256)
        (fun v => (min ≤ v ∧ v ≤ max) ∧ (min ≤ v ∧ v ≤ max) ∧ s.value ∣ v - min) := by
      apply parsePart_step s (by decide)
      · intro _
        exact stepEnds_star min max
      · intro no
        exact absurd trivial no
    rw [true_and] at read
    constructor
    · intro taken
      obtain ⟨vs, given, mem⟩ := read.1 taken
      refine ⟨vs, given, fun v => (mem v).trans ?_⟩
      show _ ↔ (min ≤ v ∧ v ≤ max) ∧ (min ≤ v ∧ v ≤ max) ∧ s.value ∣ v - min
      exact Iff.rfl
    · exact read.2
  | rangeStep a b s =>
    have whole : '/' ∉ a.digits ++ '-' :: b.digits := by
      simp [a.free (by decide : Char.isDigit '/' = false), b.free (by decide : Char.isDigit '/' = false)]
    apply parsePart_step s whole
    · intro small
      rw [stepEnds_range, rangeEnds_spell a b small]
    · intro large
      rw [stepEnds_range]
      exact rangeEnds_spell_large a b large
  | numStep n s =>
    apply parsePart_step s (n.free (by decide))
    · intro small
      rw [stepEnds_num, n.number_u8 small]
      rfl
    · intro large
      obtain ⟨e, failed⟩ := n.number_u8_large large
      rw [stepEnds_num, failed]
      exact ⟨e, rfl⟩

/-! ## Lists of parts -/

theorem Item.spell_free (item : Item) {c : Char} (notDigit : c.isDigit = false) (other : c ∉ ['*', '-', '/']) :
    c ∉ item.spell := by
  have fromDigits := fun n : Numeral => n.free notDigit
  simp only [List.mem_cons, List.not_mem_nil, or_false, not_or] at other
  obtain ⟨notStar, notDash, notSlash⟩ := other
  cases item <;> simp [Item.spell, fromDigits, notStar, notDash, notSlash]

theorem Item.spell_nonempty (item : Item) : item.spell ≠ [] := by
  cases item with
  | num n => exact n.nonempty
  | _ => simp [Item.spell]

theorem Field.splitOn_spell (field : Field) : field.spell.splitOn ',' = field.items.map Item.spell := by
  apply List.splitOn_intercalate
  · intro text inside
    obtain ⟨item, -, rfl⟩ := List.mem_map.mp inside
    exact item.spell_free (by decide) (by decide)
  · simpa using field.nonempty

/-- The parts are read one after another. -/
theorem parts_give {α β γ : Type} {read : β → Except Text (List α)} {spell : γ → β} {taken : γ → Prop}
    {holds : γ → α → Prop} (each : ∀ c, Gives (read (spell c)) (taken c) (holds c)) (items : List γ) :
    ((∀ c ∈ items, taken c) → ∃ parts, (items.map spell).mapM read = .ok parts ∧
        ∀ v, v ∈ parts.flatten ↔ ∃ c ∈ items, holds c v) ∧
      ((¬ ∀ c ∈ items, taken c) → ∃ e, (items.map spell).mapM read = .error e) := by
  induction items with
  | nil =>
    constructor
    · intro _
      exact ⟨[], rfl, by simp⟩
    · intro some
      exact absurd (by simp) some
  | cons c items ih =>
    rw [List.map_cons, List.mapM_cons, List.forall_mem_cons]
    constructor
    · rintro ⟨first, rest⟩
      obtain ⟨vs, given, mem⟩ := (each c).1 first
      obtain ⟨parts, others, members⟩ := ih.1 rest
      refine ⟨vs :: parts, by rw [given, others]; rfl, ?_⟩
      intro v
      rw [List.flatten_cons, List.mem_append, mem, members]
      simp
    · intro refused
      by_cases first : taken c
      · obtain ⟨vs, given, -⟩ := (each c).1 first
        obtain ⟨e, failed⟩ := ih.2 fun rest => refused ⟨first, rest⟩
        exact ⟨e, by rw [given, failed]; rfl⟩
      · obtain ⟨e, failed⟩ := (each c).2 first
        exact ⟨e, by rw [failed]; rfl⟩

/-! ## Sorting -/

theorem mem_dedup {α : Type} [DecidableEq α] (v : α) (l : List α) : v ∈ dedup l ↔ v ∈ l := by
  induction l using dedup.induct with
  | case1 => rfl
  | case2 a => rfl
  | case3 b rest ih => simpa [dedup] using ih
  | case4 a b rest differ ih => simp only [dedup, if_neg differ, List.mem_cons, ih]

theorem dedup_increasing {α : Type} [LinearOrder α] (l : List α) (sorted : l.Pairwise (· ≤ ·)) :
    (dedup l).Pairwise (· < ·) := by
  induction l using dedup.induct with
  | case1 => exact List.Pairwise.nil
  | case2 a => exact List.pairwise_singleton _ a
  | case3 b rest ih =>
    rw [dedup, if_pos rfl]
    exact ih sorted.tail
  | case4 a b rest differ ih =>
    rw [dedup, if_neg differ, List.pairwise_cons]
    refine ⟨?_, ih sorted.tail⟩
    intro v inside
    rw [mem_dedup] at inside
    have first : a < b := lt_of_le_of_ne (List.rel_of_pairwise_cons sorted (.head _)) differ
    rcases List.mem_cons.mp inside with rfl | later
    · exact first
    · exact lt_of_lt_of_le first (List.rel_of_pairwise_cons sorted.tail later)

/-- The collected values are increasing, and there are some. -/
theorem collected_gives {α : Type} [LinearOrder α] (field : Text) (values : List α) :
    (values ≠ [] → ∃ vs, collected field values = .ok vs ∧ vs.Pairwise (· < ·) ∧ ∀ v, v ∈ vs ↔ v ∈ values) ∧
      (¬ values ≠ [] → ∃ e, collected field values = .error e) := by
  constructor
  · intro some
    refine ⟨_, if_neg (by simpa using some), dedup_increasing _ (List.pairwise_mergeSort' (· ≤ ·) values), ?_⟩
    intro v
    rw [mem_dedup, List.mem_mergeSort]
  · intro none
    rw [not_not] at none
    exact ⟨_, if_pos (by simp [none])⟩

/-! ## The two parsers -/

/-- Increasing values, those of the set. -/
def Lists {α : Type} [LT α] (vs : List α) (holds : α → Prop) : Prop := vs.Pairwise (· < ·) ∧ ∀ v, v ∈ vs ↔ holds v

theorem range_lists (min max : Nat) : Lists (List.range' min (max + 1 - min)) fun v => min ≤ v ∧ v ≤ max := by
  refine ⟨List.pairwise_lt_range', fun v => ?_⟩
  rw [List.mem_range'_1]
  omega

theorem integers_lists (min max : Int) : Lists (integers min max) fun v => min ≤ v ∧ v ≤ max := by
  constructor
  · rw [integers, List.pairwise_map]
    apply List.pairwise_lt_range.imp
    intro a b less
    omega
  · intro v
    rw [integers, List.mem_map]
    constructor
    · rintro ⟨n, inside, rfl⟩
      have := List.mem_range.mp inside
      omega
    · intro inside
      exact ⟨(v - min).toNat, List.mem_range.mpr (by omega), by omega⟩

theorem Item.spell_eq_star {item : Item} : item.spell = ['*'] ↔ item.IsStar := by
  constructor
  · intro same
    have only : ∀ c ∈ item.spell, c = '*' := by simp [same]
    cases item with
    | star => trivial
    | num n => exact absurd same n.ne_star
    | range a b => exact absurd (only '-' (by simp [Item.spell])) (by decide)
    | starStep s | rangeStep a b s | numStep n s =>
      exact absurd (only '/' (by simp [Item.spell])) (by decide)
  · intro isStar
    cases item with
    | star => rfl
    | _ => exact absurd isStar id

/-- The whole field is `*`. -/
theorem Field.spell_eq_star (field : Field) :
    field.spell = ['*'] ↔ ∃ item, field.items = [item] ∧ item.IsStar := by
  constructor
  · intro same
    have pieces := field.splitOn_spell
    rw [same] at pieces
    have single : field.items.map Item.spell = [['*']] := pieces.symm.trans (by decide)
    obtain ⟨item, only, spelled⟩ := List.map_eq_singleton_iff.mp single
    exact ⟨item, only, Item.spell_eq_star.mp spelled⟩
  · rintro ⟨item, only, isStar⟩
    rw [Field.spell, only, List.map_singleton, Item.spell_eq_star.mpr isStar]
    rfl

/-- The values of a field that its position has. -/
def Field.Keeps (min max : Nat) (field : Field) (v : Nat) : Prop :=
  (min ≤ v ∧ v ≤ max) ∧ ∃ item ∈ field.items, item.Denotes min max v

theorem parseField_spell (min max : Nat) (fits : max < 256) (field : Field) :
    (field.TakenU8 min max → ∃ vs, parseField field.spell min max = .ok vs ∧
        Lists vs (field.Keeps min max)) ∧
      (¬ field.TakenU8 min max → ∃ e, parseField field.spell min max = .error e) := by
  rw [parseField]
  by_cases alone : field.spell = ['*']
  · rw [if_pos alone]
    obtain ⟨item, only, isStar⟩ := field.spell_eq_star.mp alone
    constructor
    · intro _
      refine ⟨_, rfl, (range_lists min max).1, fun v => ?_⟩
      rw [(range_lists min max).2 v, Field.Keeps, only]
      cases item <;> simp_all [Item.IsStar, Item.Denotes]
    · intro refused
      exact absurd (Or.inl ⟨item, only, isStar⟩) refused
  · rw [if_neg alone, field.splitOn_spell]
    have notStar : ¬ ∃ item, field.items = [item] ∧ item.IsStar := fun such => alone (field.spell_eq_star.mpr such)
    obtain ⟨read, fail⟩ := parts_give (fun item => parsePart_spell min max fits item) field.items
    rw [Field.TakenU8, or_iff_right notStar]
    constructor
    · rintro ⟨taken, v, inside, item, among, denoted⟩
      obtain ⟨parts, given, mem⟩ := read taken
      have some : parts.flatten ≠ [] := List.ne_nil_of_mem ((mem v).mpr ⟨item, among, inside, denoted⟩)
      obtain ⟨vs, made, increasing, members⟩ := (collected_gives field.spell parts.flatten).1 some
      refine ⟨vs, by rw [given]; exact made, increasing, fun w => ?_⟩
      rw [members, mem, Field.Keeps]
      constructor
      · rintro ⟨item, among, inside, denoted⟩
        exact ⟨inside, item, among, denoted⟩
      · rintro ⟨inside, item, among, denoted⟩
        exact ⟨item, among, inside, denoted⟩
    · intro refused
      by_cases taken : ∀ item ∈ field.items, item.Taken min max
      · obtain ⟨parts, given, mem⟩ := read taken
        have none : ¬ parts.flatten ≠ [] := by
          intro some
          obtain ⟨v, inside⟩ := List.exists_mem_of_ne_nil _ some
          obtain ⟨item, among, bounds, denoted⟩ := (mem v).mp inside
          exact refused ⟨taken, v, bounds, item, among, denoted⟩
        obtain ⟨e, failed⟩ := (collected_gives field.spell parts.flatten).2 none
        exact ⟨e, by rw [given]; exact failed⟩
      · obtain ⟨e, failed⟩ := fail taken
        exact ⟨e, by rw [failed]; rfl⟩

theorem parseI8_none {text : Text} {c : Char} (minus : text.head? ≠ some '-') (plus : text.head? ≠ some '+')
    (inside : c ∈ text) (notDigit : c.isDigit = false) : parseI8 text = none := by
  have some : ¬ text.all Char.isDigit = true := by
    intro all
    rw [List.all_eq_true.mp all c inside] at notDigit
    exact absurd notDigit (by decide)
  rw [parseI8, if_neg minus, if_neg plus, ofDigits, if_pos (by simp [some])]
  rfl

theorem Numeral.head_append_ne (n : Numeral) (rest : Text) {c : Char} (notDigit : c.isDigit = false) :
    (n.digits ++ rest).head? ≠ some c := by
  rw [List.head?_append_of_ne_nil _ n.nonempty]
  exact n.head_ne notDigit

/-- Only numbers can be read as an `i8`. -/
theorem parseI8_spell (item : Item) (other : ∀ n, item ≠ .num n) : parseI8 item.spell = none := by
  have slash : Char.isDigit '/' = false := by decide
  cases item with
  | star => decide
  | num n => exact absurd rfl (other n)
  | range a b =>
    exact parseI8_none (a.head_append_ne _ (by decide)) (a.head_append_ne _ (by decide))
      (List.mem_append_right _ (.head _)) (by decide)
  | starStep s => exact parseI8_none (by simp [Item.spell]) (by simp [Item.spell]) (by simp [Item.spell]) slash
  | rangeStep a b s =>
    rw [Item.spell, List.append_assoc]
    exact parseI8_none (a.head_append_ne _ (by decide)) (a.head_append_ne _ (by decide)) (by simp) slash
  | numStep n s =>
    exact parseI8_none (n.head_append_ne _ (by decide)) (n.head_append_ne _ (by decide))
      (List.mem_append_right _ (.head _)) slash

/-- A part of `parse_field_i8` that is a number of the range. -/
theorem parsePartsI8_number {min max : Nat} (fits : max < 128) (item : Item) (rest : List Text)
    (isNumber : item.IsNumber min max) :
    ∃ n : Nat, (∀ v, item.Denotes min max v ↔ v = n) ∧
      parsePartsI8 min max (item.spell :: rest) =
        (parsePartsI8 min max rest).map fun values => values.map ((n : Int) :: ·) := by
  cases item with
  | num n =>
    refine ⟨n.value, fun v => Iff.rfl, ?_⟩
    have small : n.value < 128 := lt_of_le_of_lt isNumber.2 fits
    have inside : ¬ ((n.value : Int) < min ∨ (max : Int) < n.value) := by
      have := isNumber.1
      have := isNumber.2
      omega
    rw [Item.spell, parsePartsI8, if_neg n.ne_star, n.parseI8_digits, if_pos small]
    show (if (n.value : Int) < min ∨ (max : Int) < n.value then _ else _) = _
    rw [if_neg inside]
    cases parsePartsI8 min max rest <;> rfl
  | _ => exact absurd isNumber id

/-- A part that is neither `*` nor such a number. -/
theorem parsePartsI8_other {min max : Nat} (item : Item) (rest : List Text) (notStar : ¬ item.IsStar)
    (notNumber : ¬ item.IsNumber min max) : ∃ e, parsePartsI8 min max (item.spell :: rest) = .error e := by
  rw [parsePartsI8, if_neg (fun same => notStar (Item.spell_eq_star.mp same))]
  by_cases isNum : ∃ n, item = .num n
  · obtain ⟨n, rfl⟩ := isNum
    rw [Item.spell, n.parseI8_digits]
    by_cases small : n.value < 128
    · have outside : (n.value : Int) < min ∨ (max : Int) < n.value := by
        rw [Item.IsNumber] at notNumber
        omega
      rw [if_pos small]
      show ∃ e, (if (n.value : Int) < min ∨ (max : Int) < n.value then _ else _) = _
      rw [if_pos outside]
      exact ⟨_, rfl⟩
    · rw [if_neg small]
      exact ⟨_, rfl⟩
  · rw [parseI8_spell item fun n same => isNum ⟨n, same⟩]
    exact ⟨_, rfl⟩

/-- The parts of `parse_field_i8`: numbers, numbers up to a `*`, or anything else. -/
theorem parsePartsI8_spell {min max : Nat} (fits : max < 128) (items : List Item) :
    ((∀ item ∈ items, item.IsNumber min max) →
        ∃ vs, parsePartsI8 min max (items.map Item.spell) = .ok (some vs) ∧ vs.length = items.length ∧
          ∀ v : Int, v ∈ vs ↔ ∃ n : Nat, v = n ∧ ∃ item ∈ items, item.Denotes min max n) ∧
      ((∃ before stop after, items = before ++ stop :: after ∧ stop.IsStar ∧
            ∀ item ∈ before, item.IsNumber min max) →
        parsePartsI8 min max (items.map Item.spell) = .ok none) ∧
      ((¬ ∀ item ∈ items, item.IsNumber min max) →
        (¬ ∃ before stop after, items = before ++ stop :: after ∧ stop.IsStar ∧
            ∀ item ∈ before, item.IsNumber min max) →
        ∃ e, parsePartsI8 min max (items.map Item.spell) = .error e) := by
  induction items with
  | nil =>
    refine ⟨fun _ => ⟨[], rfl, rfl, by simp⟩, ?_, ?_⟩
    · rintro ⟨before, stop, after, same, -⟩
      simp at same
    · intro some
      exact absurd (by simp) some
  | cons item rest ih =>
    obtain ⟨numbers, stopped, failed⟩ := ih
    rw [List.map_cons, List.forall_mem_cons]
    by_cases isStar : item.IsStar
    · have notNumber : ¬ item.IsNumber min max := by
        cases item with
        | star => exact id
        | _ => exact absurd isStar id
      refine ⟨fun all => absurd all.1 notNumber, ?_, ?_⟩
      · intro _
        rw [parsePartsI8, if_pos (Item.spell_eq_star.mpr isStar)]
      · intro _ none
        exact absurd ⟨[], item, rest, rfl, isStar, by simp⟩ none
    · by_cases isNumber : item.IsNumber min max
      · obtain ⟨n, denotes, step⟩ := parsePartsI8_number fits item (rest.map Item.spell) isNumber
        rw [step]
        refine ⟨?_, ?_, ?_⟩
        · rintro ⟨-, all⟩
          obtain ⟨vs, given, length, mem⟩ := numbers all
          refine ⟨(n : Int) :: vs, by rw [given]; rfl, by simp [length], fun v => ?_⟩
          rw [List.mem_cons, mem]
          constructor
          · rintro (rfl | ⟨m, same, other, among, denoted⟩)
            · exact ⟨n, rfl, item, (.head _), (denotes n).mpr rfl⟩
            · exact ⟨m, same, other, .tail _ among, denoted⟩
          · rintro ⟨m, same, other, among, denoted⟩
            rcases List.mem_cons.mp among with rfl | among
            · rw [denotes] at denoted
              exact .inl (by rw [same, denoted])
            · exact .inr ⟨m, same, other, among, denoted⟩
        · rintro ⟨before, stop, after, same, isStop, all⟩
          cases before with
          | nil =>
            rw [List.nil_append, List.cons.injEq] at same
            exact absurd (same.1 ▸ isStop) isStar
          | cons first before =>
            rw [List.cons_append, List.cons.injEq] at same
            rw [stopped ⟨before, stop, after, same.2, isStop,
              fun other among => all other (.tail _ among)⟩]
            rfl
        · intro some none
          obtain ⟨e, given⟩ := failed (fun all => some ⟨isNumber, all⟩) (by
            rintro ⟨before, stop, after, same, isStop, all⟩
            exact none ⟨item :: before, stop, after, by rw [same]; rfl, isStop,
              List.forall_mem_cons.mpr ⟨isNumber, all⟩⟩)
          exact ⟨e, by rw [given]; rfl⟩
      · refine ⟨fun all => absurd all.1 isNumber, ?_, ?_⟩
        · rintro ⟨before, stop, after, same, isStop, all⟩
          cases before with
          | nil =>
            rw [List.nil_append, List.cons.injEq] at same
            exact absurd (same.1 ▸ isStop) isStar
          | cons first before =>
            rw [List.cons_append, List.cons.injEq] at same
            exact absurd (same.1 ▸ all first (.head _)) isNumber
        · intro _ _
          exact parsePartsI8_other item _ isStar isNumber

theorem parseFieldI8_spell (min max : Nat) (fits : max < 128) (field : Field) :
    (field.TakenI8 min max → ∃ vs, parseFieldI8 field.spell min max = .ok vs ∧
        Lists vs fun v => ∃ n : Nat, v = n ∧ field.Keeps min max n) ∧
      (¬ field.TakenI8 min max → ∃ e, parseFieldI8 field.spell min max = .error e) := by
  have everything (stop : Item) (among : stop ∈ field.items) (isStop : stop.IsStar) :
      Lists (integers min max) fun v => ∃ n : Nat, v = n ∧ field.Keeps min max n := by
    obtain ⟨increasing, mem⟩ := integers_lists min max
    refine ⟨increasing, fun v => (mem v).trans ?_⟩
    constructor
    · intro inside
      refine ⟨v.toNat, by omega, by omega, stop, among, ?_⟩
      cases stop with
      | star => exact ⟨by omega, by omega⟩
      | _ => exact absurd isStop id
    · rintro ⟨n, rfl, inside, -⟩
      omega
  rw [parseFieldI8]
  by_cases alone : field.spell = ['*']
  · obtain ⟨item, only, isStar⟩ := field.spell_eq_star.mp alone
    rw [if_pos alone]
    constructor
    · intro _
      exact ⟨_, rfl, everything item (by simp [only]) isStar⟩
    · intro refused
      exact absurd (.inr ⟨[], item, [], only, isStar, by simp⟩) refused
  · rw [if_neg alone, field.splitOn_spell]
    obtain ⟨numbers, stopped, failed⟩ := parsePartsI8_spell fits field.items
    constructor
    · rintro (all | ⟨before, stop, after, same, isStop, all⟩)
      · obtain ⟨vs, given, length, mem⟩ := numbers all
        have some : vs ≠ [] := by
          intro none
          rw [none, List.length_nil] at length
          exact field.nonempty (List.length_eq_zero_iff.mp length.symm)
        obtain ⟨sorted, made, increasing, members⟩ := (collected_gives field.spell vs).1 some
        refine ⟨sorted, by rw [given]; exact made, increasing, fun v => ?_⟩
        rw [members, mem]
        constructor
        · rintro ⟨n, rfl, item, among, denoted⟩
          refine ⟨n, rfl, ?_, item, among, denoted⟩
          have isNumber := all item among
          cases item with
          | num m => exact denoted ▸ isNumber
          | _ => exact absurd isNumber id
        · rintro ⟨n, rfl, -, denoted⟩
          exact ⟨n, rfl, denoted⟩
      · refine ⟨integers min max, ?_, everything stop (by simp [same]) isStop⟩
        rw [stopped ⟨before, stop, after, same, isStop, all⟩]
        rfl
    · intro refused
      obtain ⟨e, given⟩ := failed (fun all => refused (.inl all)) fun such => refused (.inr such)
      exact ⟨e, by rw [given]; rfl⟩

/-! ## The expression -/

theorem Field.spell_nonempty (field : Field) : field.spell ≠ [] := by
  intro none
  have pieces := field.splitOn_spell
  rw [none] at pieces
  have single : field.items.map Item.spell = [[]] := pieces.symm.trans (by decide)
  obtain ⟨item, -, nothing⟩ := List.map_eq_singleton_iff.mp single
  exact item.spell_nonempty nothing

theorem isDigit_of_isWhitespace {c : Char} (white : isWhitespace c = true) : c.isDigit = false := by
  by_contra digit
  rw [Bool.not_eq_false, Char.isDigit, Bool.and_eq_true, decide_eq_true_eq, decide_eq_true_eq] at digit
  have low : 48 ≤ c.toNat := digit.1
  have high : c.toNat ≤ 57 := digit.2
  simp only [isWhitespace, Bool.or_eq_true, Bool.and_eq_true, decide_eq_true_eq, beq_iff_eq] at white
  omega

theorem not_mem_intercalate {c sep : Char} (differ : c ≠ sep) (texts : List Text) (absent : ∀ t ∈ texts, c ∉ t) :
    c ∉ [sep].intercalate texts := by
  induction texts with
  | nil => simp
  | cons t rest ih =>
    obtain ⟨first, others⟩ := List.forall_mem_cons.mp absent
    cases rest with
    | nil => simpa using first
    | cons u rest =>
      rw [List.intercalate_cons_cons]
      simp only [List.mem_append, List.mem_singleton, not_or]
      exact ⟨⟨first, differ⟩, ih others⟩

theorem Field.spell_visible (field : Field) : ∀ c ∈ field.spell, isWhitespace c = false := by
  intro c inside
  by_contra white
  rw [Bool.not_eq_false] at white
  have other : ∀ d, isWhitespace d = false → c ≠ d := by
    rintro d visible rfl
    rw [white] at visible
    exact absurd visible (by decide)
  apply not_mem_intercalate (other ',' (by decide)) (field.items.map Item.spell) _ inside
  intro text among
  obtain ⟨item, -, rfl⟩ := List.mem_map.mp among
  apply item.spell_free (isDigit_of_isWhitespace white)
  simp [other '*' (by decide), other '-' (by decide), other '/' (by decide)]

theorem words_spell (fields : Position → Field) :
    words (spell fields) = Position.all.map fun p => (fields p).spell := by
  have next (p : Position) (rest : Text) :
      ((fields p).spell ++ ' ' :: rest).splitOnP isWhitespace = (fields p).spell :: rest.splitOnP isWhitespace :=
    List.splitOnP_append_cons_of_forall_mem (fields p).spell_visible ' ' (by decide) rest
  have last : (fields .dayOfWeek).spell.splitOnP isWhitespace = [(fields .dayOfWeek).spell] :=
    List.splitOnP_eq_singleton (fields .dayOfWeek).spell_visible
  have joined : spell fields = (fields .minute).spell ++ ' ' :: ((fields .hour).spell ++ ' ' ::
      ((fields .dayOfMonth).spell ++ ' ' :: ((fields .month).spell ++ ' ' :: (fields .dayOfWeek).spell))) := by
    simp [spell, Position.all, List.intercalate_cons_cons]
  rw [words, joined, next, next, next, next, last, List.filter_eq_self.mpr]
  · rfl
  · intro word among
    have spelled : ∃ p, word = (fields p).spell := by
      simp only [List.mem_cons, List.not_mem_nil, or_false] at among
      rcases among with rfl | rfl | rfl | rfl | rfl <;> exact ⟨_, rfl⟩
    obtain ⟨p, rfl⟩ := spelled
    simpa using (fields p).spell_nonempty

/-- The five fields are read one by one. -/
theorem parse_spell (fields : Position → Field) :
    parse (spell fields) = (do
      let minute ← parseField (fields .minute).spell 0 59
      let hour ← parseField (fields .hour).spell 0 23
      let dayOfMonth ← parseFieldI8 (fields .dayOfMonth).spell 1 31
      let month ← parseField (fields .month).spell 1 12
      let dayOfWeek ← parseField (fields .dayOfWeek).spell 0 6
      pure ⟨spell fields, minute, hour, dayOfMonth, month, dayOfWeek⟩) := by
  rw [parse, words_spell]
  rfl

theorem Lists.map {vs : List Nat} {holds : Nat → Prop} (lists : Lists vs holds) :
    Lists (vs.map Int.ofNat) fun v => ∃ n : Nat, v = n ∧ holds n := by
  constructor
  · rw [List.pairwise_map]
    exact lists.1.imp fun less => Int.ofNat_lt.mpr less
  · intro v
    rw [List.mem_map]
    constructor
    · rintro ⟨n, inside, rfl⟩
      exact ⟨n, rfl, (lists.2 n).mp inside⟩
    · rintro ⟨n, rfl, held⟩
      exact ⟨n, (lists.2 n).mpr held, rfl⟩

/-- An expression is parsed exactly when all its fields are taken, to the values they keep. -/
theorem parse_taken (fields : Position → Field) :
    ((∀ p, (fields p).Taken p) → ∃ s, parse (spell fields) = .ok s ∧
        ∀ p, Lists (s.values p) fun v => ∃ n : Nat, v = n ∧ (fields p).Keeps p.min p.max n) ∧
      ((¬ ∀ p, (fields p).Taken p) → ∃ e, parse (spell fields) = .error e) := by
  have minutes := parseField_spell 0 59 (by decide) (fields .minute)
  have hours := parseField_spell 0 23 (by decide) (fields .hour)
  have days := parseFieldI8_spell 1 31 (by decide) (fields .dayOfMonth)
  simp only [Nat.cast_one, Nat.cast_ofNat] at days
  have months := parseField_spell 1 12 (by decide) (fields .month)
  have weekdays := parseField_spell 0 6 (by decide) (fields .dayOfWeek)
  rw [parse_spell]
  constructor
  · intro taken
    obtain ⟨minute, m₁, m₂⟩ := minutes.1 (taken .minute)
    obtain ⟨hour, h₁, h₂⟩ := hours.1 (taken .hour)
    obtain ⟨day, d₁, d₂⟩ := days.1 (taken .dayOfMonth)
    obtain ⟨month, n₁, n₂⟩ := months.1 (taken .month)
    obtain ⟨weekday, w₁, w₂⟩ := weekdays.1 (taken .dayOfWeek)
    refine ⟨⟨spell fields, minute, hour, day, month, weekday⟩, by rw [m₁, h₁, d₁, n₁, w₁]; rfl, ?_⟩
    intro p
    cases p with
    | minute => exact m₂.map
    | hour => exact h₂.map
    | dayOfMonth => exact d₂
    | month => exact n₂.map
    | dayOfWeek => exact w₂.map
  · intro refused
    by_cases first : (fields .minute).Taken .minute
    · obtain ⟨minute, m₁, -⟩ := minutes.1 first
      rw [m₁]
      by_cases second : (fields .hour).Taken .hour
      · obtain ⟨hour, h₁, -⟩ := hours.1 second
        rw [h₁]
        by_cases third : (fields .dayOfMonth).Taken .dayOfMonth
        · obtain ⟨day, d₁, -⟩ := days.1 third
          rw [d₁]
          by_cases fourth : (fields .month).Taken .month
          · obtain ⟨month, n₁, -⟩ := months.1 fourth
            rw [n₁]
            obtain ⟨e, failed⟩ := weekdays.2 fun fifth =>
              refused fun p => by cases p <;> assumption
            exact ⟨e, by rw [failed]; rfl⟩
          · obtain ⟨e, failed⟩ := months.2 fourth
            exact ⟨e, by rw [failed]; rfl⟩
        · obtain ⟨e, failed⟩ := days.2 third
          exact ⟨e, by rw [failed]; rfl⟩
      · obtain ⟨e, failed⟩ := hours.2 second
        exact ⟨e, by rw [failed]; rfl⟩
    · obtain ⟨e, failed⟩ := minutes.2 first
      exact ⟨e, by rw [failed]; rfl⟩

/-! ## When it is read as it should -/

theorem Item.Valid.bounded {min max v : Nat} {item : Item} (valid : item.Valid min max)
    (denoted : item.Denotes min max v) : min ≤ v ∧ v ≤ max := by
  cases item with
  | star => exact denoted
  | num n => exact denoted ▸ valid
  | range a b => exact ⟨valid.1.trans denoted.1, denoted.2.trans valid.2.2⟩
  | starStep s => exact denoted.1
  | rangeStep a b s => exact ⟨valid.1.1.trans denoted.1.1, denoted.1.2.trans valid.1.2.2⟩
  | numStep n s => exact ⟨valid.1.1.trans denoted.1.1, denoted.1.2⟩

theorem Field.Valid.keeps {p : Position} {field : Field} (valid : field.Valid p) (v : Nat) :
    field.Keeps p.min p.max v ↔ field.Denotes p v := by
  constructor
  · intro kept
    exact kept.2
  · rintro ⟨item, among, denoted⟩
    exact ⟨(valid item among).bounded denoted, item, among, denoted⟩

/-- An expression that is read as it should: valid fields are taken, and taken ones valid. -/
theorem valid_iff_of_read {fields : Position → Field} (holds : FieldsRead fields) :
    (∀ p, (fields p).Valid p) ↔ ∀ p, (fields p).Taken p := by
  obtain ⟨read, failed⟩ := parse_taken fields
  constructor
  · intro valid
    by_contra refused
    obtain ⟨s, given, -⟩ := holds.1 valid
    obtain ⟨e, error⟩ := failed refused
    rw [given] at error
    exact absurd error (by simp)
  · intro taken
    by_contra invalid
    obtain ⟨s, given, -⟩ := read taken
    obtain ⟨e, error⟩ := holds.2 invalid
    rw [given] at error
    exact absurd error (by simp)

/-- **When an expression is read as its fields say**: where all of them are valid exactly if all of them
are taken. -/
theorem fields_read_iff (fields : Position → Field) :
    FieldsRead fields ↔ ((∀ p, (fields p).Valid p) ↔ ∀ p, (fields p).Taken p) := by
  refine ⟨valid_iff_of_read, ?_⟩
  obtain ⟨read, failed⟩ := parse_taken fields
  intro same
  constructor
  · intro valid
    obtain ⟨s, given, lists⟩ := read (same.mp valid)
    refine ⟨s, given, fun p => ⟨(lists p).1, fun v => ((lists p).2 v).trans ?_⟩⟩
    constructor
    · rintro ⟨n, rfl, kept⟩
      exact ⟨n, rfl, ((valid p).keeps n).mp kept⟩
    · rintro ⟨n, rfl, denoted⟩
      exact ⟨n, rfl, ((valid p).keeps n).mpr denoted⟩
  · intro invalid
    exact failed fun taken => invalid (same.mpr taken)

/-! ## Where it is not -/

/-- All fields are `*` but one. -/
def only (p : Position) (items : List Item) (nonempty : items ≠ []) : Position → Field :=
  fun q => if q = p then ⟨items, nonempty⟩ else ⟨[.star], List.cons_ne_nil _ _⟩

theorem only_valid {p : Position} {items : List Item} {nonempty : items ≠ []}
    (valid : ∀ item ∈ items, item.Valid p.min p.max) : ∀ q, (only p items nonempty q).Valid q := by
  intro q
  rw [only]
  split
  · next same => exact same ▸ valid
  · intro item among
    rw [List.mem_singleton.mp among]
    trivial

/-- `* * */5 * *` is valid, and refused. -/
theorem day_steps_refused :
    ¬ FieldsRead (only .dayOfMonth [.starStep ⟨['5'], by simp, by simp⟩] (List.cons_ne_nil _ _)) := by
  intro holds
  have taken := (valid_iff_of_read holds).mp (only_valid (by
    intro item among
    rw [List.mem_singleton.mp among]
    show 1 ≤ Nat.ofDigitChars 10 ['5'] 0
    decide)) .dayOfMonth
  rcases taken with all | ⟨before, stop, after, same, isStop, -⟩
  · exact all _ List.mem_cons_self
  · have single : [Item.starStep ⟨['5'], by simp, by simp⟩] = before ++ stop :: after := same
    have among : stop ∈ before ++ stop :: after := List.mem_append_right before List.mem_cons_self
    rw [← single, List.mem_singleton] at among
    rw [among] at isStop
    exact isStop

end NovaRuntime.Scheduler.CronSchedule
