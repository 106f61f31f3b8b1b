/-
# NovaRuntime.Sql.Dedup — DISTINCT

`dedupExecutor` remembers a hash of each row it hands out. The hash is taken of the bytes of the
cells one after the other, with nothing that says of which kind a cell is: NULL has the bytes of the
integer zero, a missing value those of the integer one, a float those of an integer.

`dedup_exact_iff` says on which rows the output is the first of each, under any hash of bytes.
-/
import NovaRuntime.Library.Distinct
import NovaRuntime.Sql.Executors

namespace NovaRuntime.Sql

open NovaRuntime.Library

set_option autoImplicit false

/-! ## The executor -/

/-- What `row_hash` feeds to the hasher for a cell. A text ends with `0xFF`. -/
def cellBytes : Option LiteralValue → Bytes
  | some .null => le 8 0
  | some (.boolean b) => [if b then 1 else 0]
  | some (.integer i) => le 8 i.toUInt64.toNat
  | some (.float f) => le 8 f.bits.toNat
  | some (.string s) => utf8 s ++ [0xFF]
  | none => le 8 1

def rowBytes (row : Row) : Bytes := row.values.flatMap cellBytes

/-- `DedupExecutor::row_hash`. -/
def rowHash (hasher : Bytes → UInt64) (row : Row) : UInt64 := hasher (rowBytes row)

/-- `DedupExecutor`, over a hasher. -/
def dedupExecutor (hasher : Bytes → UInt64) (turns : Nat) (input : Executor) : Executor where
  State := Pull.Seen input.State UInt64
  initial := ⟨input.initial, []⟩
  openRows := do
    Pull.Seen.onInput input.openRows
    Exec.modify fun w => { w with seen := [] }
  next := Pull.distinctNext input.next (rowHash hasher) turns
  close := Pull.Seen.onInput input.close

/-! ## What DISTINCT owes -/

/-- Equal values, where a missing one is NULL. The two zeros are one value, and a NaN is what it is. -/
def sameCell (a b : Option LiteralValue) : Bool :=
  decide (a.getD .null = b.getD .null) || (a.getD .null).eq (b.getD .null)

def sameCells : List (Option LiteralValue) → List (Option LiteralValue) → Bool
  | [], [] => true
  | a :: as, b :: bs => sameCell a b && sameCells as bs
  | _, _ => false

def sameRow (r s : Row) : Bool := sameCells r.values s.values

/-- **DISTINCT is exact**: the executor, opened, gives the first of each row and nothing else, in
their order. -/
def DistinctExact (hasher : Bytes → UInt64) (turns : Nat) (input : Executor)
    (w : Pull.Seen input.State UInt64) (rows : List Row) : Prop :=
  ∃ w', (dedupExecutor hasher turns input).openRows w = (.ok (), w') ∧
    Pull.Yields (dedupExecutor hasher turns input).next w' (firsts sameRow [] rows)

/-- A row has the hash of one before it exactly if it is the same as one before it. -/
def HashTells (hasher : Bytes → UInt64) (rows : List Row) : Prop :=
  ∀ before row after, rows = before ++ row :: after →
    ((∃ r ∈ before, hasher (rowBytes r) = hasher (rowBytes row)) ↔ ∃ r ∈ before, sameRow r row = true)

/-! ## What the executor yields -/

section Yields

variable (hasher : Bytes → UInt64) {turns : Nat} {input : Executor} {rows : List Row}

/-- The rows whose hash is new, in their order. -/
theorem dedup_yields {s s' : input.State} (seen : List UInt64) (opened : input.openRows s = (.ok (), s'))
    (yields : Pull.Yields input.next s' rows) (enough : rows.length < turns) :
    (dedupExecutor hasher turns input).openRows ⟨s, seen⟩ = (.ok (), ⟨s', []⟩) ∧
      Pull.Yields (dedupExecutor hasher turns input).next ⟨s', []⟩
        (firsts (fun r row => rowHash hasher r == rowHash hasher row) [] rows) := by
  constructor
  · show (Pull.Seen.onInput input.openRows >>= fun _ => _) _ = _
    rw [Exec.bind_of_ok (Pull.Seen.onInput_of_ok (w := ⟨s, seen⟩) opened)]
    rfl
  · have unseen : ∀ k, k ∈ ([] : List UInt64) ↔ ∃ r ∈ ([] : List Row), rowHash hasher r = k := by simp
    rw [← firstsByKey_eq unseen]
    exact Pull.distinct_yields yields enough

end Yields

/-! ## The theorem -/

/-- **DISTINCT is exact if and only if the hash tells the rows apart**: a row has the hash of an earlier
one exactly if it is the same as an earlier one. -/
theorem dedup_exact_iff (hasher : Bytes → UInt64) {turns : Nat} {input : Executor} {s s' : input.State}
    (seen : List UInt64) {rows : List Row} (opened : input.openRows s = (.ok (), s'))
    (yields : Pull.Yields input.next s' rows) (enough : rows.length < turns) :
    DistinctExact hasher turns input ⟨s, seen⟩ rows ↔ HashTells hasher rows := by
  obtain ⟨dedupOpened, given⟩ := dedup_yields hasher seen opened yields enough
  have same : (∀ before row after, rows = before ++ row :: after →
      ((∃ r ∈ before, (rowHash hasher r == rowHash hasher row) = true) ↔ ∃ r ∈ before, sameRow r row = true)) ↔
        HashTells hasher rows := by
    simp only [beq_iff_eq]
    exact Iff.rfl
  rw [← same, ← firsts_eq_iff]
  constructor
  · rintro ⟨w', opened', exactly⟩
    rw [dedupOpened] at opened'
    cases opened'
    exact Pull.Yields.unique given exactly
  · intro equal
    exact ⟨_, dedupOpened, equal ▸ given⟩

/-- An input that gives the rows of a list. -/
def listExecutor (rows : List Row) : Executor where
  State := Pull.Cursor Row
  initial := ⟨[], 0⟩
  openRows := Exec.modify fun _ => ⟨rows, 0⟩
  next := Pull.cursorNext
  close := Exec.modify fun _ => ⟨[], 0⟩

theorem listExecutor_yields (rows : List Row) :
    (listExecutor rows).openRows ⟨[], 0⟩ = (.ok (), ⟨rows, 0⟩) ∧
      Pull.Yields (listExecutor rows).next ⟨rows, 0⟩ rows :=
  ⟨rfl, Pull.cursor_yields rows 0⟩

/-- A hash of bytes. -/
def weighted (bytes : Bytes) : UInt64 := bytes.foldl (fun hash byte => hash * 31 + byte.toUInt64) 7

/-- A row with one value. -/
def single (val : LiteralValue) : Row := ⟨[some val]⟩

theorem dedup_exact_two : DistinctExact weighted 3 (listExecutor [single (.integer 5), single (.integer 7)])
      ⟨⟨[], 0⟩, []⟩ [single (.integer 5), single (.integer 7)] ↔
    HashTells weighted [single (.integer 5), single (.integer 7)] :=
  dedup_exact_iff weighted [] (listExecutor_yields _).1 (listExecutor_yields _).2 (by decide)

/-- The rows `0` and NULL: the second is dropped. -/
theorem null_after_zero_is_dropped :
    ¬ DistinctExact weighted 3 (listExecutor [single (.integer 0), single .null])
      ⟨⟨[], 0⟩, []⟩ [single (.integer 0), single .null] := by
  rintro ⟨w', opened, exactly⟩
  obtain ⟨dedupOpened, given⟩ := dedup_yields weighted [] (listExecutor_yields [single (.integer 0), single .null]).1
    (listExecutor_yields [single (.integer 0), single .null]).2 (show 2 < 3 by decide)
  rw [dedupOpened] at opened
  cases opened
  have two := congrArg List.length (Pull.Yields.unique given exactly)
  revert two
  decide

end NovaRuntime.Sql
