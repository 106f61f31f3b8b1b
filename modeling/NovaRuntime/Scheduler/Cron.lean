/-
# NovaRuntime.Scheduler.Cron — `CronSchedule` of `types.rs`

`parse` reads an expression of five fields, `next_after` looks for the next minute that matches them.
A `u8` is a number below 256 and an `i8` an integer from -128 to 127.

The calendar is that of `chrono` and a parameter: the minutes it can represent and what day and time
each of them is. A minute is its number since 1970. `utc` is the Gregorian calendar.

`next_after` steps by a minute from the given time and tries 365 days, so it finds the start of the
next minute only from the start of a minute, and no date farther away (`next_fire_iff`).
-/
import Mathlib.Data.Int.LeastGreatest
import NovaRuntime.Scheduler.Types

namespace NovaRuntime.Scheduler

open NovaRuntime.Library

set_option autoImplicit false

structure CronSchedule where
  expression : Text
  minute : List Nat
  hour : List Nat
  dayOfMonth : List Int
  month : List Nat
  dayOfWeek : List Nat
  deriving DecidableEq

namespace CronSchedule

/-! ## Numbers -/

/-- The number that some digits write. -/
def ofDigits (text : Text) : Option Nat :=
  if text.isEmpty || ! text.all Char.isDigit then none else some (Nat.ofDigitChars 10 text 0)

/-- `str::parse::<u8>`: a plus and digits. -/
def parseU8 (text : Text) : Option Nat :=
  (ofDigits (if text.head? = some '+' then text.drop 1 else text)).filter fun n => n < 256

/-- `str::parse::<i8>`: a sign and digits. -/
def parseI8 (text : Text) : Option Int :=
  if text.head? = some '-' then
    ((ofDigits (text.drop 1)).filter fun n => n ≤ 128).map fun n => -(n : Int)
  else
    ((ofDigits (if text.head? = some '+' then text.drop 1 else text)).filter fun n => n < 128).map
      fun n => (n : Int)

/-- `Vec::dedup`. -/
def dedup {α : Type} [DecidableEq α] : List α → List α
  | [] => []
  | [a] => [a]
  | a :: b :: rest => if a = b then dedup (b :: rest) else a :: dedup (b :: rest)

/-! ## Fields -/

/-- A number, or the error for it. -/
def number {α : Type} (parsed : Option α) (text : Text) : Except Text α :=
  match parsed with
  | some n => .ok n
  | none => .error ("Invalid number: ".toList ++ text)

def rangeEnds (text : Text) : Except Text (Nat × Nat) :=
  match text.splitOn '-' with
  | [lo, hi] => do
      let lo' ← number (parseU8 lo) lo
      let hi' ← number (parseU8 hi) hi
      pure (lo', hi')
  | _ => .error ("Invalid range: ".toList ++ text)

/-- Every so manyth number of a range, those that the field may have. -/
def stepped (min max : Nat) (ends : Nat × Nat) (step : Nat) : List Nat :=
  (List.range' ends.1 (ends.2 + 1 - ends.1)).filter fun v =>
    (v - ends.1) % step == 0 && decide (min ≤ v) && decide (v ≤ max)

def stepEnds (min max : Nat) (text : Text) : Except Text (Nat × Nat) :=
  if text = ['*'] then .ok (min, max)
  else if '-' ∈ text then rangeEnds text
  else do
    let val ← number (parseU8 text) text
    pure (val, max)

/-- One part of a list. -/
def parsePart (min max : Nat) (part : Text) : Except Text (List Nat) :=
  if '/' ∈ part then
    match part.splitOn '/' with
    | [range, step] => do
        let ends ← stepEnds min max range
        match parseU8 step with
        | none => .error ("Invalid step: ".toList ++ step)
        | some 0 => .error "Step cannot be zero".toList
        | some n => pure (stepped min max ends n)
    | _ => .error ("Invalid step expression: ".toList ++ part)
  else if '-' ∈ part then do
    let ends ← rangeEnds part
    pure (stepped min max ends 1)
  else do
    let val ← number (parseU8 part) part
    if val < min ∨ max < val then
      .error ("Value ".toList ++ Nat.toDigits 10 val ++ " out of range (".toList ++ Nat.toDigits 10 min ++
        ['-'] ++ Nat.toDigits 10 max ++ [')'])
    else pure [val]

/-- The values of a field, once all its parts are read. -/
def collected {α : Type} [LinearOrder α] (field : Text) (values : List α) : Except Text (List α) :=
  if values.isEmpty then .error ("No valid values in field: ".toList ++ field)
  else .ok (dedup (values.mergeSort (· ≤ ·)))

def parseField (field : Text) (min max : Nat) : Except Text (List Nat) :=
  if field = ['*'] then .ok (List.range' min (max + 1 - min))
  else do
    let parts ← (field.splitOn ',').mapM (parsePart min max)
    collected field parts.flatten

/-- The integers from one to another. -/
def integers (min max : Int) : List Int :=
  (List.range (max + 1 - min).toNat).map fun n : Nat => min + (n : Int)

/-- The parts of a field of `i8`: all values at the first `*`, whatever follows it. -/
def parsePartsI8 (min max : Int) : List Text → Except Text (Option (List Int))
  | [] => .ok (some [])
  | part :: rest =>
    if part = ['*'] then .ok none
    else do
      let val ← number (parseI8 part) part
      if val < min ∨ max < val then
        .error ("Value ".toList ++ (toString val).toList ++ " out of range (".toList ++ (toString min).toList ++
          ['-'] ++ (toString max).toList ++ [')'])
      else do
        let values ← parsePartsI8 min max rest
        pure (values.map (val :: ·))

def parseFieldI8 (field : Text) (min max : Int) : Except Text (List Int) :=
  if field = ['*'] then .ok (integers min max)
  else do
    match ← parsePartsI8 min max (field.splitOn ',') with
    | none => pure (integers min max)
    | some values => collected field values

/-- `split_whitespace`. -/
def words (text : Text) : List Text := (text.splitOnP isWhitespace).filter fun word => ! word.isEmpty

def parse (expr : Text) : Except Text CronSchedule :=
  match words expr with
  | [minute, hour, dayOfMonth, month, dayOfWeek] => do
      let minute ← parseField minute 0 59
      let hour ← parseField hour 0 23
      let dayOfMonth ← parseFieldI8 dayOfMonth 1 31
      let month ← parseField month 1 12
      let dayOfWeek ← parseField dayOfWeek 0 6
      pure ⟨expr, minute, hour, dayOfMonth, month, dayOfWeek⟩
  | parts => .error ("cron expression must have 5 fields, got ".toList ++ Nat.toDigits 10 parts.length)

end CronSchedule

/-! ## The calendar -/

/-- What a minute is in the calendar; Sunday is day 0 of the week. -/
structure Moment where
  minute : Nat
  hour : Nat
  day : Nat
  month : Nat
  weekday : Nat
  deriving DecidableEq

/-- The minutes `chrono` can represent, and what they are. -/
structure Calendar where
  first : Int
  last : Int
  moment : Int → Moment

namespace Calendar

variable (calendar : Calendar)

/-- The minute of a time. -/
def minuteOf (ms : Int) : Int := ms / 60000

def Has (minute : Int) : Prop := calendar.first ≤ minute ∧ minute ≤ calendar.last

instance (minute : Int) : Decidable (calendar.Has minute) := inferInstanceAs (Decidable (_ ∧ _))

/-- `DateTime::from_timestamp_millis`. -/
def fromTimestampMillis (ms : Int) : Option Int := if calendar.Has (minuteOf ms) then some ms else none

/-- `checked_add_signed` of a minute. -/
def addMinute (ms : Int) : Option Int := calendar.fromTimestampMillis (ms + 60000)

/-- The years, counted from March in cycles of 400, make the leap day the last of its year. -/
def monthAndDay (days : Int) : Nat × Nat :=
  let ofCycle := ((days + 719468) % 146097).toNat
  let year := (ofCycle - ofCycle / 1460 + ofCycle / 36524 - ofCycle / 146096) / 365
  let ofYear := ofCycle - (365 * year + year / 4 - year / 100)
  let fromMarch := (5 * ofYear + 2) / 153
  (if fromMarch < 10 then fromMarch + 3 else fromMarch - 9, ofYear - (153 * fromMarch + 2) / 5 + 1)

/-- The days from -262143-01-01 to 262142-12-31. -/
def utc : Calendar where
  first := -96465292 * 1440
  last := 95026236 * 1440 + 1439
  moment minute :=
    ⟨(minute % 60).toNat, (minute / 60 % 24).toNat, (monthAndDay (minute / 1440)).2,
      (monthAndDay (minute / 1440)).1, ((minute / 1440 + 4) % 7).toNat⟩

example : monthAndDay 11016 = (2, 29) := by decide

end Calendar

namespace CronSchedule

/-- The fields of the schedule match. -/
def matchesMoment (s : CronSchedule) (m : Moment) : Bool :=
  s.month.contains m.month && s.dayOfMonth.contains (m.day : Int) && s.dayOfWeek.contains m.weekday &&
    s.hour.contains m.hour && s.minute.contains m.minute

variable (calendar : Calendar)

/-- The turns of `next_after`. -/
def nextFrom (s : CronSchedule) : Nat → Int → Option Int
  | 0, _ => none
  | turns + 1, candidate =>
    if s.matchesMoment (calendar.moment (Calendar.minuteOf candidate)) then some candidate
    else (calendar.addMinute candidate).bind (nextFrom s turns)

/-- The minutes it tries. -/
def horizon : Nat := 365 * 24 * 60

def nextAfter (s : CronSchedule) (afterMs : Int) : Option Int :=
  (calendar.fromTimestampMillis afterMs).bind fun after =>
    (calendar.addMinute after).bind (nextFrom calendar s horizon)

end CronSchedule

/-! ## The next minute that matches -/

namespace CronSchedule

variable {calendar : Calendar}

/-- The minute is in the calendar and matches. -/
def Fires (calendar : Calendar) (s : CronSchedule) (minute : Int) : Prop :=
  calendar.Has minute ∧ s.matchesMoment (calendar.moment minute) = true

instance (s : CronSchedule) (minute : Int) : Decidable (s.Fires calendar minute) :=
  inferInstanceAs (Decidable (_ ∧ _))

/-- The earliest minute behind that of a time that matches. -/
def Earliest (calendar : Calendar) (s : CronSchedule) (afterMs minute : Int) : Prop :=
  (Calendar.minuteOf afterMs < minute ∧ s.Fires calendar minute) ∧
    ∀ m, Calendar.minuteOf afterMs < m → s.Fires calendar m → minute ≤ m

/-- `next_after` gives the start of the earliest minute that matches, and nothing where there is none. -/
def NextFire (calendar : Calendar) (s : CronSchedule) (afterMs : Int) : Prop :=
  (∀ minute, s.Earliest calendar afterMs minute → s.nextAfter calendar afterMs = some (minute * 60000)) ∧
    ((¬ ∃ minute, Calendar.minuteOf afterMs < minute ∧ s.Fires calendar minute) →
      s.nextAfter calendar afterMs = none)

theorem minuteOf_add (ms : Int) (n : Nat) : Calendar.minuteOf (ms + 60000 * n) = Calendar.minuteOf ms + n := by
  rw [Calendar.minuteOf, Calendar.minuteOf]
  omega

/-- The turns go through the minutes one by one, and stop at the first that matches. -/
theorem nextFrom_eq_some {s : CronSchedule} (turns : Nat) (candidate found : Int)
    (inside : calendar.Has (Calendar.minuteOf candidate)) :
    nextFrom calendar s turns candidate = some found ↔
      ∃ n < turns, found = candidate + 60000 * n ∧ s.Fires calendar (Calendar.minuteOf candidate + n) ∧
        ∀ k < n, ¬ s.Fires calendar (Calendar.minuteOf candidate + k) := by
  induction turns generalizing candidate with
  | zero => simp [nextFrom]
  | succ turns ih =>
    have shift := minuteOf_add candidate 1
    rw [Nat.cast_one, mul_one] at shift
    by_cases hit : s.matchesMoment (calendar.moment (Calendar.minuteOf candidate)) = true
    · have fires : s.Fires calendar (Calendar.minuteOf candidate) := ⟨inside, hit⟩
      rw [nextFrom, if_pos hit, Option.some.injEq]
      constructor
      · intro same
        refine ⟨0, Nat.succ_pos turns, ?_, ?_, ?_⟩
        · simp [same]
        · simpa using fires
        · intro k small
          exact absurd small (Nat.not_lt_zero k)
      · rintro ⟨n, -, same, -, none⟩
        cases n with
        | zero => simp [same]
        | succ n => exact absurd (by simpa using fires) (none 0 (Nat.succ_pos n))
    · have passes : ¬ s.Fires calendar (Calendar.minuteOf candidate) := fun fires => hit fires.2
      rw [nextFrom, if_neg hit, Calendar.addMinute, Calendar.fromTimestampMillis]
      by_cases next : calendar.Has (Calendar.minuteOf (candidate + 60000))
      · rw [if_pos next, Option.bind_some, ih (candidate + 60000) next, shift]
        constructor
        · rintro ⟨n, small, same, fires, none⟩
          refine ⟨n + 1, Nat.succ_lt_succ small, ?_, ?_, ?_⟩
          · push_cast
            omega
          · convert fires using 1
            push_cast
            omega
          · intro k less
            cases k with
            | zero => simpa using passes
            | succ k =>
              have skipped := none k (Nat.lt_of_succ_lt_succ less)
              convert skipped using 2
              push_cast
              omega
        · rintro ⟨n, small, same, fires, none⟩
          cases n with
          | zero => exact absurd (by simpa using fires) passes
          | succ n =>
            refine ⟨n, Nat.lt_of_succ_lt_succ small, ?_, ?_, ?_⟩
            · push_cast at same
              omega
            · convert fires using 1
              push_cast
              omega
            · intro k less
              have skipped := none (k + 1) (Nat.succ_lt_succ less)
              convert skipped using 2
              push_cast
              omega
      · -- the calendar ends here, and so there is no later minute that could match
        rw [if_neg next, Option.bind_none]
        simp only [reduceCtorEq, false_iff, not_exists, not_and]
        intro n small same fires
        cases n with
        | zero => exact absurd (by simpa using fires) passes
        | succ n =>
          have beyond := fires.1
          rw [Calendar.Has] at beyond next inside
          push_cast at beyond
          omega

/-- What `next_after` gives: a whole number of minutes after the given time, within the horizon. -/
theorem nextAfter_eq_some {s : CronSchedule} (afterMs found : Int) :
    s.nextAfter calendar afterMs = some found ↔
      calendar.Has (Calendar.minuteOf afterMs) ∧ ∃ n : Nat, 1 ≤ n ∧ n ≤ horizon ∧ found = afterMs + 60000 * n ∧
        s.Earliest calendar afterMs (Calendar.minuteOf afterMs + n) := by
  have shift := minuteOf_add afterMs 1
  rw [Nat.cast_one, mul_one] at shift
  rw [nextAfter, Calendar.fromTimestampMillis]
  by_cases inside : calendar.Has (Calendar.minuteOf afterMs)
  · rw [if_pos inside, Option.bind_some, Calendar.addMinute, Calendar.fromTimestampMillis]
    by_cases next : calendar.Has (Calendar.minuteOf (afterMs + 60000))
    · rw [if_pos next, Option.bind_some, nextFrom_eq_some horizon (afterMs + 60000) found next, shift]
      constructor
      · rintro ⟨n, small, same, fires, none⟩
        refine ⟨inside, n + 1, Nat.succ_pos n, small, ?_, ⟨?_, ?_⟩, ?_⟩
        · push_cast
          omega
        · push_cast
          omega
        · convert fires using 1
          push_cast
          omega
        · intro m later hits
          by_contra early
          apply none (m - Calendar.minuteOf afterMs - 1).toNat (by omega)
          convert hits using 1
          omega
      · rintro ⟨-, n, positive, small, same, ⟨-, fires⟩, least⟩
        refine ⟨n - 1, by omega, by omega, ?_, ?_⟩
        · convert fires using 1
          omega
        · intro k less hits
          have early := least _ (by omega) hits
          omega
    · rw [if_neg next, Option.bind_none]
      simp only [reduceCtorEq, false_iff, not_and, not_exists]
      rintro - n positive - - earliest
      have beyond := earliest.1.2.1
      rw [Calendar.Has] at beyond next inside
      omega
  · rw [if_neg inside, Option.bind_none]
    simp [inside]

/-- Where the earliest minute is found. -/
theorem near_of_nextFire {calendar : Calendar} {s : CronSchedule} {afterMs minute : Int}
    (holds : s.NextFire calendar afterMs) (earliest : s.Earliest calendar afterMs minute) :
    calendar.Has (Calendar.minuteOf afterMs) ∧ afterMs % 60000 = 0 ∧
      minute ≤ Calendar.minuteOf afterMs + horizon := by
  obtain ⟨inside, n, -, near, start, such⟩ := (nextAfter_eq_some afterMs _).mp (holds.1 minute earliest)
  have same : minute = Calendar.minuteOf afterMs + n :=
    le_antisymm (earliest.2 _ such.1.1 such.1.2) (such.2 _ earliest.1.1 earliest.1.2)
  refine ⟨inside, ?_, ?_⟩
  · rw [same, Calendar.minuteOf] at start
    omega
  · rw [same]
    omega

/-- **When the next fire is found**: from the start of a minute of the calendar, and within 365 days;
and where there is none. -/
theorem next_fire_iff (calendar : Calendar) (s : CronSchedule) (afterMs : Int) :
    s.NextFire calendar afterMs ↔
      ∀ minute, s.Earliest calendar afterMs minute →
        calendar.Has (Calendar.minuteOf afterMs) ∧ afterMs % 60000 = 0 ∧
          minute ≤ Calendar.minuteOf afterMs + horizon := by
  constructor
  · intro holds minute earliest
    exact near_of_nextFire holds earliest
  · intro found
    constructor
    · intro minute earliest
      obtain ⟨inside, start, near⟩ := found minute earliest
      have later := earliest.1.1
      have same : Calendar.minuteOf afterMs + ((minute - Calendar.minuteOf afterMs).toNat : Int) = minute := by
        omega
      apply (nextAfter_eq_some afterMs _).mpr
      refine ⟨inside, (minute - Calendar.minuteOf afterMs).toNat, by omega, by omega, ?_, ?_⟩
      · rw [Calendar.minuteOf] at same later ⊢
        omega
      · rw [same]
        exact earliest
    · intro quiet
      cases given : s.nextAfter calendar afterMs with
      | none => rfl
      | some time =>
        obtain ⟨-, n, -, -, -, such⟩ := (nextAfter_eq_some afterMs time).mp given
        exact absurd ⟨_, such.1.1, such.1.2⟩ quiet

/-- The schedule of `* * * * *`. -/
def everyMinute : CronSchedule :=
  ⟨"* * * * *".toList, List.range' 0 60, List.range' 0 24, integers 1 31, List.range' 1 12, List.range' 0 7⟩

/-- Every minute is asked for, half a minute into 1970; the next one begins 30 seconds later. -/
theorem next_fire_late : parse "* * * * *".toList = .ok everyMinute ∧ ¬ everyMinute.NextFire Calendar.utc 30000 := by
  refine ⟨by decide +kernel, ?_⟩
  intro holds
  have earliest : everyMinute.Earliest Calendar.utc 30000 1 :=
    ⟨⟨by decide, by decide +kernel⟩, fun m later fires => later⟩
  exact absurd (near_of_nextFire holds earliest).2.1 (by decide)

end CronSchedule

end NovaRuntime.Scheduler
