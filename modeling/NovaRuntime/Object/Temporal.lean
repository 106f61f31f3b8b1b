/-
# NovaRuntime.Object.Temporal — dates, times and moments through the codec

A date is written as its number of days since the epoch, a moment as such a number and the
nanoseconds of the day. Read against the calendar of `Library.Gregorian`, `days_to_ymd` is
right: the date of a number has that number (`dayNumber_daysToYmd`). `ymd_to_days` is not: it
counts the day of the month from one, so what it writes is one too high (`ymdToDays_toNat`),
and no date comes back. A moment before the epoch has a negative day number, whose cast to
`u32` is never undone (`moment_iff`). A time of day always comes back.
-/
import NovaRuntime.Library.Gregorian
import NovaRuntime.Object.Codec

namespace NovaRuntime.Object

open NovaRuntime.Library

set_option autoImplicit false

/-! ## Arithmetic that stays in a word -/

section Words

variable {m n : Int}

theorem int32_add {a b : Int32} (left : a.toInt = m) (right : b.toInt = n)
    (low : -2147483648 ≤ m + n) (high : m + n < 2147483648) : (a + b).toInt = m + n := by
  rw [Int32.toInt_add, left, right, Int.bmod_eq_of_le (by omega) (by omega)]

theorem int32_sub {a b : Int32} (left : a.toInt = m) (right : b.toInt = n)
    (low : -2147483648 ≤ m - n) (high : m - n < 2147483648) : (a - b).toInt = m - n := by
  rw [Int32.toInt_sub, left, right, Int.bmod_eq_of_le (by omega) (by omega)]

theorem int32_mul {a b : Int32} (left : a.toInt = m) (right : b.toInt = n)
    (low : -2147483648 ≤ m * n) (high : m * n < 2147483648) : (a * b).toInt = m * n := by
  rw [Int32.toInt_mul, left, right, Int.bmod_eq_of_le (by omega) (by omega)]

theorem int64_add {a b : Int64} (left : a.toInt = m) (right : b.toInt = n)
    (low : -9223372036854775808 ≤ m + n) (high : m + n < 9223372036854775808) :
    (a + b).toInt = m + n := by
  rw [Int64.toInt_add, left, right, Int.bmod_eq_of_le (by omega) (by omega)]

theorem int64_sub {a b : Int64} (left : a.toInt = m) (right : b.toInt = n)
    (low : -9223372036854775808 ≤ m - n) (high : m - n < 9223372036854775808) :
    (a - b).toInt = m - n := by
  rw [Int64.toInt_sub, left, right, Int.bmod_eq_of_le (by omega) (by omega)]

theorem int64_mul {a b : Int64} (left : a.toInt = m) (right : b.toInt = n)
    (low : -9223372036854775808 ≤ m * n) (high : m * n < 9223372036854775808) :
    (a * b).toInt = m * n := by
  rw [Int64.toInt_mul, left, right, Int.bmod_eq_of_le (by omega) (by omega)]

/-- A quotient of numbers that are not negative. -/
theorem int64_div {a b : Int64} (left : a.toInt = m) (right : b.toInt = n) (nonneg : 0 ≤ m)
    (positive : 0 < n) : (a / b).toInt = m / n := by
  have small := a.toInt_lt
  have quotient : m / n ≤ m := Int.ediv_le_self n nonneg
  have below : 0 ≤ m / n := Int.ediv_nonneg nonneg positive.le
  rw [Int64.toInt_div, left, right, Int.tdiv_eq_ediv_of_nonneg nonneg,
    Int.bmod_eq_of_le (by omega) (by omega)]

theorem int32_div {a b : Int32} (left : a.toInt = m) (right : b.toInt = n) (nonneg : 0 ≤ m)
    (positive : 0 < n) : (a / b).toInt = m / n := by
  have small := a.toInt_lt
  have quotient : m / n ≤ m := Int.ediv_le_self n nonneg
  have below : 0 ≤ m / n := Int.ediv_nonneg nonneg positive.le
  rw [Int32.toInt_div, left, right, Int.tdiv_eq_ediv_of_nonneg nonneg,
    Int.bmod_eq_of_le (by omega) (by omega)]

end Words

/-! ## Days -/

theorem yearOfEra_word {doe : Int64} {n : Int} (is : doe.toInt = n) (first : 0 ≤ n) (last : n < 146097) :
    ((doe - doe / 1460 + doe / 36524 - doe / 146096) / 365).toInt = Gregorian.yearOfEra n := by
  have fours : (doe / 1460).toInt = n / 1460 := int64_div is (by rfl) first (by omega)
  have centuries : (doe / 36524).toInt = n / 36524 := int64_div is (by rfl) first (by omega)
  have eras : (doe / 146096).toInt = n / 146096 := int64_div is (by rfl) first (by omega)
  have one := int64_sub is fours (by omega) (by omega)
  have two := int64_add one centuries (by omega) (by omega)
  have three := int64_sub two eras (by omega) (by omega)
  exact int64_div three (by rfl) (by omega) (by omega)

theorem dayOfYear_word {doe yoe : Int64} {n k : Int} (isDay : doe.toInt = n) (isYear : yoe.toInt = k)
    (days : 0 ≤ n ∧ n < 146097) (years : 0 ≤ k ∧ k ≤ 399) :
    (doe - (365 * yoe + yoe / 4 - yoe / 100)).toInt = n - (365 * k + k / 4 - k / 100) := by
  have fours : (yoe / 4).toInt = k / 4 := int64_div isYear (by rfl) years.1 (by omega)
  have centuries : (yoe / 100).toInt = k / 100 := int64_div isYear (by rfl) years.1 (by omega)
  have one : (365 * yoe).toInt = 365 * k := int64_mul (by rfl) isYear (by omega) (by omega)
  have two := int64_add one fours (by omega) (by omega)
  have three := int64_sub two centuries (by omega) (by omega)
  exact int64_sub isDay three (by omega) (by omega)

/-- The month from March on, and the month and the day of it, computed in words. -/
theorem monthAndDay_word {doy : Int64} {n : Int} (is : doy.toInt = n) (first : 0 ≤ n) (last : n ≤ 365) :
    let mp := (5 * doy + 2) / 153
    let month := if mp < 10 then mp + 3 else mp - 9
    (month.toInt = if (5 * n + 2) / 153 < 10 then (5 * n + 2) / 153 + 3 else (5 * n + 2) / 153 - 9) ∧
      (doy - (153 * mp + 2) / 5 + 1).toInt = n - (153 * ((5 * n + 2) / 153) + 2) / 5 + 1 := by
  intro mp month
  have five : (5 * doy).toInt = 5 * n := int64_mul (by rfl) is (by omega) (by omega)
  have two : (5 * doy + 2).toInt = 5 * n + 2 := int64_add five (by rfl) (by omega) (by omega)
  have mpIs : mp.toInt = (5 * n + 2) / 153 := int64_div two (by rfl) (by omega) (by omega)
  have monthDays : (153 * mp).toInt = 153 * ((5 * n + 2) / 153) :=
    int64_mul (by rfl) mpIs (by omega) (by omega)
  have shifted : (153 * mp + 2).toInt = 153 * ((5 * n + 2) / 153) + 2 :=
    int64_add monthDays (by rfl) (by omega) (by omega)
  have before : ((153 * mp + 2) / 5).toInt = (153 * ((5 * n + 2) / 153) + 2) / 5 :=
    int64_div shifted (by rfl) (by omega) (by omega)
  have left := int64_sub is before (by omega) (by omega)
  refine ⟨?_, int64_add left (by rfl) (by omega) (by omega)⟩
  have spring : mp < 10 ↔ (5 * n + 2) / 153 < 10 := by
    rw [Int64.lt_iff_toInt_lt, mpIs]
    exact Iff.rfl
  by_cases early : (5 * n + 2) / 153 < 10
  · rw [if_pos early]
    simp only [month, if_pos (spring.mpr early)]
    exact int64_add mpIs (by rfl) (by omega) (by omega)
  · rw [if_neg early]
    simp only [month, if_neg (mt spring.mp early)]
    exact int64_sub mpIs (by rfl) (by omega) (by omega)

/-- The date of a day number, before the casts at the end. -/
theorem daysToYmd_civil (days : UInt32) : ∃ y m d : Int64,
    daysToYmd days = (y.toInt32, m.toInt8.toUInt8, d.toInt8.toUInt8) ∧
      (y.toInt, m.toInt, d.toInt) = Gregorian.civil days.toNat := by
  have bound := days.toNat_lt
  unfold daysToYmd
  extract_lets z era doe yoe y doy mp d m y'
  have z_is : z = .ofNat days.toNat + 719468 := rfl
  have era_is : era = (if z ≥ 0 then z else z - 146096) / 146097 := rfl
  have doe_is : doe = z - era * 146097 := rfl
  have yoe_is : yoe = (doe - doe / 1460 + doe / 36524 - doe / 146096) / 365 := rfl
  have y_is : y = yoe + era * 400 := rfl
  have doy_is : doy = doe - (365 * yoe + yoe / 4 - yoe / 100) := rfl
  have mp_is : mp = (5 * doy + 2) / 153 := rfl
  have d_is : d = doy - (153 * mp + 2) / 5 + 1 := rfl
  have m_is : m = if mp < 10 then mp + 3 else mp - 9 := rfl
  have y'_is : y' = if m ≤ 2 then y + 1 else y := rfl
  refine ⟨y', m, d, rfl, ?_⟩
  clear_value z era doe yoe y doy mp d m y'
  have z_eq : z.toInt = days.toNat + 719468 := by
    rw [z_is]
    exact int64_add (Int64.toInt_ofNat_of_lt (by omega)) (by rfl) (by omega) (by omega)
  have low : (0 : Int) ≤ days.toNat := Int.natCast_nonneg _
  have high : (days.toNat : Int) < 4294967296 := by omega
  clear z_is
  generalize (days.toNat : Int) = n at *
  have z_nonneg : z ≥ 0 := by
    show (0 : Int64) ≤ z
    rw [Int64.le_iff_toInt_le, z_eq]
    show (0 : Int) ≤ _
    omega
  have era_eq : era.toInt = (n + 719468) / 146097 := by
    rw [era_is, if_pos z_nonneg]
    exact int64_div z_eq (by rfl) (by omega) (by omega)
  have doe_eq : doe.toInt = n + 719468 - (n + 719468) / 146097 * 146097 := by
    rw [doe_is]
    exact int64_sub z_eq (int64_mul era_eq (by rfl) (by omega) (by omega)) (by omega) (by omega)
  have days : 0 ≤ n + 719468 - (n + 719468) / 146097 * 146097 ∧
      n + 719468 - (n + 719468) / 146097 * 146097 < 146097 := by omega
  have years := Gregorian.yearOfEra_bounds days.1 days.2
  have inYear := Gregorian.dayOfYear_bounds days.1 days.2
  have yoe_eq := yearOfEra_word doe_eq days.1 days.2
  rw [← yoe_is] at yoe_eq
  have doy_eq := dayOfYear_word doe_eq yoe_eq days years
  rw [← doy_is] at doy_eq
  obtain ⟨m_eq, d_eq⟩ := monthAndDay_word doy_eq inYear.1 inYear.2
  rw [← mp_is, ← m_is] at m_eq
  rw [← mp_is, ← d_is] at d_eq
  have y_eq : y.toInt = Gregorian.yearOfEra (n + 719468 - (n + 719468) / 146097 * 146097) +
      (n + 719468) / 146097 * 400 := by
    rw [y_is]
    exact int64_add yoe_eq (int64_mul era_eq (by rfl) (by omega) (by omega)) (by omega) (by omega)
  have spring : m ≤ 2 ↔ m.toInt ≤ 2 := Int64.le_iff_toInt_le
  have y'_eq : y'.toInt = if m.toInt ≤ 2 then y.toInt + 1 else y.toInt := by
    rw [y'_is]
    by_cases early : m.toInt ≤ 2
    · rw [if_pos (spring.mpr early), if_pos early]
      exact int64_add rfl (by rfl) (by omega) (by omega)
    · rw [if_neg (mt spring.mp early), if_neg early]
  rw [y'_eq, y_eq, m_eq, d_eq]
  rfl

/-- A small number that is cut to a byte. -/
theorem toUInt8_toInt8 {x : Int64} (low : 0 ≤ x.toInt) (high : x.toInt < 128) :
    (x.toInt8.toUInt8.toNat : Int) = x.toInt := by
  have same : x.toInt8.toInt = x.toInt := by
    rw [Int64.toInt_toInt8, Int.bmod_eq_of_le (by omega) (by omega)]
  have nonneg : (0 : Int8) ≤ x.toInt8 := by
    rw [Int8.le_iff_toInt_le, same]
    exact low
  rw [Int8.toNat_toUInt8_of_le nonneg, ← Int8.toInt_eq_toNatClampNeg nonneg, same]

/-- **The date of a day number has that number**, counted from the epoch. -/
theorem dayNumber_daysToYmd (days : UInt32) :
    Gregorian.dayNumber (daysToYmd days).1.toInt (daysToYmd days).2.1.toNat
      (daysToYmd days).2.2.toNat = days.toNat := by
  have bound := days.toNat_lt
  have years := Gregorian.civil_year (Int.natCast_nonneg days.toNat)
  have months := Gregorian.civil_month days.toNat
  have dates := Gregorian.civil_day days.toNat
  have number := Gregorian.dayNumber_civil days.toNat
  obtain ⟨y, m, d, date, civil⟩ := daysToYmd_civil days
  rw [← civil] at years months dates number
  dsimp only at years months dates number
  have year : y.toInt32.toInt = y.toInt := by
    rw [Int64.toInt_toInt32, Int.bmod_eq_of_le (by omega) (by omega)]
  rw [date]
  dsimp only
  rw [year, toUInt8_toInt8 (by omega) (by omega), toUInt8_toInt8 (by omega) (by omega)]
  exact number

theorem toNat_toUInt32 (x : Int32) : (x.toUInt32.toNat : Int) = x.toInt % 4294967296 := by
  have signed : x.toInt = (x.toUInt32.toNat : Int).bmod 4294967296 := BitVec.toInt_eq_toNat_bmod ..
  have bound := x.toUInt32.toNat_lt
  have cut : (x.toUInt32.toNat : Int).bmod (4294967296 : Nat) % (4294967296 : Nat) =
      x.toUInt32.toNat % (4294967296 : Nat) := Int.bmod_emod
  rw [signed]
  omega

/-- **The day number that is written is one too high**, and cut to 32 bits. -/
theorem ymdToDays_toNat {year : Int32} {month day : UInt8} (first : 1 ≤ year.toInt)
    (months : 1 ≤ month.toNat ∧ month.toNat ≤ 12) (days : day.toNat ≤ 31) :
    ((ymdToDays year month day).toNat : Int) =
      (Gregorian.dayNumber year.toInt month.toNat day.toNat + 1) % 4294967296 := by
  have last := year.toInt_lt
  rw [Gregorian.march_year _ (by omega) (by omega)]
  unfold ymdToDays
  extract_lets month' y m era yoe doy doe y₀ m₀
  have month_eq : month'.toInt = month.toNat := Int32.toInt_ofNat_of_lt (by omega)
  have day_eq : (Int32.ofNat day.toNat).toInt = day.toNat := Int32.toInt_ofNat_of_lt (by omega)
  have winter : month' ≤ 2 ↔ (month.toNat : Int) ≤ 2 := by
    rw [Int32.le_iff_toInt_le, month_eq]
    exact Iff.rfl
  have y_eq : y.toInt = y₀ := by
    by_cases early : (month.toNat : Int) ≤ 2
    · simp only [y, y₀, if_pos (winter.mpr early), if_pos early]
      exact int32_sub rfl (by rfl) (by omega) (by omega)
    · simp only [y, y₀, if_neg (mt winter.mp early), if_neg early]
  have m_eq : (m - 3).toInt = m₀ := by
    by_cases early : (month.toNat : Int) ≤ 2
    · simp only [m, m₀, if_pos (winter.mpr early), if_pos early]
      have later : (month' + 12).toInt = month.toNat + 12 := int32_add month_eq (by rfl) (by omega) (by omega)
      have shifted := int32_sub later (by rfl : (3 : Int32).toInt = 3) (by omega) (by omega)
      rw [shifted]
      omega
    · simp only [m, m₀, if_neg (mt winter.mp early), if_neg early]
      exact int32_sub month_eq (by rfl) (by omega) (by omega)
  have years : 0 ≤ y₀ ∧ y₀ < 2147483648 := by
    simp only [y₀]
    split <;> omega
  have monthOfYear : 0 ≤ m₀ ∧ m₀ ≤ 11 := by
    simp only [m₀]
    split <;> omega
  have era_is : era = (if y ≥ 0 then y else y - 399) / 400 := rfl
  have yoe_is : yoe = y - era * 400 := rfl
  have doy_is : doy = (153 * (m - 3) + 2) / 5 + .ofNat day.toNat := rfl
  have doe_is : doe = yoe * 365 + yoe / 4 - yoe / 100 + doy := rfl
  clear_value y m era yoe doy doe y₀ m₀
  have y_nonneg : y ≥ 0 := by
    show (0 : Int32) ≤ y
    rw [Int32.le_iff_toInt_le, y_eq]
    exact years.1
  have era_eq : era.toInt = y₀ / 400 := by
    rw [era_is, if_pos y_nonneg]
    exact int32_div y_eq (by rfl) years.1 (by omega)
  have yoe_eq : yoe.toInt = y₀ - y₀ / 400 * 400 := by
    rw [yoe_is]
    exact int32_sub y_eq (int32_mul era_eq (by rfl) (by omega) (by omega)) (by omega) (by omega)
  have doy_eq : doy.toInt = (153 * m₀ + 2) / 5 + day.toNat := by
    have scaled : (153 * (m - 3)).toInt = 153 * m₀ := int32_mul (by rfl) m_eq (by omega) (by omega)
    have shifted : (153 * (m - 3) + 2).toInt = 153 * m₀ + 2 :=
      int32_add scaled (by rfl) (by omega) (by omega)
    rw [doy_is]
    exact int32_add (int32_div shifted (by rfl) (by omega) (by omega)) day_eq (by omega) (by omega)
  have doe_eq : doe.toInt = Gregorian.dayOfEra (y₀ - y₀ / 400 * 400) m₀ day.toNat + 1 := by
    have inEra : 0 ≤ y₀ - y₀ / 400 * 400 ∧ y₀ - y₀ / 400 * 400 ≤ 399 := by omega
    generalize y₀ - y₀ / 400 * 400 = k at *
    have years : (yoe * 365).toInt = k * 365 := int32_mul yoe_eq (by rfl) (by omega) (by omega)
    have fours : (yoe / 4).toInt = k / 4 := int32_div yoe_eq (by rfl) inEra.1 (by omega)
    have centuries : (yoe / 100).toInt = k / 100 := int32_div yoe_eq (by rfl) inEra.1 (by omega)
    have one := int32_add years fours (by omega) (by omega)
    have two := int32_sub one centuries (by omega) (by omega)
    have three := int32_add two doy_eq (by omega) (by omega)
    rw [doe_is, three, Gregorian.dayOfEra]
    omega
  rw [toNat_toUInt32, Int32.toInt_sub, Int32.toInt_add, Int32.toInt_mul, era_eq, doe_eq]
  generalize Gregorian.dayOfEra (y₀ - y₀ / 400 * 400) m₀ day.toNat = n
  -- each operation cuts to 32 bits, and so does the cast at the end
  have product : (y₀ / 400 * 146097).bmod (2 ^ 32 : Nat) % (2 ^ 32 : Nat) =
      y₀ / 400 * 146097 % (2 ^ 32 : Nat) := Int.bmod_emod
  have sum (a : Int) : (a + (n + 1)).bmod (2 ^ 32 : Nat) % (2 ^ 32 : Nat) =
      (a + (n + 1)) % (2 ^ 32 : Nat) := Int.bmod_emod
  have difference (a : Int) : (a - 719468).bmod (2 ^ 32 : Nat) % (2 ^ 32 : Nat) =
      (a - 719468) % (2 ^ 32 : Nat) := Int.bmod_emod
  show (((y₀ / 400 * 146097).bmod (2 ^ 32 : Nat) + (n + 1)).bmod (2 ^ 32 : Nat) - 719468).bmod
    (2 ^ 32 : Nat) % 4294967296 = _
  have first := sum ((y₀ / 400 * 146097).bmod (2 ^ 32 : Nat))
  have second := difference (((y₀ / 400 * 146097).bmod (2 ^ 32 : Nat) + (n + 1)).bmod (2 ^ 32 : Nat))
  omega

/-! ## Times of day -/

/-- **A time of day comes back** from its nanoseconds. -/
theorem nanosToHmsn_hmsnToNanos {hour min sec : UInt8} {nano : UInt32} (hours : hour.toNat < 24)
    (mins : min.toNat < 60) (secs : sec.toNat < 60) (nanos : nano.toNat < 1000000000) :
    nanosToHmsn (hmsnToNanos hour min sec nano) = (hour, min, sec, nano) := by
  have total : (hmsnToNanos hour min sec nano).toNat = hour.toNat * 3600000000000 +
      min.toNat * 60000000000 + sec.toNat * 1000000000 + nano.toNat := by
    simp only [hmsnToNanos, UInt64.toNat_add, UInt64.toNat_mul, UInt8.toNat_toUInt64,
      UInt32.toNat_toUInt64, UInt64.reduceToNat]
    omega
  have whole : (hmsnToNanos hour min sec nano / 1000000000).toNat =
      hour.toNat * 3600 + min.toNat * 60 + sec.toNat := by
    rw [UInt64.toNat_div, total]
    show _ / 1000000000 = _
    omega
  unfold nanosToHmsn
  refine Prod.ext ?_ (Prod.ext ?_ (Prod.ext ?_ ?_))
  · refine UInt8.toNat_inj.mp ?_
    simp only [UInt64.toNat_toUInt8, UInt64.toNat_div, whole, UInt64.reduceToNat]
    omega
  · refine UInt8.toNat_inj.mp ?_
    simp only [UInt64.toNat_toUInt8, UInt64.toNat_div, UInt64.toNat_mod, whole, UInt64.reduceToNat]
    omega
  · refine UInt8.toNat_inj.mp ?_
    simp only [UInt64.toNat_toUInt8, UInt64.toNat_mod, whole, UInt64.reduceToNat]
    omega
  · refine UInt32.toNat_inj.mp ?_
    simp only [UInt64.toNat_toUInt32, UInt64.toNat_mod, total, UInt64.reduceToNat]
    omega

/-! ## Moments -/

theorem toInt_toInt64 {x : UInt64} (small : x.toNat < 9223372036854775808) :
    x.toInt64.toInt = x.toNat := by
  have signed : x.toInt64.toInt = (x.toNat : Int).bmod 18446744073709551616 :=
    BitVec.toInt_eq_toNat_bmod ..
  rw [signed, Int.bmod_eq_of_le (by omega) (by omega)]

/-- The seconds that are read back are never negative. -/
theorem datetimeToUnix_toInt (days : UInt32) (nanos : UInt64) :
    (datetimeToUnix days nanos).1.toInt = days.toNat * 86400 + nanos.toNat / 1000000000 := by
  have day := days.toNat_lt
  have nano := nanos.toNat_lt
  have seconds : (nanos / 1000000000).toNat = nanos.toNat / 1000000000 := by
    rw [UInt64.toNat_div]
    rfl
  have dayIs : days.toUInt64.toInt64.toInt = days.toNat := by
    rw [toInt_toInt64 (by rw [UInt32.toNat_toUInt64]; omega), UInt32.toNat_toUInt64]
  have secondsIs : (nanos / 1000000000).toInt64.toInt = nanos.toNat / 1000000000 := by
    rw [toInt_toInt64 (by omega), seconds]
    rfl
  exact int64_add (int64_mul dayIs (by rfl) (by omega) (by omega)) secondsIs (by omega) (by omega)

/-- The day and the nanoseconds of a moment from the epoch on. -/
theorem unixToDatetime_toNat {secs : Int64} {nsecs : UInt32} (first : 0 ≤ secs.toInt)
    (nanos : nsecs.toNat < 1000000000) :
    ((unixToDatetime secs nsecs).1.toNat : Int) = secs.toInt / 86400 % 4294967296 ∧
      ((unixToDatetime secs nsecs).2.toNat : Int) = secs.toInt % 86400 * 1000000000 + nsecs.toNat := by
  have last := secs.toInt_lt
  have nonneg : secs ≥ 0 := by
    show (0 : Int64) ≤ secs
    rw [Int64.le_iff_toInt_le]
    exact first
  unfold unixToDatetime
  simp only [if_pos nonneg]
  have dayIs : (secs / 86400).toInt = secs.toInt / 86400 := int64_div rfl (by rfl) first (by omega)
  have remIs : (secs % 86400).toInt = secs.toInt % 86400 := by
    rw [Int64.toInt_mod, Int.tmod_eq_emod_of_nonneg first]
    rfl
  have remNonneg : (0 : Int64) ≤ secs % 86400 := by
    rw [Int64.le_iff_toInt_le, remIs]
    show (0 : Int) ≤ _
    omega
  have remNat : ((secs % 86400).toUInt64.toNat : Int) = secs.toInt % 86400 := by
    rw [Int64.toNat_toUInt64_of_le remNonneg, ← Int64.toInt_eq_toNatClampNeg remNonneg, remIs]
  constructor
  · have cut : (secs.toInt / 86400).bmod (2 ^ 32 : Nat) % (2 ^ 32 : Nat) =
        secs.toInt / 86400 % (2 ^ 32 : Nat) := Int.bmod_emod
    rw [toNat_toUInt32, Int64.toInt_toInt32, dayIs]
    exact cut
  · rw [UInt64.toNat_add, UInt64.toNat_mul, UInt32.toNat_toUInt64]
    simp only [UInt64.reduceToNat]
    omega

/-- **A moment comes back from its day and nanoseconds** exactly when it is not before the
epoch and its day number is one of 32 bits. -/
theorem moment_iff {secs : Int64} {nsecs : UInt32} (nanos : nsecs.toNat < 1000000000) :
    datetimeToUnix (unixToDatetime secs nsecs).1 (unixToDatetime secs nsecs).2 = (secs, nsecs) ↔
      0 ≤ secs.toInt ∧ secs.toInt / 86400 < 4294967296 := by
  have back := datetimeToUnix_toInt (unixToDatetime secs nsecs).1 (unixToDatetime secs nsecs).2
  constructor
  · intro same
    rw [same] at back
    dsimp only at back
    have first : 0 ≤ secs.toInt := by omega
    obtain ⟨day, nano⟩ := unixToDatetime_toNat first nanos
    exact ⟨first, by omega⟩
  · rintro ⟨first, fits⟩
    obtain ⟨day, nano⟩ := unixToDatetime_toNat first nanos
    refine Prod.ext (Int64.toInt_inj.mp ?_) (UInt32.toNat_inj.mp ?_)
    · show _ = secs.toInt
      omega
    · dsimp only [datetimeToUnix]
      rw [UInt64.toNat_toUInt32, UInt64.toNat_mod]
      simp only [UInt64.reduceToNat]
      omega

/-! ## Temporal values -/

/-- A valid date from the year one on, a valid time of day, or a moment with a fraction of a
second. -/
def IsTemporal : Value → Prop
  | .date year month day => 1 ≤ year.toInt ∧ Gregorian.Valid year.toInt month.toNat day.toNat
  | .time hour min sec nano =>
    hour.toNat < 24 ∧ min.toNat < 60 ∧ sec.toNat < 60 ∧ nano.toNat < 1000000000
  | .dateTime _ nsecs => nsecs.toNat < 1000000000
  | _ => False

/-- What is encoded is decoded to the same value. -/
def Survives (codec : GeoCodec) (value : Value) : Prop :=
  (encodeValue codec value >>= decodeValue codec) = .ok value

/-- The conversion that the value is written with is undone by the one it is read with. -/
def Converts : Value → Prop
  | .date year month day => daysToYmd (ymdToDays year month day) = (year, month, day)
  | .time hour min sec nano => nanosToHmsn (hmsnToNanos hour min sec nano) = (hour, min, sec, nano)
  | .dateTime secs nsecs =>
    datetimeToUnix (unixToDatetime secs nsecs).1 (unixToDatetime secs nsecs).2 = (secs, nsecs)
  | _ => True

/-- A time of day, or a moment from the epoch on whose day number has 32 bits; no date. -/
def FromEpoch : Value → Prop
  | .time .. => True
  | .dateTime secs _ => 0 ≤ secs.toInt ∧ secs.toInt / 86400 < 4294967296
  | _ => False

section Survives

variable {codec : GeoCodec}

theorem decodeExt_date (days : UInt32) : decodeExt codec extDate (be 4 days.toNat) =
    .ok (.date (daysToYmd days).1 (daysToYmd days).2.1 (daysToYmd days).2.2) := by
  have size := length_be 4 days.toNat
  rw [decodeExt, if_neg (by decide), if_neg (by decide), if_neg (by decide), if_neg (by decide),
    if_neg (by decide), if_pos rfl, if_pos (by omega), List.take_of_length_le (by omega),
    ofBe_be_of_lt days.toNat_lt, UInt32.ofNat_toNat]

theorem decodeExt_time (nanos : UInt64) : decodeExt codec extTime (be 8 nanos.toNat) =
    .ok (.time (nanosToHmsn nanos).1 (nanosToHmsn nanos).2.1 (nanosToHmsn nanos).2.2.1
      (nanosToHmsn nanos).2.2.2) := by
  have size := length_be 8 nanos.toNat
  rw [decodeExt, if_neg (by decide), if_neg (by decide), if_neg (by decide), if_neg (by decide),
    if_neg (by decide), if_neg (by decide), if_pos rfl, if_pos (by omega),
    List.take_of_length_le (by omega), ofBe_be_of_lt nanos.toNat_lt, UInt64.ofNat_toNat]

theorem decodeExt_dateTime (days : UInt32) (nanos : UInt64) :
    decodeExt codec extDateTime (be 4 days.toNat ++ be 8 nanos.toNat) =
      .ok (.dateTime (datetimeToUnix days nanos).1 (datetimeToUnix days nanos).2) := by
  have dayBytes := length_be 4 days.toNat
  have nanoBytes := length_be 8 nanos.toNat
  have size : (be 4 days.toNat ++ be 8 nanos.toNat).length = 12 := by simp
  have front : (be 4 days.toNat ++ be 8 nanos.toNat).take 4 = be 4 days.toNat := List.take_left' dayBytes
  have back : (be 4 days.toNat ++ be 8 nanos.toNat).drop 4 = be 8 nanos.toNat := List.drop_left' dayBytes
  rw [decodeExt, if_neg (by decide), if_neg (by decide), if_neg (by decide), if_neg (by decide),
    if_neg (by decide), if_neg (by decide), if_neg (by decide), if_pos rfl, if_pos (by omega), front,
    back, List.take_of_length_le (by omega), ofBe_be_of_lt days.toNat_lt, ofBe_be_of_lt nanos.toNat_lt,
    UInt32.ofNat_toNat, UInt64.ofNat_toNat]

/-- What is written as an extension is decoded from it. -/
theorem decoded_of_ext {value back : Value} {ty : Int8} {data : Bytes}
    (written : encodeValue codec value = .ok (writeExt ty data))
    (decoded : decodeExt codec ty data = .ok back) (short : data.length < 4294967296) :
    (encodeValue codec value >>= decodeValue codec) = .ok back := by
  rw [written, Outcome.ok_bind]
  exact (reads_writeExt decoded short).decoded

/-- **A temporal value survives exactly when its conversion is undone.** -/
theorem survives_iff_converts {value : Value} (temporal : IsTemporal value) :
    Survives codec value ↔ Converts value := by
  cases value with
  | date year month day =>
    rw [Survives, decoded_of_ext rfl (decodeExt_date (ymdToDays year month day)) (by simp)]
    simp [Converts, Prod.ext_iff]
  | time hour min sec nano =>
    rw [Survives, decoded_of_ext rfl (decodeExt_time (hmsnToNanos hour min sec nano)) (by simp)]
    simp [Converts, Prod.ext_iff]
  | dateTime secs nsecs =>
    rw [Survives, decoded_of_ext rfl (decodeExt_dateTime (unixToDatetime secs nsecs).1
      (unixToDatetime secs nsecs).2) (by simp)]
    simp [Converts, Prod.ext_iff]
  | _ => exact temporal.elim

end Survives

/-- **No valid date comes back**: the one that is read has the number that was written, which
is one too high. -/
theorem date_not_converted {year : Int32} {month day : UInt8} (first : 1 ≤ year.toInt)
    (valid : Gregorian.Valid year.toInt month.toNat day.toNat) :
    daysToYmd (ymdToDays year month day) ≠ (year, month, day) := by
  intro same
  have months := valid.first_month
  have lastMonth := valid.last_month
  have lastDay := valid.day_le
  have written := @ymdToDays_toNat year month day first (by omega) (by omega)
  have read := dayNumber_daysToYmd (ymdToDays year month day)
  rw [same, written] at read
  dsimp only at read
  omega

/-- **Temporal values survive encoding**, and their conversions are undone, exactly for times
of day and for moments from the epoch on. -/
theorem temporal_survives_iff (codec : GeoCodec) {value : Value} (temporal : IsTemporal value) :
    Survives codec value ∧ Converts value ↔ FromEpoch value := by
  rw [survives_iff_converts temporal, and_self]
  cases value with
  | date year month day =>
    exact iff_of_false (date_not_converted temporal.1 temporal.2) id
  | time hour min sec nano =>
    obtain ⟨hours, mins, secs, nanos⟩ := temporal
    exact iff_of_true (nanosToHmsn_hmsnToNanos hours mins secs nanos) trivial
  | dateTime secs nsecs => exact moment_iff temporal
  | _ => exact temporal.elim

theorem temporal_survives_iff_sample : IsTemporal (.time 23 59 59 999999999) ∧
    (Survives pointCodec (.time 23 59 59 999999999) ∧ Converts (.time 23 59 59 999999999) ↔
      FromEpoch (.time 23 59 59 999999999)) := by
  have temporal : IsTemporal (.time 23 59 59 999999999) := by
    refine ⟨?_, ?_, ?_, ?_⟩ <;> decide
  exact ⟨temporal, temporal_survives_iff pointCodec temporal⟩

/-- The first day of 1970 comes back as the second, and the second before it as one far in
the future. -/
theorem temporal_shifted :
    (IsTemporal (.date 1970 1 1) ∧ daysToYmd (ymdToDays 1970 1 1) = (1970, 1, 2) ∧
      ¬ Survives pointCodec (.date 1970 1 1)) ∧
    IsTemporal (.dateTime (-1) 0) ∧
      datetimeToUnix (unixToDatetime (-1) 0).1 (unixToDatetime (-1) 0).2 = (371085174374399, 0) ∧
      ¬ Survives pointCodec (.dateTime (-1) 0) := by
  have date : IsTemporal (.date 1970 1 1) := ⟨by decide, by decide, by decide, by decide, by decide⟩
  have moment : IsTemporal (.dateTime (-1) 0) := by
    show _ < _
    decide
  refine ⟨⟨date, by decide +kernel, ?_⟩, moment, by decide +kernel, ?_⟩
  · rw [survives_iff_converts date]
    show ¬ daysToYmd (ymdToDays 1970 1 1) = (1970, 1, 1)
    decide +kernel
  · rw [survives_iff_converts moment]
    show ¬ datetimeToUnix (unixToDatetime (-1) 0).1 (unixToDatetime (-1) 0).2 = (-1, 0)
    decide +kernel

end NovaRuntime.Object
