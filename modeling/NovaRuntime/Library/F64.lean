/-
# NovaRuntime.Library.F64 — the 64-bit floating-point format, by its bits

A value is its bit pattern: a sign, eleven bits of exponent, 52 of fraction. Ordering
by sign and magnitude is the numerical order of the values that are numbers, and the
two zeros are one value in it (`F64.key`). An integer is rounded to the nearest value, and
to the even one of two (`F64.ofInt`); a float that is an integer equals it rounded
(`F64.eq_ofInt`). Other arithmetic is not here: a program that rounds takes it as a parameter.
-/
import Mathlib.Algebra.Group.Nat.Defs
import Mathlib.Order.Basic
import Mathlib.Order.Defs.LinearOrder

namespace NovaRuntime.Library

set_option autoImplicit false

structure F64 where
  bits : UInt64
  deriving DecidableEq

namespace F64

/-- Exponent and fraction. -/
def magnitude (x : F64) : Nat := x.bits.toNat % 2 ^ 63

/-- The magnitude of the infinities. -/
def infinite : Nat := 0x7FF0000000000000

def isNaN (x : F64) : Bool := infinite < x.magnitude

def isFinite (x : F64) : Bool := x.magnitude < infinite

/-- Where a number stands in the numerical order. -/
def key (x : F64) : Int := if x.bits.toNat < 2 ^ 63 then x.magnitude else -(x.magnitude : Int)

/-- `==` on floats: a NaN equals nothing, the zeros equal each other. -/
def eq (a b : F64) : Bool := !a.isNaN && !b.isNaN && a.key == b.key

def lt (a b : F64) : Bool := !a.isNaN && !b.isNaN && a.key < b.key

def le (a b : F64) : Bool := !a.isNaN && !b.isNaN && a.key ≤ b.key

/-- `partial_cmp` on floats. -/
def partialCmp (a b : F64) : Option Ordering :=
  if a.isNaN || b.isNaN then none else some (compare a.key b.key)

/-- Where a value stands in the total order, the zeros and the NaNs included. -/
def totalKey (x : F64) : Int := if x.bits.toNat < 2 ^ 63 then x.magnitude else -(x.magnitude : Int) - 1

/-- Negation flips the sign bit. -/
def neg (x : F64) : F64 := ⟨x.bits ^^^ 0x8000000000000000⟩

/-- The value of `0.0`. -/
def zero : F64 := ⟨0⟩

example : (neg zero).eq zero = true := by decide

theorem eq_comm (a b : F64) : a.eq b = b.eq a := by
  simp only [eq, Bool.and_comm (!a.isNaN), BEq.comm (a := a.key)]

theorem eq_trans {a b c : F64} (first : a.eq b = true) (second : b.eq c = true) : a.eq c = true := by
  simp only [eq, Bool.and_eq_true, beq_iff_eq] at *
  exact ⟨⟨first.1.1, second.1.2⟩, first.2.trans second.2⟩

theorem partialCmp_eq_some_eq {a b : F64} : partialCmp a b = some .eq ↔ a.eq b = true := by
  unfold partialCmp eq
  cases a.isNaN <;> cases b.isNaN <;> simp

theorem isNaN_of_isFinite {x : F64} (finite : x.isFinite = true) : x.isNaN = false := by
  rw [isFinite, decide_eq_true_eq] at finite
  rw [isNaN, decide_eq_false_iff_not]
  omega

/-- The value of a finite number, times `2 ^ 1074`. -/
def scaled (x : F64) : Int :=
  let exponent := x.magnitude / 2 ^ 52
  let fraction := x.magnitude % 2 ^ 52
  let size : Nat := if exponent = 0 then fraction else (2 ^ 52 + fraction) * 2 ^ (exponent - 1)
  if x.bits.toNat < 2 ^ 63 then size else -(size : Int)

/-- The value is exactly an integer. -/
def IsInt (x : F64) (n : Int) : Prop := x.isFinite = true ∧ x.scaled = n * ((2 ^ 1074 : Nat) : Int)

/-- The value is greater than an integer. -/
def exceeds (x : F64) (n : Int) : Bool := n * ((2 ^ 1074 : Nat) : Int) < x.scaled

/-! ## Integers -/

/-- A quotient, rounded by what is left of `2 ^ shift`. -/
def roundEven (n shift : Nat) : Nat :=
  let q := n / 2 ^ shift
  let r := n % 2 ^ shift
  if 2 ^ shift < 2 * r ∨ 2 * r = 2 ^ shift ∧ q % 2 = 1 then q + 1 else q

/-- The 53 bits from the highest one on, rounded. -/
def significand (n : Nat) : Nat :=
  if n.log2 ≤ 52 then n * 2 ^ (52 - n.log2) else roundEven n (n.log2 - 52)

/-- A natural number below `2 ^ 1023`. The highest bit of the significand adds one to the
exponent, and so does a carry. -/
def ofNat (n : Nat) : F64 :=
  if n = 0 then zero else ⟨.ofNat ((n.log2 + 1022) * 2 ^ 52 + significand n)⟩

def ofInt (n : Int) : F64 := if 0 ≤ n then ofNat n.toNat else (ofNat (-n).toNat).neg

example : ofInt (-3) = ⟨0xC008000000000000⟩ := by decide
example : ofNat 18446744073709551615 = ⟨0x43F0000000000000⟩ := by decide
example : (ofInt 3).exceeds 2 = true ∧ (ofInt 3).exceeds 3 = false := by decide +kernel

theorem roundEven_le (n shift : Nat) : roundEven n shift ≤ n / 2 ^ shift + 1 := by
  dsimp only [roundEven]
  split <;> omega

theorem significand_le (n : Nat) : significand n ≤ 2 ^ 53 := by
  have below : n < 2 ^ (n.log2 + 1) := Nat.lt_log2_self
  unfold significand
  split
  next small =>
    calc n * 2 ^ (52 - n.log2) ≤ 2 ^ (n.log2 + 1) * 2 ^ (52 - n.log2) :=
          Nat.mul_le_mul_right _ (Nat.le_of_lt below)
      _ = 2 ^ 53 := by
          rw [← Nat.pow_add]
          congr 1
          omega
  next large =>
    have quotient : n / 2 ^ (n.log2 - 52) < 2 ^ 53 := by
      rw [Nat.div_lt_iff_lt_mul (Nat.two_pow_pos _), ← Nat.pow_add]
      rwa [show 53 + (n.log2 - 52) = n.log2 + 1 by omega]
    have rounded := roundEven_le n (n.log2 - 52)
    omega

/-- An integer of 64 bits is rounded to a finite value. -/
theorem isFinite_ofNat {n : Nat} (bounded : n < 2 ^ 64) : (ofNat n).isFinite = true := by
  unfold ofNat
  split
  · decide
  next nonzero =>
    have exponent : n.log2 < 64 := (Nat.log2_lt nonzero).mpr bounded
    have fraction := significand_le n
    have size : (n.log2 + 1022) * 2 ^ 52 + significand n < infinite := by
      unfold infinite
      omega
    have bits : (n.log2 + 1022) * 2 ^ 52 + significand n < 2 ^ 63 := by
      unfold infinite at size
      omega
    rw [isFinite, decide_eq_true_eq, magnitude, UInt64.toNat_ofNat',
      Nat.mod_eq_of_lt (show _ < 2 ^ 64 by omega), Nat.mod_eq_of_lt bits]
    exact size

theorem magnitude_neg (x : F64) : x.neg.magnitude = x.magnitude := by
  rw [magnitude, magnitude, neg, UInt64.toNat_xor, Nat.xor_mod_two_pow]
  simp

theorem isFinite_neg (x : F64) : x.neg.isFinite = x.isFinite := by
  rw [isFinite, isFinite, magnitude_neg]

theorem isFinite_ofInt {n : Int} (bounded : n.natAbs < 2 ^ 64) : (ofInt n).isFinite = true := by
  unfold ofInt
  split
  · exact isFinite_ofNat (by omega)
  · rw [isFinite_neg]
    exact isFinite_ofNat (by omega)

/-! ## Numbers that are integers -/

/-- The size of a finite number, times `2 ^ 1074`. -/
def size (magnitude : Nat) : Nat :=
  if magnitude / 2 ^ 52 = 0 then magnitude % 2 ^ 52
  else (2 ^ 52 + magnitude % 2 ^ 52) * 2 ^ (magnitude / 2 ^ 52 - 1)

theorem scaled_eq (x : F64) :
    x.scaled = if x.bits.toNat < 2 ^ 63 then (size x.magnitude : Int) else -(size x.magnitude : Int) := rfl

theorem size_zero : size 0 = 0 := by decide

theorem magnitude_congr {a b : F64} (same : a.eq b = true) : a.magnitude = b.magnitude := by
  simp only [eq, Bool.and_eq_true, beq_iff_eq] at same
  have keys : a.key = b.key := same.2
  unfold key at keys
  split at keys <;> split at keys <;> omega

/-- Equal floats are the same number. -/
theorem scaled_congr {a b : F64} (same : a.eq b = true) : a.scaled = b.scaled := by
  have sizes := magnitude_congr same
  simp only [eq, Bool.and_eq_true, beq_iff_eq] at same
  have keys : a.key = b.key := same.2
  rw [scaled_eq, scaled_eq, sizes]
  unfold key at keys
  by_cases left : a.bits.toNat < 2 ^ 63 <;> by_cases right : b.bits.toNat < 2 ^ 63
  · rw [if_pos left, if_pos right]
  · rw [if_pos left, if_neg right] at *
    have zero : b.magnitude = 0 := by omega
    rw [zero, size_zero, Int.natCast_zero, Int.neg_zero]
  · rw [if_neg left, if_pos right] at *
    have zero : b.magnitude = 0 := by omega
    rw [zero, size_zero, Int.natCast_zero, Int.neg_zero]
  · rw [if_neg left, if_neg right]

theorem isInt_congr {a b : F64} (same : a.eq b = true) (n : Int) : a.IsInt n ↔ b.IsInt n := by
  rw [IsInt, IsInt, isFinite, isFinite, magnitude_congr same, scaled_congr same]

/-- Rounding an integer that has room keeps it. -/
theorem significand_exact {n fraction : Nat} (small : fraction < 2 ^ 52) {shift : Nat}
    (whole : n * 2 ^ 52 = (2 ^ 52 + fraction) * 2 ^ shift) : n.log2 = shift ∧ significand n = 2 ^ 52 + fraction := by
  have positive : 0 < 2 ^ shift := Nat.two_pow_pos shift
  have low : 2 ^ shift ≤ n := by
    refine Nat.le_of_mul_le_mul_right ?_ (Nat.two_pow_pos 52)
    rw [whole, Nat.mul_comm]
    exact Nat.mul_le_mul_right _ (Nat.le_add_right _ _)
  have high : n < 2 ^ (shift + 1) := by
    refine Nat.lt_of_mul_lt_mul_right (a := 2 ^ 52) ?_
    rw [whole, Nat.pow_succ 2 shift, Nat.mul_assoc, Nat.mul_comm (2 ^ shift)]
    exact Nat.mul_lt_mul_of_pos_right (show 2 ^ 52 + fraction < 2 * 2 ^ 52 by omega) positive
  have log : n.log2 = shift := by
    have nonzero : n ≠ 0 := by omega
    exact Nat.le_antisymm (Nat.lt_succ_iff.mp ((Nat.log2_lt nonzero).mpr high)) ((Nat.le_log2 nonzero).mpr low)
  refine ⟨log, ?_⟩
  unfold significand
  rw [log]
  split
  next few =>
    have split : 2 ^ 52 = 2 ^ (52 - shift) * 2 ^ shift := by
      rw [← Nat.pow_add]
      congr 1
      omega
    refine Nat.eq_of_mul_eq_mul_right positive ?_
    rw [Nat.mul_assoc, ← split, whole]
  next many =>
    have split : 2 ^ shift = 2 ^ (shift - 52) * 2 ^ 52 := by
      rw [← Nat.pow_add]
      congr 1
      omega
    have exactly : n = (2 ^ 52 + fraction) * 2 ^ (shift - 52) := by
      refine Nat.eq_of_mul_eq_mul_right (Nat.two_pow_pos 52) ?_
      rw [whole, split, Nat.mul_assoc]
    have room : 0 < 2 ^ (shift - 52) := Nat.two_pow_pos _
    simp only [roundEven, exactly, Nat.mul_div_cancel _ room, Nat.mul_mod_left]
    rw [if_neg]
    omega

/-- A number that is an integer has the bits of that integer. -/
theorem magnitude_ofNat {m n unit : Nat} (unit_is : unit = 1074) (finite : m < infinite)
    (whole : size m = n * 2 ^ unit) : (ofNat n).bits.toNat = m := by
  unfold size at whole
  have fraction : m % 2 ^ 52 < 2 ^ 52 := Nat.mod_lt _ (by decide)
  split at whole
  next subnormal =>
    have few : n * 2 ^ unit < 1 * 2 ^ unit :=
      calc n * 2 ^ unit = m % 2 ^ 52 := whole.symm
        _ < 2 ^ 52 := fraction
        _ ≤ 2 ^ unit := Nat.pow_le_pow_right (by decide) (by omega)
        _ = 1 * 2 ^ unit := (Nat.one_mul _).symm
    have none : n = 0 := Nat.lt_one_iff.mp (Nat.lt_of_mul_lt_mul_right few)
    subst none
    rw [Nat.zero_mul] at whole
    have zero : m = 0 := by omega
    subst zero
    decide
  next normal =>
    have some : n ≠ 0 := by
      rintro rfl
      have : 0 < (2 ^ 52 + m % 2 ^ 52) * 2 ^ (m / 2 ^ 52 - 1) :=
        Nat.mul_pos (by omega) (Nat.two_pow_pos _)
      rw [whole, Nat.zero_mul] at this
      exact absurd this (Nat.lt_irrefl 0)
    have exponent : unit ≤ m / 2 ^ 52 - 1 + 52 := by
      by_contra below
      refine absurd whole (Nat.ne_of_lt ?_)
      calc (2 ^ 52 + m % 2 ^ 52) * 2 ^ (m / 2 ^ 52 - 1)
          < 2 ^ 53 * 2 ^ (m / 2 ^ 52 - 1) := Nat.mul_lt_mul_of_pos_right (by omega) (Nat.two_pow_pos _)
        _ = 2 ^ (53 + (m / 2 ^ 52 - 1)) := (Nat.pow_add 2 53 _).symm
        _ ≤ 2 ^ unit := Nat.pow_le_pow_right (by decide) (by omega)
        _ ≤ n * 2 ^ unit := Nat.le_mul_of_pos_left _ (Nat.pos_of_ne_zero some)
    have shifted : n * 2 ^ 52 = (2 ^ 52 + m % 2 ^ 52) * 2 ^ (m / 2 ^ 52 - 1 - (unit - 52)) := by
      refine Nat.eq_of_mul_eq_mul_right (Nat.two_pow_pos (unit - 52)) ?_
      rw [Nat.mul_assoc, Nat.mul_assoc, ← Nat.pow_add, ← Nat.pow_add,
        show m / 2 ^ 52 - 1 - (unit - 52) + (unit - 52) = m / 2 ^ 52 - 1 by omega, whole,
        show 52 + (unit - 52) = unit by omega]
    obtain ⟨log, bits⟩ := significand_exact fraction shifted
    rw [ofNat, if_neg some, log, bits, UInt64.toNat_ofNat']
    unfold infinite at finite
    omega

theorem key_ofNat {m n unit : Nat} (unit_is : unit = 1074) (finite : m < infinite)
    (whole : size m = n * 2 ^ unit) : (ofNat n).key = m := by
  have bits := magnitude_ofNat unit_is finite whole
  unfold infinite at finite
  rw [key, magnitude, bits, if_pos (by omega), Nat.mod_eq_of_lt (by omega)]

theorem key_neg (x : F64) : x.neg.key = -x.key := by
  have same : x.neg.magnitude = x.magnitude := magnitude_neg x
  have sign : x.neg.bits.toNat < 2 ^ 63 ↔ ¬ x.bits.toNat < 2 ^ 63 := by
    have flipped : x.neg.bits.toNat / 2 ^ 63 = (x.bits.toNat / 2 ^ 63) ^^^ 1 := by
      rw [neg, UInt64.toNat_xor, Nat.xor_div_two_pow]
      rfl
    have bound := x.bits.toNat_lt
    have : x.bits.toNat / 2 ^ 63 = 0 ∨ x.bits.toNat / 2 ^ 63 = 1 := by omega
    rcases this with low | high
    · rw [low, Nat.zero_xor] at flipped
      omega
    · rw [high, Nat.xor_self] at flipped
      omega
  unfold key
  rw [same]
  by_cases positive : x.bits.toNat < 2 ^ 63
  · rw [if_neg (fun below => sign.mp below positive), if_pos positive]
  · rw [if_pos (sign.mpr positive), if_neg positive, Int.neg_neg]

/-- A float that is an integer equals the rounded integer. -/
theorem eq_ofInt {x : F64} {n : Int} (whole : x.IsInt n) (bounded : n.natAbs < 2 ^ 64) :
    (ofInt n).eq x = true := by
  obtain ⟨finite, scaled⟩ := whole
  have number := isNaN_of_isFinite finite
  have number' := isNaN_of_isFinite (isFinite_ofInt bounded)
  rw [eq, number, number', Bool.not_false, Bool.true_and, Bool.true_and, beq_iff_eq]
  rw [isFinite, decide_eq_true_eq] at finite
  obtain ⟨unit, unit_is⟩ : ∃ unit, unit = 1074 := ⟨_, rfl⟩
  rw [scaled_eq, ← unit_is] at scaled
  have least : (0 : Int) < ((2 ^ unit : Nat) : Int) := Int.natCast_pos.mpr (Nat.two_pow_pos unit)
  by_cases natural : 0 ≤ n
  · have nonneg : 0 ≤ n * ((2 ^ unit : Nat) : Int) := Int.mul_nonneg natural (Int.le_of_lt least)
    have size_is : size x.magnitude = n.toNat * 2 ^ unit := by
      refine Int.ofNat.inj ?_
      rw [Int.ofNat_eq_natCast, Int.ofNat_eq_natCast, Int.natCast_mul, Int.toNat_of_nonneg natural]
      split at scaled <;> omega
    rw [ofInt, if_pos natural, key_ofNat unit_is finite size_is, key]
    split
    · rfl
    next signed =>
      -- only the negative zero
      rw [if_neg signed] at scaled
      have none : n.toNat * 2 ^ unit = 0 * 2 ^ unit := by omega
      have zero := key_ofNat unit_is finite size_is
      rw [Nat.eq_of_mul_eq_mul_right (Nat.two_pow_pos unit) none] at zero
      have : (ofNat 0).key = 0 := by decide
      omega
  · have negative : n * ((2 ^ unit : Nat) : Int) < 0 := Int.mul_neg_of_neg_of_pos (Int.not_le.mp natural) least
    have size_is : size x.magnitude = (-n).toNat * 2 ^ unit := by
      refine Int.ofNat.inj ?_
      rw [Int.ofNat_eq_natCast, Int.ofNat_eq_natCast, Int.natCast_mul, Int.toNat_of_nonneg (by omega),
        Int.neg_mul]
      split at scaled <;> omega
    rw [ofInt, if_neg natural, key_neg, key_ofNat unit_is finite size_is, key]
    split at scaled
    · omega
    · rw [if_neg (by assumption)]

end F64
end NovaRuntime.Library
