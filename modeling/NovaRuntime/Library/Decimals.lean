/-
# NovaRuntime.Library.Decimals — numbers of a fixed width in the order of their texts

A number written with as many decimal digits as the others, with zeros in front, is below another exactly if its
text is (`decimals_lt_iff`), also when something follows (`append_lt_append_iff`). `utf8_padded` leads from the
digits a number is displayed with to these.
-/
import NovaRuntime.Library.Text
import Mathlib.Data.Nat.Init

namespace NovaRuntime.Library

set_option autoImplicit false

/-- The lowest digits of a number, highest first. -/
def decimals : Nat → Nat → Bytes
  | 0, _ => []
  | width + 1, n => decimals width (n / 10) ++ [UInt8.ofNat (48 + n % 10)]

@[simp] theorem length_decimals (width n : Nat) : (decimals width n).length = width := by
  induction width generalizing n with
  | zero => rfl
  | succ width ih => rw [decimals, List.length_append, ih, List.length_singleton]

/-- Texts of one length are compared before what follows them. -/
theorem append_lt_append_iff {a b x y : Bytes} (same : a.length = b.length) :
    a ++ x < b ++ y ↔ a < b ∨ a = b ∧ x < y := by
  induction a generalizing b with
  | nil =>
    obtain rfl := List.length_eq_zero_iff.mp same.symm
    simp
  | cons d a ih =>
    cases b with
    | nil => cases same
    | cons e b =>
      rw [List.length_cons, List.length_cons, Nat.add_right_cancel_iff] at same
      rw [List.cons_append, List.cons_append, List.cons_lt_cons_iff, List.cons_lt_cons_iff, ih same]
      constructor
      · rintro (less | ⟨rfl, less | ⟨rfl, less⟩⟩)
        · exact .inl (.inl less)
        · exact .inl (.inr ⟨rfl, less⟩)
        · exact .inr ⟨rfl, less⟩
      · rintro ((less | ⟨rfl, less⟩) | ⟨equal, less⟩)
        · exact .inl less
        · exact .inr ⟨rfl, .inl less⟩
        · obtain ⟨rfl, rfl⟩ := List.cons.inj equal
          exact .inr ⟨rfl, .inr ⟨rfl, less⟩⟩

theorem digit_lt_iff {d e : Nat} (small : d < 10) (small' : e < 10) :
    UInt8.ofNat (48 + d) < UInt8.ofNat (48 + e) ↔ d < e := by
  rw [UInt8.lt_iff_toNat_lt, UInt8.toNat_ofNat', UInt8.toNat_ofNat']
  omega

theorem decimals_inj {width m n : Nat} (fits : m < 10 ^ width) (fits' : n < 10 ^ width) :
    decimals width m = decimals width n ↔ m = n := by
  refine ⟨fun same => ?_, fun same => by rw [same]⟩
  induction width generalizing m n with
  | zero =>
    rw [Nat.pow_zero] at fits fits'
    omega
  | succ width ih =>
    rw [Nat.pow_succ] at fits fits'
    obtain ⟨front, last⟩ := List.append_inj' same rfl
    have high := ih (by omega) (by omega) front
    have low := congrArg UInt8.toNat (List.cons.inj last).1
    rw [UInt8.toNat_ofNat', UInt8.toNat_ofNat'] at low
    omega

/-- **The order of the texts is that of the numbers.** -/
theorem decimals_lt_iff {width m n : Nat} (fits : m < 10 ^ width) (fits' : n < 10 ^ width) :
    decimals width m < decimals width n ↔ m < n := by
  induction width generalizing m n with
  | zero =>
    rw [Nat.pow_zero] at fits fits'
    simp only [decimals, lt_irrefl, false_iff]
    omega
  | succ width ih =>
    rw [Nat.pow_succ] at fits fits'
    have high : m / 10 < 10 ^ width := by omega
    have high' : n / 10 < 10 ^ width := by omega
    have last : [UInt8.ofNat (48 + m % 10)] < [UInt8.ofNat (48 + n % 10)] ↔ m % 10 < n % 10 := by
      rw [List.cons_lt_cons_iff, digit_lt_iff (Nat.mod_lt _ (by decide)) (Nat.mod_lt _ (by decide))]
      simp
    rw [decimals, decimals, append_lt_append_iff (by simp), ih high high', decimals_inj high high', last]
    omega

/-! ## Displayed numbers -/

theorem utf8_digitChar {d : Nat} (small : d < 10) : utf8 [d.digitChar] = [UInt8.ofNat (48 + d)] := by
  revert d
  decide

theorem utf8_zeros (width : Nat) : utf8 (List.replicate width '0') = decimals width 0 := by
  induction width with
  | zero => rfl
  | succ width ih =>
    rw [List.replicate_succ', utf8_append, ih, decimals]
    rfl

/-- Displayed digits behind zeros. -/
theorem utf8_padded {width n : Nat} (some : 0 < width) (fits : n < 10 ^ width) :
    utf8 (List.replicate (width - (Nat.toDigits 10 n).length) '0' ++ Nat.toDigits 10 n) = decimals width n := by
  induction width generalizing n with
  | zero => exact absurd some (Nat.lt_irrefl 0)
  | succ width ih =>
    rw [Nat.toDigits_eq_if (by decide), decimals]
    split
    next small =>
      have high : n / 10 = 0 := by omega
      have low : n % 10 = n := by omega
      rw [List.length_singleton, Nat.add_sub_cancel, utf8_append, utf8_zeros, utf8_digitChar small, high, low]
    next large =>
      rw [Nat.pow_succ] at fits
      have more : 0 < width := by
        rcases Nat.eq_zero_or_pos width with rfl | more
        · rw [Nat.pow_zero] at fits
          omega
        · exact more
      rw [List.length_append, List.length_singleton, Nat.add_sub_add_right, ← List.append_assoc, utf8_append,
        ih more (by omega), utf8_digitChar (Nat.mod_lt n (by decide))]

end NovaRuntime.Library
