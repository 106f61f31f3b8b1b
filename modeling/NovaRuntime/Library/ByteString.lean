/-
# NovaRuntime.Library.ByteString — byte strings, their order, little-endian words

A byte string is a `List UInt8`, ordered lexicographically. `byteCmp` is that
order as a comparison function, the one the sorted maps of the development are
built on. `le w n` writes the low `w` bytes of `n`, least significant first, so
a value that does not fit is cut modulo `256 ^ w`, exactly as an integer cast
before the write does; `ofLe` reads the bytes back (`ofLe_le`).
-/
import Mathlib.Data.List.Lex
import Mathlib.Tactic.Linarith

namespace NovaRuntime.Library

set_option autoImplicit false

instance byteLinearOrder : LinearOrder UInt8 where
  le_refl := UInt8.le_refl
  le_trans _ _ _ := UInt8.le_trans
  le_antisymm _ _ := UInt8.le_antisymm
  le_total := UInt8.le_total
  lt_iff_le_not_ge a b := by
    rw [UInt8.lt_iff_toNat_lt, UInt8.le_iff_toNat_le, UInt8.le_iff_toNat_le]
    omega
  toDecidableLE := inferInstance
  toDecidableLT := inferInstance
  toDecidableEq := inferInstance

abbrev Bytes := List UInt8

-- named, so that the tests of membership of all modules carry the same proof
instance lawfulBEq_bytes : LawfulBEq Bytes := inferInstance

instance lawfulBEq_chars : LawfulBEq (List Char) := inferInstance

instance lawfulBEq_word (w : Nat) : LawfulBEq (BitVec w) := inferInstance

/-! ## The order -/

/-- The lexicographic comparison of two byte strings. -/
def byteCmp (a b : Bytes) : Ordering := compareOfLessAndEq a b

@[simp] theorem byteCmp_lt {a b : Bytes} : byteCmp a b = .lt ↔ a < b := by
  unfold byteCmp compareOfLessAndEq
  split
  · simpa
  · split <;> simp_all

@[simp] theorem byteCmp_eq {a b : Bytes} : byteCmp a b = .eq ↔ a = b := by
  unfold byteCmp compareOfLessAndEq
  split
  · rename_i less
    simp [ne_of_lt less]
  · split <;> simp_all

theorem byteCmp_gt {a b : Bytes} : byteCmp a b = .gt ↔ b < a := by
  unfold byteCmp compareOfLessAndEq
  split
  · rename_i less
    simp [less.le]
  · rename_i notLess
    split
    · rename_i same
      simp [same]
    · rename_i differ
      simp only [true_iff]
      exact lt_of_le_of_ne (not_lt.mp notLess) (Ne.symm differ)

instance : Std.OrientedCmp byteCmp where
  eq_swap {a b} := by
    rcases lt_trichotomy a b with less | rfl | greater
    · rw [byteCmp_lt.mpr less, byteCmp_gt.mpr less]; rfl
    · rw [byteCmp_eq.mpr rfl]; rfl
    · rw [byteCmp_gt.mpr greater, byteCmp_lt.mpr greater]; rfl

instance : Std.TransCmp byteCmp where
  isLE_trans {a b c} ab bc := by
    simp only [Ordering.isLE_iff_ne_gt, byteCmp_gt, not_lt] at *
    exact ab.trans bc

instance : Std.LawfulEqCmp byteCmp where
  eq_of_compare := byteCmp_eq.mp

/-! ## Little-endian words -/

/-- The low `w` bytes of `n`, least significant first. -/
def le : Nat → Nat → Bytes
  | 0, _ => []
  | w + 1, n => UInt8.ofNat n :: le w (n / 256)

/-- The number a little-endian byte string denotes. -/
def ofLe : Bytes → Nat
  | [] => 0
  | b :: bs => b.toNat + 256 * ofLe bs

@[simp] theorem length_le (w n : Nat) : (le w n).length = w := by
  induction w generalizing n with
  | zero => rfl
  | succ w ih => simp [le, ih]

theorem ofLe_le (w n : Nat) : ofLe (le w n) = n % 256 ^ w := by
  induction w generalizing n with
  | zero => simp [le, ofLe, Nat.mod_one]
  | succ w ih =>
    rw [le, ofLe, ih, Nat.pow_succ', Nat.mod_mul]
    simp

/-- A number that fits its width survives the write. -/
theorem ofLe_le_of_lt {w n : Nat} (fits : n < 256 ^ w) : ofLe (le w n) = n := by
  rw [ofLe_le, Nat.mod_eq_of_lt fits]

theorem ofLe_lt (bs : Bytes) : ofLe bs < 256 ^ bs.length := by
  induction bs with
  | nil => simp [ofLe]
  | cons b bs ih =>
    have := b.toNat_lt
    simp only [ofLe, List.length_cons, Nat.pow_succ]
    omega

@[simp] theorem take_le_append (w n : Nat) (bs : Bytes) : (le w n ++ bs).take w = le w n :=
  List.take_left' (length_le w n)

@[simp] theorem drop_le_append (w n : Nat) (bs : Bytes) : (le w n ++ bs).drop w = bs :=
  List.drop_left' (length_le w n)

/-! ## Slices -/

/-- The slice `bs[off .. off + len]`. -/
def slice (bs : Bytes) (off len : Nat) : Bytes := (bs.drop off).take len

theorem slice_append_left {bs : Bytes} (rest : Bytes) {off len : Nat}
    (inside : off + len ≤ bs.length) : slice (bs ++ rest) off len = slice bs off len := by
  unfold slice
  rw [List.drop_append_of_le_length (by omega), List.take_append_of_le_length]
  rw [List.length_drop]
  omega

theorem slice_append_right (front : Bytes) (bs : Bytes) (off len : Nat) :
    slice (front ++ bs) (front.length + off) len = slice bs off len := by
  rw [slice, List.drop_append, List.drop_eq_nil_of_le (by omega)]
  simp [slice]

@[simp] theorem slice_all (bs : Bytes) : slice bs 0 bs.length = bs := by simp [slice]

/-- A slice starting in the second part, or reaching up to it, stays in its part. -/
theorem slice_append_exact (front mid rest : Bytes) :
    slice (front ++ (mid ++ rest)) front.length mid.length = mid := by
  have := slice_append_right front (mid ++ rest) 0 mid.length
  rw [Nat.add_zero] at this
  rw [this, slice_append_left rest (by omega), slice_all]

/-- The slice at the place of a part is that part. -/
theorem slice_of_eq {bs : Bytes} (front mid rest : Bytes) {off len : Nat}
    (parts : bs = front ++ (mid ++ rest)) (start : off = front.length) (size : len = mid.length) :
    slice bs off len = mid := by
  rw [parts, start, size, slice_append_exact]

theorem length_slice {bs : Bytes} {off len : Nat} (inside : off + len ≤ bs.length) :
    (slice bs off len).length = len := by
  rw [slice, List.length_take, List.length_drop]
  omega

end NovaRuntime.Library
