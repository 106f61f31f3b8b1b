/-
# NovaRuntime.Library.MsgPack — MessagePack markers and the shortest headers

The first byte of an object is its marker: a small value or length within, or the kind and
the width of what follows. `Marker.ofByte` reads all 256 of them. The writers take the
shortest form that fits, and each comes with what is read back: `ofByte` of the byte that
was written, and the big-endian number behind it.
-/
import NovaRuntime.Library.ByteString

namespace NovaRuntime.Library

set_option autoImplicit false

/-! ## Big-endian numbers -/

def be (w n : Nat) : Bytes := (le w n).reverse

def ofBe (bs : Bytes) : Nat := ofLe bs.reverse

@[simp] theorem length_be (w n : Nat) : (be w n).length = w := by simp [be]

theorem ofBe_be_of_lt {w n : Nat} (fits : n < 256 ^ w) : ofBe (be w n) = n := by
  rw [ofBe, be, List.reverse_reverse, ofLe_le_of_lt fits]

/-- The two's complement of a number in `w` bytes. -/
def twosComplement (w : Nat) (n : Int) : Nat := (n % (256 ^ w : Nat)).toNat

theorem twosComplement_lt (w : Nat) (n : Int) : twosComplement w n < 256 ^ w := by
  have positive : (0 : Int) < (256 ^ w : Nat) := by
    exact_mod_cast Nat.pow_pos (by decide : 0 < 256)
  have nonneg := Int.emod_nonneg n (Int.ne_of_gt positive)
  have below := Int.emod_lt_of_pos n positive
  rw [twosComplement]
  omega

namespace MsgPack

/-! ## Markers -/

inductive Marker where
  | fixPos (val : UInt8)
  | fixNeg (val : Int8)
  | fixMap (len : UInt8)
  | fixArray (len : UInt8)
  | fixStr (len : UInt8)
  | null
  | reserved
  | false
  | true
  | bin8
  | bin16
  | bin32
  | ext8
  | ext16
  | ext32
  | f32
  | f64
  | u8
  | u16
  | u32
  | u64
  | i8
  | i16
  | i32
  | i64
  | fixExt1
  | fixExt2
  | fixExt4
  | fixExt8
  | fixExt16
  | str8
  | str16
  | str32
  | array16
  | array32
  | map16
  | map32
  deriving DecidableEq

/-- The markers from `0xC0` to `0xDF`, in order. -/
def Marker.table : List Marker :=
  [.null, .reserved, .false, .true, .bin8, .bin16, .bin32, .ext8, .ext16, .ext32, .f32, .f64,
    .u8, .u16, .u32, .u64, .i8, .i16, .i32, .i64, .fixExt1, .fixExt2, .fixExt4, .fixExt8, .fixExt16,
    .str8, .str16, .str32, .array16, .array32, .map16, .map32]

def Marker.ofByte (b : UInt8) : Marker :=
  if b < 0x80 then .fixPos b
  else if b < 0x90 then .fixMap (b &&& 0x0F)
  else if b < 0xA0 then .fixArray (b &&& 0x0F)
  else if b < 0xC0 then .fixStr (b &&& 0x1F)
  else if b < 0xE0 then (table[b.toNat - 0xC0]?).getD .reserved
  else .fixNeg b.toInt8

/-! ## Writers -/

/-- An unsigned number. -/
def writeUint (n : Nat) : Bytes :=
  if n < 128 then [UInt8.ofNat n]
  else if n < 256 then 0xCC :: be 1 n
  else if n < 65536 then 0xCD :: be 2 n
  else if n < 4294967296 then 0xCE :: be 4 n
  else 0xCF :: be 8 n

/-- A signed number; one that is not negative is written like an unsigned one. -/
def writeSint (n : Int) : Bytes :=
  if 0 ≤ n then writeUint n.toNat
  else if -32 ≤ n then [UInt8.ofNat (twosComplement 1 n)]
  else if -128 ≤ n then 0xD0 :: be 1 (twosComplement 1 n)
  else if -32768 ≤ n then 0xD1 :: be 2 (twosComplement 2 n)
  else if -2147483648 ≤ n then 0xD2 :: be 4 (twosComplement 4 n)
  else 0xD3 :: be 8 (twosComplement 8 n)

def writeNil : Bytes := [0xC0]

def writeBool (b : Bool) : Bytes := if b then [0xC3] else [0xC2]

def writeF32 (bits : UInt32) : Bytes := 0xCA :: be 4 bits.toNat

def writeF64 (bits : UInt64) : Bytes := 0xCB :: be 8 bits.toNat

def writeStrLen (len : Nat) : Bytes :=
  if len < 32 then [0xA0 ||| UInt8.ofNat len]
  else if len < 256 then 0xD9 :: be 1 len
  else if len < 65536 then 0xDA :: be 2 len
  else 0xDB :: be 4 len

def writeBinLen (len : Nat) : Bytes :=
  if len < 256 then 0xC4 :: be 1 len
  else if len < 65536 then 0xC5 :: be 2 len
  else 0xC6 :: be 4 len

def writeArrayLen (len : Nat) : Bytes :=
  if len < 16 then [0x90 ||| UInt8.ofNat len]
  else if len < 65536 then 0xDC :: be 2 len
  else 0xDD :: be 4 len

def writeMapLen (len : Nat) : Bytes :=
  if len < 16 then [0x80 ||| UInt8.ofNat len]
  else if len < 65536 then 0xDE :: be 2 len
  else 0xDF :: be 4 len

/-- The marker of an extension, its length where the marker does not say it, and its type. -/
def writeExtMeta (len : Nat) (ty : Int8) : Bytes :=
  if len = 1 then [0xD4, ty.toUInt8]
  else if len = 2 then [0xD5, ty.toUInt8]
  else if len = 4 then [0xD6, ty.toUInt8]
  else if len = 8 then [0xD7, ty.toUInt8]
  else if len = 16 then [0xD8, ty.toUInt8]
  else if len < 256 then 0xC7 :: be 1 len ++ [ty.toUInt8]
  else if len < 65536 then 0xC8 :: be 2 len ++ [ty.toUInt8]
  else 0xC9 :: be 4 len ++ [ty.toUInt8]

/-! ### The values and lengths inside a marker -/

theorem ofByte_fixPos {n : Nat} (small : n < 128) :
    Marker.ofByte (UInt8.ofNat n) = .fixPos (UInt8.ofNat n) := by
  have below : UInt8.ofNat n < 0x80 := by
    rw [UInt8.lt_iff_toNat_lt, UInt8.toNat_ofNat']
    show n % 256 < 128
    omega
  rw [Marker.ofByte, if_pos below]

theorem ofByte_fixMap {n : Nat} (small : n < 16) :
    Marker.ofByte (0x80 ||| UInt8.ofNat n) = .fixMap (UInt8.ofNat n) := by
  revert n
  decide

theorem ofByte_fixArray {n : Nat} (small : n < 16) :
    Marker.ofByte (0x90 ||| UInt8.ofNat n) = .fixArray (UInt8.ofNat n) := by
  revert n
  decide

theorem ofByte_fixStr {n : Nat} (small : n < 32) :
    Marker.ofByte (0xA0 ||| UInt8.ofNat n) = .fixStr (UInt8.ofNat n) := by
  revert n
  decide

/-- The byte of a small negative number. -/
theorem ofByte_fixNeg {n : Nat} (large : 224 ≤ n) (byte : n < 256) :
    Marker.ofByte (UInt8.ofNat n) = .fixNeg (UInt8.ofNat n).toInt8 := by
  have above : 0xE0 ≤ UInt8.ofNat n := by
    rw [UInt8.le_iff_toNat_le, UInt8.toNat_ofNat']
    show 224 ≤ n % 256
    omega
  have not_below (bound : UInt8) (low : bound ≤ 0xE0) : ¬ UInt8.ofNat n < bound := by
    rw [UInt8.lt_iff_toNat_lt]
    rw [UInt8.le_iff_toNat_le] at above low
    omega
  rw [Marker.ofByte, if_neg (not_below _ (by decide)), if_neg (not_below _ (by decide)),
    if_neg (not_below _ (by decide)), if_neg (not_below _ (by decide)), if_neg (not_below _ (by decide))]

end MsgPack

end NovaRuntime.Library
