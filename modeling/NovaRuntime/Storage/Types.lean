/-
# NovaRuntime.Storage.Types — the shared vocabulary of the storage crate

`nova_core::types` and `nova_core::error`, as far as the storage engine uses
them, and the third-party functions the crate calls: `Extern` holds the functions
whose code is outside the repository, `Extern.SnappyLaws` what the Snappy
documentation promises.
-/
import NovaRuntime.Library.Outcome

namespace NovaRuntime.Storage

open NovaRuntime.Library

set_option autoImplicit false

abbrev Key := Bytes
abbrev Value := Bytes

/-- The variants of `RuntimeError` the storage crate builds. -/
inductive RuntimeError where
  | invalidArgument (message : String)
  | io (message : String)
  | checksumMismatch (expected actual : UInt32)
  | corruptData (message : String)
  | internal (message : String)
  | transactionError (message : String)
  deriving DecidableEq

/-- `nova_core::error::Result`, with the two ways of not returning it. -/
abbrev Result (α : Type) := Outcome RuntimeError α

/-- A method that reads and changes `self`, or a part of it. -/
abbrev Method (σ α : Type) := Exec RuntimeError σ α

inductive FsyncPolicy where
  | everyWrite
  | everyNMs (ms : UInt64)
  | async
  deriving DecidableEq

inductive IsolationLevel where
  | readCommitted
  | repeatableRead
  | snapshot
  | serializable
  deriving DecidableEq

/-- The functions the crate calls whose code is outside the repository: the
`crc32c`, `xxhash-rust` and `snap` packages, and the `f64` expression
`((num_bits / num_keys) * 0.69) as u32` of `BloomFilter::new`. -/
structure Extern where
  crc32c : Bytes → UInt32
  xxh3_64 : Bytes → UInt64
  hashCount : Nat → Nat → Nat
  snappyCompress : Bytes → Except String Bytes
  snappyDecompress : Bytes → Except String Bytes

/-- What the `snap` package documents: decompression undoes compression, an
input is accepted exactly when it is shorter than `2 ^ 32` bytes, and the output
is at most `32 + n + n / 6` bytes long. -/
structure Extern.SnappyLaws (X : Extern) : Prop where
  roundTrip : ∀ x y, X.snappyCompress x = .ok y → X.snappyDecompress y = .ok x
  accepts : ∀ x, (∃ y, X.snappyCompress x = .ok y) ↔ x.length < 2 ^ 32
  bound : ∀ x y, X.snappyCompress x = .ok y → y.length ≤ 32 + x.length + x.length / 6

/-! ## A concrete instance -/

def crc32cBit (crc : UInt32) : UInt32 :=
  if crc &&& 1 = 1 then (crc >>> 1) ^^^ 0x82F63B78 else crc >>> 1

/-- CRC-32C, bit by bit. -/
def castagnoli (bytes : Bytes) : UInt32 :=
  ~~~ bytes.foldl (fun crc b => Nat.iterate crc32cBit 8 (crc ^^^ b.toUInt32)) 0xFFFFFFFF

example : castagnoli [49, 50, 51, 52, 53, 54, 55, 56, 57] = 0xE3069283 := by decide +kernel

/-- A block of at most 60 bytes as one Snappy literal; a longer one is kept behind
a mark. -/
def literalCompress (x : Bytes) : Except String Bytes :=
  if 2 ^ 32 ≤ x.length then .error "snappy: input too large"
  else if x.length = 0 then .ok [0]
  else if x.length ≤ 60 then
    .ok (UInt8.ofNat x.length :: UInt8.ofNat (4 * (x.length - 1)) :: x)
  else .ok (255 :: 255 :: x)

def literalDecompress : Bytes → Except String Bytes
  | [] => .error "snappy: corrupt input"
  | [b] => if b = 0 then .ok [] else .error "snappy: corrupt input"
  | _ :: _ :: x => .ok x

/-- The real checksum, and Snappy as it is on short blocks; the hash functions of
the bloom filter are not those of the package. -/
def Extern.literal : Extern where
  crc32c := castagnoli
  xxh3_64 bytes := UInt64.ofNat (ofLe bytes)
  hashCount numBits numKeys := numBits / numKeys * 69 / 100
  snappyCompress := literalCompress
  snappyDecompress := literalDecompress

theorem Extern.snappyLaws_literal : Extern.literal.SnappyLaws where
  roundTrip x y compressed := by
    simp only [Extern.literal, literalCompress] at compressed ⊢
    split at compressed
    · cases compressed
    · split at compressed
      · rename_i empty
        cases compressed
        rw [List.length_eq_zero_iff.mp empty]
        rfl
      · split at compressed <;> (cases compressed; rfl)
  accepts x := by
    simp only [Extern.literal, literalCompress]
    constructor
    · rintro ⟨y, compressed⟩
      by_contra large
      rw [if_pos (not_lt.mp large)] at compressed
      cases compressed
    · intro small
      rw [if_neg (not_le.mpr small)]
      split
      · exact ⟨_, rfl⟩
      · split <;> exact ⟨_, rfl⟩
  bound x y compressed := by
    simp only [Extern.literal, literalCompress] at compressed
    split at compressed
    · cases compressed
    · split at compressed
      · cases compressed
        rw [List.length_singleton]
        omega
      · split at compressed <;> (cases compressed; simp; omega)

end NovaRuntime.Storage
