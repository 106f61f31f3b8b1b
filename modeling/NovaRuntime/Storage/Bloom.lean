/-
# NovaRuntime.Storage.Bloom — `BloomFilter` of `lsm.rs`

A key sets, and a lookup tests, the bits at `h1 + i * h2` modulo the number of
bits, for `i` below the number of hash functions. Bits are only ever set, so a
key that was inserted is found (`mayContain_of_mem_insertAll`): the filter has no
false negatives, whatever the two hash values are and however the hash count is
rounded. The one thing this rests on is that the bit count is a multiple of the
64-bit word size (`WellSized`), which `new` gets from rounding up to a power of
two.
-/
import NovaRuntime.Storage.Types
import Mathlib.Data.Nat.Log
import Mathlib.Tactic.IntervalCases

namespace NovaRuntime.Storage

open NovaRuntime.Library

set_option autoImplicit false

structure BloomFilter where
  bits : List UInt64
  numHashes : Nat
  numBits : Nat
  numKeys : Nat
  deriving DecidableEq

namespace BloomFilter

variable {bf : BloomFilter} {X : Extern} {bits : List UInt64}

def defaultBitsPerKey : Nat := 10

/-- The least power of two that is not below `n`. -/
def nextPowerOfTwo (n : Nat) : Nat := 2 ^ Nat.clog 2 n

/-- `num_keys` is the caller's `u32`. -/
def new (X : Extern) (numKeys bitsPerKey : Nat) : BloomFilter :=
  let bitsPer := if bitsPerKey = 0 then defaultBitsPerKey else bitsPerKey
  let numKeys := max numKeys 1
  let rawBits := numKeys * bitsPer
  let numBits := if rawBits < 64 then 64 else nextPowerOfTwo rawBits
  let numHashes := min (max (X.hashCount numBits numKeys) 1) 30
  { bits := List.replicate (max (numBits / 64) 1) 0, numHashes, numBits, numKeys }

def flipBit (data : Bytes) : Bytes := data.map (~~~ ·)

/-- The bit the `i`-th hash function assigns to a key, in wrapping `u64`
arithmetic. -/
def probe (X : Extern) (bf : BloomFilter) (key : Bytes) (i : Nat) : Nat :=
  (X.xxh3_64 key + UInt64.ofNat i * X.xxh3_64 (flipBit key)).toNat % bf.numBits

def mask (idx : Nat) : UInt64 := (1 : UInt64) <<< UInt64.ofNat (idx % 64)

def setBit (bits : List UInt64) (idx : Nat) : List UInt64 :=
  bits.modify (idx / 64) (· ||| mask idx)

def hasBit (bits : List UInt64) (idx : Nat) : Bool :=
  match bits[idx / 64]? with
  | none => false
  | some word => word &&& mask idx != 0

def insert (X : Extern) (bf : BloomFilter) (key : Bytes) : BloomFilter :=
  { bf with bits := (List.range bf.numHashes).foldl (fun bits i => setBit bits (bf.probe X key i)) bf.bits }

def mayContain (X : Extern) (bf : BloomFilter) (key : Bytes) : Bool :=
  if bf.bits.isEmpty then true
  else if bf.numBits = 0 then true
  else (List.range bf.numHashes).all fun i => hasBit bf.bits (bf.probe X key i)

def encode (bf : BloomFilter) : Bytes :=
  le 4 bf.numHashes ++ le 8 bf.numBits ++ le 4 bf.numKeys ++ le 4 bf.bits.length ++
    bf.bits.flatMap fun word => le 8 word.toNat

/-! ## Bits are only ever set -/

theorem mask_ne_zero (idx : Nat) : mask idx ≠ 0 := by
  have small : idx % 64 < 64 := Nat.mod_lt _ (by decide)
  unfold mask
  generalize idx % 64 = i at small
  interval_cases i <;> decide

theorem or_and_ne_zero_left {a b m : UInt64} (set : a &&& m ≠ 0) : (a ||| b) &&& m ≠ 0 := by
  intro clear
  apply set
  have : (a ||| b) &&& m = (a &&& m) ||| (b &&& m) := by
    rw [← UInt64.toBitVec_inj]
    ext i
    simp [Bool.and_or_distrib_right]
  rw [this, UInt64.or_eq_zero_iff] at clear
  exact clear.1

theorem or_self_and_ne_zero {a m : UInt64} (nonzero : m ≠ 0) : (a ||| m) &&& m ≠ 0 := by
  rw [UInt64.or_comm]
  exact or_and_ne_zero_left (by rwa [UInt64.and_self])

@[simp] theorem length_setBit (bits : List UInt64) (idx : Nat) :
    (setBit bits idx).length = bits.length := by simp [setBit]

theorem hasBit_setBit_self {idx : Nat} (inside : idx / 64 < bits.length) :
    hasBit (setBit bits idx) idx = true := by
  simp only [hasBit, setBit, List.getElem?_modify, List.getElem?_eq_getElem inside]
  simpa using or_self_and_ne_zero (mask_ne_zero idx)

theorem hasBit_setBit_of_hasBit {idx other : Nat}
    (set : hasBit bits other = true) : hasBit (setBit bits idx) other = true := by
  simp only [hasBit, setBit, List.getElem?_modify] at set ⊢
  cases word : bits[other / 64]? with
  | none => simp [word] at set
  | some w =>
    simp only [word, bne_iff_ne] at set
    by_cases here : idx / 64 = other / 64
    · simpa [here] using or_and_ne_zero_left set
    · simpa [here] using set

theorem hasBit_foldl_setBit (idxs : List Nat) {other : Nat}
    (set : hasBit bits other = true) : hasBit (idxs.foldl setBit bits) other = true := by
  induction idxs generalizing bits with
  | nil => exact set
  | cons idx idxs ih => exact ih (hasBit_setBit_of_hasBit set)

theorem length_foldl_setBit (bits : List UInt64) (idxs : List Nat) :
    (idxs.foldl setBit bits).length = bits.length := by
  induction idxs generalizing bits with
  | nil => rfl
  | cons idx idxs ih => rw [List.foldl_cons, ih, length_setBit]

theorem hasBit_foldl_setBit_of_mem {idxs : List Nat} {idx : Nat}
    (member : idx ∈ idxs) (inside : idx / 64 < bits.length) :
    hasBit (idxs.foldl setBit bits) idx = true := by
  induction idxs generalizing bits with
  | nil => cases member
  | cons head idxs ih =>
    rw [List.foldl_cons]
    rcases List.mem_cons.mp member with rfl | later
    · exact hasBit_foldl_setBit idxs (hasBit_setBit_self inside)
    · exact ih later (by rwa [length_setBit])

/-! ## No false negatives -/

/-- Every bit number below `numBits` falls into a stored word. -/
def WellSized (bf : BloomFilter) : Prop :=
  0 < bf.numBits ∧ bf.numBits % 64 = 0 ∧ bf.bits.length = bf.numBits / 64

theorem nextPowerOfTwo_mod_64 {n : Nat} (big : 64 ≤ n) : nextPowerOfTwo n % 64 = 0 := by
  have reach : 2 ^ 5 < 2 ^ Nat.clog 2 n := lt_of_lt_of_le (by omega) (Nat.le_pow_clog (by decide) n)
  have large : 6 ≤ Nat.clog 2 n := (Nat.pow_lt_pow_iff_right (by decide)).mp reach
  exact Nat.mod_eq_zero_of_dvd (pow_dvd_pow 2 large)

theorem wellSized_new (X : Extern) (numKeys bitsPerKey : Nat) : (new X numKeys bitsPerKey).WellSized := by
  have sized : ∀ n : Nat, 64 ≤ n → n % 64 = 0 → 0 < n ∧ n % 64 = 0 ∧ max (n / 64) 1 = n / 64 := by
    intro n large aligned
    omega
  simp only [new, WellSized, List.length_replicate]
  generalize max numKeys 1 * (if bitsPerKey = 0 then defaultBitsPerKey else bitsPerKey) = raw
  by_cases small : raw < 64
  · rw [if_pos small]
    decide
  · rw [if_neg small]
    exact sized _ (le_trans (not_lt.mp small) (Nat.le_pow_clog (by decide) _))
      (nextPowerOfTwo_mod_64 (not_lt.mp small))

theorem insert_eq (X : Extern) (bf : BloomFilter) (key : Bytes) :
    bf.insert X key =
      { bf with bits := ((List.range bf.numHashes).map (bf.probe X key)).foldl setBit bf.bits } := by
  rw [insert, List.foldl_map]

section

variable (sized : bf.WellSized)

include sized

theorem WellSized.insert (key : Bytes) : (bf.insert X key).WellSized := by
  rw [insert_eq]
  exact ⟨sized.1, sized.2.1, by rw [length_foldl_setBit]; exact sized.2.2⟩

theorem WellSized.mayContain_iff (key : Bytes) : bf.mayContain X key = true ↔
      ∀ i < bf.numHashes, hasBit bf.bits (bf.probe X key i) = true := by
  have nonempty : bf.bits.isEmpty = false := by
    have words : 0 < bf.bits.length := by
      have := sized.2.2; have := sized.1; have := sized.2.1; omega
    simpa using List.ne_nil_of_length_pos words
  simp [mayContain, nonempty, Nat.ne_of_gt sized.1]

theorem mayContain_insert_self (key : Bytes) : (bf.insert X key).mayContain X key = true := by
  rw [(sized.insert key).mayContain_iff]
  intro i below
  rw [insert_eq]
  refine hasBit_foldl_setBit_of_mem (List.mem_map.mpr ⟨i, List.mem_range.mpr below, rfl⟩) ?_
  have inside : bf.probe X key i < bf.numBits := Nat.mod_lt _ sized.1
  have aligned := sized.2.1
  have words := sized.2.2
  change bf.probe X key i / 64 < bf.bits.length
  omega

theorem mayContain_insert {key : Bytes} (other : Bytes) (found : bf.mayContain X key = true) :
    (bf.insert X other).mayContain X key = true := by
  rw [(sized.insert other).mayContain_iff]
  rw [sized.mayContain_iff] at found
  intro i below
  rw [insert_eq]
  exact hasBit_foldl_setBit _ (found i below)

/-- **No false negatives**: after a list of insertions every key of the list is
found. -/
theorem mayContain_of_mem_insertAll {keys : List Bytes} {key : Bytes}
    (known : bf.mayContain X key = true ∨ key ∈ keys) :
    (keys.foldl (insert X) bf).mayContain X key = true := by
  induction keys generalizing bf with
  | nil => simpa using known
  | cons head keys ih =>
    refine ih (sized.insert head) ?_
    rcases known with found | member
    · exact .inl (mayContain_insert sized head found)
    · rcases List.mem_cons.mp member with rfl | later
      · exact .inl (mayContain_insert_self sized key)
      · exact .inr later

end

end BloomFilter

end NovaRuntime.Storage
