/-
# NovaRuntime.Storage.BloomFile — a bloom filter that is written and read back

`decode` reads what `encode` wrote, with checks of its own: it takes no filter without hash
functions or bits, and none of more than 2^20 words. `new` builds filters past that limit:
a filter is read back as it was exactly if it was built for at most 2^26 bits
(`readable_iff`). Whatever was inserted is found in every filter `new` builds.
-/
import NovaRuntime.Storage.Bloom

namespace NovaRuntime.Storage

open NovaRuntime.Library

set_option autoImplicit false

namespace BloomFilter

/-- The words of `bits`, eight bytes each. -/
def readWords : Nat → Bytes → List UInt64
  | 0, _ => []
  | n + 1, data => UInt64.ofNat (ofLe (data.take 8)) :: readWords n (data.drop 8)

def decode (data : Bytes) : Result BloomFilter :=
  if data.length < 20 then .err (.corruptData "Bloom filter data too short") else
  let numHashes := ofLe (slice data 0 4)
  let numBits := ofLe (slice data 4 8)
  let numKeys := ofLe (slice data 12 4)
  let bitLen := ofLe (slice data 16 4)
  if numHashes = 0 ∨ numBits = 0 then .err (.corruptData "Bloom filter corrupt: zero hashes/bits")
  else if bitLen = 0 ∨ bitLen > 1024 * 1024 then .err (.corruptData "Bloom filter corrupt: invalid bit_len")
  else if data.length < 20 + bitLen * 8 then .err (.corruptData "Bloom filter truncated")
  else .ok { bits := readWords bitLen (data.drop 20), numHashes, numBits, numKeys }

/-- The bits that are asked for. -/
def rawBits (numKeys bitsPerKey : Nat) : Nat :=
  max numKeys 1 * (if bitsPerKey = 0 then defaultBitsPerKey else bitsPerKey)

/-- `new` with all arguments a `u32` can be: past 2^63 bits `next_power_of_two` overflows. -/
def build (X : Extern) (numKeys bitsPerKey : UInt32) : Result BloomFilter :=
  if rawBits numKeys.toNat bitsPerKey.toNat ≤ 2 ^ 63 then .ok (new X numKeys.toNat bitsPerKey.toNat) else .panic

/-! ## Reading what was written -/

/-- The fields of a filter fit the widths they are written in; the number of words may not. -/
structure Fits (bf : BloomFilter) : Prop where
  sized : bf.WellSized
  hashed : 0 < bf.numHashes
  numHashes : bf.numHashes < 2 ^ 32
  numBits : bf.numBits < 2 ^ 64
  numKeys : bf.numKeys < 2 ^ 32

section

variable {X : Extern} {bf : BloomFilter}

/-- The fields in front of the words. -/
def header (bf : BloomFilter) : Bytes :=
  le 4 bf.numHashes ++ (le 8 bf.numBits ++ (le 4 bf.numKeys ++ le 4 bf.bits.length))

def encodeWords (bits : List UInt64) : Bytes := bits.flatMap fun word => le 8 word.toNat

theorem encode_eq (bf : BloomFilter) : bf.encode = bf.header ++ encodeWords bf.bits := by
  simp [encode, header, encodeWords]

@[simp] theorem length_header (bf : BloomFilter) : bf.header.length = 20 := by simp [header]

theorem encode_pos (bf : BloomFilter) : 0 < bf.encode.length := by
  rw [encode_eq, List.length_append, length_header]
  omega

theorem length_encodeWords (bits : List UInt64) : (encodeWords bits).length = bits.length * 8 := by
  induction bits with
  | nil => rfl
  | cons word bits ih =>
    rw [encodeWords, List.flatMap_cons, List.length_append, length_le, List.length_cons, Nat.succ_mul, Nat.add_comm]
    exact congrArg (· + 8) ih

theorem readWords_encodeWords (bits : List UInt64) (rest : Bytes) :
    readWords bits.length (encodeWords bits ++ rest) = bits := by
  induction bits with
  | nil => rfl
  | cons word bits ih =>
    have front : encodeWords (word :: bits) ++ rest = le 8 word.toNat ++ (encodeWords bits ++ rest) := by
      rw [encodeWords, List.flatMap_cons, List.append_assoc]
      rfl
    rw [front, List.length_cons, readWords, take_le_append, drop_le_append, ih,
      ofLe_le_of_lt word.toNat_lt, UInt64.ofNat_toNat]

/-- **What `decode` does** with a header that was written. -/
theorem Fits.decode_header (fits : bf.Fits) (rest : Bytes) :
    decode (bf.header ++ rest) =
      let bitLen := bf.bits.length % 2 ^ 32
      if bitLen = 0 ∨ bitLen > 1024 * 1024 then .err (.corruptData "Bloom filter corrupt: invalid bit_len")
      else if rest.length < bitLen * 8 then .err (.corruptData "Bloom filter truncated")
      else .ok { bf with bits := readWords bitLen rest } := by
  have numHashes : slice (bf.header ++ rest) 0 4 = le 4 bf.numHashes :=
    slice_of_eq [] _ _ (by rw [header, List.append_assoc]; rfl) rfl (length_le _ _).symm
  have numBits : slice (bf.header ++ rest) 4 8 = le 8 bf.numBits :=
    slice_of_eq (le 4 bf.numHashes) _ _ (by rw [header]; simp only [List.append_assoc]; rfl) (length_le _ _).symm
      (length_le _ _).symm
  have numKeys : slice (bf.header ++ rest) 12 4 = le 4 bf.numKeys :=
    slice_of_eq (le 4 bf.numHashes ++ le 8 bf.numBits) _ _ (by rw [header]; simp only [List.append_assoc]; rfl)
      (by simp) (length_le _ _).symm
  have bitLen : slice (bf.header ++ rest) 16 4 = le 4 bf.bits.length :=
    slice_of_eq (le 4 bf.numHashes ++ (le 8 bf.numBits ++ le 4 bf.numKeys)) _ rest
      (by rw [header]; simp only [List.append_assoc]) (by simp) (length_le _ _).symm
  have long : ¬ (bf.header ++ rest).length < 20 := by rw [List.length_append, length_header]; omega
  have words : (bf.header ++ rest).drop 20 = rest := List.drop_left' (length_header bf)
  have present : ¬ (bf.numHashes = 0 ∨ bf.numBits = 0) := by
    have := fits.hashed; have := fits.sized.1; omega
  rw [decode, if_neg long, numHashes, numBits, numKeys, bitLen, words, ofLe_le_of_lt fits.numHashes,
    ofLe_le_of_lt fits.numBits, ofLe_le_of_lt fits.numKeys, ofLe_le]
  dsimp only
  rw [if_neg present, List.length_append, length_header, show (256 ^ 4 : Nat) = 2 ^ 32 from rfl]
  simp only [Nat.add_lt_add_iff_left]

/-- A filter of at most 2^20 words is read back as it was. -/
theorem Fits.decode_encode (fits : bf.Fits) (few : bf.bits.length ≤ 2 ^ 20) : decode bf.encode = .ok bf := by
  have some : 0 < bf.bits.length := by
    have := fits.sized.1; have := fits.sized.2.1; have := fits.sized.2.2; omega
  have small : bf.bits.length % 2 ^ 32 = bf.bits.length := Nat.mod_eq_of_lt (by omega)
  rw [encode_eq, fits.decode_header]
  dsimp only
  rw [small, if_neg (by omega), if_neg (by rw [length_encodeWords]; omega)]
  have bits := readWords_encodeWords bf.bits []
  rw [List.append_nil] at bits
  rw [bits]

/-- A filter whose word count is past the limit, or lost, is refused. -/
theorem Fits.decode_refuses (fits : bf.Fits) (many : bf.bits.length % 2 ^ 32 = 0 ∨ bf.bits.length % 2 ^ 32 > 2 ^ 20)
    (rest : Bytes) :
    decode (bf.header ++ rest) = .err (.corruptData "Bloom filter corrupt: invalid bit_len") := by
  rw [fits.decode_header]
  exact if_pos (by omega)

/-! ## What `new` builds -/

theorem Fits.insert (fits : bf.Fits) (X : Extern) (key : Bytes) : (bf.insert X key).Fits :=
  ⟨fits.sized.insert key, fits.hashed, fits.numHashes, fits.numBits, fits.numKeys⟩

theorem length_bits_insert (X : Extern) (bf : BloomFilter) (key : Bytes) :
    (bf.insert X key).bits.length = bf.bits.length := by
  rw [insert_eq]
  exact length_foldl_setBit _ _

/-- Insertions keep a filter in its form. -/
theorem Fits.insertAll (fits : bf.Fits) (X : Extern) (keys : List Bytes) :
    (keys.foldl (BloomFilter.insert X) bf).Fits ∧ (keys.foldl (BloomFilter.insert X) bf).bits.length = bf.bits.length := by
  induction keys generalizing bf with
  | nil => exact ⟨fits, rfl⟩
  | cons key keys ih =>
    obtain ⟨fits', length⟩ := ih (fits.insert X key)
    exact ⟨fits', length.trans (length_bits_insert X bf key)⟩

theorem numBits_new (X : Extern) (numKeys bitsPerKey : Nat) :
    (new X numKeys bitsPerKey).numBits =
      if rawBits numKeys bitsPerKey < 64 then 64 else nextPowerOfTwo (rawBits numKeys bitsPerKey) := rfl

theorem nextPowerOfTwo_le {n e : Nat} : nextPowerOfTwo n ≤ 2 ^ e ↔ n ≤ 2 ^ e := by
  rw [nextPowerOfTwo, Nat.pow_le_pow_iff_right (by decide), Nat.clog_le_iff_le_pow (by decide)]

theorem numBits_new_le {X : Extern} {numKeys bitsPerKey e : Nat} (words : 6 ≤ e) :
    (new X numKeys bitsPerKey).numBits ≤ 2 ^ e ↔ rawBits numKeys bitsPerKey ≤ 2 ^ e := by
  have word : 2 ^ 6 ≤ 2 ^ e := Nat.pow_le_pow_right (by decide) words
  rw [numBits_new]
  split
  · omega
  · exact nextPowerOfTwo_le

theorem fits_new (X : Extern) {numKeys bitsPerKey : Nat} (keys : numKeys < 2 ^ 32)
    (bits : rawBits numKeys bitsPerKey ≤ 2 ^ 63) : (new X numKeys bitsPerKey).Fits where
  sized := wellSized_new X numKeys bitsPerKey
  hashed := by simp only [new]; omega
  numHashes := by simp only [new]; omega
  numBits := lt_of_le_of_lt ((numBits_new_le (by decide)).mpr bits) (by decide)
  numKeys := by simp only [new]; omega

/-- The words of a filter that is asked for more than 2^26 bits. -/
theorem words_new {X : Extern} {numKeys bitsPerKey : Nat} (many : 2 ^ 26 < rawBits numKeys bitsPerKey) :
    (new X numKeys bitsPerKey).bits.length % 2 ^ 32 = 0 ∨ (new X numKeys bitsPerKey).bits.length % 2 ^ 32 > 2 ^ 20 := by
  have large : ¬ rawBits numKeys bitsPerKey < 64 := by omega
  have exponent : 26 < Nat.clog 2 (rawBits numKeys bitsPerKey) := by
    by_contra small
    have := (Nat.clog_le_iff_le_pow (by decide)).mp (not_lt.mp small)
    omega
  have words : (new X numKeys bitsPerKey).bits.length = 2 ^ (Nat.clog 2 (rawBits numKeys bitsPerKey) - 6) := by
    rw [(wellSized_new X numKeys bitsPerKey).2.2, numBits_new, if_neg large, nextPowerOfTwo]
    rw [show 64 = 2 ^ 6 from rfl, Nat.pow_div (by omega) (by decide)]
  rw [words]
  rcases Nat.lt_or_ge (Nat.clog 2 (rawBits numKeys bitsPerKey) - 6) 32 with below | past
  · refine .inr ?_
    rw [Nat.mod_eq_of_lt (Nat.pow_lt_pow_right (by decide) below)]
    exact Nat.pow_lt_pow_right (by decide) (by omega)
  · exact .inl (Nat.mod_eq_zero_of_dvd (Nat.pow_dvd_pow 2 past))

/-! ## Written and read back -/

/-- Whatever is inserted into a filter that is built for these numbers is found, and the
filter is read back as it was. -/
def Readable (X : Extern) (numKeys bitsPerKey : UInt32) : Prop :=
  ∃ bf, build X numKeys bitsPerKey = .ok bf ∧ ∀ keys : List Bytes,
    (∀ key ∈ keys, (keys.foldl (BloomFilter.insert X) bf).mayContain X key = true) ∧
      decode (keys.foldl (BloomFilter.insert X) bf).encode = .ok (keys.foldl (BloomFilter.insert X) bf)

/-- A filter of more than 2^26 bits is refused. -/
theorem not_readable (X : Extern) {numKeys bitsPerKey : UInt32}
    (many : 2 ^ 26 < rawBits numKeys.toNat bitsPerKey.toNat) : ¬ Readable X numKeys bitsPerKey := by
  rintro ⟨bf, built, good⟩
  rw [build] at built
  split at built
  next fits =>
    cases built
    have back := (good []).2
    rw [List.foldl_nil, encode_eq, (fits_new X numKeys.toNat_lt fits).decode_refuses (words_new many)] at back
    cases back
  next => cases built

/-- **A filter is found and read back** exactly if it is built for at most 2^26 bits. -/
theorem readable_iff (X : Extern) (numKeys bitsPerKey : UInt32) :
    Readable X numKeys bitsPerKey ↔ rawBits numKeys.toNat bitsPerKey.toNat ≤ 2 ^ 26 := by
  refine ⟨fun readable => not_lt.mp fun many => not_readable X many readable, fun few => ?_⟩
  have bits : rawBits numKeys.toNat bitsPerKey.toNat ≤ 2 ^ 63 := le_trans few (by decide)
  refine ⟨_, if_pos bits, fun keys => ?_⟩
  obtain ⟨fits, length⟩ := (fits_new X numKeys.toNat_lt bits).insertAll X keys
  refine ⟨fun key member => mayContain_of_mem_insertAll (wellSized_new _ _ _) (.inr member), ?_⟩
  refine fits.decode_encode ?_
  have numBits : (new X numKeys.toNat bitsPerKey.toNat).numBits ≤ 2 ^ 26 := (numBits_new_le (by decide)).mpr few
  rw [length, (wellSized_new X _ _).2.2]
  omega

/-- **Ten bits for 6710887 keys** make 2^21 words. -/
theorem large_filter_refused : ¬ ∀ X numKeys bitsPerKey, Readable X numKeys bitsPerKey := fun readable =>
  not_readable Extern.literal (by decide) (readable Extern.literal 6710887 10)

end

end BloomFilter

end NovaRuntime.Storage
