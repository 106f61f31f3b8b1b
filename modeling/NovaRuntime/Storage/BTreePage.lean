/-
# NovaRuntime.Storage.BTreePage — pages of the tree that hold what was written to them

A page that nothing has overflowed holds a list of entries: `LeafPage` and `IntPage` say how
the bytes of the page lay them out. The keys and values of a leaf fill it from the end without
a gap. Those of an internal page start at a place that is reckoned from the number of the entry
and the length of its own key, so that they keep apart only if the lengths are much alike
(`IntRoom`).

Writing entries that have room to an empty page gives such a page (`fillLeaf_spec`,
`fillInternal_spec`), and reading one gives the entries back (`LeafPage.readLeaf`,
`IntPage.readInternal`).
-/
import NovaRuntime.Storage.BTree

namespace NovaRuntime.Storage

open NovaRuntime.Library

set_option autoImplicit false

namespace BTree

/-! ## Bytes -/

theorem getElem?_bytes (data : PageData) (off len i : Nat) :
    (bytes data off len)[i]? = if i < len then some (data (off + i)) else none := by
  rw [bytes, List.getElem?_map]
  split
  next inside => rw [List.getElem?_range inside, Option.map_some]
  next outside => rw [List.getElem?_eq_none (by simpa using outside), Option.map_none]

variable {bs : Bytes} {X : Extern} {i off : Nat} {data data' : PageData}

theorem bytes_congr {len : Nat}
    (same : ∀ i, off ≤ i → i < off + len → data i = data' i) : bytes data off len = bytes data' off len := by
  refine List.ext_getElem? fun i => ?_
  rw [getElem?_bytes, getElem?_bytes]
  split
  next inside => rw [same (off + i) (Nat.le_add_right _ _) (by omega)]
  next => rfl

theorem setBytes_outside (outside : i < off ∨ off + bs.length ≤ i) : setBytes data off bs i = data i := by
  rw [setBytes]
  split
  next => rfl
  next before =>
    rw [List.getElem?_eq_none (by omega)]
    rfl

theorem setBytes_inside (data : PageData) (off : Nat) (bs : Bytes) {b : UInt8} (here : bs[i]? = some b) :
    setBytes data off bs (off + i) = b := by
  rw [setBytes, if_neg (by omega), Nat.add_sub_cancel_left, here]
  rfl

/-- What is written elsewhere is not seen. -/
theorem bytes_setBytes_apart (data : PageData) {off' len : Nat}
    (apart : off' + len ≤ off ∨ off + bs.length ≤ off') :
    bytes (setBytes data off bs) off' len = bytes data off' len :=
  bytes_congr fun _ _ _ => setBytes_outside (by omega)

/-- **Reading what was written**, or a part of it. -/
theorem bytes_setBytes_within (data : PageData) (off : Nat) {p len : Nat}
    (inside : p + len ≤ bs.length) : bytes (setBytes data off bs) (off + p) len = slice bs p len := by
  refine List.ext_getElem? fun i => ?_
  rw [getElem?_bytes, slice, List.getElem?_take, List.getElem?_drop]
  split
  next inRange =>
    have here : bs[p + i]? = some bs[p + i] := List.getElem?_eq_getElem (by omega)
    rw [here, Nat.add_assoc, setBytes_inside data off bs here]
  next => rfl

theorem bytes_setBytes_self (data : PageData) (off : Nat) (bs : Bytes) :
    bytes (setBytes data off bs) off bs.length = bs := by
  have whole : bytes (setBytes data off bs) (off + 0) bs.length = slice bs 0 bs.length :=
    bytes_setBytes_within data off (by omega)
  rwa [slice, List.drop_zero, List.take_length] at whole

theorem readU16_apart (data : PageData) {off' : Nat}
    (apart : off' + 2 ≤ off ∨ off + bs.length ≤ off') : readU16 (setBytes data off bs) off' = readU16 data off' := by
  rw [readU16, bytes_setBytes_apart data apart, readU16]

theorem readU64_apart (data : PageData) {off' : Nat}
    (apart : off' + 8 ≤ off ∨ off + bs.length ≤ off') : readU64 (setBytes data off bs) off' = readU64 data off' := by
  rw [readU64, bytes_setBytes_apart data apart, readU64]

theorem readU16_writeU16 (data : PageData) (off : Nat) {n : Nat} (small : n < 2 ^ 16) :
    readU16 (writeU16 data off n) off = n := by
  have whole := bytes_setBytes_self data off (le 2 n)
  rw [length_le] at whole
  rw [readU16, writeU16, whole, ofLe_le_of_lt (by simpa using small)]

theorem readU64_writeU64 (data : PageData) (off : Nat) (n : UInt64) :
    readU64 (writeU64 data off n) off = n := by
  have whole := bytes_setBytes_self data off (le 8 n.toNat)
  rw [length_le] at whole
  rw [readU64, writeU64, whole, ofLe_le_of_lt (by simpa using n.toNat_lt), UInt64.ofNat_toNat]

theorem readU16_field (data : PageData) (off : Nat) (front rest : Bytes) {n p : Nat}
    (parts : bs = front ++ (le 2 n ++ rest)) (start : p = front.length) (small : n < 2 ^ 16) :
    readU16 (setBytes data off bs) (off + p) = n := by
  have inside : p + 2 ≤ bs.length := by
    rw [parts, start, List.length_append, List.length_append, length_le]
    omega
  rw [readU16, bytes_setBytes_within data off inside, slice_of_eq front _ rest parts start (length_le 2 n).symm,
    ofLe_le_of_lt (by simpa using small)]

theorem readU64_field (data : PageData) (off : Nat) (front rest : Bytes) {n : UInt64} {p : Nat}
    (parts : bs = front ++ (le 8 n.toNat ++ rest)) (start : p = front.length) :
    readU64 (setBytes data off bs) (off + p) = n := by
  have inside : p + 8 ≤ bs.length := by
    rw [parts, start, List.length_append, List.length_append, length_le]
    omega
  rw [readU64, bytes_setBytes_within data off inside, slice_of_eq front _ rest parts start (length_le 8 _).symm,
    ofLe_le_of_lt (by simpa using n.toNat_lt), UInt64.ofNat_toNat]

theorem getElem?_of_take {α : Type} {es : List α} {a : α} {n : Nat} (here : (es.take n)[i]? = some a) :
    es[i]? = some a := by
  rw [List.getElem?_take] at here
  split at here
  · exact here
  · cases here

/-- **A loop over the entries of a page** counts the turns that are left down and the index of the
entry up. -/
theorem by_turns {α : Type} {es : List α} {P : Nat → Nat → Prop} (done : P 0 es.length)
    (turn : ∀ n i e, es[i]? = some e → es.drop i = e :: es.drop (i + 1) → P n (i + 1) → P (n + 1) i) :
    P es.length 0 := by
  have loop : ∀ n i, i + n = es.length → P n i := by
    intro n
    induction n with
    | zero =>
      rintro i rfl
      exact done
    | succ n ih =>
      intro i total
      have inside : i < es.length := by omega
      exact turn n i es[i] (List.getElem?_eq_getElem inside) (List.drop_eq_getElem_cons inside) (ih (i + 1) (by omega))
  exact loop es.length 0 (Nat.zero_add _)

/-! ## Leaves -/

abbrev LeafItem := Key × Value × UInt8
abbrev IntItem := UInt64 × PageId × Key

def LeafItem.size (e : LeafItem) : Nat := e.1.length + e.2.1.length

/-- The bytes that keys and values take. -/
def used (es : List LeafItem) : Nat := (es.map LeafItem.size).sum

/-- A page has room for the entries of a leaf. -/
def LeafRoom (es : List LeafItem) : Prop := leafEntriesOff + es.length * leafEntrySize + used es ≤ pageSize

instance (es : List LeafItem) : Decidable (LeafRoom es) := inferInstanceAs (Decidable (_ ≤ _))

/-- Where the key of an entry starts: entries fill the page from its end. -/
def leafOff (es : List LeafItem) (i : Nat) : Nat := pageSize - used (es.take (i + 1))

/-- An entry is on the page, with its key from `off` on. -/
structure LeafAt (X : Extern) (data : PageData) (i off : Nat) (e : LeafItem) : Prop where
  entry : readLeafEntry data i = .ok {
    keyHash := X.xxh3_64 e.1
    valOff := off + e.1.length
    valLen := e.2.1.length
    keyLen := e.1.length
    flags := e.2.2 }
  key : bytes data off e.1.length = e.1
  value : bytes data (off + e.1.length) e.2.1.length = e.2.1

/-- The page holds the entries of a leaf. -/
structure LeafPage (X : Extern) (data : PageData) (es : List LeafItem) : Prop where
  leaf : isLeaf data = true
  count : count data = es.length
  room : LeafRoom es
  items : ∀ i e, es[i]? = some e → LeafAt X data i (leafOff es i) e
  flags : ∀ e ∈ es, e.2.2 = 0 ∨ e.2.2 = 1

theorem used_append (es fs : List LeafItem) : used (es ++ fs) = used es + used fs := by
  rw [used, List.map_append, List.sum_append, used, used]

theorem used_cons (e : LeafItem) (es : List LeafItem) : used (e :: es) = e.size + used es := by
  rw [used, List.map_cons, List.sum_cons, used]

variable {e : LeafItem} {es : List LeafItem}

theorem used_take_succ (here : es[i]? = some e) :
    used (es.take (i + 1)) = used (es.take i) + e.size := by
  rw [List.take_add_one, here, Option.toList_some, used_append, used_cons]
  rfl

theorem used_take_le (es : List LeafItem) (i : Nat) : used (es.take i) ≤ used es := by
  have whole := used_append (es.take i) (es.drop i)
  rw [List.take_append_drop] at whole
  omega

theorem used_take_mono (es : List LeafItem) {j : Nat} (le : i ≤ j) : used (es.take i) ≤ used (es.take j) := by
  have inner := used_take_le (es.take j) i
  rwa [List.take_take, Nat.min_eq_left le] at inner

/-- Entries of the same sizes lie at the same places. -/
theorem leafOff_congr {fs : List LeafItem} (sizes : fs.map LeafItem.size = es.map LeafItem.size) (i : Nat) :
    leafOff fs i = leafOff es i := by
  rw [leafOff, leafOff, used, used, List.map_take, List.map_take, sizes]

theorem LeafRoom.congr {fs : List LeafItem} (room : LeafRoom es)
    (sizes : fs.map LeafItem.size = es.map LeafItem.size) : LeafRoom fs := by
  have length : fs.length = es.length := by simpa using congrArg List.length sizes
  rwa [LeafRoom, length, used, sizes]

theorem map_size_set {f : LeafItem} (here : es[i]? = some e) (size : f.size = e.size) :
    (es.set i f).map LeafItem.size = es.map LeafItem.size := by
  obtain ⟨inside, rfl⟩ := List.getElem?_eq_some_iff.mp here
  rw [List.map_set, size, ← List.getElem_map LeafItem.size (h := by simpa using inside), List.set_getElem_self]

theorem readLeafEntry_congr
    (same : ∀ j, leafEntriesOff + i * leafEntrySize ≤ j → j < leafEntriesOff + (i + 1) * leafEntrySize →
      data j = data' j) : readLeafEntry data i = readLeafEntry data' i := by
  have block : leafEntriesOff + (i + 1) * leafEntrySize = leafEntriesOff + i * leafEntrySize + 23 := by
    rw [Nat.add_mul, Nat.one_mul, ← Nat.add_assoc]
    rfl
  simp only [block] at same
  rw [readLeafEntry, readLeafEntry]
  simp only [readU64, readU16]
  rw [bytes_congr fun j low high => show data j = data' j from same j low (by omega),
    bytes_congr fun j low high => show data j = data' j from same j (by omega) (by omega),
    bytes_congr fun j low high => show data j = data' j from same j (by omega) (by omega),
    bytes_congr fun j low high => show data j = data' j from same j (by omega) (by omega),
    same (leafEntriesOff + i * leafEntrySize + 22) (by omega) (by omega)]

/-- What is written elsewhere leaves an entry alone. -/
theorem LeafAt.congr (held : LeafAt X data i off e)
    (entry : ∀ j, leafEntriesOff + i * leafEntrySize ≤ j → j < leafEntriesOff + (i + 1) * leafEntrySize →
      data j = data' j) (content : ∀ j, off ≤ j → j < off + e.size → data j = data' j) : LeafAt X data' i off e where
  entry := (readLeafEntry_congr entry).symm.trans held.entry
  key := (bytes_congr fun j low high => content j low (by unfold LeafItem.size; omega)).symm.trans held.key
  value := (bytes_congr fun j low high => content j (by omega) (by unfold LeafItem.size; omega)).symm.trans held.value

/-- The bytes of an entry without a tombstone. -/
def leafEntryBytes (hash : UInt64) (valOff valLen keyLen : Nat) : Bytes :=
  le 8 hash.toNat ++ le 2 valOff ++ le 2 valLen ++ le 2 keyLen ++ le 8 0 ++ [0]

theorem readLeafEntry_written (data : PageData) (hash : UInt64) {valOff valLen keyLen : Nat}
    (offSmall : valOff < 2 ^ 16) (valSmall : valLen < 2 ^ 16) (keySmall : keyLen < 2 ^ 16)
    (inside : leafEntriesOff + i * leafEntrySize + leafEntrySize ≤ pageSize) :
    readLeafEntry (setBytes data (leafEntriesOff + i * leafEntrySize) (leafEntryBytes hash valOff valLen keyLen)) i =
      .ok { keyHash := hash, valOff, valLen, keyLen, flags := 0 } := by
  have hashAt := readU64_field data (leafEntriesOff + i * leafEntrySize) [] (le 2 valOff ++ le 2 valLen ++ le 2 keyLen ++
    le 8 0 ++ [0]) (p := 0) (n := hash) (show leafEntryBytes hash valOff valLen keyLen = _ by simp [leafEntryBytes]) rfl
  have offAt := readU16_field data (leafEntriesOff + i * leafEntrySize) (le 8 hash.toNat) (le 2 valLen ++ le 2 keyLen ++
    le 8 0 ++ [0]) (p := 8) (show leafEntryBytes hash valOff valLen keyLen = _ by simp [leafEntryBytes]) (by simp) offSmall
  have valAt := readU16_field data (leafEntriesOff + i * leafEntrySize) (le 8 hash.toNat ++ le 2 valOff) (le 2 keyLen ++
    le 8 0 ++ [0]) (p := 10) (show leafEntryBytes hash valOff valLen keyLen = _ by simp [leafEntryBytes]) (by simp) valSmall
  have keyAt := readU16_field data (leafEntriesOff + i * leafEntrySize) (le 8 hash.toNat ++ le 2 valOff ++ le 2 valLen)
    (le 8 0 ++ [0]) (p := 12) (show leafEntryBytes hash valOff valLen keyLen = _ by simp [leafEntryBytes]) (by simp)
    keySmall
  have flag : setBytes data (leafEntriesOff + i * leafEntrySize) (leafEntryBytes hash valOff valLen keyLen)
      (leafEntriesOff + i * leafEntrySize + 22) = 0 :=
    setBytes_inside data _ _ (by simp [leafEntryBytes])
  rw [Nat.add_zero] at hashAt
  rw [readLeafEntry]
  simp only [if_pos inside, hashAt, offAt, valAt, keyAt, flag]

/-- The loop over the entries that are there adds their sizes up. -/
theorem usedBytes_eq (items : ∀ i e, es[i]? = some e → ∃ off, LeafAt X data i off e) :
    usedBytes data es.length 0 = .ok (used es) := by
  refine by_turns (P := fun n i => usedBytes data n i = .ok (used (es.drop i))) ?_ fun n i e here rest loop => ?_
  · rw [usedBytes, List.drop_length]
    rfl
  · obtain ⟨off, at'⟩ := items i e here
    rw [usedBytes, at'.entry, Outcome.ok_bind, loop, Outcome.ok_bind, rest, used_cons]
    rfl

/-- **One entry is written** behind those that are there. -/
theorem insertLeafEntry_spec (page : LeafPage X data es)
    {key : Key} {value : Value} {flags : UInt8} (room : LeafRoom (es ++ [(key, value, flags)])) :
    ∃ data', insertLeafEntry X data es.length key value = .ok data' ∧
      (∀ j, j < leafEntriesOff → data' j = data j) ∧
      (∀ i e, es[i]? = some e → LeafAt X data' i (leafOff es i) e) ∧
      LeafAt X data' es.length (pageSize - used es - value.length - key.length) (key, value, 0) := by
  have size : used (es ++ [(key, value, flags)]) = used es + (key.length + value.length) := by
    rw [used_append, used_cons]
    rfl
  have enough : leafEntriesOff + (es.length + 1) * leafEntrySize + (used es + (key.length + value.length)) ≤ pageSize := by
    have := room
    rwa [LeafRoom, List.length_append, size] at this
  have counted : usedBytes data (readU16 data countOff) 0 = .ok (used es) := by
    have same : readU16 data countOff = es.length := page.count
    rw [same, usedBytes_eq fun i e here => ⟨_, page.items i e here⟩]
  have block : (es.length + 1) * leafEntrySize = es.length * leafEntrySize + leafEntrySize := by
    rw [Nat.add_mul, Nat.one_mul]
  have entrySize : leafEntrySize = 23 := rfl
  have pages : pageSize = 4096 := rfl
  have headers : leafEntriesOff = 28 := rfl
  let valOff := pageSize - used es - value.length
  let keyOff := valOff - key.length
  let data₁ := setBytes data keyOff key
  let data₂ := setBytes data₁ valOff value
  let data₃ := setBytes data₂ (leafEntriesOff + es.length * leafEntrySize)
    (leafEntryBytes (X.xxh3_64 key) valOff value.length key.length)
  have entryLength : (leafEntryBytes (X.xxh3_64 key) valOff value.length key.length).length = 23 := by
    simp [leafEntryBytes]
  have result : insertLeafEntry X data es.length key value = .ok data₃ := by
    rw [insertLeafEntry, counted, Outcome.ok_bind, if_neg (by omega), if_neg (by omega), if_pos (by omega)]
    rfl
  -- the writes stay above the header and the old entries, and below the old contents
  have keep : ∀ j, (j < leafEntriesOff + es.length * leafEntrySize ∨ pageSize - used es ≤ j) → data₃ j = data j := by
    intro j outside
    have third : data₃ j = data₂ j := setBytes_outside (by rw [entryLength]; omega)
    have second : data₂ j = data₁ j := setBytes_outside (by simp only [valOff]; omega)
    have first : data₁ j = data j := setBytes_outside (by simp only [keyOff, valOff]; omega)
    rw [third, second, first]
  refine ⟨data₃, result, fun j low => keep j (.inl (by omega)), ?_, ?_⟩
  · intro i e here
    have inside : i < es.length := (List.getElem?_eq_some_iff.mp here).1
    have top : used (es.take (i + 1)) ≤ used es := used_take_le es (i + 1)
    have rows : (i + 1) * leafEntrySize ≤ es.length * leafEntrySize := Nat.mul_le_mul_right _ inside
    refine (page.items i e here).congr (fun j _ high => (keep j (.inl (by omega))).symm) fun j low _ => ?_
    exact (keep j (.inr (by rw [leafOff] at low; omega))).symm
  · have offset : keyOff + key.length = valOff := by simp only [keyOff, valOff]; omega
    refine ⟨?_, ?_, ?_⟩
    · have offSmall : valOff < 2 ^ 16 := by
        simp only [valOff]
        omega
      have written : readLeafEntry data₃ es.length = .ok
          { keyHash := X.xxh3_64 key, valOff, valLen := value.length, keyLen := key.length, flags := 0 } :=
        readLeafEntry_written data₂ (X.xxh3_64 key) offSmall (by omega) (by omega) (by omega)
      exact offset ▸ written
    · have third : bytes data₃ keyOff key.length = bytes data₂ keyOff key.length :=
        bytes_setBytes_apart data₂ (.inr (by rw [entryLength]; simp only [keyOff, valOff]; omega))
      have second : bytes data₂ keyOff key.length = bytes data₁ keyOff key.length :=
        bytes_setBytes_apart data₁ (.inl (by omega))
      exact (third.trans second).trans (bytes_setBytes_self data keyOff key)
    · have third : bytes data₃ valOff value.length = bytes data₂ valOff value.length :=
        bytes_setBytes_apart data₂ (.inr (by rw [entryLength]; simp only [valOff]; omega))
      have whole := third.trans (bytes_setBytes_self data₁ valOff value)
      exact offset ▸ whole

theorem LeafAt.inside (held : LeafAt X data i off e) :
    leafEntriesOff + i * leafEntrySize + leafEntrySize ≤ pageSize := by
  by_contra outside
  have entry := held.entry
  rw [readLeafEntry, if_neg outside] at entry
  cases entry

/-- A new flag byte. -/
theorem LeafAt.setFlag (held : LeafAt X data i off e)
    (above : leafEntriesOff + (i + 1) * leafEntrySize ≤ off) (flag : UInt8) :
    LeafAt X (setBytes data (flagOff i) [flag]) i off (e.1, e.2.1, flag) := by
  have block : leafEntriesOff + (i + 1) * leafEntrySize = leafEntriesOff + i * leafEntrySize + 23 := by
    rw [Nat.add_mul, Nat.one_mul, ← Nat.add_assoc]
    rfl
  have at22 : flagOff i = leafEntriesOff + i * leafEntrySize + 22 := rfl
  have one : ([flag] : Bytes).length = 1 := rfl
  have old := held.entry
  rw [readLeafEntry, if_pos held.inside] at old
  obtain ⟨hash, valOff, valLen, keyLen, -⟩ := LeafEntry.mk.inj (Outcome.ok.inj old)
  have newFlag : setBytes data (flagOff i) [flag] (flagOff i) = flag :=
    setBytes_inside data (flagOff i) [flag] (i := 0) rfl
  refine ⟨?_, ?_, ?_⟩
  · rw [readLeafEntry, if_pos held.inside, readU64_apart data (.inl (by omega)), readU16_apart data (.inl (by omega)),
      readU16_apart data (.inl (by omega)), readU16_apart data (.inl (by omega)), hash, valOff, valLen, keyLen,
      ← at22, newFlag]
  · rw [bytes_setBytes_apart data (.inr (by omega))]
    exact held.key
  · rw [bytes_setBytes_apart data (.inr (by omega))]
    exact held.value

theorem LeafRoom.above (room : LeafRoom es) (i : Nat) :
    leafEntriesOff + es.length * leafEntrySize ≤ leafOff es i := by
  have := used_take_le es (i + 1)
  unfold LeafRoom at room
  unfold leafOff
  omega

theorem isLeaf_congr (same : ∀ j, j < 2 → data j = data' j) : isLeaf data = isLeaf data' := by
  rw [isLeaf, isLeaf, readU16, readU16, nodeTypeOff, bytes_congr fun j _ high => same j (by omega)]

theorem count_congr (same : ∀ j, 2 ≤ j → j < 4 → data j = data' j) :
    count data = count data' := by
  rw [count, count, readU16, readU16, countOff, bytes_congr fun j low high => same j low (by omega)]

section

variable (page : LeafPage X data es)

include page

/-- The links of a page lie between its count and its entries. -/
theorem LeafPage.congr (header : ∀ j, j < 4 → data j = data' j) (rest : ∀ j, leafEntriesOff ≤ j → data j = data' j) :
    LeafPage X data' es where
  leaf := (isLeaf_congr fun j low => header j (by omega)).symm.trans page.leaf
  count := (count_congr fun j _ high => header j high).symm.trans page.count
  room := page.room
  items i e here := (page.items i e here).congr (fun j low _ => rest j (by omega)) fun j low _ =>
    rest j (by have := page.room.above i; omega)
  flags := page.flags

/-- The contents of an entry lie inside the page. -/
theorem LeafPage.bound (here : es[i]? = some e) : leafOff es i + e.size ≤ pageSize := by
  have sum := used_take_succ here
  have top := used_take_le es (i + 1)
  have room := page.room
  unfold LeafRoom at room
  unfold leafOff
  omega

/-- The contents of two entries keep apart: an entry further on lies below. -/
theorem LeafPage.below {f : LeafItem} {j : Nat} (there : es[j]? = some f)
    (less : i < j) : leafOff es j + f.size ≤ leafOff es i := by
  have sum := used_take_succ there
  have top := used_take_le es (j + 1)
  have mono := used_take_mono es (show i + 1 ≤ j from less)
  have room := page.room
  unfold LeafRoom at room
  unfold leafOff
  omega

/-- **One entry is replaced** by one of its size where nothing but its own bytes is written. -/
theorem LeafPage.set (here : es[i]? = some e) {f : LeafItem} (size : f.size = e.size)
    (isFlag : f.2.2 = 0 ∨ f.2.2 = 1) (new : LeafAt X data' i (leafOff es i) f)
    (frame : ∀ j, (j < leafEntriesOff + i * leafEntrySize ∨ leafEntriesOff + (i + 1) * leafEntrySize ≤ j) →
      (j < leafOff es i ∨ leafOff es i + e.size ≤ j) → data j = data' j) : LeafPage X data' (es.set i f) := by
  have inside : i < es.length := (List.getElem?_eq_some_iff.mp here).1
  have rows : (i + 1) * leafEntrySize ≤ es.length * leafEntrySize := Nat.mul_le_mul_right _ inside
  have aboveI := page.room.above i
  have header : ∀ j, j < leafEntriesOff → data j = data' j := fun j low => frame j (.inl (by omega)) (.inl (by omega))
  have sizes := map_size_set here size
  refine ⟨?_, ?_, page.room.congr sizes, ?_, ?_⟩
  · rw [← isLeaf_congr fun j low => header j (by unfold leafEntriesOff; omega)]
    exact page.leaf
  · rw [← count_congr fun j _ high => header j (by unfold leafEntriesOff; omega), List.length_set]
    exact page.count
  · intro j g found
    rw [leafOff_congr sizes]
    rw [List.getElem?_set] at found
    split at found
    next same =>
      subst same
      cases found
      exact new
    next differ =>
      have aboveJ := page.room.above j
      have insideJ : j < es.length := (List.getElem?_eq_some_iff.mp found).1
      have rowsJ : (j + 1) * leafEntrySize ≤ es.length * leafEntrySize := Nat.mul_le_mul_right _ insideJ
      refine (page.items j g found).congr (fun k low high => frame k ?_ (.inl (by omega))) fun k low high =>
        frame k (.inr (by omega)) ?_
      · rcases Nat.lt_or_gt_of_ne differ with before | after
        · have := Nat.mul_le_mul_right leafEntrySize (show i + 1 ≤ j from before)
          exact .inr (by omega)
        · have := Nat.mul_le_mul_right leafEntrySize (show j + 1 ≤ i from after)
          exact .inl (by omega)
      · rcases Nat.lt_or_gt_of_ne differ with before | after
        · have := page.below found before
          exact .inl (by omega)
        · have := page.below here after
          exact .inr (by omega)
  · intro g member
    rcases List.mem_or_eq_of_mem_set member with old | rfl
    · exact page.flags g old
    · exact isFlag

/-- **A new flag byte** changes one entry. -/
theorem LeafPage.setFlag (here : es[i]? = some e) {flag : UInt8} (isFlag : flag = 0 ∨ flag = 1) :
    LeafPage X (setBytes data (flagOff i) [flag]) (es.set i (e.1, e.2.1, flag)) := by
  have inside : i < es.length := (List.getElem?_eq_some_iff.mp here).1
  have rows : (i + 1) * leafEntrySize ≤ es.length * leafEntrySize := Nat.mul_le_mul_right _ inside
  have row : (i + 1) * leafEntrySize = i * leafEntrySize + 23 := by rw [Nat.add_mul, Nat.one_mul]; rfl
  have above := page.room.above i
  refine page.set here rfl isFlag ((page.items i e here).setFlag (by omega) flag) fun j own _ => ?_
  refine (setBytes_outside ?_).symm
  unfold flagOff
  rw [List.length_singleton]
  omega

end

/-- An empty leaf holds nothing. -/
theorem emptyLeaf_spec (X : Extern) (parent next prev : PageId) :
    LeafPage X (emptyLeaf parent next prev) [] ∧ readU64 (emptyLeaf parent next prev) nextLeafOff = next := by
  have two : ∀ n, (le 2 n).length = 2 := length_le 2
  have eight : ∀ n, (le 8 n).length = 8 := length_le 8
  refine ⟨⟨?_, ?_, by decide, nofun, nofun⟩, ?_⟩
  · have kind : readU16 (emptyLeaf parent next prev) nodeTypeOff = leafNode := by
      simp only [emptyLeaf, writeU64]
      rw [readU16_apart _ (.inl (by decide)), readU16_apart _ (.inl (by decide)), readU16_apart _ (.inl (by decide)),
        writeU16, readU16_apart _ (.inl (by decide)), readU16_writeU16 _ _ (by decide)]
    rw [isLeaf, kind, beq_self_eq_true]
  · have none : readU16 (emptyLeaf parent next prev) countOff = 0 := by
      simp only [emptyLeaf, writeU64]
      rw [readU16_apart _ (.inl (by decide)), readU16_apart _ (.inl (by decide)), readU16_apart _ (.inl (by decide)),
        readU16_writeU16 _ _ (by decide)]
    exact none
  · simp only [emptyLeaf]
    rw [writeU64, readU64_apart _ (.inl (by decide)), readU64_writeU64]

/-- **Entries that have room** are written to a leaf behind those that are there. -/
theorem fillLeaf_spec {fs : List LeafItem} (page : LeafPage X data es)
    (room : LeafRoom (es ++ fs)) (flags : ∀ e ∈ fs, e.2.2 = 0 ∨ e.2.2 = 1) :
    ∃ data', fillLeaf X data es.length fs = .ok data' ∧ LeafPage X data' (es ++ fs) ∧
      ∀ j, 4 ≤ j → j < leafEntriesOff → data' j = data j := by
  induction fs generalizing data es with
  | nil => exact ⟨data, rfl, by rwa [List.append_nil], fun _ _ _ => rfl⟩
  | cons e fs ih =>
    obtain ⟨key, value, flag⟩ := e
    have isFlag : flag = 0 ∨ flag = 1 := flags (key, value, flag) (.head _)
    have split : es ++ (key, value, flag) :: fs = (es ++ [(key, value, flag)]) ++ fs := by simp
    have roomHere : LeafRoom (es ++ [(key, value, flag)]) := by
      rw [split] at room
      have both : ((es ++ [(key, value, flag)]) ++ fs).length = (es ++ [(key, value, flag)]).length + fs.length :=
        List.length_append
      unfold LeafRoom at room ⊢
      rw [used_append, both, Nat.add_mul] at room
      omega
    obtain ⟨data₁, inserted, header, old, new⟩ := insertLeafEntry_spec page roomHere
    have small : es.length + 1 < 2 ^ 16 := by
      have entries : leafEntriesOff + (es.length + 1) * 23 + used (es ++ [(key, value, flag)]) ≤ 4096 := by
        have := roomHere
        rwa [LeafRoom, List.length_append] at this
      omega
    have size : used (es ++ [(key, value, flag)]) = used es + (key.length + value.length) := by
      rw [used_append, used_cons]
      rfl
    have offset : leafOff (es ++ [(key, value, flag)]) es.length =
        pageSize - used es - value.length - key.length := by
      rw [leafOff, List.take_of_length_le (by simp), size]
      omega
    have offsets : ∀ i, i < es.length → leafOff (es ++ [(key, value, flag)]) i = leafOff es i := by
      intro i inside
      rw [leafOff, leafOff, List.take_append_of_le_length inside]
    -- the page with the entry, before its flag is set
    have unflagged : LeafPage X (writeU16 data₁ countOff (es.length + 1)) (es ++ [(key, value, 0)]) := by
      have sizes : (es ++ [(key, value, 0)]).map LeafItem.size = (es ++ [(key, value, flag)]).map LeafItem.size := by
        rw [List.map_append, List.map_append]
        rfl
      have room₀ : LeafRoom (es ++ [(key, value, 0)]) := roomHere.congr sizes
      have outside : ∀ j, leafEntriesOff ≤ j → data₁ j = writeU16 data₁ countOff (es.length + 1) j :=
        fun j low => (setBytes_outside (.inr (by rw [length_le]; exact le_trans (by decide) low))).symm
      refine ⟨?_, ?_, room₀, ?_, ?_⟩
      · rw [← page.leaf]
        refine isLeaf_congr fun j low => ?_
        have lowest : j < countOff := low
        rw [writeU16, setBytes_outside (.inl lowest), header j (lt_trans low (by decide))]
      · rw [List.length_append]
        exact readU16_writeU16 data₁ countOff small
      · intro i f here
        have above := room₀.above i
        rw [List.length_append, List.length_singleton] at above
        have inside : i < es.length ∨ i = es.length := by
          have := (List.getElem?_eq_some_iff.mp here).1
          rw [List.length_append, List.length_singleton] at this
          omega
        refine LeafAt.congr ?_ (fun j low _ => outside j (by omega)) fun j low _ => outside j (by omega)
        rcases inside with inOld | rfl
        · rw [leafOff_congr sizes, offsets i inOld]
          rw [List.getElem?_append_left inOld] at here
          exact old i f here
        · rw [List.getElem?_concat_length] at here
          cases here
          rw [leafOff_congr sizes, offset]
          exact new
      · intro f member
        rcases List.mem_append.mp member with inOld | last
        · exact page.flags f inOld
        · rw [List.mem_singleton.mp last]
          exact .inl rfl
    let data₂ := if flag &&& 0x01 != 0 then setBytes (writeU16 data₁ countOff (es.length + 1)) (flagOff es.length) [0x01]
      else writeU16 data₁ countOff (es.length + 1)
    have flagged : LeafPage X data₂ (es ++ [(key, value, flag)]) := by
      rcases isFlag with rfl | rfl
      · exact unflagged
      · have set := unflagged.setFlag (i := es.length) List.getElem?_concat_length (.inr rfl)
        rwa [List.set_append_right _ _ (le_rfl), Nat.sub_self, List.set_cons_zero] at set
    have kept : ∀ j, 4 ≤ j → j < leafEntriesOff → data₂ j = data j := by
      intro j low high
      have counted : writeU16 data₁ countOff (es.length + 1) j = data₁ j :=
        setBytes_outside (.inr (by rw [length_le]; exact low))
      have unset : data₂ j = writeU16 data₁ countOff (es.length + 1) j := by
        simp only [data₂]
        split
        · refine setBytes_outside (.inl (lt_of_lt_of_le high ?_))
          unfold flagOff
          omega
        · rfl
      rw [unset, counted, header j high]
    obtain ⟨data', filled, whole, links⟩ := ih flagged (split ▸ room) fun f member => flags f (.tail _ member)
    refine ⟨data', ?_, split ▸ whole, fun j low high => (links j low high).trans (kept j low high)⟩
    rw [fillLeaf, inserted, Outcome.ok_bind]
    rw [List.length_append, List.length_singleton] at filled
    exact filled

/-! ## Reading a leaf -/

section Reading

variable {X : Extern} {data : PageData} {es : List LeafItem}
variable {e : LeafItem} {i : Nat}

section

variable (page : LeafPage X data es)

include page

theorem LeafPage.readKey (here : es[i]? = some e)
    {entry : LeafEntry} (keyLen : entry.keyLen = e.1.length) (valOff : entry.valOff = leafOff es i + e.1.length) :
    readLeafKey data entry = .ok e.1 := by
  have bound := page.bound here
  unfold LeafItem.size at bound
  rw [readLeafKey, keyLen, valOff, if_neg (by omega), Nat.add_sub_cancel, readBytes, if_pos (by omega),
    (page.items i e here).key]

theorem LeafPage.readValue (here : es[i]? = some e)
    {entry : LeafEntry} (valLen : entry.valLen = e.2.1.length) (valOff : entry.valOff = leafOff es i + e.1.length) :
    readLeafValue data entry = .ok e.2.1 := by
  have bound := page.bound here
  unfold LeafItem.size at bound
  rw [readLeafValue, valLen, valOff, readBytes, if_pos (by omega), (page.items i e here).value]

/-- **The entries are read back.** -/
theorem LeafPage.readLeaf : readLeaf data (BTree.count data) 0 = .ok es := by
  rw [page.count]
  refine by_turns (P := fun n i => BTree.readLeaf data n i = .ok (es.drop i)) ?_ fun n i e here rest loop => ?_
  · rw [BTree.readLeaf, List.drop_length]
  · rw [BTree.readLeaf, (page.items i e here).entry, Outcome.ok_bind, page.readKey here rfl rfl, Outcome.ok_bind,
      page.readValue here rfl rfl, Outcome.ok_bind, loop, Outcome.ok_bind, rest]

/-- A new value of the same length takes the place of the old one. -/
theorem LeafPage.setValue (here : es[i]? = some e) {value : Value} (same : value.length = e.2.1.length) :
    LeafPage X (setBytes data (leafOff es i + e.1.length) value) (es.set i (e.1, value, e.2.2)) := by
  have inside : i < es.length := (List.getElem?_eq_some_iff.mp here).1
  have rows : (i + 1) * leafEntrySize ≤ es.length * leafEntrySize := Nat.mul_le_mul_right _ inside
  have above := page.room.above i
  have size : e.size = e.1.length + e.2.1.length := rfl
  have sizes : LeafItem.size (e.1, value, e.2.2) = e.size := by rw [LeafItem.size, same]; rfl
  have held := page.items i e here
  refine page.set here sizes (page.flags e (List.mem_of_getElem? here)) ⟨?_, ?_, ?_⟩ fun j _ own =>
    (setBytes_outside (by omega)).symm
  · rw [← readLeafEntry_congr fun k _ high => (setBytes_outside (.inl (by omega))).symm, held.entry, same]
  · rw [bytes_setBytes_apart data (.inl (by simp only; omega))]
    exact held.key
  · exact bytes_setBytes_self data _ value

/-- What the search for a key finds at an index. -/
def existingAt (data : PageData) (es : List LeafItem) (key : Key) (value : Value) (i : Nat) (e : LeafItem) : Existing :=
  if e.2.1.length = value.length then
    .replaced (setBytes (setBytes data (leafOff es i + key.length) value) (flagOff i) [0])
  else .marked (setBytes data (flagOff i) [e.2.2 ||| 0x01])

/-- **The search for a key** stops at its first entry. -/
theorem LeafPage.existingLoop (key : Key) (value : Value) :
    (existingLoop data key value (BTree.count data) 0 = .ok .absent ∧ ∀ e ∈ es, e.1 ≠ key) ∨
    ∃ i e, es[i]? = some e ∧ e.1 = key ∧ (∀ f ∈ es.take i, f.1 ≠ key) ∧
      existingLoop data key value (BTree.count data) 0 = .ok (existingAt data es key value i e) := by
  rw [page.count]
  refine by_turns (P := fun n i => (∀ f ∈ es.take i, f.1 ≠ key) →
    (BTree.existingLoop data key value n i = .ok .absent ∧ ∀ e ∈ es, e.1 ≠ key) ∨
    ∃ j e, es[j]? = some e ∧ e.1 = key ∧ (∀ f ∈ es.take j, f.1 ≠ key) ∧
      BTree.existingLoop data key value n i = .ok (existingAt data es key value j e)) ?_ ?_ nofun
  · intro before
    rw [List.take_length] at before
    exact .inl ⟨rfl, before⟩
  · intro n i e here _ loop before
    have bound := page.bound here
    unfold LeafItem.size at bound
    rw [BTree.existingLoop, (page.items i e here).entry, Outcome.ok_bind, page.readKey here rfl rfl, Outcome.ok_bind]
    by_cases found : e.1 = key
    · refine .inr ⟨i, e, here, found, before, ?_⟩
      rw [if_pos found, existingAt]
      by_cases same : e.2.1.length = value.length
      · rw [if_pos ⟨congrArg List.length found, same⟩, if_pos (by simp only; omega), if_pos same, ← found]
      · rw [if_neg fun both => same both.2, if_neg same]
    · rw [if_neg found]
      refine loop fun f member => ?_
      rw [List.take_add_one, here, Option.toList_some, List.mem_append, List.mem_singleton] at member
      rcases member with old | rfl
      · exact before f old
      · exact found

/-- **What the search leaves** is a page again. -/
theorem LeafPage.existingAt {key : Key} (value : Value) (here : es[i]? = some e) (isKey : e.1 = key) :
    (∃ data', BTree.existingAt data es key value i e = .replaced data' ∧ e.2.1.length = value.length ∧
      LeafPage X data' (es.set i (key, value, 0))) ∨
    ∃ data', BTree.existingAt data es key value i e = .marked data' ∧ e.2.1.length ≠ value.length ∧
      LeafPage X data' (es.set i (key, e.2.1, 1)) := by
  subst isKey
  have inside : i < es.length := (List.getElem?_eq_some_iff.mp here).1
  rw [BTree.existingAt]
  by_cases same : e.2.1.length = value.length
  · rw [if_pos same]
    refine .inl ⟨_, rfl, same, ?_⟩
    have valued := page.setValue here same.symm
    have again : (es.set i (e.1, value, e.2.2))[i]? = some (e.1, value, e.2.2) := by
      rw [List.getElem?_set, if_pos rfl, if_pos inside]
    have cleared := valued.setFlag again (.inl rfl)
    rwa [List.set_set] at cleared
  · rw [if_neg same]
    refine .inr ⟨_, rfl, same, ?_⟩
    have one : e.2.2 ||| 0x01 = 1 := by
      rcases page.flags e (List.mem_of_getElem? here) with zero | one
      · rw [zero]; rfl
      · rw [one]; rfl
    rw [one]
    exact page.setFlag here (.inr rfl)

/-- **The search of a deletion** sets the tombstone of the first entry of the key. -/
theorem LeafPage.deleteLoop (key : Key) : deleteLoop data key (BTree.count data) 0 = .ok none ∨
    ∃ i e data', es[i]? = some e ∧ e.1 = key ∧ deleteLoop data key (BTree.count data) 0 = .ok (some data') ∧
      LeafPage X data' (es.set i (key, e.2.1, 1)) ∧ ∀ j, j < leafEntriesOff → data' j = data j := by
  rw [page.count]
  refine by_turns (P := fun n i => BTree.deleteLoop data key n i = .ok none ∨
    ∃ j e data', es[j]? = some e ∧ e.1 = key ∧ BTree.deleteLoop data key n i = .ok (some data') ∧
      LeafPage X data' (es.set j (key, e.2.1, 1)) ∧ ∀ j, j < leafEntriesOff → data' j = data j) (.inl rfl) ?_
  intro n i e here _ loop
  rw [BTree.deleteLoop, (page.items i e here).entry, Outcome.ok_bind, page.readKey here rfl rfl, Outcome.ok_bind]
  by_cases found : e.1 = key
  · rw [if_pos found]
    rcases page.flags e (List.mem_of_getElem? here) with zero | one
    · refine .inr ⟨i, e, setBytes data (flagOff i) [0x01], here, found, ?_, ?_, fun j low => ?_⟩
      · simp only [zero]
        rfl
      · rw [← found]
        exact page.setFlag here (.inr rfl)
      · refine setBytes_outside (.inl ?_)
        unfold flagOff
        omega
    · simp only [one]
      exact .inl rfl
  · rw [if_neg found]
    exact loop

end

end Reading

/-! ## Internal pages -/

/-- Where the key of entry `i` goes. -/
def intOff (i : Nat) (key : Key) : Nat := pageSize - 1 - i * (key.length + 2) - key.length

/-- Two stretches of a page have no byte in common. -/
def Apart (off len off' len' : Nat) : Prop := off + len ≤ off' ∨ off' + len' ≤ off ∨ len = 0 ∨ len' = 0

/-- A page has room for the entries of an internal node: each key starts on the page and above
the entries, and keys keep apart. -/
structure IntRoom (keys : List Key) : Prop where
  entries : intEntriesOff + keys.length * intEntrySize ≤ pageSize
  inside : ∀ i key, keys[i]? = some key → i * (key.length + 2) + key.length < pageSize
  above : ∀ i key, keys[i]? = some key → intEntriesOff + keys.length * intEntrySize ≤ intOff i key ∨ key.length = 0
  apart : ∀ i j key key', i < j → keys[i]? = some key → keys[j]? = some key' →
    Apart (intOff i key) key.length (intOff j key') key'.length

def keysOf (es : List IntItem) : List Key := es.map fun e => e.2.2

/-- An entry is on the page. -/
structure IntAt (data : PageData) (i : Nat) (e : IntItem) : Prop where
  entry : readIntEntry data i =
    .ok { keyHash := e.1, childId := e.2.1, keyOff := intOff i e.2.2, keyLen := e.2.2.length }
  key : bytes data (intOff i e.2.2) e.2.2.length = e.2.2

/-- The page holds the entries of an internal node. -/
structure IntPage (data : PageData) (es : List IntItem) : Prop where
  internal : isLeaf data = false
  count : count data = es.length
  room : IntRoom (keysOf es)
  items : ∀ i e, es[i]? = some e → IntAt data i e

theorem length_keysOf (es : List IntItem) : (keysOf es).length = es.length := List.length_map ..

theorem getElem?_keysOf {es : List IntItem} {e : IntItem} (here : es[i]? = some e) :
    (keysOf es)[i]? = some e.2.2 := by rw [keysOf, List.getElem?_map, here]; rfl

theorem readIntEntry_congr
    (same : ∀ j, intEntriesOff + i * intEntrySize ≤ j → j < intEntriesOff + i * intEntrySize + 20 →
      data j = data' j) : readIntEntry data i = readIntEntry data' i := by
  rw [readIntEntry, readIntEntry]
  simp only [readU64, readU16]
  rw [bytes_congr fun j low high => show data j = data' j from same j low (by omega),
    bytes_congr fun j low high => show data j = data' j from same j (by omega) (by omega),
    bytes_congr fun j low high => show data j = data' j from same j (by omega) (by omega),
    bytes_congr fun j low high => show data j = data' j from same j (by omega) (by omega)]

theorem IntAt.congr {e : IntItem} (held : IntAt data i e)
    (entry : ∀ j, intEntriesOff + i * intEntrySize ≤ j → j < intEntriesOff + i * intEntrySize + 20 →
      data j = data' j)
    (content : ∀ j, intOff i e.2.2 ≤ j → j < intOff i e.2.2 + e.2.2.length → data j = data' j) :
    IntAt data' i e where
  entry := (readIntEntry_congr entry).symm.trans held.entry
  key := (bytes_congr content).symm.trans held.key

def intEntryBytes (hash : UInt64) (childId : PageId) (keyOff keyLen : Nat) : Bytes :=
  le 8 hash.toNat ++ le 8 childId.toNat ++ le 2 keyOff ++ le 2 keyLen

theorem readIntEntry_written (data : PageData) (hash : UInt64) (childId : PageId) {keyOff keyLen : Nat}
    (offSmall : keyOff < 2 ^ 16) (keySmall : keyLen < 2 ^ 16)
    (inside : intEntriesOff + i * intEntrySize + intEntrySize ≤ pageSize) :
    readIntEntry (setBytes data (intEntriesOff + i * intEntrySize) (intEntryBytes hash childId keyOff keyLen)) i =
      .ok { keyHash := hash, childId, keyOff, keyLen } := by
  have hashAt := readU64_field data (intEntriesOff + i * intEntrySize) [] (le 8 childId.toNat ++ le 2 keyOff ++ le 2 keyLen)
    (p := 0) (n := hash) (show intEntryBytes hash childId keyOff keyLen = _ by simp [intEntryBytes]) rfl
  have childAt := readU64_field data (intEntriesOff + i * intEntrySize) (le 8 hash.toNat) (le 2 keyOff ++ le 2 keyLen)
    (n := childId) (p := 8) (show intEntryBytes hash childId keyOff keyLen = _ by simp [intEntryBytes]) (by simp)
  have offAt := readU16_field data (intEntriesOff + i * intEntrySize) (le 8 hash.toNat ++ le 8 childId.toNat) (le 2 keyLen)
    (p := 16) (show intEntryBytes hash childId keyOff keyLen = _ by simp [intEntryBytes]) (by simp) offSmall
  have keyAt := readU16_field data (intEntriesOff + i * intEntrySize) (le 8 hash.toNat ++ le 8 childId.toNat ++ le 2 keyOff)
    [] (p := 18) (show intEntryBytes hash childId keyOff keyLen = _ by simp [intEntryBytes]) (by simp) keySmall
  rw [Nat.add_zero] at hashAt
  rw [readIntEntry]
  simp only [if_pos inside, hashAt, childAt, offAt, keyAt]

/-- **One entry is written** where the room of the whole list has a place for it. -/
theorem pushIntEntry_spec {done : List IntItem} {e : IntItem} {rest : List IntItem}
    (room : IntRoom (keysOf (done ++ e :: rest))) (items : ∀ i f, done[i]? = some f → IntAt data i f) :
    ∃ data', pushIntEntry data done.length e.1 e.2.1 e.2.2 = .ok data' ∧
      (∀ i f, (done ++ [e])[i]? = some f → IntAt data' i f) ∧ ∀ j, j < intEntriesOff → data' j = data j := by
  obtain ⟨hash, childId, key⟩ := e
  have whole : ∀ (i : Nat) (f : IntItem), (done ++ [(hash, childId, key)])[i]? = some f →
      (keysOf (done ++ (hash, childId, key) :: rest))[i]? = some f.2.2 := by
    intro i f here
    have split : done ++ (hash, childId, key) :: rest = (done ++ [(hash, childId, key)]) ++ rest := by simp
    have inside := (List.getElem?_eq_some_iff.mp here).1
    refine getElem?_keysOf ?_
    rw [split, List.getElem?_append_left inside, here]
  have last := whole done.length (hash, childId, key) List.getElem?_concat_length
  have total : (keysOf (done ++ (hash, childId, key) :: rest)).length = done.length + (rest.length + 1) := by
    rw [length_keysOf, List.length_append, List.length_cons]
  have rows : (done.length + 1) * intEntrySize ≤ (keysOf (done ++ (hash, childId, key) :: rest)).length * intEntrySize :=
    Nat.mul_le_mul_right _ (by omega)
  have row : (done.length + 1) * intEntrySize = done.length * intEntrySize + 20 := by
    rw [Nat.add_mul, Nat.one_mul]
    rfl
  have inside := room.inside done.length key last
  have above := room.above done.length key last
  have entries := room.entries
  have pages : pageSize = 4096 := rfl
  have headers : intEntriesOff = 12 := rfl
  have size : intEntrySize = 20 := rfl
  let data₁ := setBytes data (intOff done.length key) key
  let data₂ := setBytes data₁ (intEntriesOff + done.length * intEntrySize)
    (intEntryBytes hash childId (intOff done.length key) key.length)
  have entryLength : (intEntryBytes hash childId (intOff done.length key) key.length).length = 20 := by
    simp [intEntryBytes]
  have result : pushIntEntry data done.length hash childId key = .ok data₂ := by
    simp only [pushIntEntry]
    rw [if_neg (by omega), if_pos (by omega)]
    rfl
  have low : ∀ j, j < intEntriesOff + done.length * intEntrySize → data₂ j = data j := by
    intro j below
    have second : data₂ j = data₁ j := setBytes_outside (.inl below)
    have first : data₁ j = data j := by
      rcases above with high | empty
      · exact setBytes_outside (.inl (by omega))
      · exact setBytes_outside (by rw [empty]; omega)
    rw [second, first]
  refine ⟨data₂, result, fun i f here => ?_, fun j below => low j (by omega)⟩
  have insideI : i < done.length ∨ i = done.length := by
    have := (List.getElem?_eq_some_iff.mp here).1
    rw [List.length_append, List.length_singleton] at this
    omega
  rcases insideI with old | rfl
  · have found := whole i f here
    have aboveI := room.above i f.2.2 found
    have apart := room.apart i done.length f.2.2 key old found last
    have rowI : (i + 1) * intEntrySize ≤ done.length * intEntrySize := Nat.mul_le_mul_right _ old
    have rowI' : (i + 1) * intEntrySize = i * intEntrySize + 20 := by
      rw [Nat.add_mul, Nat.one_mul]
      rfl
    rw [List.getElem?_append_left old] at here
    refine (items i f here).congr (fun j _ high => (low j (by omega)).symm) fun j from' to' => ?_
    have second : data₂ j = data₁ j := setBytes_outside (by rw [entryLength]; omega)
    have first : data₁ j = data j := by
      rcases apart with before | after | empty | empty
      · exact setBytes_outside (.inl (by omega))
      · exact setBytes_outside (.inr (by omega))
      · omega
      · exact setBytes_outside (by rw [empty]; omega)
    rw [second, first]
  · rw [List.getElem?_concat_length] at here
    cases here
    refine ⟨readIntEntry_written data₁ hash childId (by unfold intOff; omega) (by omega) (by omega), ?_⟩
    have second : bytes data₂ (intOff done.length key) key.length = bytes data₁ (intOff done.length key) key.length := by
      rcases above with high | empty
      · exact bytes_setBytes_apart data₁ (.inr (by rw [entryLength]; omega))
      · rw [empty]
        rfl
    exact second.trans (bytes_setBytes_self data _ key)

theorem fillInternal_loop (data : PageData) (done es : List IntItem) (room : IntRoom (keysOf (done ++ es)))
    (items : ∀ i e, done[i]? = some e → IntAt data i e) :
    ∃ data', fillInternal data done.length es = .ok data' ∧ (∀ i e, (done ++ es)[i]? = some e → IntAt data' i e) ∧
      ∀ j, j < intEntriesOff → data' j = data j := by
  induction es generalizing data done with
  | nil => exact ⟨data, rfl, by rwa [List.append_nil], fun _ _ => rfl⟩
  | cons e es ih =>
    have split : done ++ e :: es = (done ++ [e]) ++ es := by simp
    obtain ⟨data₁, pushed, items', header⟩ := pushIntEntry_spec room items
    obtain ⟨data', filled, all, header'⟩ := ih data₁ (done ++ [e]) (split ▸ room) items'
    refine ⟨data', ?_, split ▸ all, fun j low => (header' j low).trans (header j low)⟩
    rw [List.length_append, List.length_singleton] at filled
    rw [fillInternal, pushed, Outcome.ok_bind, filled]

/-- The links of a page lie between its count and its entries. -/
theorem IntPage.congr {es : List IntItem} (page : IntPage data es)
    (header : ∀ j, j < 4 → data j = data' j) (rest : ∀ j, intEntriesOff ≤ j → data j = data' j) :
    IntPage data' es where
  internal := (isLeaf_congr fun j low => header j (by omega)).symm.trans page.internal
  count := (count_congr fun j _ high => header j high).symm.trans page.count
  room := page.room
  items i e here := by
    refine (page.items i e here).congr (fun j low _ => rest j (by omega)) fun j low high => ?_
    rcases page.room.above i e.2.2 (getElem?_keysOf here) with above | empty
    · exact rest j (by omega)
    · omega

theorem IntRoom.take {keys : List Key} (room : IntRoom keys) (n : Nat) : IntRoom (keys.take n) := by
  have length : (keys.take n).length * intEntrySize ≤ keys.length * intEntrySize :=
    Nat.mul_le_mul_right _ (List.length_take_le' n keys)
  refine ⟨?_, fun i key here => room.inside i key (getElem?_of_take here), fun i key here => ?_,
    fun i j key key' less here there =>
      room.apart i j key key' less (getElem?_of_take here) (getElem?_of_take there)⟩
  · have := room.entries
    omega
  · rcases room.above i key (getElem?_of_take here) with above | empty
    · exact .inl (by omega)
    · exact .inr empty

/-- A count is no part of an entry. -/
theorem IntPage.recounted {es : List IntItem} (room : IntRoom (keysOf es)) {e : IntItem} (here : es[i]? = some e)
    (held : IntAt data i e) (n : Nat) : IntAt (writeU16 data countOff n) i e := by
  have outside : ∀ j, intEntriesOff ≤ j → data j = writeU16 data countOff n j := fun j far =>
    (setBytes_outside (.inr (by rw [length_le]; exact le_trans (by decide) far))).symm
  refine held.congr (fun j low _ => outside j (by omega)) fun j low high => outside j ?_
  rcases room.above i e.2.2 (getElem?_keysOf here) with above | empty
  · omega
  · omega

theorem isLeaf_recounted (data : PageData) (n : Nat) : isLeaf (writeU16 data countOff n) = isLeaf data :=
  isLeaf_congr fun _ low => setBytes_outside (.inl low)

theorem IntPage.take {es : List IntItem} (page : IntPage data es) {n : Nat} (le : n ≤ es.length)
    (small : es.length < 2 ^ 16) : IntPage (writeU16 data countOff n) (es.take n) := by
  refine ⟨(isLeaf_recounted data n).trans page.internal, ?_, ?_, fun i e here => ?_⟩
  · rw [List.length_take, Nat.min_eq_left le]
    exact readU16_writeU16 data countOff (by omega)
  · have taken : keysOf (es.take n) = (keysOf es).take n := List.map_take
    rw [taken]
    exact page.room.take n
  · have found := getElem?_of_take here
    exact IntPage.recounted page.room found (page.items i e found) n

/-- A page with entries has a small count. -/
theorem IntRoom.length_lt {keys : List Key} (room : IntRoom keys) : keys.length < 2 ^ 16 := by
  have entries : 12 + keys.length * 20 ≤ 4096 := room.entries
  omega

/-- **Entries that have room** are written to an empty internal page. -/
theorem fillInternal_spec (es : List IntItem) (room : IntRoom (keysOf es)) (parent : PageId) (first : Nat) :
    ∃ data, fillInternal (emptyInternal parent first) 0 es = .ok data ∧
      IntPage (writeU16 data countOff es.length) es ∧ (first = es.length → IntPage data es) := by
  obtain ⟨data, filled, items, header⟩ := fillInternal_loop (emptyInternal parent first) [] es room nofun
  have small : es.length < 2 ^ 16 := by
    have := room.length_lt
    rwa [length_keysOf] at this
  have two : ∀ n, (le 2 n).length = 2 := length_le 2
  have kind : isLeaf (emptyInternal parent first) = false := by
    have zero : readU16 (emptyInternal parent first) nodeTypeOff = internalNode := by
      simp only [emptyInternal, writeU64]
      rw [readU16_apart _ (.inl (by decide)), writeU16, readU16_apart _ (.inl (by decide)),
        readU16_writeU16 _ _ (by decide)]
    rw [isLeaf, zero]
    rfl
  have kind' : isLeaf data = false := (isLeaf_congr fun j low => header j (lt_trans low (by decide))).trans kind
  refine ⟨data, filled, ⟨(isLeaf_recounted data _).trans kind', readU16_writeU16 data countOff small, room, fun i e here =>
    IntPage.recounted room here (items i e here) _⟩, ?_⟩
  · rintro rfl
    refine ⟨kind', ?_, room, items⟩
    have counted : count (emptyInternal parent es.length) = es.length := by
      simp only [count, emptyInternal, writeU64]
      rw [readU16_apart _ (.inl (by decide)), readU16_writeU16 _ _ small]
    rw [count_congr fun j _ high => header j (lt_trans high (by decide)), counted]

/-! ## Reading an internal page -/

section ReadingInternal

variable {data : PageData} {es : List IntItem}

section

variable (page : IntPage data es)

include page

theorem IntPage.readKey {i : Nat} {e : IntItem} (here : es[i]? = some e) :
    readIntKey data { keyHash := e.1, childId := e.2.1, keyOff := intOff i e.2.2, keyLen := e.2.2.length } =
      .ok e.2.2 := by
  have bound : intOff i e.2.2 + e.2.2.length ≤ pageSize := by
    have inside := page.room.inside i e.2.2 (getElem?_keysOf here)
    unfold intOff
    omega
  rw [readIntKey, readBytes, if_pos bound, (page.items i e here).key]

theorem IntPage.readInternal : readInternal data (BTree.count data) 0 = .ok es := by
  rw [page.count]
  refine by_turns (P := fun n i => BTree.readInternal data n i = .ok (es.drop i)) ?_ fun n i e here rest loop => ?_
  · rw [BTree.readInternal, List.drop_length]
  · rw [BTree.readInternal, (page.items i e here).entry, Outcome.ok_bind, page.readKey here, Outcome.ok_bind, loop,
      Outcome.ok_bind, rest]

theorem IntPage.readChildIds : readChildIds data es.length 0 = .ok (es.map fun e => e.2.1) := by
  refine by_turns (P := fun n i => BTree.readChildIds data n i = .ok ((es.drop i).map fun e => e.2.1)) ?_ ?_
  · rw [BTree.readChildIds, List.drop_length]
    rfl
  · intro n i e here rest loop
    rw [BTree.readChildIds, (page.items i e here).entry, Outcome.ok_bind, loop, Outcome.ok_bind, rest, List.map_cons]

/-- The index of the child that a key is sent to, in a list of keys. -/
def childIndex (key : Key) (es : List IntItem) : Nat := (es.takeWhile fun e => decide (e.2.2 ≤ key)).length - 1

/-- **A key is sent to a child.** -/
theorem IntPage.childFor (some' : es ≠ []) (key : Key) :
    ∃ e, es[childIndex key es]? = some e ∧ childFor data key = .ok e.2.1 := by
  have loop := by_turns (P := fun n i => BTree.childIndexLoop data key n i i =
      .ok (i + ((es.drop i).takeWhile fun e => decide (e.2.2 ≤ key)).length))
    (by rw [BTree.childIndexLoop, List.drop_length]; rfl) fun n i e here rest loop => by
      rw [BTree.childIndexLoop, (page.items i e here).entry, Outcome.ok_bind, page.readKey here, Outcome.ok_bind, rest]
      by_cases le : e.2.2 ≤ key
      · rw [if_pos le, loop, List.takeWhile_cons_of_pos (by simpa using le), List.length_cons]
        congr 1
        omega
      · rw [if_neg le, List.takeWhile_cons_of_neg (by simpa using le)]
        rfl
  have positive : 0 < es.length := List.length_pos_iff.mpr some'
  have bound : (es.takeWhile fun e => decide (e.2.2 ≤ key)).length ≤ es.length :=
    (List.takeWhile_sublist _).length_le
  have inside : childIndex key es < es.length := by
    unfold childIndex
    omega
  refine ⟨es[childIndex key es], List.getElem?_eq_getElem inside, ?_⟩
  have index : getIntChildIndex data key = .ok (childIndex key es) := by
    have counted : readU16 data countOff = es.length := page.count
    rw [getIntChildIndex, counted, loop, Outcome.ok_bind, List.drop_zero, Nat.zero_add, childIndex]
    split
    · rfl
    · next zero =>
        rw [Nat.eq_zero_of_not_pos zero]
  rw [BTree.childFor, index, Outcome.ok_bind, (page.items _ _ (List.getElem?_eq_getElem inside)).entry, Outcome.ok_bind]

end

end ReadingInternal

end BTree

end NovaRuntime.Storage
