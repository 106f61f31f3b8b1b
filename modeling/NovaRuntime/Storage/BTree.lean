/-
# NovaRuntime.Storage.BTree — `BTree` of `btree.rs`, on the bytes of its pages

A leaf page holds a count, the links to its parent and its neighbours, and 23-byte
entries; the keys and values of the entries grow down from the end of the page. An
internal page holds 20-byte entries, each with a child and its separator key.
Nothing checks that the two areas of a page stay apart: a page that is too full is
overwritten in silence, and a panic when a slice leaves the 4096 bytes.

A `u16` is a `Nat` below `2 ^ 16` and a subtraction that would underflow is a
panic. The recursions over pages and the walk along the leaves take the number of
cached pages as fuel: visiting more pages than that means visiting one twice, and
the source then never returns.
-/
import NovaRuntime.Storage.PageCache

namespace NovaRuntime.Storage

open NovaRuntime.Library

set_option autoImplicit false

namespace BTree

def internalNode : Nat := 0
def leafNode : Nat := 1

def nodeTypeOff : Nat := 0
def countOff : Nat := 2
def parentOff : Nat := 4
def nextLeafOff : Nat := 12
def prevLeafOff : Nat := 20
def leafEntriesOff : Nat := 28
def intEntriesOff : Nat := 12

def leafEntrySize : Nat := 23
def intEntrySize : Nat := 20

/-! ## Bytes of a page -/

def bytes (data : PageData) (off len : Nat) : Bytes := (List.range len).map fun i => data (off + i)

/-- Overwrite the bytes from `off` on. -/
def setBytes (data : PageData) (off : Nat) (bs : Bytes) : PageData :=
  fun i => if i < off then data i else (bs[i - off]?).getD (data i)

/-- The slice `data[off..off + len]`. -/
def readBytes (data : PageData) (off len : Nat) : Result Bytes :=
  if off + len ≤ pageSize then .ok (bytes data off len) else .panic

def readU16 (data : PageData) (off : Nat) : Nat := ofLe (bytes data off 2)
def readU64 (data : PageData) (off : Nat) : UInt64 := UInt64.ofNat (ofLe (bytes data off 8))
def writeU16 (data : PageData) (off val : Nat) : PageData := setBytes data off (le 2 val)
def writeU64 (data : PageData) (off : Nat) (val : UInt64) : PageData :=
  setBytes data off (le 8 val.toNat)

structure IntEntry where
  keyHash : UInt64
  childId : PageId
  keyOff : Nat
  keyLen : Nat

structure LeafEntry where
  keyHash : UInt64
  valOff : Nat
  valLen : Nat
  keyLen : Nat
  flags : UInt8

def readIntEntry (data : PageData) (idx : Nat) : Result IntEntry :=
  let entryOff := intEntriesOff + idx * intEntrySize
  if entryOff + intEntrySize ≤ pageSize then
    .ok {
      keyHash := readU64 data entryOff
      childId := readU64 data (entryOff + 8)
      keyOff := readU16 data (entryOff + 16)
      keyLen := readU16 data (entryOff + 18) }
  else .panic

def readLeafEntry (data : PageData) (idx : Nat) : Result LeafEntry :=
  let entryOff := leafEntriesOff + idx * leafEntrySize
  if entryOff + leafEntrySize ≤ pageSize then
    .ok {
      keyHash := readU64 data entryOff
      valOff := readU16 data (entryOff + 8)
      valLen := readU16 data (entryOff + 10)
      keyLen := readU16 data (entryOff + 12)
      flags := data (entryOff + 22) }
  else .panic

/-- The key of a leaf entry lies right before its value. -/
def readLeafKey (data : PageData) (entry : LeafEntry) : Result Key :=
  if entry.valOff < entry.keyLen then .panic
  else readBytes data (entry.valOff - entry.keyLen) entry.keyLen

def readLeafValue (data : PageData) (entry : LeafEntry) : Result Value :=
  readBytes data entry.valOff entry.valLen

def readIntKey (data : PageData) (entry : IntEntry) : Result Key :=
  readBytes data entry.keyOff entry.keyLen

def flagOff (idx : Nat) : Nat := leafEntriesOff + idx * leafEntrySize + 22

/-- The sum of the key and value lengths of the first entries of a leaf. -/
def usedBytes (data : PageData) : Nat → Nat → Result Nat
  | 0, _ => .ok 0
  | left + 1, i => do
      let e ← readLeafEntry data i
      let rest ← usedBytes data left (i + 1)
      .ok (e.keyLen + e.valLen + rest)

def insertLeafEntry (X : Extern) (data : PageData) (idx : Nat) (key : Key) (value : Value) :
    Result PageData := do
  let entryOff := leafEntriesOff + idx * leafEntrySize
  let cumulative ← usedBytes data (readU16 data countOff) 0
  if pageSize < cumulative + value.length then .panic else
  let valOff := pageSize - cumulative - value.length
  if valOff < key.length then .panic else
  let keyOff := valOff - key.length
  let data := setBytes data keyOff key
  let data := setBytes data valOff value
  if entryOff + leafEntrySize ≤ pageSize then
    .ok (setBytes data entryOff
      (le 8 (X.xxh3_64 key).toNat ++ le 2 valOff ++ le 2 value.length ++ le 2 key.length ++
        le 8 0 ++ [0]))
  else .panic

/-- The key bytes of entry `idx` go to a place that depends on the length of this
key alone. -/
def pushIntEntry (data : PageData) (idx : Nat) (keyHash : UInt64) (childId : PageId) (key : Key) :
    Result PageData :=
  let entryOff := intEntriesOff + idx * intEntrySize
  if pageSize - 1 < idx * (key.length + 2) + key.length then .panic else
  let keyOff := pageSize - 1 - idx * (key.length + 2) - key.length
  let data := setBytes data keyOff key
  if entryOff + intEntrySize ≤ pageSize then
    .ok (setBytes data entryOff
      (le 8 keyHash.toNat ++ le 8 childId.toNat ++ le 2 keyOff ++ le 2 key.length))
  else .panic

/-! ## Whole pages -/

def emptyLeaf (parent next prev : PageId) : PageData :=
  let data : PageData := fun _ => 0
  let data := writeU16 data nodeTypeOff leafNode
  let data := writeU16 data countOff 0
  let data := writeU64 data parentOff parent
  let data := writeU64 data nextLeafOff next
  writeU64 data prevLeafOff prev

def emptyInternal (parent : PageId) (count : Nat) : PageData :=
  let data : PageData := fun _ => 0
  let data := writeU16 data nodeTypeOff internalNode
  let data := writeU16 data countOff count
  writeU64 data parentOff parent

def newPage (id : PageId) (data : PageData) : Page := { Page.new id with data }.markDirty

/-- The entries of a leaf from `i` on, with their flags. -/
def readLeaf (data : PageData) : Nat → Nat → Result (List (Key × Value × UInt8))
  | 0, _ => .ok []
  | left + 1, i => do
      let entry ← readLeafEntry data i
      let k ← readLeafKey data entry
      let v ← readLeafValue data entry
      let rest ← readLeaf data left (i + 1)
      .ok ((k, v, entry.flags) :: rest)

/-- Write entries to a leaf from index `idx` on. -/
def fillLeaf (X : Extern) : PageData → Nat → List (Key × Value × UInt8) → Result PageData
  | data, _, [] => .ok data
  | data, idx, (k, v, flags) :: entries => do
      let data ← insertLeafEntry X data idx k v
      let data := writeU16 data countOff (idx + 1)
      let data := if flags &&& 0x01 != 0 then setBytes data (flagOff idx) [0x01] else data
      fillLeaf X data (idx + 1) entries

def readInternal (data : PageData) : Nat → Nat → Result (List (UInt64 × PageId × Key))
  | 0, _ => .ok []
  | left + 1, i => do
      let entry ← readIntEntry data i
      let k ← readIntKey data entry
      let rest ← readInternal data left (i + 1)
      .ok ((entry.keyHash, entry.childId, k) :: rest)

/-- The children of an internal page from entry `i` on. -/
def readChildIds (data : PageData) : Nat → Nat → Result (List PageId)
  | 0, _ => .ok []
  | left + 1, i => do
      let entry ← readIntEntry data i
      let rest ← readChildIds data left (i + 1)
      .ok (entry.childId :: rest)

def fillInternal : PageData → Nat → List (UInt64 × PageId × Key) → Result PageData
  | data, _, [] => .ok data
  | data, idx, (h, cid, k) :: entries => do
      let data ← pushIntEntry data idx h cid k
      fillInternal data (idx + 1) entries

/-- The loop of `get_int_child_index`: the entries left, the next index, and the
index found so far. -/
def childIndexLoop (data : PageData) (key : Key) : Nat → Nat → Nat → Result Nat
  | 0, _, idx => .ok idx
  | left + 1, i, idx => do
      let entry ← readIntEntry data i
      let storedKey ← readIntKey data entry
      if storedKey ≤ key then childIndexLoop data key left (i + 1) (i + 1) else .ok idx

def getIntChildIndex (data : PageData) (key : Key) : Result Nat := do
  let idx ← childIndexLoop data key (readU16 data countOff) 0 0
  .ok (if idx > 0 then idx - 1 else 0)

/-- The child an internal page sends a key to. -/
def childFor (data : PageData) (key : Key) : Result PageId := do
  let idx ← getIntChildIndex data key
  let entry ← readIntEntry data idx
  .ok entry.childId

/-! ## Searching a leaf -/

def getLoop (X : Extern) (data : PageData) (key : Key) : Nat → Nat → Result (Option Value)
  | 0, _ => .ok none
  | left + 1, i => do
      let entry ← readLeafEntry data i
      if entry.keyHash ≠ X.xxh3_64 key then getLoop X data key left (i + 1)
      else if entry.keyLen ≠ key.length then getLoop X data key left (i + 1)
      else
        let storedKey ← readLeafKey data entry
        if storedKey = key then
          if entry.flags &&& 0x01 != 0 then getLoop X data key left (i + 1)
          else do
            let value ← readLeafValue data entry
            .ok (some value)
        else getLoop X data key left (i + 1)

/-- What the search for an existing key does to the page: `replaced` overwrites the
value in place and is done, `marked` leaves a tombstone and goes on. -/
inductive Existing where
  | replaced (data : PageData)
  | marked (data : PageData)
  | absent

def existingLoop (data : PageData) (key : Key) (value : Value) : Nat → Nat → Result Existing
  | 0, _ => .ok .absent
  | left + 1, i => do
      let entry ← readLeafEntry data i
      let storedKey ← readLeafKey data entry
      if storedKey = key then
        if entry.keyLen = key.length ∧ entry.valLen = value.length then
          if entry.valOff + value.length ≤ pageSize then
            .ok (.replaced (setBytes (setBytes data entry.valOff value) (flagOff i) [0]))
          else .panic
        else .ok (.marked (setBytes data (flagOff i) [entry.flags ||| 0x01]))
      else existingLoop data key value left (i + 1)

/-- The search of `delete_from` in a leaf: the page with the tombstone set, or none
if the key is not there or its first entry is a tombstone already. -/
def deleteLoop (data : PageData) (key : Key) : Nat → Nat → Result (Option PageData)
  | 0, _ => .ok none
  | left + 1, i => do
      let entry ← readLeafEntry data i
      let storedKey ← readLeafKey data entry
      if storedKey = key then
        if entry.flags &&& 0x01 != 0 then .ok none
        else .ok (some (setBytes data (flagOff i) [entry.flags ||| 0x01]))
      else deleteLoop data key left (i + 1)

/-- The loop of `scan` over one leaf: the results, and whether the range ended. -/
def scanLoop (data : PageData) (start stop : Key) :
    Nat → Nat → List (Key × Value) → Result (List (Key × Value) × Bool)
  | 0, _, results => .ok (results, false)
  | left + 1, i, results => do
      let entry ← readLeafEntry data i
      if entry.flags &&& 0x01 != 0 then scanLoop data start stop left (i + 1) results
      else
        let k ← readLeafKey data entry
        if k < start then scanLoop data start stop left (i + 1) results
        else if stop ≤ k then .ok (results, true)
        else do
          let v ← readLeafValue data entry
          scanLoop data start stop left (i + 1) (results ++ [(k, v)])

end BTree

/-! ## The tree -/

/-- `root_id` is zero while the tree is empty. -/
structure BTree where
  rootId : PageId := 0
  order : Nat
  nextId : PageId := 1000
  deriving DecidableEq

/-- A tree and the page cache it is stored in. -/
structure Tree (C : Type) where
  btree : BTree
  cache : PageCache C

namespace BTree

def new (order : Nat) : BTree := { order := if order < 4 then 128 else order }

def getRoot (t : BTree) : Option PageId := if t.rootId = 0 then none else some t.rootId

variable {C : Type} [BoundedCache C PageId Page]

/-- A call of the page cache. -/
def onCache {α : Type} (call : Method (PageCache C) α) : Method (Tree C) α := fun s =>
  let (outcome, cache) := call s.cache
  (outcome, { s with cache })

def setRoot (id : PageId) : Method (Tree C) Unit :=
  Exec.modify fun s => { s with btree := { s.btree with rootId := id } }

def allocatePageId : Method (Tree C) PageId := do
  let s ← Exec.get
  Exec.modify fun s => { s with btree := { s.btree with nextId := s.btree.nextId + 1 } }
  pure s.btree.nextId

/-- The number of pages the cache holds. -/
def fuel (cache : PageCache C) : Nat := BoundedCache.len cache.clean + cache.dirty.size

/-- `cache.get(id)?.ok_or_else(...)?`. -/
def fetch (id : PageId) (missing : String) : Method (Tree C) Page := do
  match ← onCache (PageCache.get id) with
  | some page => pure page
  | none => Exec.lift (.err (.internal missing))

def isLeaf (data : PageData) : Bool := readU16 data nodeTypeOff == leafNode

def count (data : PageData) : Nat := readU16 data countOff

def getFromPage (X : Extern) (key : Key) : Nat → PageData → Method (Tree C) (Option Value)
  | fuel, data =>
    if isLeaf data then Exec.lift (getLoop X data key (count data) 0)
    else
      match fuel with
      | 0 => Exec.lift .hang
      | fuel + 1 => do
          let childId ← Exec.lift (childFor data key)
          let childPage ← fetch childId "BTree child not found"
          getFromPage X key fuel childPage.data

def get (X : Extern) (key : Key) : Method (Tree C) (Option Value) := do
  let s ← Exec.get
  match s.btree.getRoot with
  | none => pure none
  | some rootId =>
    let page ← fetch rootId "BTree root not found"
    getFromPage X key (fuel s.cache) page.data

/-- Keys in ascending order, equal keys in the order they come in. -/
def byKey {α : Type} (key : α → Key) (entries : List α) : List α :=
  entries.mergeSort fun a b => decide (key a ≤ key b)

/-- Rewrite the link of a page, if the cache has it. -/
def relink (id : PageId) (off : Nat) (target : PageId) : Method (Tree C) Unit := do
  match ← onCache (PageCache.get id) with
  | some page =>
    onCache (PageCache.insert { page with data := writeU64 page.data off target }.markDirty)
  | none => pure ()

/-- Add the entry to a leaf that has room: the leaf is rebuilt in key order. -/
def addToLeaf (X : Extern) (page : Page) (key : Key) (value : Value) : Method (Tree C) Unit := do
  let entries ← Exec.lift (readLeaf page.data (count page.data) 0)
  let entries := byKey (fun e => e.1) (entries ++ [(key, value, 0)])
  let empty := emptyLeaf (readU64 page.data parentOff) (readU64 page.data nextLeafOff)
    (readU64 page.data prevLeafOff)
  let data ← Exec.lift (fillLeaf X empty 0 entries)
  onCache (PageCache.insert (newPage page.id data))

/-- The entries of a full leaf with the new one before the first that is not
smaller. -/
def insertSorted (key : Key) (value : Value) (entries : List (Key × Value × UInt8)) :
    List (Key × Value × UInt8) :=
  let entries := byKey (fun e => e.1) entries
  let pos := (entries.findIdx? fun e => decide (key ≤ e.1)).getD entries.length
  entries.insertIdx pos (key, value, 0)

/-- Split a full leaf: the entries from `order` on go to a new leaf. -/
def splitLeaf (X : Extern) (page : Page) (key : Key) (value : Value) :
    Method (Tree C) (Key × PageId) := do
  let s ← Exec.get
  let mid := s.btree.order
  let entries ← Exec.lift (readLeaf page.data (count page.data) 0)
  let entries := insertSorted key value entries
  match entries[mid]? with
  | none => Exec.lift .panic
  | some middle => do
      let newPageId ← allocatePageId
      let oldNext := readU64 page.data nextLeafOff
      let parent := readU64 page.data parentOff
      let left ← Exec.lift (fillLeaf X
        (emptyLeaf parent newPageId (readU64 page.data prevLeafOff)) 0 (entries.take mid))
      let right ← Exec.lift (fillLeaf X (emptyLeaf parent oldNext page.id) 0 (entries.drop mid))
      onCache (PageCache.insert (newPage page.id left))
      onCache (PageCache.insert (newPage newPageId right))
      if oldNext ≠ PageId.invalid then
        match ← onCache (PageCache.get oldNext) with
        | some nextPage =>
          if nextPage.id ≠ PageId.invalid then
            onCache (PageCache.insert
              { nextPage with data := writeU64 nextPage.data prevLeafOff newPageId }.markDirty)
        | none => pure ()
      pure (middle.1, newPageId)

def insertIntoLeaf (X : Extern) (page : Page) (key : Key) (value : Value) :
    Method (Tree C) (Option (Key × PageId)) := do
  let s ← Exec.get
  let n := count page.data
  match ← Exec.lift (existingLoop page.data key value n 0) with
  | .replaced data => do
      onCache (PageCache.insert { page with data }.markDirty)
      pure none
  | found =>
    let page : Page := match found with
      | .marked data => { page with data }
      | _ => page
    if n < s.btree.order * 2 then do
      addToLeaf X page key value
      pure none
    else do
      let split ← splitLeaf X page key value
      pure (some split)

/-- The entries of an internal page with the new child among them. -/
def withChild (X : Extern) (sepKey : Key) (newChildId : PageId)
    (entries : List (UInt64 × PageId × Key)) : List (UInt64 × PageId × Key) :=
  byKey (fun e => e.2.2) (entries ++ [(X.xxh3_64 sepKey, newChildId, sepKey)])

def relinkAll (off : Nat) (target : PageId) : List PageId → Method (Tree C) Unit
  | [] => pure ()
  | id :: ids => do
      relink id off target
      relinkAll off target ids

def insertIntoInternal (X : Extern) (page : Page) (sepKey : Key) (newChildId : PageId) :
    Method (Tree C) (Option (Key × PageId)) := do
  let s ← Exec.get
  let n := count page.data
  let order := s.btree.order
  let entries ← Exec.lift (readInternal page.data n 0)
  let entries := withChild X sepKey newChildId entries
  let parent := readU64 page.data parentOff
  if n < order * 2 then do
    let data ← Exec.lift (fillInternal (emptyInternal parent 0) 0 entries)
    onCache (PageCache.insert (newPage page.id (writeU16 data countOff entries.length)))
    pure none
  else
    let mid := order
    match entries[mid]? with
    | none => Exec.lift .panic
    | some promoted => do
        let newPageId ← allocatePageId
        let moved := entries.drop (mid + 1)
        let data ← Exec.lift (fillInternal (emptyInternal parent 0) 0 moved)
        let data := writeU16 data countOff moved.length
        let childIds ← Exec.lift (readChildIds data moved.length 0)
        onCache (PageCache.insert { page with data := writeU16 page.data countOff mid }.markDirty)
        onCache (PageCache.insert (newPage newPageId data))
        relinkAll parentOff newPageId childIds
        pure (some (promoted.2.2, newPageId))

def insertInto (X : Extern) (key : Key) (value : Value) :
    Nat → PageId → Method (Tree C) (Option (Key × PageId))
  | fuel, pageId => do
      let page ← fetch pageId "BTree page not found"
      if isLeaf page.data then insertIntoLeaf X page key value
      else
        match fuel with
        | 0 => Exec.lift .hang
        | fuel + 1 => do
            let childId ← Exec.lift (childFor page.data key)
            match ← insertInto X key value fuel childId with
            | some (sepKey, newChildId) => do
                let updated ← fetch pageId "BTree page gone"
                insertIntoInternal X updated sepKey newChildId
            | none => pure none

/-- The root, created as an empty leaf with page number 1 if there is none. -/
def ensureRoot : Method (Tree C) PageId := do
  let s ← Exec.get
  match s.btree.getRoot with
  | some id => pure id
  | none => do
      let page := newPage 1 (emptyLeaf PageId.invalid PageId.invalid PageId.invalid)
      onCache (PageCache.insert page)
      setRoot 1
      pure 1

/-- A new root over the old one and its new sibling, both under the same
separator. -/
def growRoot (X : Extern) (oldRootId : PageId) (sepKey : Key) (newChildId : PageId) :
    Method (Tree C) Unit := do
  let newRootId ← allocatePageId
  let hash := X.xxh3_64 sepKey
  let data ← Exec.lift (fillInternal (emptyInternal PageId.invalid 2) 0
    [(hash, oldRootId, sepKey), (hash, newChildId, sepKey)])
  onCache (PageCache.insert (newPage newRootId data))
  relink oldRootId parentOff newRootId
  relink newChildId parentOff newRootId
  setRoot newRootId

def insert (X : Extern) (key : Key) (value : Value) : Method (Tree C) Unit := do
  let rootId ← ensureRoot
  let s ← Exec.get
  match ← insertInto X key value (fuel s.cache) rootId with
  | some (sepKey, newChildId) => growRoot X rootId sepKey newChildId
  | none => pure ()

def deleteFrom (key : Key) : Nat → PageId → Method (Tree C) Bool
  | fuel, pageId => do
      let page ← fetch pageId "BTree page not found"
      if isLeaf page.data then
        match ← Exec.lift (deleteLoop page.data key (count page.data) 0) with
        | some data => do
            onCache (PageCache.insert { page with data }.markDirty)
            pure true
        | none => pure false
      else
        match fuel with
        | 0 => Exec.lift .hang
        | fuel + 1 => do
            let childId ← Exec.lift (childFor page.data key)
            deleteFrom key fuel childId

def delete (key : Key) : Method (Tree C) Bool := do
  let s ← Exec.get
  match s.btree.getRoot with
  | none => pure false
  | some rootId => deleteFrom key (fuel s.cache) rootId

def findStartLeaf (key : Key) : Nat → PageId → Method (Tree C) PageId
  | fuel, pageId => do
      let page ← fetch pageId "page not found"
      if isLeaf page.data then pure pageId
      else
        match fuel with
        | 0 => Exec.lift .hang
        | fuel + 1 => do
            let childId ← Exec.lift (childFor page.data key)
            findStartLeaf key fuel childId

/-- The walk along the leaves. -/
def scanLeaves (start stop : Key) :
    Nat → PageId → List (Key × Value) → Method (Tree C) (List (Key × Value))
  | 0, _, _ => Exec.lift .hang
  | fuel + 1, currentId, results => do
      let page ← fetch currentId "leaf not found"
      let (results, ended) ← Exec.lift (scanLoop page.data start stop (count page.data) 0 results)
      if ended then pure results
      else
        let nextId := readU64 page.data nextLeafOff
        if nextId = PageId.invalid then pure results
        else scanLeaves start stop fuel nextId results

def scan (start stop : Key) : Method (Tree C) (List (Key × Value)) := do
  let s ← Exec.get
  match s.btree.getRoot with
  | none => pure []
  | some rootId => do
      let startId ← findStartLeaf start (fuel s.cache) rootId
      scanLeaves start stop (fuel s.cache) startId []

end BTree

end NovaRuntime.Storage
