/-
# NovaRuntime.Storage.MemTable — `MemTable` of `lsm.rs`

The in-memory layer of the store: a map sorted by key whose entries carry the
tombstone flag. What it says about a key is `MemTable.getWithTombstone`, and its
iteration is a sorted table that says the same (`lookup_iterWithTombstones`).
-/
import NovaRuntime.Storage.Types

namespace NovaRuntime.Storage

open NovaRuntime.Library

set_option autoImplicit false

structure MemTableEntry where
  value : Value
  flags : UInt8
  deriving DecidableEq

structure MemTable where
  data : ByteMap MemTableEntry := ∅
  size : Nat := 0
  immutable : Bool := false

namespace MemTableEntry

/-- `flags & 0x01 != 0` marks a deleted key. -/
def tombstone (entry : MemTableEntry) : Bool := entry.flags &&& 0x01 != 0

/-- The entry as the callers of the tombstone-aware reads see it. -/
def content (entry : MemTableEntry) : Option Value :=
  if entry.tombstone then none else some entry.value

end MemTableEntry

namespace MemTable

def new : MemTable := {}

def get (mt : MemTable) (key : Key) : Option Value :=
  match mt.data[key]? with
  | none => none
  | some entry => if entry.tombstone then none else some entry.value

/-- `Some(Some(v))` for a live key, `Some(None)` for a deleted one, `None` for an
unknown one. -/
def getWithTombstone (mt : MemTable) (key : Key) : Option (Option Value) :=
  match mt.data[key]? with
  | none => none
  | some entry => if entry.tombstone then some none else some (some entry.value)

def insert (mt : MemTable) (key : Key) (value : Value) : MemTable :=
  let size := match mt.data[key]? with
    | none => mt.size + (key.length + value.length + 8)
    | some old => mt.size - old.value.length + value.length
  { mt with data := mt.data.insert key { value, flags := 0 }, size }

def delete (mt : MemTable) (key : Key) : MemTable :=
  let size := if mt.data.contains key then mt.size else mt.size + (key.length + 8)
  { mt with data := mt.data.insert key { value := [], flags := 0x01 }, size }

def isEmpty (mt : MemTable) : Bool := mt.data.isEmpty

def iterWithTombstones (mt : MemTable) : List (Key × Option Value) :=
  mt.data.toList.map fun (k, entry) => if entry.tombstone then (k, none) else (k, some entry.value)

/-! ## What the operations do to the answers -/

theorem getWithTombstone_eq (mt : MemTable) (key : Key) :
    mt.getWithTombstone key = mt.data[key]?.map MemTableEntry.content := by
  unfold getWithTombstone MemTableEntry.content
  cases mt.data[key]? with
  | none => rfl
  | some entry => by_cases dead : entry.tombstone <;> simp [dead]

theorem get_eq (mt : MemTable) (key : Key) : mt.get key = (mt.getWithTombstone key).join := by
  unfold get getWithTombstone
  cases mt.data[key]? with
  | none => rfl
  | some entry => by_cases dead : entry.tombstone <;> simp [dead]

@[simp] theorem getWithTombstone_new (key : Key) : new.getWithTombstone key = none := by
  simp [getWithTombstone_eq, new]

section

variable (mt : MemTable)

include mt

theorem getWithTombstone_insert (key : Key) (value : Value) (k : Key) : (mt.insert key value).getWithTombstone k =
      if k = key then some (some value) else mt.getWithTombstone k := by
  simp only [getWithTombstone_eq, insert, Std.TreeMap.getElem?_insert, byteCmp_eq]
  by_cases same : k = key
  · subst same
    simp [MemTableEntry.content, MemTableEntry.tombstone]
  · simp [same, Ne.symm same]

theorem getWithTombstone_delete (key k : Key) : (mt.delete key).getWithTombstone k =
      if k = key then some none else mt.getWithTombstone k := by
  simp only [getWithTombstone_eq, delete, Std.TreeMap.getElem?_insert, byteCmp_eq]
  by_cases same : k = key
  · subst same
    simp [MemTableEntry.content, MemTableEntry.tombstone]
  · simp [same, Ne.symm same]

theorem iterWithTombstones_eq : mt.iterWithTombstones = mt.data.toList.map fun e => (e.1, e.2.content) := by
  refine List.map_congr_left fun e _ => ?_
  by_cases dead : e.2.tombstone <;> simp [MemTableEntry.content, dead]

theorem sortedKeys_iterWithTombstones : SortedKeys mt.iterWithTombstones := by
  rw [iterWithTombstones_eq, SortedKeys, List.pairwise_map]
  exact sortedKeys_toList mt.data

/-- The iteration says about every key what the point read says. -/
theorem lookup_iterWithTombstones (key : Key) : mt.iterWithTombstones.lookup key = mt.getWithTombstone key := by
  rw [iterWithTombstones_eq, getWithTombstone_eq, ← lookup_toList]
  induction mt.data.toList with
  | nil => rfl
  | cons e es ih =>
    obtain ⟨k, entry⟩ := e
    rw [List.map_cons, lookup_cons_ite, lookup_cons_ite, ih]
    by_cases same : key == k <;> simp [same]

end

theorem iterWithTombstones_eq_nil_of_isEmpty {mt : MemTable} (empty : mt.isEmpty = true) :
    mt.iterWithTombstones = [] := by
  rw [iterWithTombstones_eq, List.map_eq_nil_iff]
  simpa [isEmpty, Std.TreeMap.isEmpty_toList] using
    (List.isEmpty_iff.mp ((Std.TreeMap.isEmpty_toList (t := mt.data)).trans empty))

end MemTable

end NovaRuntime.Storage
