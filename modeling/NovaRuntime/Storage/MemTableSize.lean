/-
# NovaRuntime.Storage.MemTableSize — what `size()` counts

`size()` is compared with the flush threshold of the store. It should be the bytes of the
entries in the map, live and deleted: key, stored value and eight. An insertion keeps the
two equal, over an old value and over a tombstone. A deletion stores an empty value and does
not give back the old one's length: `size()` counts real content exactly in the runs that
delete no value that has a length (`size_counts_iff`).
-/
import NovaRuntime.Storage.MemTable
import NovaRuntime.Library.Runs

namespace NovaRuntime.Storage

open NovaRuntime.Library

set_option autoImplicit false

namespace MemTable

/-- The bytes an entry is counted with. -/
def entrySize (e : Key × MemTableEntry) : Nat := e.1.length + e.2.value.length + 8

/-- The bytes of everything in the map. -/
def contentSize (mt : MemTable) : Nat := (mt.data.toList.map entrySize).sum

/-- `size()` is the bytes of the map. -/
def Counts (mt : MemTable) : Prop := mt.size = mt.contentSize

inductive Write where
  | insert (key : Key) (value : Value)
  | delete (key : Key)
  deriving DecidableEq

def write (mt : MemTable) : Write → MemTable
  | .insert key value => mt.insert key value
  | .delete key => mt.delete key

/-- What is deleted stores no value, or an empty one. -/
def DropsNothing (mt : MemTable) : Write → Prop
  | .insert _ _ => True
  | .delete key => ∀ entry, mt.data[key]? = some entry → entry.value = []

/-! ## The entry of one key -/

section

variable {mt : MemTable} {key : Key}

/-- The bytes of the entries of the other keys. -/
def restSize (mt : MemTable) (key : Key) : Nat :=
  ((mt.data.toList.filter fun e => ¬ key == e.1).map entrySize).sum

theorem contentSize_put (mt : MemTable) (key : Key) (entry : MemTableEntry) (size : Nat) :
    contentSize { mt with data := mt.data.insert key entry, size } = entrySize (key, entry) + mt.restSize key := by
  have perm : (mt.data.insert key entry).toList.Perm _ := Std.TreeMap.toList_insert_perm
  rw [contentSize, (perm.map entrySize).sum_nat, List.map_cons, List.sum_cons]
  rfl

/-- To store what is stored already changes nothing. -/
theorem toList_insert_known {entry : MemTableEntry} (known : mt.data[key]? = some entry) :
    (mt.data.insert key entry).toList = mt.data.toList := by
  refine SortedKeys.ext (sortedKeys_toList _) (sortedKeys_toList _) fun k => ?_
  rw [lookup_toList, lookup_toList, Std.TreeMap.getElem?_insert]
  by_cases same : key = k
  · rw [if_pos (byteCmp_eq.mpr same), ← same, known]
  · rw [if_neg fun equal => same (byteCmp_eq.mp equal)]

theorem contentSize_known {entry : MemTableEntry} (known : mt.data[key]? = some entry) :
    mt.contentSize = entrySize (key, entry) + mt.restSize key := by
  rw [← mt.contentSize_put key entry mt.size, contentSize, contentSize, toList_insert_known known]

theorem contentSize_unknown (unknown : mt.data[key]? = none) : mt.contentSize = mt.restSize key := by
  have all : (mt.data.toList.filter fun e => ¬ key == e.1) = mt.data.toList := by
    refine List.filter_eq_self.mpr fun e member => ?_
    have known := Std.TreeMap.mem_toList_iff_getElem?_eq_some.mp member
    rw [decide_eq_true_eq, beq_iff_eq]
    rintro rfl
    rw [unknown] at known
    cases known
  rw [restSize, all, contentSize]

/-! ## One write -/

theorem Counts.insert (counts : mt.Counts) (key : Key) (value : Value) : (mt.insert key value).Counts := by
  have given_back : ∀ k v w rest : Nat, k + w + 8 + rest - w + v = k + v + 8 + rest := by omega
  rw [Counts, MemTable.insert, contentSize_put, entrySize]
  rw [Counts] at counts
  cases known : mt.data[key]? with
  | none =>
    dsimp only
    rw [counts, contentSize_unknown known]
    exact Nat.add_comm _ _
  | some old =>
    dsimp only
    rw [counts, contentSize_known known, entrySize]
    exact given_back _ _ _ _

/-- A deletion keeps the old value's length. -/
theorem Counts.delete_iff (counts : mt.Counts) (key : Key) :
    (mt.delete key).Counts ↔ mt.DropsNothing (.delete key) := by
  rw [Counts, MemTable.delete, contentSize_put, entrySize, DropsNothing]
  rw [Counts] at counts
  cases known : mt.data[key]? with
  | none =>
    have absent : mt.data.contains key = false := by
      rw [Std.TreeMap.contains_eq_isSome_getElem?, known]
      rfl
    rw [absent, counts, contentSize_unknown known]
    simp only [Bool.false_eq_true, if_false, List.length_nil, reduceCtorEq, false_implies, implies_true, iff_true]
    omega
  | some old =>
    have present : mt.data.contains key = true := by
      rw [Std.TreeMap.contains_eq_isSome_getElem?, known]
      rfl
    rw [present, counts, contentSize_known known, entrySize]
    simp only [if_true, List.length_nil, Option.some.injEq, forall_eq', ← List.length_eq_zero_iff]
    omega

theorem Counts.write_iff (counts : mt.Counts) (write : Write) : (mt.write write).Counts ↔ mt.DropsNothing write := by
  cases write with
  | insert key value => exact iff_of_true (counts.insert key value) trivial
  | delete key => exact counts.delete_iff key

end

/-! ## Every run -/

/-- **`size()` counts real content** exactly in the runs that delete no value that has a length. -/
theorem size_counts_iff (writes : List Write) :
    Run.Always write Counts new writes ↔ Run.Each write DropsNothing new writes :=
  Run.forall_states_iff (I := fun _ => True) (fun _ _ _ => trivial) (fun _ write _ counts => counts.write_iff write)
    trivial rfl

/-- **A deleted value** is still counted. -/
theorem deleted_counted : ¬ ∀ writes, Run.Always write Counts new writes := by
  intro always
  have run := always [.insert [1] [2], .delete [1]] _ (Run.foldl_mem_states _ _)
  have counts : (new.insert [1] [2]).Counts := Counts.insert (show new.Counts from rfl) _ _
  have dropped := (counts.delete_iff [1]).mp run ⟨[2], 0⟩ Std.TreeMap.getElem?_insert_self
  cases dropped

end MemTable

end NovaRuntime.Storage
