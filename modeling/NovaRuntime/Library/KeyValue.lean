/-
# NovaRuntime.Library.KeyValue — a correct key-value store

The store behind a subsystem, taken as correct: a finite map from byte strings whose
calls all succeed. A range read gives the entries of a half-open range in key order;
a batch makes its writes one after the other, so the last write of a key counts
(`getElem?_runBatch`). Programs over the store are sequences of the calls below.
-/
import NovaRuntime.Library.Outcome
import NovaRuntime.Library.Text

namespace NovaRuntime.Library

set_option autoImplicit false

abbrev KeyValue (V : Type) := ByteMap V

namespace KeyValue

variable {V ε : Type}

/-! ## Range reads -/

/-- The entries from `start` up to, but not including, `stop`. -/
def range (kv : KeyValue V) (start stop : Bytes) : List (Bytes × V) :=
  kv.toList.filter fun e => ¬ e.1 < start ∧ e.1 < stop

theorem mem_range {kv : KeyValue V} {start stop : Bytes} {e : Bytes × V} :
    e ∈ kv.range start stop ↔ kv[e.1]? = some e.2 ∧ ¬ e.1 < start ∧ e.1 < stop := by
  rw [range, List.mem_filter, decide_eq_true_eq, Std.TreeMap.mem_toList_iff_getElem?_eq_some]

theorem sortedKeys_range (kv : KeyValue V) (start stop : Bytes) : SortedKeys (kv.range start stop) :=
  (sortedKeys_toList kv).sublist List.filter_sublist

theorem nodup_range (kv : KeyValue V) (start stop : Bytes) :
    ((kv.range start stop).map Prod.fst).Nodup := by
  rw [List.Nodup, List.pairwise_map]
  exact (sortedKeys_range kv start stop).imp ne_of_lt

/-- A range read depends only on the keys of the range. -/
theorem range_congr {kv kv' : KeyValue V} {start stop : Bytes}
    (same : ∀ key, ¬ key < start → key < stop → kv[key]? = kv'[key]?) :
    kv.range start stop = kv'.range start stop := by
  refine (sortedKeys_range kv start stop).ext (sortedKeys_range kv' start stop) fun key => ?_
  ext value
  rw [lookup_eq_some_iff_mem (sortedKeys_range kv start stop),
    lookup_eq_some_iff_mem (sortedKeys_range kv' start stop), mem_range, mem_range]
  refine and_congr_left fun inside => ?_
  rw [same key inside.1 inside.2]

/-! ## Batches -/

/-- A batch: a value to set, or `none` to delete the key. -/
def runBatch (ops : List (Bytes × Option V)) (kv : KeyValue V) : KeyValue V :=
  ops.foldl (fun kv op =>
    match op.2 with
    | some value => kv.insert op.1 value
    | none => kv.erase op.1) kv

theorem runBatch_cons (op : Bytes × Option V) (ops : List (Bytes × Option V)) (kv : KeyValue V) :
    runBatch (op :: ops) kv = runBatch ops (match op.2 with
      | some value => kv.insert op.1 value
      | none => kv.erase op.1) := rfl

theorem getElem?_runBatch (ops : List (Bytes × Option V)) (kv : KeyValue V) (key : Bytes) :
    (runBatch ops kv)[key]? = (ops.reverse.lookup key).getD kv[key]? := by
  induction ops generalizing kv with
  | nil => rfl
  | cons op ops ih =>
    obtain ⟨k, written⟩ := op
    rw [runBatch_cons, ih, List.reverse_cons, List.lookup_append, lookup_cons_ite, List.lookup_nil]
    cases ops.reverse.lookup key with
    | some later => rfl
    | none =>
      cases written with
      | some value =>
        simp only [Std.TreeMap.getElem?_insert, byteCmp_eq, Option.none_or, Option.getD_none,
          beq_iff_eq]
        by_cases here : k = key
        · rw [if_pos here, if_pos here.symm, Option.getD_some]
        · rw [if_neg here, if_neg (Ne.symm here), Option.getD_none]
      | none =>
        simp only [Std.TreeMap.getElem?_erase, byteCmp_eq, Option.none_or, Option.getD_none,
          beq_iff_eq]
        by_cases here : k = key
        · rw [if_pos here, if_pos here.symm, Option.getD_some]
        · rw [if_neg here, if_neg (Ne.symm here), Option.getD_none]

theorem lookup_deletes (keys : List Bytes) (key : Bytes) :
    (keys.map fun k => (k, (none : Option V))).lookup key = if key ∈ keys then some none else none := by
  induction keys with
  | nil => rfl
  | cons k keys ih =>
    rw [List.map_cons, lookup_cons_ite, ih]
    by_cases here : key = k
    · simp [here]
    · simp [here]

/-- A batch of deletions deletes its keys and nothing else. -/
theorem getElem?_runDeletes (keys : List Bytes) (kv : KeyValue V) (key : Bytes) :
    (runBatch (keys.map fun k => (k, none)) kv)[key]? = if key ∈ keys then none else kv[key]? := by
  rw [getElem?_runBatch, ← List.map_reverse, lookup_deletes]
  simp only [List.mem_reverse]
  split <;> rfl

/-- A batch leaves the keys it does not name. -/
theorem getElem?_runBatch_of_not_mem {ops : List (Bytes × Option V)} {key : Bytes}
    (absent : key ∉ ops.map Prod.fst) (kv : KeyValue V) : (runBatch ops kv)[key]? = kv[key]? := by
  have unnamed : ops.reverse.lookup key = none := by
    refine List.lookup_eq_none_iff.mpr fun op member => ?_
    rw [bne_iff_ne]
    rintro rfl
    exact absent (List.mem_map_of_mem (List.mem_reverse.mp member))
  rw [getElem?_runBatch, unnamed, Option.getD_none]

/-- **A batch that names each key once** leaves what it writes. -/
theorem getElem?_runBatch_of_mem {ops : List (Bytes × Option V)} (once : (ops.map Prod.fst).Nodup)
    {key : Bytes} {written : Option V} (member : (key, written) ∈ ops) (kv : KeyValue V) :
    (runBatch ops kv)[key]? = written := by
  induction ops generalizing kv with
  | nil => cases member
  | cons op ops ih =>
    obtain ⟨first, later⟩ := List.nodup_cons.mp once
    rw [runBatch_cons]
    rcases List.mem_cons.mp member with rfl | inLater
    · rw [getElem?_runBatch_of_not_mem first]
      cases written with
      | some value | none => simp
    · exact ih later inLater _

/-! ## Calls -/

/-- The value of a key. -/
def get (key : Bytes) : Exec ε (KeyValue V) (Option V) := fun kv => (.ok kv[key]?, kv)

def set (key : Bytes) (value : V) : Exec ε (KeyValue V) Unit := Exec.modify (·.insert key value)

def delete (key : Bytes) : Exec ε (KeyValue V) Unit := Exec.modify (·.erase key)

def scan (start stop : Bytes) : Exec ε (KeyValue V) (List (Bytes × V)) := fun kv =>
  (.ok (kv.range start stop), kv)

def batch (ops : List (Bytes × Option V)) : Exec ε (KeyValue V) Unit := Exec.modify (runBatch ops)

@[simp] theorem get_apply (key : Bytes) (kv : KeyValue V) :
    (get key : Exec ε (KeyValue V) _) kv = (.ok kv[key]?, kv) := rfl
@[simp] theorem set_apply (key : Bytes) (value : V) (kv : KeyValue V) :
    (set key value : Exec ε (KeyValue V) _) kv = (.ok (), kv.insert key value) := rfl
@[simp] theorem delete_apply (key : Bytes) (kv : KeyValue V) :
    (delete key : Exec ε (KeyValue V) _) kv = (.ok (), kv.erase key) := rfl
@[simp] theorem scan_apply (start stop : Bytes) (kv : KeyValue V) :
    (scan start stop : Exec ε (KeyValue V) _) kv = (.ok (kv.range start stop), kv) := rfl
@[simp] theorem batch_apply (ops : List (Bytes × Option V)) (kv : KeyValue V) :
    (batch ops : Exec ε (KeyValue V) _) kv = (.ok (), runBatch ops kv) := rfl

end KeyValue

end NovaRuntime.Library
