/-
# NovaRuntime.Library.Entries — association lists, sorted tables, newest-first merge

An entry list answers a key with the value of its first entry for that key
(`List.lookup`). Three facts are developed here for any key and value types.

* A table with strictly increasing keys (`SortedKeys`) is determined by its
  answers: `lookup_eq_some_iff_mem`, `SortedKeys.ext`.
* Restricting a list to the keys that pass a test restricts its answers
  (`lookup_filter_key`), so a range read can be pruned block by block.
* A log-structured store keeps its data in layers, each an entry list whose
  values are `some v` or the deletion mark `none`. `answer` is what the layers,
  concatenated newest first, say about a key. `Merge` is the one-pass merge that
  visits every entry once and keeps the first decision for each key
  (`Merge.run_spec`), and `live` the sorted table it ends in.
-/
import NovaRuntime.Library.ByteString

namespace NovaRuntime.Library

set_option autoImplicit false

variable {K V : Type}

theorem lookup_cons_ite [BEq K] (k k' : K) (v : V) (es : List (K × V)) :
    ((k', v) :: es).lookup k = if k == k' then some v else es.lookup k := by
  rw [List.lookup_cons]
  split <;> simp_all

/-! ## Sorted tables -/

section Sorted

variable [LinearOrder K]

/-- The keys of the list strictly increase. -/
def SortedKeys (es : List (K × V)) : Prop := es.Pairwise fun a b => a.1 < b.1

theorem sortedKeys_cons {e : K × V} {es : List (K × V)} :
    SortedKeys (e :: es) ↔ (∀ x ∈ es, e.1 < x.1) ∧ SortedKeys es := List.pairwise_cons

theorem sortedKeys_append {es fs : List (K × V)} :
    SortedKeys (es ++ fs) ↔ SortedKeys es ∧ SortedKeys fs ∧ ∀ a ∈ es, ∀ b ∈ fs, a.1 < b.1 :=
  List.pairwise_append

theorem SortedKeys.sublist {es fs : List (K × V)} (sub : es.Sublist fs) (sorted : SortedKeys fs) :
    SortedKeys es := List.Pairwise.sublist sub sorted

/-- Sorting a list whose keys are distinct by key gives a sorted table. -/
theorem sortedKeys_mergeSort {es : List (K × V)} (distinct : (es.map Prod.fst).Nodup) :
    SortedKeys (es.mergeSort fun a b => decide (a.1 ≤ b.1)) := by
  have perm := List.mergeSort_perm es fun a b => decide (a.1 ≤ b.1)
  have weak : (es.mergeSort fun a b => decide (a.1 ≤ b.1)).Pairwise
      fun a b => decide (a.1 ≤ b.1) = true :=
    List.pairwise_mergeSort (fun a b c => by simpa using le_trans)
      (fun a b => by simpa using le_total a.1 b.1) es
  have nodup := ((perm.map Prod.fst).nodup_iff).mpr distinct
  rw [List.Nodup, List.pairwise_map] at nodup
  exact (weak.and nodup).imp fun {a b} h =>
    lt_of_le_of_ne (by simpa using h.1) h.2

variable [BEq K] [LawfulBEq K]

/-- In a sorted table a key's answer is its only entry. -/
theorem lookup_eq_some_iff_mem {es : List (K × V)} (sorted : SortedKeys es) {k : K} {v : V} :
    es.lookup k = some v ↔ (k, v) ∈ es := by
  induction es with
  | nil => simp
  | cons e es ih =>
    obtain ⟨above, tail⟩ := sortedKeys_cons.mp sorted
    obtain ⟨k', v'⟩ := e
    rw [List.lookup_cons, List.mem_cons, Prod.mk.injEq]
    by_cases same : k = k'
    · subst same
      have absent : ∀ w, (k, w) ∉ es := fun w member => lt_irrefl k (above (k, w) member)
      simp [absent, eq_comm]
    · simp [beq_eq_false_iff_ne.mpr same, same, ih tail]

/-- A sorted table is determined by its answers. -/
theorem SortedKeys.ext {es fs : List (K × V)} (left : SortedKeys es) (right : SortedKeys fs)
    (same : ∀ k, es.lookup k = fs.lookup k) : es = fs := by
  have asymm : ∀ a b : K × V, a ∈ es → b ∈ fs → a.1 < b.1 → b.1 < a.1 → a = b :=
    fun a b _ _ ab ba => absurd ab (lt_asymm ba)
  refine List.Perm.eq_of_pairwise asymm left right ?_
  refine (List.perm_ext_iff_of_nodup ?_ ?_).mpr fun e => ?_
  · exact left.imp fun {a b} less same => (same ▸ less).false
  · exact right.imp fun {a b} less same => (same ▸ less).false
  · rw [← lookup_eq_some_iff_mem left, ← lookup_eq_some_iff_mem right, same]

end Sorted

/-! ## Restriction by key -/

theorem lookup_filter_key [BEq K] [LawfulBEq K] (p : K → Bool) (es : List (K × V)) (k : K) :
    (es.filter fun e => p e.1).lookup k = if p k then es.lookup k else none := by
  induction es with
  | nil => simp
  | cons e es ih =>
    obtain ⟨k', v'⟩ := e
    by_cases same : k = k'
    · subst same
      by_cases pass : p k <;> simp [pass, ih]
    · have differ := beq_eq_false_iff_ne.mpr same
      by_cases pass : p k' <;> simp [List.lookup_cons, pass, ih, differ]

/-! ## Layers and their merge -/

/-- What a list of entries, newest first, says about a key: a deletion mark and
silence both read as absent. -/
def answer [BEq K] (es : List (K × Option V)) (k : K) : Option V := (es.lookup k).join

/-- The state of a one-pass merge: the keys decided live, the keys decided
deleted, and the live entries in the order they were met. -/
structure Merge (K V : Type) where
  seen : List K := []
  tombstones : List K := []
  results : List (K × V) := []

/-- An entry after one for the same key is never met. -/
theorem lookup_snoc_of_known [BEq K] [LawfulBEq K] {es : List (K × V)} {key : K}
    (known : (es.lookup key).isSome) (value : V) (k : K) :
    (es ++ [(key, value)]).lookup k = es.lookup k := by
  rw [List.lookup_append, lookup_cons_ite, List.lookup_nil]
  by_cases here : k = key
  · subst here
    obtain ⟨old, found⟩ := Option.isSome_iff_exists.mp known
    rw [found, Option.some_or]
  · rw [if_neg (by simpa using here), Option.or_none]

/-- An entry after others answers for its key when they are silent. -/
theorem lookup_snoc_of_fresh [BEq K] [LawfulBEq K] {es : List (K × V)} {key : K}
    (fresh : es.lookup key = none) (value : V) (k : K) :
    (es ++ [(key, value)]).lookup k = if k == key then some value else es.lookup k := by
  rw [List.lookup_append, lookup_cons_ite, List.lookup_nil]
  by_cases here : k = key
  · subst here
    rw [fresh, Option.none_or, if_pos (beq_self_eq_true k)]
  · simp [here]

namespace Merge

variable [BEq K]

/-- Visit one entry: the first decision for a key stands. -/
def visit (m : Merge K V) (e : K × Option V) : Merge K V :=
  if m.tombstones.contains e.1 || m.seen.contains e.1 then m
  else match e.2 with
    | some v => { m with seen := e.1 :: m.seen, results := m.results ++ [(e.1, v)] }
    | none => { m with tombstones := e.1 :: m.tombstones }

/-- Visit a list of entries in order. -/
def run (m : Merge K V) (es : List (K × Option V)) : Merge K V := es.foldl visit m

/-- The merge state that says exactly what the entries visited so far say. -/
structure Decides (m : Merge K V) (es : List (K × Option V)) : Prop where
  live : ∀ k v, (k, v) ∈ m.results ↔ es.lookup k = some (some v)
  seen : ∀ k, k ∈ m.seen ↔ ∃ v, es.lookup k = some (some v)
  dead : ∀ k, k ∈ m.tombstones ↔ es.lookup k = some none
  distinct : (m.results.map Prod.fst).Nodup

theorem decides_nil : Decides ({} : Merge K V) [] :=
  ⟨by simp, by simp, by simp, by simp⟩

variable [LawfulBEq K]

theorem Decides.visit {m : Merge K V} {es : List (K × Option V)} (decided : m.Decides es)
    (e : K × Option V) : (m.visit e).Decides (es ++ [e]) := by
  obtain ⟨key, value⟩ := e
  have known : (m.tombstones.contains key || m.seen.contains key) = (es.lookup key).isSome := by
    have dead := decided.dead key
    have seen := decided.seen key
    rcases found : es.lookup key with _ | _ | v <;> rw [found] at dead seen <;> simp [dead, seen]
  rw [Merge.visit, known]
  cases found : es.lookup key with
  | some d =>
    -- the key is decided already, so the new entry answers nothing
    have same := lookup_snoc_of_known (Option.isSome_iff_exists.mpr ⟨d, found⟩) value
    exact ⟨fun k v => by rw [same]; exact decided.live k v,
      fun k => by simp only [same]; exact decided.seen k,
      fun k => by rw [same]; exact decided.dead k, decided.distinct⟩
  | none =>
    have split := lookup_snoc_of_fresh found value
    have absent : ∀ v, (key, v) ∉ m.results := fun v member => by
      rw [decided.live, found] at member
      cases member
    simp only [Option.isSome_none, Bool.false_eq_true, if_false]
    cases value with
    | none =>
      refine ⟨fun k v => ?_, fun k => ?_, fun k => ?_, decided.distinct⟩
      · rw [split, decided.live]
        by_cases here : k = key <;> simp [here, found]
      · rw [decided.seen]
        simp only [split]
        by_cases here : k = key <;> simp [here, found]
      · rw [List.mem_cons, split, decided.dead]
        by_cases here : k = key <;> simp [here]
    | some value =>
      refine ⟨fun k v => ?_, fun k => ?_, fun k => ?_, ?_⟩
      · rw [List.mem_append, List.mem_singleton, Prod.mk.injEq, split, decided.live]
        by_cases here : k = key
        · simp [here, found, eq_comm (a := v)]
        · simp [here]
      · rw [List.mem_cons, decided.seen]
        simp only [split]
        by_cases here : k = key <;> simp [here]
      · rw [split, decided.dead]
        by_cases here : k = key <;> simp [here, found]
      · rw [List.map_append, List.nodup_append]
        refine ⟨decided.distinct, by simp, fun k member k' member' same => ?_⟩
        obtain ⟨⟨k₀, v₀⟩, inResults, rfl⟩ := List.mem_map.mp member
        simp only [List.map_cons, List.map_nil, List.mem_singleton] at member'
        subst member'
        subst same
        exact absent v₀ inResults

/-- **The merge decides every key by its first entry.** -/
theorem run_spec {m : Merge K V} {es : List (K × Option V)} (decided : m.Decides es)
    (more : List (K × Option V)) : (m.run more).Decides (es ++ more) := by
  induction more generalizing m es with
  | nil => simpa [run] using decided
  | cons e more ih =>
    have := ih (decided.visit e)
    simpa [run, List.append_assoc] using this

end Merge

/-- What the entries leave live, sorted by key. -/
def live [LinearOrder K] [BEq K] (es : List (K × Option V)) : List (K × V) :=
  (({} : Merge K V).run es).results.mergeSort fun a b => decide (a.1 ≤ b.1)

section Live

variable [LinearOrder K] [BEq K] [LawfulBEq K]

theorem sortedKeys_live (es : List (K × Option V)) : SortedKeys (live es) :=
  sortedKeys_mergeSort (Merge.run_spec Merge.decides_nil es).distinct

theorem mem_live {es : List (K × Option V)} {k : K} {v : V} :
    (k, v) ∈ live es ↔ es.lookup k = some (some v) := by
  rw [live, (List.mergeSort_perm _ _).mem_iff]
  exact (Merge.run_spec Merge.decides_nil es).live k v

/-- The live entries answer like the entries they come from. -/
theorem lookup_live (es : List (K × Option V)) (k : K) : (live es).lookup k = answer es k := by
  ext v
  rw [lookup_eq_some_iff_mem (sortedKeys_live es), mem_live, answer, Option.join_eq_some_iff]

/-- A sorted table with the same answers is the table of the live entries. -/
theorem eq_live {es : List (K × Option V)} {table : List (K × V)} (sorted : SortedKeys table)
    (same : ∀ k, table.lookup k = answer es k) : table = live es :=
  sorted.ext (sortedKeys_live es) fun k => (same k).trans (lookup_live es k).symm

end Live

/-! ## Maps sorted by byte string -/

/-- A map whose iteration order is the lexicographic order of its keys. -/
abbrev ByteMap (V : Type) := Std.TreeMap Bytes V byteCmp

theorem sortedKeys_toList (m : ByteMap V) : SortedKeys m.toList :=
  (Std.TreeMap.ordered_keys_toList (t := m)).imp fun h => byteCmp_lt.mp h

theorem lookup_toList (m : ByteMap V) (k : Bytes) : m.toList.lookup k = m[k]? := by
  ext v
  rw [lookup_eq_some_iff_mem (sortedKeys_toList m), Std.TreeMap.mem_toList_iff_getElem?_eq_some]

end NovaRuntime.Library
