/-
# NovaRuntime.Storage.StoreSpec — what the memtable and the SSTables say together

`Store.Represents` gives each SSTable of the store the sorted entries its file
holds. Together with the memtable's they form one list of entries, newest first
(`Store.contents`), and both reads are functions of it: a point read is its answer
(`get_eq`), a range read the table of its live entries in the range (`scan_eq`).

The writes are then described by what they do to this list. A flush moves the
memtable's entries to a new layer, which leaves the list as it is
(`flushMemtable_cases`); a compaction replaces all layers by their live entries
below `compactionStop` (`compact_cases`).
-/
import NovaRuntime.Storage.Store
import NovaRuntime.Storage.SSTableSpec

namespace NovaRuntime.Storage

open NovaRuntime.Library

set_option autoImplicit false

namespace Store

open SSTable (Entry Holds inRange blockCount)

variable {C : Type}
variable {X : Extern} {layers : List (List Entry)} {ssts : List SSTable} {files : SstFiles} {s : Store C}

/-- Every entry of the store, newest first, when its tables hold `layers`. -/
def contents (s : Store C) (layers : List (List Entry)) : List Entry :=
  s.memtable.iterWithTombstones ++ layers.reverse.flatten

/-- The tables of the store, oldest first, hold `layers`; nothing is locked, and the
B-tree is empty. -/
structure Represents (X : Extern) (s : Store C) (layers : List (List Entry)) : Prop where
  unlocked : s.memtableLocked = false
  noRoot : s.btree.rootId = 0
  tables : List.Forall₂ (Holds X s.disk.sstables) s.sstables layers
  fresh : ∀ t ∈ s.sstables, t.path.id < s.nextPageId

/-! ## Parts of a call that change no entry -/

/-- The two stores have the same entries in the same places. -/
structure SameData (s s' : Store C) : Prop where
  memtable : s'.memtable = s.memtable
  locked : s'.memtableLocked = s.memtableLocked
  rootId : s'.btree.rootId = s.btree.rootId
  sstables : s'.sstables = s.sstables
  nextPageId : s'.nextPageId = s.nextPageId
  files : s'.disk.sstables = s.disk.sstables
  config : s'.config = s.config

theorem Represents.sameData {s' : Store C}
    (rep : Represents X s layers) (same : SameData s s') : Represents X s' layers where
  unlocked := same.locked.trans rep.unlocked
  noRoot := same.rootId.trans rep.noRoot
  tables := by rw [same.files, same.sstables]; exact rep.tables
  fresh := by rw [same.sstables, same.nextPageId]; exact rep.fresh

theorem sameData_onPageCache {α : Type} (call : Method (PageCache C) α) (s : Store C) :
    SameData s (onPageCache call s).2 := ⟨rfl, rfl, rfl, rfl, rfl, rfl, rfl⟩

theorem sameData_onWal {α : Type} (call : Method Wal α) (s : Store C) :
    SameData s (onWal call s).2 := by
  rw [onWal]
  cases s.wal with
  | none | some writer => exact ⟨rfl, rfl, rfl, rfl, rfl, rfl, rfl⟩

/-! ## Reads -/

theorem readMemtable_eq (unlocked : s.memtableLocked = false) :
    readMemtable s = (.ok s.memtable, s) := by
  simp [readMemtable, unlocked]

theorem lookup_contents (s : Store C) (layers : List (List Entry)) (key : Key) :
    (s.contents layers).lookup key =
      (s.memtable.getWithTombstone key).or (layers.reverse.flatten.lookup key) := by
  rw [contents, List.lookup_append, MemTable.lookup_iterWithTombstones]

theorem searchTables_eq (tables : List.Forall₂ (Holds X files) ssts layers) (key : Key) :
    searchTables X files key ssts = .ok (layers.flatten.lookup key) := by
  induction tables with
  | nil => rfl
  | @cons t es ssts layers holds tables ih =>
    rw [searchTables, SSTable.getWithTombstone_eq holds, List.flatten_cons, List.lookup_append]
    cases es.lookup key with
    | none => simpa using ih
    | some value => rfl

theorem scanTables_eq (tables : List.Forall₂ (Holds X files) ssts layers)
    (start stop : Key) (m : Merge Key Value) :
    scanTables X files start stop ssts m =
      .ok (m.run (layers.flatten.filter (inRange start stop))) := by
  induction tables generalizing m with
  | nil => rfl
  | cons holds tables ih =>
    rw [scanTables, SSTable.scanWithTombstones_eq holds]
    simp only
    rw [ih, List.flatten_cons, List.filter_append, Merge.run, Merge.run, Merge.run,
      List.foldl_append]

section Reads

variable [BoundedCache C PageId Page]

/-- **A point read answers from the entries of the store.** -/
theorem get_eq {X : Extern} {s : Store C} {layers : List (List Entry)} (rep : Represents X s layers)
    (key : Key) : get X key s = (.ok (answer (s.contents layers) key), s) := by
  rw [get, Exec.bind_of_ok (readMemtable_eq rep.unlocked), answer, lookup_contents]
  cases s.memtable.getWithTombstone key with
  | some value => rfl
  | none =>
    simp only [Exec.get_bind, searchTables_eq (List.rel_reverse rep.tables), Option.none_or]
    cases layers.reverse.flatten.lookup key with
    | some value => rfl
    | none =>
      rw [Exec.bind_of_ok (Exec.lift_apply _ s)]
      simp [onTree, BTree.get, BTree.getRoot, rep.noRoot]

/-- **A range read is the live entries of the store in the range, sorted.** -/
theorem scan_eq {X : Extern} {s : Store C} {layers : List (List Entry)}
    (rep : Represents X s layers) (start stop : Key) :
    scan X start stop s =
      (.ok (live ((s.contents layers).filter (inRange start stop))), s) := by
  have inMemory : (s.memtable.iterWithTombstones.filter fun e => ¬ (e.1 < start ∨ stop ≤ e.1)) =
      s.memtable.iterWithTombstones.filter (inRange start stop) := by
    refine List.filter_congr fun e _ => ?_
    simp [inRange]
  have inTree : onTree (BTree.scan start stop) s = (.ok [], s) := by
    simp [onTree, BTree.scan, BTree.getRoot, rep.noRoot]
  rw [scan, Exec.bind_of_ok (readMemtable_eq rep.unlocked)]
  simp only [Exec.get_bind, scanTables_eq (List.rel_reverse rep.tables)]
  rw [Exec.bind_of_ok (Exec.lift_apply _ s), Exec.bind_of_ok inTree, inMemory, live, contents,
    List.filter_append]
  simp only [Exec.pure_apply, List.map_nil, Merge.run, List.foldl_append, List.foldl_nil]

end Reads

theorem lookup_inRange (es : List Entry) (start stop key : Key) :
    (es.filter (inRange start stop)).lookup key =
      if start ≤ key ∧ key < stop then es.lookup key else none := by
  have restricted : (es.filter (inRange start stop)).lookup key =
      if decide (start ≤ key ∧ key < stop) = true then es.lookup key else none :=
    lookup_filter_key (fun k => decide (start ≤ k ∧ k < stop)) es key
  simpa using restricted

/-- The pairs a range read returns are the point reads of the keys in the range. -/
theorem mem_live_inRange {es : List Entry} {start stop key : Key} {value : Value} :
    (key, value) ∈ live (es.filter (inRange start stop)) ↔
      start ≤ key ∧ key < stop ∧ answer es key = some value := by
  rw [mem_live, answer, Option.join_eq_some_iff, lookup_inRange]
  by_cases inside : start ≤ key ∧ key < stop
  · simp [inside]
  · rw [if_neg inside]
    simpa using fun above below => absurd ⟨above, below⟩ inside

/-! ## The memtable -/

theorem withMemtable_eq {α : Type} {body : Method (Store C) α} {s'' : Store C}
    {outcome : Result α} (s' : Store C) (unlocked : s.memtableLocked = false) (returns : outcome.Returns)
    (ran : body { s with memtableLocked := true } = (outcome, s'))
    (done : { s' with memtableLocked := false } = s'') : withMemtable body s = (outcome, s'') := by
  rw [withMemtable, if_neg (by simp [unlocked]), ran, ← done]
  cases outcome with
  | hang => exact returns.elim
  | _ => rfl

theorem deleteMemtable_eq (unlocked : s.memtableLocked = false) (key : Key) :
    deleteMemtable key s = (.ok true, { s with memtable := s.memtable.delete key }) := by
  refine withMemtable_eq
    { s with memtable := s.memtable.delete key, memtableLocked := true } unlocked trivial ?_ ?_
  · rfl
  · rw [← unlocked]

/-- A `set` that leaves the memtable below its limit. -/
theorem setMemtable_eq (X : Extern) (unlocked : s.memtableLocked = false)
    {key : Key} {value : Value} (room : (s.memtable.insert key value).size < s.config.memtableSize) :
    setMemtable X key value s = (.ok (), { s with memtable := s.memtable.insert key value }) := by
  refine withMemtable_eq
    { s with memtable := s.memtable.insert key value, memtableLocked := true } unlocked trivial ?_ ?_
  · simp only [Exec.modify_bind, Exec.get_bind, if_neg (not_le.mpr room)]
    rfl
  · rw [← unlocked]

/-- A `set` that fills the memtable waits for a lock it holds itself. -/
theorem setMemtable_fills (X : Extern) (unlocked : s.memtableLocked = false)
    {key : Key} {value : Value} (full : s.config.memtableSize ≤ (s.memtable.insert key value).size) :
    setMemtable X key value s =
      (.hang, { s with memtable := s.memtable.insert key value, memtableLocked := true }) := by
  rw [setMemtable, withMemtable, if_neg (by simp [unlocked])]
  simp only [Exec.modify_bind, Exec.get_bind, if_pos full, flushMemtable, withMemtable, if_true]

/-! ## Writing a table -/

/-- Tables whose files are untouched keep their entries. -/
theorem tables_frame {files' : SstFiles} (tables : List.Forall₂ (Holds X files) ssts layers)
    (same : ∀ t ∈ ssts, files' t.path = files t.path) : List.Forall₂ (Holds X files') ssts layers := by
  induction tables with
  | nil => exact .nil
  | cons holds tables ih =>
    exact .cons (holds.frame (same _ (.head _)))
      (ih fun t member => same t (.tail _ member))

/-- The store after a table has been written under the next number, or has failed
to be. -/
def wrote (s : Store C) (files : SstFiles) : Store C :=
  { s with nextPageId := s.nextPageId + 1, disk := { s.disk with sstables := files } }

/-- Writing under the next number leaves the tables there are. -/
theorem Represents.wrote (rep : Represents X s layers) (level : Nat) (entries : List Entry) :
    Represents X (s.wrote (SSTable.createWithTombstones X s.nextPageId level entries
      s.disk.sstables).2) layers where
  unlocked := rep.unlocked
  noRoot := rep.noRoot
  fresh t member := Nat.lt_succ_of_lt (rep.fresh t member)
  tables := by
    refine tables_frame rep.tables fun t member => ?_
    refine SSTable.createWithTombstones_frame X s.nextPageId level entries _ fun same => ?_
    have below := rep.fresh t member
    rw [same] at below
    exact lt_irrefl _ below

/-! ## Flushing -/

theorem flushMemtable_empty (X : Extern) (unlocked : s.memtableLocked = false)
    (empty : s.memtable.isEmpty = true ∨ s.memtable.iterWithTombstones = []) :
    flushMemtable X s = (.ok (), s) := by
  refine withMemtable_eq { s with memtableLocked := true } unlocked trivial ?_ (by rw [← unlocked])
  rcases empty with empty | empty <;> simp [empty]

theorem flushMemtable_nonempty (X : Extern) (unlocked : s.memtableLocked = false)
    (some : s.memtable.isEmpty = false) (someEntries : s.memtable.iterWithTombstones ≠ [])
    {outcome : Result SSTable}
    (created : SSTable.createWithTombstones X s.nextPageId 0 s.memtable.iterWithTombstones
      s.disk.sstables = (outcome, files)) (returns : outcome.Returns) :
    (flushMemtable X s).2 = outcome.elim
      (fun t => { s.wrote files with sstables := s.sstables ++ [t], memtable := MemTable.new })
      (s.wrote files) := by
  have shape : flushMemtable X s =
      (outcome >>= fun _ => .ok (), outcome.elim
        (fun t => { s.wrote files with sstables := s.sstables ++ [t], memtable := MemTable.new })
        (s.wrote files)) := by
    refine withMemtable_eq { (outcome.elim
        (fun t => { s.wrote files with sstables := s.sstables ++ [t], memtable := MemTable.new })
        (s.wrote files)) with memtableLocked := true } unlocked (returns.bind fun _ => trivial) ?_ ?_
    · cases outcome <;>
        simp [some, someEntries, nextId, Exec.bind_apply, onSstables, created, Store.wrote,
          Outcome.elim]
    · cases outcome <;> simp [Store.wrote, ← unlocked, Outcome.elim]
  rw [shape]

/-- **Everything a flush of the memtable can do to the entries.** Either it leaves
them where they are, or the memtable's entries are a new layer: all of them, unless
they make more blocks than a table can count. -/
theorem flushMemtable_cases (laws : X.SnappyLaws) (rep : Represents X s layers) :
    let s' := (flushMemtable X s).2
    (s'.memtable = s.memtable ∧ Represents X s' layers) ∨
    (s'.memtable = MemTable.new ∧ ∃ es, Represents X s' (layers ++ [es]) ∧
      es.Sublist s.memtable.iterWithTombstones ∧
      (blockCount s.memtable.iterWithTombstones < 2 ^ 32 → es = s.memtable.iterWithTombstones)) := by
  intro s'
  by_cases empty : s.memtable.isEmpty = true ∨ s.memtable.iterWithTombstones = []
  · have nothing : s' = s := congrArg Prod.snd (flushMemtable_empty X rep.unlocked empty)
    exact .inl ⟨by rw [nothing], by rw [nothing]; exact rep⟩
  · rw [not_or, Bool.not_eq_true] at empty
    have kept := rep.wrote 0 s.memtable.iterWithTombstones
    have returns := SSTable.returns_createWithTombstones X s.nextPageId 0
      s.memtable.iterWithTombstones s.disk.sstables
    rcases created : SSTable.createWithTombstones X s.nextPageId 0 s.memtable.iterWithTombstones
      s.disk.sstables with ⟨outcome, files⟩
    rw [created] at kept returns
    have after : s' = _ := flushMemtable_nonempty X rep.unlocked empty.1 empty.2 created returns
    cases outcome with
    | ok t =>
      obtain ⟨es, holds, sub, all⟩ := SSTable.createWithTombstones_spec laws
        (MemTable.sortedKeys_iterWithTombstones s.memtable) created
      refine .inr ⟨by rw [after]; rfl, es, ?_, sub, all.mpr⟩
      rw [after]
      refine ⟨kept.unlocked, kept.noRoot, ?_, fun t' member => ?_⟩
      · exact List.rel_append kept.tables (.cons holds .nil)
      · rcases List.mem_append.mp member with old | new
        · exact kept.fresh t' old
        · rw [List.mem_singleton.mp new, SSTable.createWithTombstones_path created]
          exact Nat.lt_succ_self _
    | hang => exact returns.elim
    | _ => exact .inl ⟨by rw [after]; rfl, by rw [after]; exact kept⟩

/-! ## Compaction -/

/-- The merge state that says what the entries visited so far say. -/
structure Compaction.Decides (c : Compaction) (es : List Entry) : Prop where
  merged : ∀ key, c.merged[key]? = answer es key
  dead : ∀ key, key ∈ c.tombstones ↔ es.lookup key = some none

theorem Compaction.decides_nil : Compaction.Decides {} [] :=
  ⟨fun key => by simp [answer], fun key => by simp⟩

theorem Compaction.Decides.visit {c : Compaction} {es : List Entry} (decided : c.Decides es)
    (e : Entry) : (c.visit e).Decides (es ++ [e]) := by
  obtain ⟨key, value⟩ := e
  have known : (c.merged.contains key || c.tombstones.contains key) = (es.lookup key).isSome := by
    rw [Std.TreeMap.contains_eq_isSome_getElem?, decided.merged, answer]
    have dead := decided.dead key
    rcases found : es.lookup key with _ | _ | v <;> rw [found] at dead <;> simp [dead]
  rw [Compaction.visit, known]
  cases found : es.lookup key with
  | some d =>
    have same := lookup_snoc_of_known (Option.isSome_iff_exists.mpr ⟨d, found⟩) value
    exact ⟨fun k => by rw [answer, same]; exact decided.merged k,
      fun k => by rw [same]; exact decided.dead k⟩
  | none =>
    have split := lookup_snoc_of_fresh found value
    simp only [Option.isSome_none, Bool.false_eq_true, if_false]
    cases value with
    | some v =>
      refine ⟨fun k => ?_, fun k => ?_⟩
      · rw [answer, split, Std.TreeMap.getElem?_insert, decided.merged]
        by_cases here : k = key
        · simp [here]
        · simp [here, Ne.symm here, answer]
      · rw [split, decided.dead]
        by_cases here : k = key <;> simp [here, found]
    | none =>
      refine ⟨fun k => ?_, fun k => ?_⟩
      · rw [answer, split, decided.merged]
        by_cases here : k = key <;> simp [here, found, answer]
      · rw [split, List.mem_cons, decided.dead]
        by_cases here : k = key <;> simp [here]

theorem Compaction.Decides.foldl {c : Compaction} {es : List Entry} (decided : c.Decides es)
    (more : List Entry) : (more.foldl Compaction.visit c).Decides (es ++ more) := by
  induction more generalizing c es with
  | nil => simpa using decided
  | cons e more ih =>
    have := ih (decided.visit e)
    rwa [List.append_assoc] at this

theorem mergeLoop_eq (tables : List.Forall₂ (Holds X files) ssts layers)
    (c : Compaction) :
    mergeLoop X files ssts c =
      .ok ((layers.flatten.filter (inRange [] compactionStop)).foldl Compaction.visit c) := by
  induction tables generalizing c with
  | nil => rfl
  | cons holds tables ih =>
    rw [mergeLoop, SSTable.scanWithTombstones_eq holds, Outcome.ok_bind, ih, List.flatten_cons,
      List.filter_append, List.foldl_append]

/-- What a compaction reads: the entries of the tables below the stop, newest first. -/
def compactionInput (X : Extern) (s : Store C) : List Entry :=
  s.sstables.reverse.flatMap fun t =>
    (SSTable.scanWithTombstones X s.disk.sstables t [] compactionStop).elim id []

/-- What a compaction of these entries writes: the live ones. -/
def compacted (es : List Entry) : List Entry := (live es).map fun e => (e.1, some e.2)

theorem sortedKeys_compacted (es : List Entry) : SortedKeys (compacted es) := by
  rw [compacted, SortedKeys, List.pairwise_map]
  exact sortedKeys_live es

theorem flatMap_scan (tables : List.Forall₂ (Holds X files) ssts layers)
    (start stop : Key) :
    (ssts.flatMap fun t => (SSTable.scanWithTombstones X files t start stop).elim id []) =
      layers.flatten.filter (inRange start stop) := by
  induction tables with
  | nil => rfl
  | cons holds tables ih =>
    rw [List.flatMap_cons, ih, SSTable.scanWithTombstones_eq holds, List.flatten_cons,
      List.filter_append]
    rfl

theorem compactionInput_eq (rep : Represents X s layers) :
    compactionInput X s = layers.reverse.flatten.filter (inRange [] compactionStop) :=
  flatMap_scan (List.rel_reverse rep.tables) [] compactionStop

/-- **The merge of a compaction** ends in the live entries below the stop. -/
theorem mergeLoop_toList (tables : List.Forall₂ (Holds X files) ssts layers) :
    ∃ c, mergeLoop X files ssts.reverse {} = .ok c ∧
      (c.merged.toList.map fun (k, v) => (k, some v)) =
        compacted (layers.reverse.flatten.filter (inRange [] compactionStop)) := by
  refine ⟨_, mergeLoop_eq (List.rel_reverse tables) {}, ?_⟩
  have decided := Compaction.decides_nil.foldl
    (layers.reverse.flatten.filter (inRange [] compactionStop))
  rw [compacted, ← eq_live (sortedKeys_toList _) fun k => ?_]
  rw [lookup_toList, decided.merged, List.nil_append]

theorem removeFiles_frame {path : SstPath}
    (other : ∀ t ∈ ssts, t.path ≠ path) : removeFiles files ssts path = files path := by
  induction ssts generalizing files with
  | nil => rfl
  | cons t ssts ih =>
    obtain ⟨here, later⟩ := List.forall_mem_cons.mp other
    rw [removeFiles, List.foldl_cons]
    exact (ih later).trans (Function.update_of_ne here.symm _ _)

theorem compact_many (X : Extern) (many : ¬ s.sstables.length < 4) {c : Compaction}
    (merged : mergeLoop X s.disk.sstables s.sstables.reverse {} = .ok c)
    {outcome : Result SSTable}
    (created : SSTable.create X s.nextPageId 1 c.merged.toList s.disk.sstables = (outcome, files)) :
    (compact X s).2 = outcome.elim
      (fun t => { s.wrote (removeFiles files s.sstables) with sstables := [t] }) (s.wrote files) := by
  simp only [compact, Exec.get_bind, if_neg many, merged, nextId]
  cases outcome <;> simp [Exec.bind_apply, onSstables, created, Store.wrote, Outcome.elim]

/-- **Everything a compaction can do to the entries.** Either it leaves them where
they are, or their live part below the stop is the only layer: all of it, unless it
makes more blocks than a table can count. -/
theorem compact_cases (laws : X.SnappyLaws) (rep : Represents X s layers) :
    let s' := (compact X s).2
    s'.memtable = s.memtable ∧
    (Represents X s' layers ∨
      (4 ≤ s.sstables.length ∧ ∃ es, Represents X s' [es] ∧
        es.Sublist (compacted (compactionInput X s)) ∧
        (blockCount (compacted (compactionInput X s)) < 2 ^ 32 →
          es = compacted (compactionInput X s)))) := by
  intro s'
  by_cases few : s.sstables.length < 4
  · have nothing : s' = s := by
      show (compact X s).2 = s
      simp only [compact, Exec.get_bind, if_pos few, Exec.pure_apply]
    rw [nothing]
    exact ⟨rfl, .inl rep⟩
  · obtain ⟨c, merged, written⟩ := mergeLoop_toList rep.tables
    rw [← compactionInput_eq rep] at written
    have kept := rep.wrote 1 (compacted (compactionInput X s))
    rcases created : SSTable.createWithTombstones X s.nextPageId 1 (compacted (compactionInput X s))
      s.disk.sstables with ⟨outcome, files⟩
    rw [created] at kept
    have after : s' = _ := compact_many X few merged (by rw [SSTable.create, written, created])
    cases outcome with
    | ok t =>
      obtain ⟨es, holds, sub, all⟩ := SSTable.createWithTombstones_spec laws
        (sortedKeys_compacted _) created
      have path := SSTable.createWithTombstones_path created
      rw [after]
      refine ⟨rfl, .inr ⟨not_lt.mp few, es, ⟨rep.unlocked, rep.noRoot, ?_, ?_⟩, sub, all.mpr⟩⟩
      · refine .cons (holds.frame (removeFiles_frame fun t' member same => ?_)) .nil
        have below := rep.fresh t' member
        rw [same, path] at below
        exact lt_irrefl _ below
      · intro t' member
        rw [List.mem_singleton.mp member, path]
        exact Nat.lt_succ_self _
    | _ => exact ⟨by rw [after]; rfl, .inl (by rw [after]; exact kept)⟩

end Store

end NovaRuntime.Storage
