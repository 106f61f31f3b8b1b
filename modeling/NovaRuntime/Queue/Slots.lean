/-
# NovaRuntime.Queue.Slots — where the backend keeps what

Every entry of a message stands in one of five slots: its data and the four index
entries. `slotKey` is the key of a slot; keys of different slots, queues or
identifiers differ (`slotKey_inj`), because the text of an identifier has no colon.

A scan for a queue finds the slots of the queue itself and of every queue whose name
goes on with a colon (`Covers`, `mem_scanEntries`). The identifier read off the key of
a slot is the one it was made with, if it is one at all (`messageId_slotKey`).
-/
import NovaRuntime.Queue.Backend

namespace NovaRuntime.Queue

open NovaRuntime.Library

set_option autoImplicit false

/-! ## Slots and their keys -/

inductive Slot where
  | message
  | available
  | inflight
  | delayed
  | dlq
  deriving DecidableEq

namespace Slot

def label : Slot → Text
  | .message => msgLabel
  | .available => availableLabel
  | .inflight => inflightLabel
  | .delayed => delayedLabel
  | .dlq => dlqLabel

/-- The part of the label between its colons. -/
def word : Slot → Text
  | .message => "msg".toList
  | .available => "available".toList
  | .inflight => "inflight".toList
  | .delayed => "delayed".toList
  | .dlq => "dlq".toList

theorem label_eq (s : Slot) : s.label = "queue".toList ++ ':' :: (s.word ++ [':']) := by
  cases s <;> decide

theorem colon_not_mem_word (s : Slot) : ':' ∉ s.word := by cases s <;> decide

theorem word_inj {s s' : Slot} (same : s.word = s'.word) : s = s' := by
  revert same
  cases s <;> cases s' <;> decide

end Slot

def slotKey (U : UuidText) (s : Slot) : Text → Uuid → Bytes := entryKey U s.label

theorem queueMsgKey_eq (U : UuidText) : queueMsgKey U = slotKey U .message := rfl
theorem queueAvailableKey_eq (U : UuidText) : queueAvailableKey U = slotKey U .available := rfl
theorem queueInflightKey_eq (U : UuidText) : queueInflightKey U = slotKey U .inflight := rfl

theorem slotKey_eq (U : UuidText) (s : Slot) (n : Text) (i : Uuid) :
    slotKey U s n i =
      utf8 ("queue".toList ++ ':' :: (s.word ++ ':' :: (n ++ ':' :: U.display i))) := by
  rw [slotKey, entryKey, Slot.label_eq]
  simp

theorem colon_not_mem_queue : ':' ∉ "queue".toList := by decide

variable {s : Slot} {n : Text} {i : Uuid} {U : UuidText}

/-- **Keys of different slots differ.** -/
theorem slotKey_inj (laws : U.Laws) {s' : Slot} {n' : Text} {i' : Uuid} :
    slotKey U s n i = slotKey U s' n' i' ↔ s = s' ∧ n = n' ∧ i = i' := by
  rw [slotKey_eq, slotKey_eq, utf8_injective.eq_iff,
    append_sep_inj_left colon_not_mem_queue colon_not_mem_queue,
    append_sep_inj_left (Slot.colon_not_mem_word s) (Slot.colon_not_mem_word s'),
    append_sep_inj_right (laws.no_colon i) (laws.no_colon i')]
  constructor
  · rintro ⟨-, words, names, ids⟩
    exact ⟨Slot.word_inj words, names, laws.display_injective ids⟩
  · rintro ⟨rfl, rfl, rfl⟩
    exact ⟨rfl, rfl, rfl, rfl⟩

/-- No slot has the word of another label. -/
theorem slotKey_ne_labelled (U : UuidText) (s : Slot) (n : Text) (i : Uuid) (word name : Text) {label : Text}
    (isLabel : label = "queue".toList ++ ':' :: (word ++ [':'])) (plain : ':' ∉ word) (other : s.word ≠ word) :
    slotKey U s n i ≠ utf8 (label ++ name) := by
  rw [slotKey_eq, isLabel, ne_eq, utf8_injective.eq_iff, List.append_assoc, List.cons_append, List.append_assoc,
    append_sep_inj_left colon_not_mem_queue colon_not_mem_queue]
  rintro ⟨-, same⟩
  rw [List.singleton_append, append_sep_inj_left (Slot.colon_not_mem_word s) plain] at same
  exact other same.1

theorem slotKey_ne_meta (U : UuidText) (s : Slot) (n : Text) (i : Uuid) (name : Text) :
    slotKey U s n i ≠ queueMetaKey name :=
  slotKey_ne_labelled U s n i "meta".toList name (by decide) (by decide) (by cases s <;> decide)

theorem slotKey_ne_stats (U : UuidText) (s : Slot) (n : Text) (i : Uuid) (name : Text) :
    slotKey U s n i ≠ queueStatsKey name :=
  slotKey_ne_labelled U s n i "stats".toList name (by decide) (by decide) (by cases s <;> decide)

/-! ## Scans -/

/-- The queue's scans also find the entries of `other`. -/
def Covers (name other : Text) : Prop := other = name ∨ ∃ rest, other = name ++ ':' :: rest

instance (name other : Text) : Decidable (Covers name other) :=
  decidable_of_iff (other = name ∨ name ++ [':'] <+: other) <| by
    refine or_congr_right ⟨?_, ?_⟩
    · rintro ⟨rest, rfl⟩
      exact ⟨rest, by simp⟩
    · rintro ⟨rest, rfl⟩
      exact ⟨rest, by simp⟩

theorem Covers.refl (name : Text) : Covers name name := .inl rfl

theorem prefix_iff_covers {name other tail : Text} (noColon : ':' ∉ tail) :
    name ++ [':'] <+: other ++ ':' :: tail ↔ Covers name other := by
  constructor
  · rintro ⟨rest, same⟩
    rw [List.append_assoc, List.singleton_append, List.append_eq_append_iff] at same
    rcases same with ⟨extra, rfl, same⟩ | ⟨extra, rfl, same⟩
    · cases extra with
      | nil => exact .inl (List.append_nil _)
      | cons c extra => exact .inr ⟨extra, by rw [(List.cons.inj same).1]⟩
    · cases extra with
      | nil => exact .inl (List.append_nil _).symm
      | cons c extra =>
        refine absurd ?_ noColon
        rw [(List.cons.inj same).2]
        exact List.mem_append_right _ (.head _)
  · rintro (rfl | ⟨rest, rfl⟩)
    · exact ⟨tail, by simp⟩
    · exact ⟨rest ++ ':' :: tail, by simp⟩

/-- A slot is in the scanned range exactly when the scanned queue covers its queue. -/
theorem slotKey_mem_range (laws : U.Laws) {s' : Slot} {name : Text} :
    (¬ slotKey U s' n i < entryStart s.label name ∧
      slotKey U s' n i < entryStart s.label name ++ [0xFF]) ↔ s' = s ∧ Covers name n := by
  rw [slotKey_eq, mem_prefixRange (ff_not_mem_utf8 _), entryStart, utf8_prefix_iff, Slot.label_eq,
    List.append_assoc, List.cons_append, List.append_assoc, List.singleton_append]
  constructor
  · rintro ⟨rest, same⟩
    rw [List.append_assoc, List.cons_append, List.append_assoc, List.cons_append,
      append_sep_inj_left colon_not_mem_queue colon_not_mem_queue,
      append_sep_inj_left (Slot.colon_not_mem_word s) (Slot.colon_not_mem_word s')] at same
    obtain ⟨-, words, tails⟩ := same
    exact ⟨(Slot.word_inj words).symm, (prefix_iff_covers (laws.no_colon i)).mp ⟨rest, tails⟩⟩
  · rintro ⟨rfl, covers⟩
    obtain ⟨rest, same⟩ := (prefix_iff_covers (laws.no_colon i)).mpr covers
    exact ⟨rest, by rw [← same]; simp⟩

/-- No configuration is in a scanned range. -/
theorem metaKey_not_mem_range (s : Slot) (name other : Text) :
    ¬ (¬ queueMetaKey other < entryStart s.label name ∧
      queueMetaKey other < entryStart s.label name ++ [0xFF]) := by
  have label : metaLabel = "queue".toList ++ ':' :: ("meta".toList ++ [':']) := by decide
  rw [queueMetaKey, mem_prefixRange (ff_not_mem_utf8 _), entryStart, utf8_prefix_iff,
    Slot.label_eq, label]
  rintro ⟨rest, same⟩
  simp only [List.append_assoc, List.cons_append, List.nil_append] at same
  rw [append_sep_inj_left colon_not_mem_queue colon_not_mem_queue,
    append_sep_inj_left (Slot.colon_not_mem_word s) (by decide)] at same
  replace same := same.2.1
  revert same
  cases s <;> decide

/-- The entries a scan finds. -/
def entriesOf (s : Slot) (name : Text) (kv : KeyValue Stored) : List (Bytes × Stored) :=
  kv.range (entryStart s.label name) (entryStart s.label name ++ [0xFF])

theorem scanEntries_apply (s : Slot) (name : Text) (kv : KeyValue Stored) :
    scanEntries s.label name kv = (.ok (entriesOf s name kv), kv) := rfl

theorem slotKey_mem_entriesOf (laws : U.Laws) {s' : Slot} {name : Text}
    {v : Stored} {kv : KeyValue Stored} :
    (slotKey U s' n i, v) ∈ entriesOf s name kv ↔
      kv[slotKey U s' n i]? = some v ∧ s' = s ∧ Covers name n := by
  rw [entriesOf, KeyValue.mem_range, slotKey_mem_range laws]

/-! ## Identifiers read off keys -/

/-- What stands behind the third colon is parsed. -/
theorem messageId_utf8 (U : UuidText) {a b c rest : Text} (noColonA : ':' ∉ a) (noColonB : ':' ∉ b)
    (noColonC : ':' ∉ c) :
    messageId U (utf8 (a ++ ':' :: (b ++ ':' :: (c ++ ':' :: rest)))) = U.parseStr (utf8 rest) := by
  have colon : String.utf8EncodeChar ':' = [0x3A] := by decide
  have split : ∀ (t u : Text), ':' ∉ t →
      (utf8 (t ++ ':' :: u)).splitOn 0x3A = utf8 t :: (utf8 u).splitOn 0x3A := by
    intro t u absent
    rw [utf8_append, utf8_cons, colon, List.singleton_append,
      List.splitOn_append_cons_self_of_not_mem (colon_mem_utf8 absent)]
  rw [messageId, split _ _ noColonA, split _ _ noColonB, split _ _ noColonC]
  have parts : ((utf8 rest).splitOn 0x3A).length ≠ 0 := fun empty =>
    List.splitOn_ne_nil _ _ (List.length_eq_zero_iff.mp empty)
  simp only [List.length_cons, List.drop_succ_cons, List.drop_zero, List.intercalate_splitOn]
  rw [if_neg (by omega)]

/-- What is parsed of a slot's key is the same for every slot. -/
theorem messageId_slotKey_eq (U : UuidText) (n : Text) (i : Uuid) :
    ∃ back, (':' ∉ n ∧ back = U.display i ∨ ∃ front, back = front ++ ':' :: U.display i) ∧
      ∀ s, messageId U (slotKey U s n i) = U.parseStr (utf8 back) := by
  by_cases simple : ':' ∈ n
  · -- a name with a colon leaves its rest before the identifier
    obtain ⟨front, back, rfl, first⟩ := List.eq_append_cons_of_mem simple
    refine ⟨back ++ ':' :: U.display i, .inr ⟨back, rfl⟩, fun s => ?_⟩
    rw [slotKey_eq, List.append_assoc, List.cons_append, messageId_utf8 U colon_not_mem_queue
      (Slot.colon_not_mem_word s) first]
  · refine ⟨U.display i, .inl ⟨simple, rfl⟩, fun s => ?_⟩
    rw [slotKey_eq, messageId_utf8 U colon_not_mem_queue (Slot.colon_not_mem_word s) simple]

/-- The identifier read off a slot's key is the slot's, if there is one. -/
theorem messageId_slotKey (laws : U.Laws) {i' : Uuid}
    (read : messageId U (slotKey U s n i) = some i') : i' = i := by
  obtain ⟨back, form, same⟩ := messageId_slotKey_eq U n i
  rw [same] at read
  rcases form with ⟨-, rfl⟩ | ⟨front, rfl⟩
  · rw [laws.parse_display] at read
    exact (Option.some.inj read).symm
  · exact laws.urn front i i' read

/-- Without a colon in the queue's name there is one. -/
theorem messageId_slotKey_of_simple (laws : U.Laws) (s : Slot)
    (simple : ':' ∉ n) (i : Uuid) : messageId U (slotKey U s n i) = some i := by
  rw [slotKey_eq, messageId_utf8 U colon_not_mem_queue (Slot.colon_not_mem_word s) simple,
    laws.parse_display]

/-! ## Reads after writes -/

theorem getElem?_insert_slot (laws : U.Laws) (kv : KeyValue Stored) (s : Slot)
    (n : Text) (i : Uuid) (v : Stored) (s' : Slot) (n' : Text) (i' : Uuid) :
    (kv.insert (slotKey U s n i) v)[slotKey U s' n' i']? =
      if s = s' ∧ n = n' ∧ i = i' then some v else kv[slotKey U s' n' i']? := by
  simp only [Std.TreeMap.getElem?_insert, byteCmp_eq, slotKey_inj laws]

theorem getElem?_erase_slot (laws : U.Laws) (kv : KeyValue Stored) (s : Slot)
    (n : Text) (i : Uuid) (s' : Slot) (n' : Text) (i' : Uuid) :
    (kv.erase (slotKey U s n i))[slotKey U s' n' i']? =
      if s = s' ∧ n = n' ∧ i = i' then none else kv[slotKey U s' n' i']? := by
  simp only [Std.TreeMap.getElem?_erase, byteCmp_eq, slotKey_inj laws]

theorem getElem?_insert_slot_meta (U : UuidText) (kv : KeyValue Stored) (s : Slot) (n : Text)
    (i : Uuid) (v : Stored) (name : Text) :
    (kv.insert (slotKey U s n i) v)[queueMetaKey name]? = kv[queueMetaKey name]? := by
  simp only [Std.TreeMap.getElem?_insert, byteCmp_eq, if_neg (slotKey_ne_meta U s n i name)]

theorem getElem?_erase_slot_meta (U : UuidText) (kv : KeyValue Stored) (s : Slot) (n : Text)
    (i : Uuid) (name : Text) :
    (kv.erase (slotKey U s n i))[queueMetaKey name]? = kv[queueMetaKey name]? := by
  simp only [Std.TreeMap.getElem?_erase, byteCmp_eq, if_neg (slotKey_ne_meta U s n i name)]

/-! ## Cells -/

/-- What is stored of one message in one queue, slot by slot. -/
abbrev Cell := Slot → Option Stored

def cell (U : UuidText) (kv : KeyValue Stored) (n : Text) (i : Uuid) : Cell :=
  fun s => kv[slotKey U s n i]?

theorem cell_insert (laws : U.Laws) (kv : KeyValue Stored) (s : Slot) (n : Text)
    (i : Uuid) (v : Stored) (n' : Text) (i' : Uuid) :
    cell U (kv.insert (slotKey U s n i) v) n' i' =
      if n' = n ∧ i' = i then Function.update (cell U kv n' i') s (some v) else cell U kv n' i' := by
  funext s'
  rw [cell, getElem?_insert_slot laws]
  by_cases here : n' = n ∧ i' = i
  · obtain ⟨rfl, rfl⟩ := here
    by_cases slot : s' = s
    · simp [slot]
    · simp [slot, Ne.symm slot, cell]
  · rw [if_neg here, if_neg fun same => here ⟨same.2.1.symm, same.2.2.symm⟩, cell]

theorem cell_erase (laws : U.Laws) (kv : KeyValue Stored) (s : Slot) (n : Text)
    (i : Uuid) (n' : Text) (i' : Uuid) :
    cell U (kv.erase (slotKey U s n i)) n' i' =
      if n' = n ∧ i' = i then Function.update (cell U kv n' i') s none else cell U kv n' i' := by
  funext s'
  rw [cell, getElem?_erase_slot laws]
  by_cases here : n' = n ∧ i' = i
  · obtain ⟨rfl, rfl⟩ := here
    by_cases slot : s' = s
    · simp [slot]
    · simp [slot, Ne.symm slot, cell]
  · rw [if_neg here, if_neg fun same => here ⟨same.2.1.symm, same.2.2.symm⟩, cell]

theorem cell_insert_meta (U : UuidText) (kv : KeyValue Stored) (name : Text) (v : Stored) :
    cell U (kv.insert (queueMetaKey name) v) = cell U kv := by
  funext n i s
  simp only [cell, Std.TreeMap.getElem?_insert, byteCmp_eq]
  rw [if_neg (slotKey_ne_meta U s n i name).symm]

theorem cell_erase_meta (U : UuidText) (kv : KeyValue Stored) (name : Text) :
    cell U (kv.erase (queueMetaKey name)) = cell U kv := by
  funext n i s
  simp only [cell, Std.TreeMap.getElem?_erase, byteCmp_eq]
  rw [if_neg (slotKey_ne_meta U s n i name).symm]

theorem cell_erase_stats (U : UuidText) (kv : KeyValue Stored) (name : Text) :
    cell U (kv.erase (queueStatsKey name)) = cell U kv := by
  funext n i s
  simp only [cell, Std.TreeMap.getElem?_erase, byteCmp_eq]
  rw [if_neg (slotKey_ne_stats U s n i name).symm]

theorem cell_runDeletes (U : UuidText) (kv : KeyValue Stored) (keys : List Bytes) (n : Text)
    (i : Uuid) (s : Slot) :
    cell U (KeyValue.runBatch (keys.map fun key => (key, none)) kv) n i s =
      if slotKey U s n i ∈ keys then none else cell U kv n i s :=
  KeyValue.getElem?_runDeletes keys kv _

/-! ## What stands under a key -/

/-- The keys the backend writes, each with what it may hold. -/
inductive Placed (U : UuidText) : Bytes → Stored → Prop where
  | config (config : IndividualQueueConfig) :
      Placed U (queueMetaKey config.name) (.config config)
  | message (m : QueueMessage) : Placed U (slotKey U .message m.queueName m.id) (.message m)
  | index {s : Slot} (isIndex : s ≠ .message) (n : Text) (i : Uuid) : Placed U (slotKey U s n i) .empty

/-- Every entry of the store is one the backend writes. -/
def WellKeyed (U : UuidText) (kv : KeyValue Stored) : Prop :=
  ∀ key v, kv[key]? = some v → Placed U key v

namespace WellKeyed

variable {U : UuidText} {kv : KeyValue Stored}

theorem empty (U : UuidText) : WellKeyed U ∅ := by
  intro key v found
  simp at found

section

variable (keyed : WellKeyed U kv)

include keyed

theorem insert {key : Bytes} {v : Stored} (placed : Placed U key v) : WellKeyed U (kv.insert key v) := by
  intro key' v' found
  simp only [Std.TreeMap.getElem?_insert, byteCmp_eq] at found
  split at found
  · rename_i same
    rw [← same, ← Option.some.inj found]
    exact placed
  · exact keyed key' v' found

theorem erase (key : Bytes) : WellKeyed U (kv.erase key) := by
  intro key' v' found
  simp only [Std.TreeMap.getElem?_erase, byteCmp_eq] at found
  split at found
  · cases found
  · exact keyed key' v' found

theorem runDeletes (keys : List Bytes) : WellKeyed U (KeyValue.runBatch (keys.map fun key => (key, none)) kv) := by
  intro key v found
  rw [KeyValue.getElem?_runDeletes] at found
  split at found
  · cases found
  · exact keyed key v found

/-- What stands in the data slot is the message, under its own queue and identifier. -/
theorem message (laws : U.Laws) {n : Text} {i : Uuid} {v : Stored} (found : kv[slotKey U .message n i]? = some v) :
    ∃ m, v = .message m ∧ m.queueName = n ∧ m.id = i := by
  generalize same : slotKey U .message n i = key at found
  cases keyed key v found with
  | config config => exact absurd same (slotKey_ne_meta U _ n i _)
  | message m =>
    obtain ⟨-, name, id⟩ := (slotKey_inj laws).mp same
    exact ⟨m, rfl, name.symm, id.symm⟩
  | index isIndex n' i' => exact absurd ((slotKey_inj laws).mp same).1.symm isIndex

/-- What stands under a queue's own key is its configuration. -/
theorem config {name : Text} {v : Stored}
    (found : kv[queueMetaKey name]? = some v) : ∃ config, v = .config config ∧ config.name = name := by
  generalize same : queueMetaKey name = key at found
  cases keyed key v found with
  | config config => exact ⟨config, rfl, (List.append_cancel_left (utf8_injective same)).symm⟩
  | message m => exact absurd same.symm (slotKey_ne_meta U _ m.queueName m.id name)
  | index isIndex n' i' => exact absurd same.symm (slotKey_ne_meta U _ n' i' name)

/-- What a scan finds are slots of the queues it covers. -/
theorem entry (laws : U.Laws) {s : Slot} {name : Text} {e : Bytes × Stored} (member : e ∈ entriesOf s name kv) :
    ∃ n i, e.1 = slotKey U s n i ∧ Covers name n ∧ kv[slotKey U s n i]? = some e.2 := by
  obtain ⟨key, v⟩ := e
  have found := (KeyValue.mem_range.mp member).1
  cases keyed key v found with
  | config config =>
    exact absurd (KeyValue.mem_range.mp member).2 (metaKey_not_mem_range s name config.name)
  | message m =>
    obtain ⟨-, rfl, covers⟩ := (slotKey_mem_entriesOf laws).mp member
    exact ⟨m.queueName, m.id, rfl, covers, found⟩
  | index isIndex n' i' =>
    obtain ⟨-, rfl, covers⟩ := (slotKey_mem_entriesOf laws).mp member
    exact ⟨n', i', rfl, covers, found⟩

end

end WellKeyed

end NovaRuntime.Queue
